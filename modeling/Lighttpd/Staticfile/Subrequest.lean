import Lighttpd.Range.ParseRange
import Lighttpd.StatCache
import Lighttpd.Staticfile.Cachable

/-!
# `mod_staticfile.c`: `mod_staticfile_subrequest`

The answer to a request for a file: the checks, the headers, the conditional request, and the parts
or the whole of the file. What `stat_cache_get_entry` answers and the settings are parameters; log
messages are left out. The request is finished without an answer exactly if the date of the file is
compared with a part of it (`emptyHanded_iff`).
-/

namespace Lighttpd

open CLib

/-- `p->conf`, and of the connection `conf.follow_symlink` and `etag_flags`. -/
structure StaticfileConf where
  excludeExt : Arr DataString
  etagsUsed : Bool
  followSymlink : Bool
  etagFlags : Nat

/-- The answer of `stat_cache_get_entry`, and the C strings at the pointers in the request. -/
structure StaticfileInput where
  entry : Option StatCacheEntry
  conditions : Conditions
  httpRange : Option Bytes

section Subrequest

variable [Malloc]

/-- The last `len` bytes are compared, the second buffer's without a check of its length. -/
def bufferIsEqualRightLen (b1 b2 : Buffer) (len : Nat) : Bool :=
  if len = 0 then true
  else if b1.used = 0 ∨ b2.used = 0 then false
  else if b1.used - 1 < len then false
  else cstr ((b1.ptr.drop (b1.used - 1 - len)).take len) ==
    cstr ((b2.ptr.drop (b2.used - 1 - len)).take len)

/-- `(h << 5) ^ (h >> 27) ^ c` -/
def etagStep (h : UInt32) (c : UInt8) : UInt32 :=
  ((h <<< 5) ^^^ (h >>> 27)) ^^^ UInt32.ofInt (charVal c)

def etagMutate (mutated etag : Buffer) : Buffer :=
  let h := (etag.ptr.take (etag.used - 1)).foldl etagStep 0
  let mutated := bufferCopyStringLen (bufferReset mutated) (some (ascii "\""))
  bufferAppendStringLen (bufferAppendOffT mutated h.toNat) (some (ascii "\""))

variable (lib : TimeLib) (conf : StaticfileConf) (a : StaticfileInput)

/-- What is decided before the headers: an outcome, or the entry of the file. -/
def staticfileChecks (con : RespondingConnection) :
    Except (HandlerT × RespondingConnection) StatCacheEntry :=
  if con.httpStatus ≠ 0 ∨ con.uriPath.used = 0 ∨ con.physicalPath.used = 0 ∨ con.mode ≠ DIRECT then
    .error (.goOn, con)
  else if ¬ (con.request.httpMethod = .get ∨ con.request.httpMethod = .post ∨
      con.request.httpMethod = .head) then .error (.goOn, con)
  else if conf.excludeExt.elements.any fun ds => ds.value.used != 0 &&
      bufferIsEqualRightLen con.physicalPath ds.value (ds.value.used - 1) then .error (.goOn, con)
  else
    match a.entry with
    | none => .error (.finished, { con with httpStatus := 403 })
    | some sce =>
      if sce.isSymlink ∧ ¬ conf.followSymlink then
        .error (.finished,
          { con with httpStatus := 403, physicalPath := bufferReset con.physicalPath })
      else if ¬ S_ISREG sce.st.stMode then .error (.finished, { con with httpStatus := 404 })
      else .ok sce

def staticContentType (con : RespondingConnection) (sce : StatCacheEntry) :
    Option (RespondingConnection × Bool) := do
  match ← arrayGetElement con.response.headers (ascii "Content-Type") with
  | some _ => some (con, true)
  | none =>
    if bufferIsEmpty sce.contentType then
      let headers ← responseHeaderOverwrite con.response.headers (ascii "Content-Type")
        (some (ascii "application/octet-stream"))
      some (setHeaders con headers, false)
    else
      let headers ← responseHeaderOverwrite con.response.headers (ascii "Content-Type")
        sce.contentType.constBufLen
      some (setHeaders con headers, true)

def acceptRanges (con : RespondingConnection) : Option RespondingConnection :=
  if con.rangeRequests then do
    let headers ← responseHeaderOverwrite con.response.headers (ascii "Accept-Ranges")
      (some (ascii "bytes"))
    some (setHeaders con headers)
  else some con

def staticEtag (con : RespondingConnection) (sce : StatCacheEntry) : Option RespondingConnection :=
  if conf.etagsUsed ∧ conf.etagFlags ≠ 0 ∧ ¬ bufferIsEmpty sce.etag then do
    match ← arrayGetElement con.response.headers (ascii "ETag") with
    | some _ => some con
    | none =>
      let etag := etagMutate con.etag sce.etag
      let headers ← responseHeaderOverwrite con.response.headers (ascii "ETag") etag.constBufLen
      some { setHeaders con headers with etag := etag }
  else some con

/-- `Last-Modified`, and the buffer with it. -/
def staticLastModified (srv : Server) (con : RespondingConnection) (sce : StatCacheEntry) :
    Option (Server × RespondingConnection × Buffer) := do
  match ← arrayGetElement con.response.headers (ascii "Last-Modified") with
  | some (_, ds) => some (srv, con, ds.value)
  | none =>
    let (cache, mtime) ← strftimeCacheGet srv.mtimeCache sce.st.stMtime
    let headers ← responseHeaderOverwrite con.response.headers (ascii "Last-Modified")
      mtime.constBufLen
    some ({ srv with mtimeCache := cache }, setHeaders con headers, mtime)

/-- The headers; there is no `mtime` if the answer may not be cached. -/
def staticHeaders (srv : Server) (con : RespondingConnection) (sce : StatCacheEntry) :
    Option (Server × RespondingConnection × Option Buffer) := do
  let (con, allowCaching) ← staticContentType con sce
  let con ← acceptRanges con
  if allowCaching then
    let con ← staticEtag conf con sce
    let (srv, con, mtime) ← staticLastModified srv con sce
    some (srv, con, some mtime)
  else some (srv, con, none)

/-- The check of `If-Range`. -/
def doRangeRequest (con : RespondingConnection) (mtime : Option Buffer) : Option Bool := do
  match ← arrayGetElement con.request.headers (ascii "If-Range") with
  | none => some true
  | some (_, ds) =>
    if ds.value.ptr.head? = some 34 then some (bufferIsEqual ds.value con.etag)
    else some (mtime.any (bufferIsEqual ds.value))

/-- `http_chunk_append_file` -/
def RespondingConnection.appendFile (con : RespondingConnection) (fn : Buffer) (offset len : Int) :
    RespondingConnection :=
  let q := httpChunkAppendFile ⟨con.writeQueue, con.transferEncoding, con.tmpChunkLen⟩ fn offset len
  { con with writeQueue := q.writeQueue, tmpChunkLen := q.tmpChunkLen }

def askedRange (con : RespondingConnection) (mtime : Option Buffer) : Option (Option Bytes) :=
  match a.httpRange with
  | none => some none
  | some range =>
    if con.rangeRequests then
      (doRangeRequest con mtime).map fun asked => if asked then some range else none
    else some none

def staticBody (con : RespondingConnection) (mtime : Option Buffer) (sce : StatCacheEntry)
    (rangeBuf : Buffer) : Option (RespondingConnection × Buffer) := do
  match ← askedRange a con mtime with
  | some range =>
    let (ret, con, rangeBuf) ← ModStaticfile.httpResponseParseRange
      { con with fileFinished := true } sce.st.stSize range rangeBuf
    some (if ret = 0 then { con with httpStatus := 206 } else con, rangeBuf)
  | none =>
    let con := con.appendFile con.physicalPath 0 sce.st.stSize
    some ({ con with httpStatus := 200, fileFinished := true }, rangeBuf)

def staticAnswer (con : RespondingConnection) (mtime : Option Buffer) (sce : StatCacheEntry)
    (rangeBuf : Buffer) : Option (RespondingConnection × Buffer) :=
  match mtime with
  | none => staticBody a con none sce rangeBuf
  | some mtime =>
    match httpResponseHandleCachable lib con a.conditions mtime with
    | (.finished, con) => some (con, rangeBuf)
    | (_, con) => staticBody a con (some mtime) sce rangeBuf

/-- `rangeBuf` is `p->range_buf`. -/
def modStaticfileSubrequest (srv : Server) (con : RespondingConnection) (rangeBuf : Buffer) :
    Option (HandlerT × Server × RespondingConnection × Buffer) :=
  match staticfileChecks conf a con with
  | .error (r, con) => some (r, srv, con, rangeBuf)
  | .ok sce => do
    let (srv, con, mtime) ← staticHeaders conf srv con sce
    let (con, rangeBuf) ← staticAnswer lib a con mtime sce rangeBuf
    some (.finished, srv, con, rangeBuf)

/-! ## Requests that are finished without an answer -/

structure SameRequest (con con' : RespondingConnection) : Prop where
  httpStatus : con'.httpStatus = con.httpStatus
  writeQueue : con'.writeQueue = con.writeQueue
  fileFinished : con'.fileFinished = con.fileFinished

def OnlyHeaders (con con' : RespondingConnection) : Prop :=
  ∃ headers etag, con' = { setHeaders con headers with etag := etag }

omit [Malloc] in
theorem OnlyHeaders.refl (con : RespondingConnection) : OnlyHeaders con con := ⟨_, _, rfl⟩

omit [Malloc] in
theorem OnlyHeaders.trans {con con' con'' : RespondingConnection} (h : OnlyHeaders con con')
    (h' : OnlyHeaders con' con'') : OnlyHeaders con con'' := by
  obtain ⟨headers, etag, rfl⟩ := h
  obtain ⟨headers', etag', rfl⟩ := h'
  exact ⟨_, _, rfl⟩

omit [Malloc] in
theorem OnlyHeaders.sameRequest {con con' : RespondingConnection} (h : OnlyHeaders con con') :
    SameRequest con con' := by
  obtain ⟨headers, etag, rfl⟩ := h
  exact ⟨rfl, rfl, rfl⟩

variable {lib conf a} {con con' : RespondingConnection} {sce : StatCacheEntry}

theorem staticContentType_only {caching : Bool}
    (h : staticContentType con sce = some (con', caching)) : OnlyHeaders con con' := by
  unfold staticContentType at h
  simp only [Option.bind_eq_bind, Option.bind_eq_some_iff] at h
  obtain ⟨found, -, h⟩ := h
  cases found with
  | some ds =>
    obtain ⟨rfl, -⟩ := Prod.mk.inj (Option.some.inj h)
    exact OnlyHeaders.refl con
  | none =>
    by_cases hempty : bufferIsEmpty sce.contentType
    · simp only [if_pos hempty, Option.bind_eq_some_iff] at h
      obtain ⟨headers, -, h⟩ := h
      obtain ⟨rfl, -⟩ := Prod.mk.inj (Option.some.inj h)
      exact ⟨_, _, rfl⟩
    · simp only [if_neg hempty, Option.bind_eq_some_iff] at h
      obtain ⟨headers, -, h⟩ := h
      obtain ⟨rfl, -⟩ := Prod.mk.inj (Option.some.inj h)
      exact ⟨_, _, rfl⟩

theorem acceptRanges_only (h : acceptRanges con = some con') : OnlyHeaders con con' := by
  unfold acceptRanges at h
  by_cases hranges : con.rangeRequests
  · simp only [if_pos hranges, Option.bind_eq_bind, Option.bind_eq_some_iff] at h
    obtain ⟨headers, -, h⟩ := h
    obtain rfl := Option.some.inj h
    exact ⟨_, _, rfl⟩
  · rw [if_neg hranges] at h
    obtain rfl := Option.some.inj h
    exact OnlyHeaders.refl con

theorem staticEtag_only (h : staticEtag conf con sce = some con') : OnlyHeaders con con' := by
  unfold staticEtag at h
  by_cases hused : conf.etagsUsed ∧ conf.etagFlags ≠ 0 ∧ ¬ bufferIsEmpty sce.etag
  · simp only [if_pos hused, Option.bind_eq_bind, Option.bind_eq_some_iff] at h
    obtain ⟨found, -, h⟩ := h
    cases found with
    | some ds =>
      obtain rfl := Option.some.inj h
      exact OnlyHeaders.refl con
    | none =>
      simp only [Option.bind_eq_some_iff] at h
      obtain ⟨headers, -, h⟩ := h
      obtain rfl := Option.some.inj h
      exact ⟨_, _, rfl⟩
  · rw [if_neg hused] at h
    obtain rfl := Option.some.inj h
    exact OnlyHeaders.refl con

theorem staticLastModified_only {srv srv' : Server} {mtime : Buffer}
    (h : staticLastModified srv con sce = some (srv', con', mtime)) : OnlyHeaders con con' := by
  unfold staticLastModified at h
  simp only [Option.bind_eq_bind, Option.bind_eq_some_iff] at h
  obtain ⟨found, -, h⟩ := h
  cases found with
  | some ds =>
    obtain ⟨-, h⟩ := Prod.mk.inj (Option.some.inj h)
    obtain ⟨rfl, -⟩ := Prod.mk.inj h
    exact OnlyHeaders.refl con
  | none =>
    simp only [Option.bind_eq_some_iff] at h
    obtain ⟨cached, -, headers, -, h⟩ := h
    obtain ⟨-, h⟩ := Prod.mk.inj (Option.some.inj h)
    obtain ⟨rfl, -⟩ := Prod.mk.inj h
    exact ⟨_, _, rfl⟩

theorem staticHeaders_only {srv srv' : Server} {mtime : Option Buffer}
    (h : staticHeaders conf srv con sce = some (srv', con', mtime)) : OnlyHeaders con con' := by
  unfold staticHeaders at h
  simp only [Option.bind_eq_bind, Option.bind_eq_some_iff] at h
  obtain ⟨⟨con₁, caching⟩, htype, con₂, hranges, h⟩ := h
  have hsame := (staticContentType_only htype).trans (acceptRanges_only hranges)
  cases caching with
  | false =>
    obtain ⟨-, h⟩ := Prod.mk.inj (Option.some.inj h)
    obtain ⟨rfl, -⟩ := Prod.mk.inj h
    exact hsame
  | true =>
    simp only [if_true, Option.bind_eq_some_iff] at h
    obtain ⟨con₃, hetag, ⟨srv₄, con₄, mtime₄⟩, hmodified, h⟩ := h
    obtain ⟨-, h⟩ := Prod.mk.inj (Option.some.inj h)
    obtain ⟨rfl, -⟩ := Prod.mk.inj h
    exact hsame.trans ((staticEtag_only hetag).trans (staticLastModified_only hmodified))

theorem parseRange_fileFinished {target : RangeTarget} {range : Bytes} {rangeBuf rangeBuf' : Buffer}
    {ret : Int} (h : parseRange target con range rangeBuf = some (ret, con', rangeBuf')) :
    con'.fileFinished = con.fileFinished := by
  unfold parseRange at h
  simp only [Option.bind_eq_bind, Option.bind_eq_some_iff] at h
  obtain ⟨found, -, st, -, h⟩ := h
  by_cases herror : st.error = true
  · rw [if_pos herror] at h
    obtain ⟨-, h⟩ := Prod.mk.inj (Option.some.inj h)
    obtain ⟨rfl, -⟩ := Prod.mk.inj h
    rfl
  · rw [if_neg herror] at h
    by_cases hmulti : st.multipart = true
    · simp only [if_pos hmulti, Option.bind_eq_some_iff] at h
      obtain ⟨headers, -, h⟩ := h
      obtain ⟨-, h⟩ := Prod.mk.inj (Option.some.inj h)
      obtain ⟨rfl, -⟩ := Prod.mk.inj h
      rfl
    · simp only [if_neg hmulti, Option.bind_eq_some_iff] at h
      obtain ⟨headers, -, h⟩ := h
      obtain ⟨-, h⟩ := Prod.mk.inj (Option.some.inj h)
      obtain ⟨rfl, -⟩ := Prod.mk.inj h
      rfl

theorem staticBody_finished {mtime : Option Buffer} {rangeBuf rangeBuf' : Buffer}
    (h : staticBody a con mtime sce rangeBuf = some (con', rangeBuf')) :
    con'.fileFinished = true := by
  unfold staticBody at h
  simp only [Option.bind_eq_bind, Option.bind_eq_some_iff] at h
  obtain ⟨range, -, h⟩ := h
  cases range with
  | none =>
    obtain ⟨rfl, -⟩ := Prod.mk.inj (Option.some.inj h)
    rfl
  | some range =>
    simp only [Option.bind_eq_some_iff] at h
    obtain ⟨⟨ret, con₁, rangeBuf₁⟩, hparse, h⟩ := h
    have hfinished := parseRange_fileFinished hparse
    obtain ⟨rfl, -⟩ := Prod.mk.inj (Option.some.inj h)
    by_cases hret : ret = 0
    · rw [if_pos hret]
      exact hfinished
    · rw [if_neg hret]
      exact hfinished

variable (con con') in
/-- The request is finished, but there is no status, nothing queued and no file. -/
def EmptyHanded (r : HandlerT) : Prop :=
  r = .finished ∧ con'.httpStatus = 0 ∧ con'.writeQueue = con.writeQueue ∧ con'.fileFinished = false

variable (conf a con) in
/-- A date in the request is compared that is only the beginning of the file's. -/
def ComparesPart (srv : Server) : Prop :=
  ∃ sce srv' con' mtime, staticfileChecks conf a con = .ok sce ∧
    staticHeaders conf srv con sce = some (srv', con', some mtime) ∧
    PartOfDate con' a.conditions mtime

omit [Malloc] in
variable (conf a con) in
theorem staticfileChecks_cases :
    (∃ con', staticfileChecks conf a con = .error (.goOn, con')) ∨
    (∃ con', staticfileChecks conf a con = .error (.finished, con') ∧ con'.httpStatus ≠ 0) ∨
    (∃ sce, staticfileChecks conf a con = .ok sce ∧ con.httpStatus = 0) := by
  unfold staticfileChecks
  by_cases hother : con.httpStatus ≠ 0 ∨ con.uriPath.used = 0 ∨ con.physicalPath.used = 0 ∨
      con.mode ≠ DIRECT
  · rw [if_pos hother]
    exact Or.inl ⟨con, rfl⟩
  rw [if_neg hother]
  have hstatus : con.httpStatus = 0 := by
    by_contra hne
    exact hother (Or.inl hne)
  by_cases hmethod : ¬ (con.request.httpMethod = .get ∨ con.request.httpMethod = .post ∨
      con.request.httpMethod = .head)
  · rw [if_pos hmethod]
    exact Or.inl ⟨con, rfl⟩
  rw [if_neg hmethod]
  split
  · exact Or.inl ⟨con, rfl⟩
  cases a.entry with
  | none => exact Or.inr (Or.inl ⟨_, rfl, (by decide : (403 : Int) ≠ 0)⟩)
  | some sce =>
    dsimp only
    by_cases hlink : sce.isSymlink = true ∧ ¬ conf.followSymlink = true
    · rw [if_pos hlink]
      exact Or.inr (Or.inl ⟨_, rfl, (by decide : (403 : Int) ≠ 0)⟩)
    rw [if_neg hlink]
    by_cases hregular : ¬ S_ISREG sce.st.stMode
    · rw [if_pos hregular]
      exact Or.inr (Or.inl ⟨_, rfl, (by decide : (404 : Int) ≠ 0)⟩)
    · rw [if_neg hregular]
      exact Or.inr (Or.inr ⟨sce, rfl, hstatus⟩)

theorem staticAnswer_empty {mtime : Option Buffer} {rangeBuf rangeBuf' : Buffer}
    (h : staticAnswer lib a con mtime sce rangeBuf = some (con', rangeBuf'))
    (hstatus : con.httpStatus = 0) :
    EmptyHanded con con' .finished ↔
      con.fileFinished = false ∧ ∃ m, mtime = some m ∧ PartOfDate con a.conditions m := by
  have hbody : ∀ {con₁ : RespondingConnection} {m : Option Buffer},
      staticBody a con₁ m sce rangeBuf = some (con', rangeBuf') → ¬ EmptyHanded con con' .finished := by
    intro con₁ m hsent hempty
    have hfinished := staticBody_finished hsent
    rw [hempty.2.2.2] at hfinished
    cases hfinished
  cases mtime with
  | none =>
    constructor
    · exact fun hempty => absurd hempty (hbody h)
    · rintro ⟨-, m, hm, -⟩
      cases hm
  | some m =>
    have hmtime : (∃ m', some m = some m' ∧ PartOfDate con a.conditions m') ↔
        PartOfDate con a.conditions m := by
      constructor
      · rintro ⟨m', hm, hpart⟩
        obtain rfl := Option.some.inj hm
        exact hpart
      · exact fun hpart => ⟨m, rfl, hpart⟩
    rw [hmtime]
    unfold staticAnswer at h
    by_cases hpart : PartOfDate con a.conditions m
    · simp only [handleCachable_part lib hpart] at h
      obtain ⟨rfl, -⟩ := Prod.mk.inj (Option.some.inj h)
      exact ⟨fun hempty => ⟨hempty.2.2.2, hpart⟩, fun hfinished =>
        ⟨rfl, hstatus, rfl, hfinished.1⟩⟩
    · refine ⟨fun hempty => absurd hempty ?_, fun h => absurd h.2 hpart⟩
      have hanswered := handleCachable_answered lib hpart
      obtain ⟨⟨r, con₁⟩, hresult⟩ : ∃ result, httpResponseHandleCachable lib con a.conditions m =
        result := ⟨_, rfl⟩
      rw [hresult] at hanswered
      simp only [hresult] at h
      rcases hanswered with ⟨hr, hnew⟩ | ⟨hr, -⟩
      · obtain rfl : r = .finished := hr
        obtain ⟨rfl, -⟩ := Prod.mk.inj (Option.some.inj h)
        rintro ⟨-, hzero, -, -⟩
        rw [hzero] at hnew
        rcases hnew with h304 | h412
        · cases h304
        · cases h412
      · obtain rfl : r = .goOn := hr
        exact hbody h

theorem emptyHanded_iff {srv srv' : Server} {rangeBuf rangeBuf' : Buffer} {r : HandlerT}
    (h : modStaticfileSubrequest lib conf a srv con rangeBuf = some (r, srv', con', rangeBuf')) :
    EmptyHanded con con' r ↔ con.fileFinished = false ∧ ComparesPart conf a con srv := by
  unfold modStaticfileSubrequest at h
  rcases staticfileChecks_cases conf a con with
    ⟨con₁, hchecks⟩ | ⟨con₁, hchecks, hne⟩ | ⟨sce, hchecks, hstatus⟩
  · simp only [hchecks] at h
    obtain ⟨rfl, -⟩ := Prod.mk.inj (Option.some.inj h)
    constructor
    · rintro ⟨hr, -⟩
      cases hr
    · rintro ⟨-, sce, srv', con', mtime, hok, -⟩
      rw [hchecks] at hok
      cases hok
  · simp only [hchecks] at h
    obtain ⟨-, h⟩ := Prod.mk.inj (Option.some.inj h)
    obtain ⟨-, h⟩ := Prod.mk.inj h
    obtain ⟨rfl, -⟩ := Prod.mk.inj h
    constructor
    · exact fun hempty => absurd hempty.2.1 hne
    · rintro ⟨-, sce, srv', con', mtime, hok, -⟩
      rw [hchecks] at hok
      cases hok
  · simp only [hchecks, Option.bind_eq_bind, Option.bind_eq_some_iff] at h
    obtain ⟨⟨srv₁, con₁, mtime⟩, hheaders, ⟨con₂, rangeBuf₂⟩, hanswer, heq⟩ := h
    obtain ⟨hr, htail⟩ := Prod.mk.inj (Option.some.inj heq)
    obtain ⟨-, hpair⟩ := Prod.mk.inj htail
    obtain ⟨hcon, -⟩ := Prod.mk.inj hpair
    rw [← hr, ← hcon]
    have hsame := (staticHeaders_only hheaders).sameRequest
    have hempty := staticAnswer_empty hanswer (hsame.httpStatus.trans hstatus)
    have hcompares : ComparesPart conf a con srv ↔
        ∃ m, mtime = some m ∧ PartOfDate con₁ a.conditions m := by
      constructor
      · rintro ⟨sce', srv', con', m, hok, hheaders', hpart⟩
        rw [hchecks] at hok
        obtain rfl := Except.ok.inj hok
        rw [hheaders] at hheaders'
        obtain ⟨-, heq⟩ := Prod.mk.inj (Option.some.inj hheaders')
        obtain ⟨rfl, rfl⟩ := Prod.mk.inj heq
        exact ⟨m, rfl, hpart⟩
      · rintro ⟨m, rfl, hpart⟩
        exact ⟨sce, srv₁, con₁, m, hchecks, hheaders, hpart⟩
    rw [hcompares, ← hsame.fileFinished, ← hempty]
    unfold EmptyHanded
    rw [hsame.writeQueue]

variable (lib) in
/-- **A conditional request is answered**, and no file request is finished without an answer,
exactly if no date in the request is compared that is only the beginning of the file's. -/
theorem conditionalAnswered_iff :
    (∀ (con : RespondingConnection) (c : Conditions) (mtime : Buffer),
      Answered con (httpResponseHandleCachable lib con c mtime) ↔
        con.httpStatus = 304 ∨ con.httpStatus = 412 ∨ ¬ PartOfDate con c mtime) ∧
    ∀ (conf : StaticfileConf) (a : StaticfileInput) (srv srv' : Server)
      (con con' : RespondingConnection) (rangeBuf rangeBuf' : Buffer) (r : HandlerT),
      modStaticfileSubrequest lib conf a srv con rangeBuf = some (r, srv', con', rangeBuf') →
        (¬ EmptyHanded con con' r ↔ con.fileFinished = true ∨ ¬ ComparesPart conf a con srv) := by
  refine ⟨handleCachable_iff lib, ?_⟩
  intro conf a srv srv' con con' rangeBuf rangeBuf' r h
  rw [emptyHanded_iff h, not_and_or, Bool.not_eq_false]

end Subrequest

def noTimes : TimeLib where
  Tm := Unit
  strptime _ tm := (false, tm)
  mktime tm := (0, tm)
  noDst tm := tm
  uninit := ()

def fileRequest : RespondingConnection where
  toConnection := { connectionInit { mimetypes := arrayInit, allowHttp11 := true } with
    uriPath := ⟨ascii "/a" ++ [0], 3, 1⟩
    physicalPath := ⟨ascii "/srv/a" ++ [0], 7, 1⟩ }
  transferEncoding := 0
  parsedResponse := 0
  responseLength := -1
  etag := bufferInit
  rangeRequests := false
  errorfilePrefix := bufferInit
  tmpChunkLen := bufferInit
  tmpBuf := bufferInit

def fileInput (ims : Option Bytes) : StaticfileInput where
  entry := some
    { name := ⟨ascii "/srv/a" ++ [0], 7, 1⟩
      etag := bufferInit
      st := { stMode := 0o100644, stIno := 1, stSize := 5, stMtime := 784111777 }
      statTs := 0
      isSymlink := false
      contentType := ⟨ascii "text/plain" ++ [0], 11, 1⟩ }
  conditions := ⟨none, ims⟩
  httpRange := none

def fileConf : StaticfileConf := ⟨arrayInit, false, true, 0⟩

/-- "Sun" is the beginning of every Sunday's date. -/
theorem not_answered_sunday :
    ¬ Answered fileRequest (httpResponseHandleCachable noTimes fileRequest ⟨none, some (ascii "Sun")⟩
      ⟨ascii "Sun, 06 Nov 1994 08:49:37 GMT" ++ [0], 30, 1⟩) := by
  have hresult : ∀ r : HandlerT × RespondingConnection,
      Answered fileRequest r → r.1 = .finished → r.2.httpStatus ≠ 0 := by
    rintro r (⟨-, h304 | h412⟩ | ⟨hr, -⟩) hfinished
    · rw [h304]
      decide
    · rw [h412]
      decide
    · rw [hr] at hfinished
      cases hfinished
  intro hanswered
  exact hresult _ hanswered (by decide +kernel) (by decide +kernel)

theorem conditionalAnswered_iff_unconditional : letI : Malloc := zeroMalloc
    ∃ r srv' con' rangeBuf', modStaticfileSubrequest noTimes fileConf (fileInput none) (serverInit 0)
      fileRequest bufferInit = some (r, srv', con', rangeBuf') ∧ ¬ EmptyHanded fileRequest con' r := by
  let _ : Malloc := zeroMalloc
  obtain ⟨⟨r, srv', con', rangeBuf'⟩, hrun⟩ := Option.isSome_iff_exists.mp
    (show (modStaticfileSubrequest noTimes fileConf (fileInput none) (serverInit 0) fileRequest
      bufferInit).isSome by decide +kernel)
  refine ⟨r, srv', con', rangeBuf', hrun, ?_⟩
  rw [(conditionalAnswered_iff noTimes).2 _ _ _ _ _ _ _ _ _ hrun]
  right
  rintro ⟨sce, srv₁, con₁, mtime, -, -, -, ims, hims, -⟩
  cases hims

end Lighttpd
