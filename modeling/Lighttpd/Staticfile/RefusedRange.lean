import Lighttpd.Connections.ErrorDocument
import Lighttpd.Range.Satisfied

/-!
# Refused ranges

`http_response_parse_range` refuses a value at its first bad range. What it queued for the ranges
before stays in the queue, and `file_finished` is set already. So what is sent has no trace of the
range only if the first range is the bad one, and then it is the error page for a range outside the
file, but an empty body for a malformed one (`refusedRange_iff`).
-/

namespace Lighttpd

open CLib Compare

section Call

variable [Malloc]

/-- The ranges of a request are looked at: `con'` is the connection with its headers. -/
structure RangeCall (lib : TimeLib) (conf : StaticfileConf) (a : StaticfileInput)
    (srv srv' : Server) (con con' : RespondingConnection) (sce : StatCacheEntry)
    (mtime : Option Buffer) (range : Bytes) : Prop where
  checks : staticfileChecks conf a con = .ok sce
  headers : staticHeaders conf srv con sce = some (srv', con', mtime)
  modified : ∀ m ∈ mtime, (httpResponseHandleCachable lib con' a.conditions m).1 = .goOn
  asked : askedRange a con' mtime = some (some range)

variable (fs : Files) (stat : Buffer → Option StatCacheEntry) (con : RespondingConnection)

def Malformed (size : Int) (range : Bytes) : Prop :=
  (readParts size (size - 1) (rangePieces range)).2 = some .malformed

instance (size : Int) (range : Bytes) : Decidable (Malformed size range) :=
  inferInstanceAs (Decidable (_ = _))

/-- The content of the file at `con->physical.path`. -/
def wholeFile : Bytes := (fs.content con.physicalPath.str).getD []

/-- `con₁` is left by the call, `con₂` goes into `connection_handle_write_prepare`, `con₃` comes out
of it: the range left nothing, and the answer is the error page, or for a malformed range the whole
file. -/
structure RefusalTraceless (size : Int) (range : Bytes) (con₁ con₂ con₃ : RespondingConnection) :
    Prop where
  queue : con₁.writeQueue = con.writeQueue
  headers : con₁.response.headers = con.response.headers
  answer :
    (con₃.httpStatus = 416 ∧ (con.request.httpMethod ≠ .head →
      con₃.writeQueue.content fs = errorDocument fs stat con₂)) ∨
    (Malformed size range ∧ con₃.httpStatus = 200 ∧ (con.request.httpMethod ≠ .head →
      con₃.writeQueue.content fs = wholeFile fs con))

/-- No bytes are asked for before the bad range; and there is no body, or what is in the queue
already is right in front of the error page, or instead of the file. -/
def RefusalHarmless (size : Int) (range : Bytes) : Prop :=
  (readParts size (size - 1) (rangePieces range)).1 = [] ∧
  (con.request.httpMethod = .head ∨
    if Malformed size range then con.writeQueue.content fs = wholeFile fs con
    else con.writeQueue.content fs = [] ∧
      ¬ (HasErrorfile stat { con with httpStatus := 416 } ∧
        con.transferEncoding &&& HTTP_TRANSFER_ENCODING_CHUNKED ≠ 0))

end Call

section Refused

variable [Malloc] {lib : TimeLib} {conf : StaticfileConf} {a : StaticfileInput}
  {srv srv' : Server} {con con' con₁ : RespondingConnection} {sce : StatCacheEntry}
  {mtime : Option Buffer} {range : Bytes} {rangeBuf rangeBuf' : Buffer}

omit [Malloc] in
theorem OnlyHeaders.request (h : OnlyHeaders con con') :
    con'.request = con.request ∧ con'.mode = con.mode := by
  obtain ⟨headers, etag, rfl⟩ := h
  exact ⟨rfl, rfl⟩

omit [Malloc] in
theorem handleCachable_goOn {c : Conditions} {m : Buffer} (hstatus : con.httpStatus = 0)
    (h : (httpResponseHandleCachable lib con c m).1 = .goOn) :
    httpResponseHandleCachable lib con c m = (.goOn, con) := by
  by_cases hpart : PartOfDate con c m
  · rw [handleCachable_part lib hpart] at h
    exact nomatch h
  have hanswered := handleCachable_answered lib hpart
  have houtcome := handleCachable_outcome lib con c m
  generalize httpResponseHandleCachable lib con c m = result at h hanswered houtcome
  obtain ⟨r, con'⟩ := result
  obtain rfl : r = .goOn := h
  obtain ⟨hr, -⟩ | ⟨-, hsame⟩ := hanswered
  · exact nomatch hr
  dsimp only at houtcome hsame
  rw [hstatus] at hsame
  cases houtcome with
  | same => rfl
  | notModified => exact nomatch hsame
  | failed => exact nomatch hsame

theorem RangeCall.request (h : RangeCall lib conf a srv srv' con con' sce mtime range) :
    con'.httpStatus = 0 ∧ con'.mode = DIRECT ∧ (con'.request.httpMethod = .get ∨
      con'.request.httpMethod = .post ∨ con'.request.httpMethod = .head) := by
  obtain ⟨hrequest, hmode⟩ := (staticHeaders_only h.headers).request
  have hstatus := (staticHeaders_only h.headers).sameRequest.httpStatus
  have hchecks := h.checks
  unfold staticfileChecks at hchecks
  split at hchecks
  · exact nomatch hchecks
  next hother =>
  split at hchecks
  · exact nomatch hchecks
  next hmethod =>
  rw [hstatus, hmode, hrequest]
  tauto

theorem RangeCall.subrequest (h : RangeCall lib conf a srv srv' con con' sce mtime range)
    (hparse : ModStaticfile.httpResponseParseRange { con' with fileFinished := true }
      sce.st.stSize range rangeBuf = some (-1, con₁, rangeBuf')) :
    modStaticfileSubrequest lib conf a srv con rangeBuf =
      some (.finished, srv', con₁, rangeBuf') := by
  have hbody : staticBody a con' mtime sce rangeBuf = some (con₁, rangeBuf') := by
    unfold staticBody
    rw [h.asked]
    simp only [Option.bind_eq_bind, Option.bind_some, hparse]
    rfl
  have hanswer : staticAnswer lib a con' mtime sce rangeBuf = some (con₁, rangeBuf') := by
    unfold staticAnswer
    cases mtime with
    | none => exact hbody
    | some m =>
      have hgoOn := handleCachable_goOn h.request.1 (h.modified m rfl)
      simp only [hgoOn]
      exact hbody
  unfold modStaticfileSubrequest
  simp only [h.checks, h.headers, Option.bind_eq_bind, Option.bind_some, hanswer]

/-! ## What the call leaves -/

structure RangeRefused (con con₁ : RespondingConnection) (size : Int) (range : Bytes) : Prop where
  same : ∃ status length queue, con₁ = { con with
    httpStatus := status, responseLength := length, writeQueue := queue }
  refused : (readParts size (size - 1) (rangePieces range)).2 ≠ none
  httpStatus : con₁.httpStatus = if Malformed size range then con.httpStatus else 416
  queue : con₁.writeQueue = con.writeQueue ↔
    (readParts size (size - 1) (rangePieces range)).1 = []

omit [Malloc] in
theorem partsQueue_ne_nil {size : Int} {contentType : Option Buffer} {multipart : Bool}
    {piece : Int × Int → QueuedPiece} {ps : List (Int × Int)} (h : ps ≠ []) :
    partsQueue size contentType multipart piece ps ≠ [] := by
  cases ps with
  | nil => exact absurd rfl h
  | cons p ps =>
    unfold partsQueue partQueue
    cases multipart <;> simp

theorem httpResponseParseRange_refused {size : Int}
    (h : ModStaticfile.httpResponseParseRange con size range rangeBuf =
      some (-1, con₁, rangeBuf')) : RangeRefused con con₁ size range := by
  obtain ⟨found, -, houtcome⟩ := parseRange_outcome h
  have hsent := sentParts_static con size range (found.map (·.2.value))
  cases houtcome with
  | @refused refusal bad =>
    have hbad : (readParts size (size - 1) (rangePieces range)).2 = some refusal := bad
    refine ⟨⟨_, _, _, rfl⟩, ?_, ?_, ?_⟩
    · rw [hbad]
      exact nofun
    · unfold Malformed
      simp only [hbad]
      cases refusal <;> rfl
    · have hqueued := hsent.queue.queued
      constructor
      · intro hsame
        by_contra hparts
        dsimp only at hsame
        rw [hsame] at hqueued
        exact partsQueue_ne_nil hparts (List.append_right_eq_self.mp hqueued.symm)
      · intro hparts
        exact congrArg RangeState.writeQueue (sentParts_none hparts)

/-! ## What is sent -/

variable {K : Bytes → Prop} {fs : Files} {stat : Buffer → Option StatCacheEntry}
  {e : ErrorHandler}

theorem frameBody_queue (hK : HeaderNames K) (h : ResponseFields K con.response.headers) :
    ∃ con', frameBody con = some con' ∧ con'.writeQueue = con.writeQueue ∧
      con'.request = con.request ∧ con'.httpStatus = con.httpStatus := by
  unfold frameBody
  split
  swap
  · unfold decideKeepAlive
    refine ⟨_, rfl, ?_⟩
    dsimp only
    split <;> split <;> exact ⟨rfl, rfl, rfl⟩
  unfold setContentLength
  dsimp only
  split
  swap
  · exact ⟨con, rfl, rfl, rfl, rfl⟩
  split
  · obtain ⟨hget, -⟩ | ⟨ndx, ds, hget, -, -⟩ := arrayGetElement_field hK.order hK.contentLength h
    · rw [hget]
      exact ⟨con, rfl, rfl, rfl, rfl⟩
    · rw [hget]
      exact ⟨_, rfl, rfl, rfl, rfl⟩
  split
  · obtain ⟨headers', hrun, -, -, -⟩ := responseHeaderOverwrite_spec hK.order hK.contentLength h
      (bufferCopyOffT con.tmpBuf (chunkqueueLength con.writeQueue)).constBufLen
    rw [hrun]
    exact ⟨_, rfl, rfl, rfl, rfl⟩
  · exact ⟨con, rfl, rfl, rfl, rfl⟩

theorem writePrepare_chosen (hK : HeaderNames K)
    (hmethod : con.request.httpMethod ∈ directMethods)
    (hchoose : chooseBody stat (defaultStatus 403 con) = some con')
    (hrequest : con'.request = con.request)
    (hfields : ResponseFields K con'.response.headers) :
    ∃ con'', connectionHandleWritePrepare stat con = some con'' ∧
      con''.httpStatus = con'.httpStatus ∧
      (con.request.httpMethod ≠ .head → con''.writeQueue = con'.writeQueue) := by
  obtain ⟨con₂, hframe, hqueue, hsame, hstatus⟩ := frameBody_queue hK hfields
  unfold connectionHandleWritePrepare prepareMethod
  rw [if_pos (.inr hmethod)]
  simp only [Option.bind_eq_bind, Option.bind_some, hchoose, hframe]
  refine ⟨_, rfl, ?_, ?_⟩
  · unfold dropBody
    split <;> exact hstatus
  · intro hhead
    unfold dropBody
    rw [if_neg (by rwa [hsame, hrequest])]
    exact hqueue

theorem writePrepare_unsatisfiable (hK : HeaderNames K) (htells : StatTells fs stat)
    (hfields : ResponseFields K con.response.headers) (hmode : con.mode = DIRECT)
    (hmethod : con.request.httpMethod ∈ directMethods) (hstatus : con.httpStatus = 416) :
    ∃ con', connectionHandleWritePrepare stat con = some con' ∧ con'.httpStatus = 416 ∧
      (con.request.httpMethod ≠ .head →
        (con'.writeQueue.content fs = errorDocument fs stat con ↔ con.writeQueue.content fs = [] ∧
          ¬ (HasErrorfile stat con ∧
            con.transferEncoding &&& HTTP_TRANSFER_ENCODING_CHUNKED ≠ 0))) := by
  obtain ⟨con₁, hrun, hqueued⟩ := queueErrorDocument_queued hK htells hfields
  have hchoose : chooseBody stat (defaultStatus 403 con) = some con₁ := by
    have hdefault : defaultStatus 403 con = con := if_neg (by omega)
    unfold chooseBody
    rw [hdefault, if_neg (by omega), if_neg, hrun]
    rintro (h | h)
    · exact h hmode
    · omega
  obtain ⟨con', hwrite, hsame, hqueue⟩ :=
    writePrepare_chosen hK hmethod hchoose hqueued.owner.request hqueued.fields
  refine ⟨con', hwrite, hsame.trans (hqueued.owner.httpStatus.trans hstatus), fun hhead => ?_⟩
  rw [hqueue hhead]
  obtain ⟨hfile, hchunked, size, closing, hsize, hcontent⟩ | ⟨hplain, hcontent, -⟩ :=
    hqueued.queue
  · refine iff_of_false (fun hsent => ?_) (fun hclean => hclean.2 ⟨hfile, hchunked⟩)
    have hlen := congrArg List.length (hcontent.symm.trans hsent)
    have hpos := List.length_pos_of_ne_nil hsize
    simp only [List.length_append] at hlen
    omega
  · rw [hcontent, and_iff_left hplain]
    exact List.append_left_eq_self

theorem writePrepare_malformed (hK : HeaderNames K)
    (hfields : ResponseFields K con.response.headers)
    (hmethod : con.request.httpMethod ∈ directMethods) (hstatus : con.httpStatus = 200) :
    ∃ con', connectionHandleWritePrepare stat con = some con' ∧ con'.httpStatus = 200 ∧
      (con.request.httpMethod ≠ .head → con'.writeQueue = con.writeQueue) := by
  have hchoose : chooseBody stat (defaultStatus 403 con) = some con := by
    have hdefault : defaultStatus 403 con = con := if_neg (by omega)
    unfold chooseBody
    rw [hdefault, if_neg (by omega), if_pos (by omega)]
  obtain ⟨con', hwrite, hsame, hqueue⟩ := writePrepare_chosen hK hmethod hchoose rfl hfields
  exact ⟨con', hwrite, hsame.trans hstatus, hqueue⟩

variable (fs stat) in
theorem refusal_sent (e : ErrorHandler) (hK : HeaderNames K) (htells : StatTells fs stat)
    (hfields : ResponseFields K con.response.headers) (hstatus : con.httpStatus = 0)
    (hmode : con.mode = DIRECT) (hmethod : con.request.httpMethod ∈ directMethods) {size : Int}
    (h : RangeRefused { con with fileFinished := true } con₁ size range) :
    ∃ con₂ con₃, requestFinished e con₁ = some con₂ ∧
      connectionHandleWritePrepare stat con₂ = some con₃ ∧
      (RefusalTraceless fs stat con size range con₁ con₂ con₃ ↔
        RefusalHarmless fs stat con size range) := by
  obtain ⟨⟨status, length, queue, rfl⟩, hrefused, hcode, hqueue⟩ := h
  dsimp only at hcode hqueue
  unfold RefusalHarmless
  by_cases hmal : Malformed size range
  · rw [if_pos hmal, hstatus] at hcode
    subst hcode
    obtain ⟨con₃, hwrite, hsent, hbody⟩ := @writePrepare_malformed _
      { con with
        fileFinished := true, httpStatus := 200, responseLength := length, writeQueue := queue }
      _ stat hK hfields hmethod rfl
    refine ⟨_, con₃, if_neg (by rintro ⟨-, h | h⟩ <;> exact nomatch h), hwrite, ?_⟩
    simp only [if_pos hmal]
    constructor
    · rintro ⟨hsame, -, ⟨h416, -⟩ | ⟨-, -, hwhole⟩⟩
      · exact nomatch hsent.symm.trans h416
      refine ⟨hqueue.mp hsame, ?_⟩
      by_cases hhead : con.request.httpMethod = .head
      · exact .inl hhead
      · have hcontent := hwhole hhead
        rw [hbody hhead] at hcontent
        exact .inr (hsame ▸ hcontent)
    · rintro ⟨hparts, hwhole⟩
      obtain rfl := hqueue.mpr hparts
      refine ⟨rfl, rfl, .inr ⟨hmal, hsent, fun hhead => ?_⟩⟩
      rw [hbody hhead]
      exact hwhole.resolve_left hhead
  · rw [if_neg hmal] at hcode
    subst hcode
    obtain ⟨con₃, hwrite, hsent, hbody⟩ := @writePrepare_unsatisfiable _
      { con with
        fileFinished := true, httpStatus := 416, responseLength := length, writeQueue := queue }
      _ _ stat hK htells hfields hmode hmethod rfl
    refine ⟨_, con₃, if_neg (by rintro ⟨-, h | h⟩ <;> exact nomatch h), hwrite, ?_⟩
    simp only [if_neg hmal]
    constructor
    · rintro ⟨hsame, -, ⟨-, hpage⟩ | ⟨hmal', -⟩⟩
      · refine ⟨hqueue.mp hsame, ?_⟩
        by_cases hhead : con.request.httpMethod = .head
        · exact .inl hhead
        · have hclean := (hbody hhead).mp (hpage hhead)
          exact .inr (hsame ▸ hclean)
      · exact absurd hmal' hmal
    · rintro ⟨hparts, hclean⟩
      obtain rfl := hqueue.mpr hparts
      exact ⟨rfl, rfl, .inl ⟨hsent, fun hhead => (hbody hhead).mpr (hclean.resolve_left hhead)⟩⟩

variable (fs stat) in
/-- **A refused range leaves no trace** exactly if no bytes are asked for before the bad one, and if
then the answer goes without a body, or the error page stands alone, or what is in the queue already
is the whole file. -/
theorem refusedRange_iff (e : ErrorHandler) (hK : HeaderNames K) (htells : StatTells fs stat)
    (hcall : RangeCall lib conf a srv srv' con con' sce mtime range)
    (hfields : ResponseFields K con'.response.headers)
    (hparse : ModStaticfile.httpResponseParseRange { con' with fileFinished := true }
      sce.st.stSize range rangeBuf = some (-1, con₁, rangeBuf')) :
    modStaticfileSubrequest lib conf a srv con rangeBuf =
        some (.finished, srv', con₁, rangeBuf') ∧
      ∃ con₂ con₃, requestFinished e con₁ = some con₂ ∧
        connectionHandleWritePrepare stat con₂ = some con₃ ∧
        (RefusalTraceless fs stat con' sce.st.stSize range con₁ con₂ con₃ ↔
          RefusalHarmless fs stat con' sce.st.stSize range) := by
  obtain ⟨hstatus, hmode, hmethod⟩ := hcall.request
  have hdirect : con'.request.httpMethod ∈ directMethods := by
    rcases hmethod with h | h | h <;> rw [h] <;> decide
  exact ⟨hcall.subrequest hparse, refusal_sent fs stat e hK htells hfields hstatus hmode hdirect
    (httpResponseParseRange_refused hparse)⟩

end Refused

/-! ## Examples -/

/-- The names of the header fields without caching, and of those of a page. -/
def rangeHeaderNames (key : Bytes) : Prop :=
  errorHeaderNames key ∨ key = ascii "Accept-Ranges" ++ [0]

theorem headerNames_range : HeaderNames rangeHeaderNames where
  order := by
    constructor
    · rintro x y ((rfl | rfl) | rfl) ((rfl | rfl) | rfl) <;> decide
    · rintro x y z ((rfl | rfl) | rfl) ((rfl | rfl) | rfl) ((rfl | rfl) | rfl) <;> decide
  contentType := .inl (.inl rfl)
  contentLength := .inl (.inr rfl)

def rangeEntry : StatCacheEntry where
  name := ⟨ascii "/srv/a" ++ [0], 7, 1⟩
  etag := bufferInit
  st := { stMode := 0o100644, stIno := 1, stSize := 5, stMtime := 784111777 }
  statTs := 0
  isSymlink := false
  contentType := bufferInit

def rangeFiles : Files := ⟨[(ascii "/srv/a", ascii "12345")], []⟩

def rangeInput (range : Bytes) : StaticfileInput := ⟨some rangeEntry, ⟨none, none⟩, some range⟩

def rangeRequest : RespondingConnection := { fileRequest with rangeRequests := true }

theorem rangeRequest_refused {range : Bytes} {refusal : Refusal}
    (hbad : (readParts 5 4 (rangePieces range)).2 = some refusal) : letI : Malloc := zeroMalloc
    ∃ headers con₁, ResponseFields rangeHeaderNames headers ∧
      RangeCall noTimes fileConf (rangeInput range) (serverInit 0) (serverInit 0) rangeRequest
        (setHeaders rangeRequest headers) rangeEntry none range ∧
      ModStaticfile.httpResponseParseRange
        { setHeaders rangeRequest headers with fileFinished := true } 5 range bufferInit =
          some (-1, con₁, bufferInit) := by
  let _ : Malloc := zeroMalloc
  have hK := headerNames_range
  obtain ⟨headers₁, hrun₁, hfields₁, -, -⟩ := responseHeaderOverwrite_spec hK.order hK.contentType
    (responseFields_arrayInit rangeHeaderNames)
    (some (ascii "application/octet-stream"))
  obtain ⟨headers, hrun, hfields, -, -⟩ := responseHeaderOverwrite_spec hK.order
    (show rangeHeaderNames (ascii "Accept-Ranges" ++ [0]) from .inr rfl) hfields₁
    (some (ascii "bytes"))
  obtain ⟨found, hfound⟩ : ∃ found, arrayGetElement headers (ascii "Content-Type") =
      some found := by
    obtain ⟨hget, -⟩ | ⟨ndx, ds, hget, -⟩ := arrayGetElement_field hK.order hK.contentType hfields
    · exact ⟨none, hget⟩
    · exact ⟨some (ndx, ds), hget⟩
  obtain ⟨con₁, hparse⟩ := @parseRange_refused _
    (ModStaticfile.rangeTarget rangeRequest.physicalPath 5)
    { setHeaders rangeRequest headers with fileFinished := true } range bufferInit found hfound
    refusal hbad
  refine ⟨headers, con₁, hfields, ⟨rfl, ?_, (by rintro _ ⟨⟩), ?_⟩, hparse⟩
  swap
  · have hnone : arrayGetElement (setHeaders rangeRequest headers).request.headers
        (ascii "If-Range") = some none :=
      show arrayGetElement rangeRequest.request.headers (ascii "If-Range") = some none by
        decide +kernel
    have hasked : doRangeRequest (setHeaders rangeRequest headers) none = some true := by
      unfold doRangeRequest
      rw [hnone]
      rfl
    show (doRangeRequest (setHeaders rangeRequest headers) none).map _ = _
    rw [hasked]
    rfl
  have htype : staticContentType rangeRequest rangeEntry =
      some (setHeaders rangeRequest headers₁, false) := by
    have hnone : arrayGetElement rangeRequest.response.headers (ascii "Content-Type") =
        some none := by decide +kernel
    unfold staticContentType
    rw [hnone]
    simp only [Option.bind_eq_bind, Option.bind_some]
    rw [if_pos (by rfl)]
    show (responseHeaderOverwrite arrayInit _ _).bind _ = _
    rw [hrun₁]
    rfl
  have hranges : acceptRanges (setHeaders rangeRequest headers₁) =
      some (setHeaders rangeRequest headers) := by
    show (responseHeaderOverwrite headers₁ _ _).bind _ = _
    rw [hrun]
    rfl
  unfold staticHeaders
  rw [htype]
  simp only [Option.bind_eq_bind, Option.bind_some, hranges]
  rfl

/-- A range behind the end. -/
theorem refusedRange_iff_behind : letI : Malloc := zeroMalloc
    ∃ con' con₁ con₂ con₃, RangeCall noTimes fileConf (rangeInput (ascii "9-")) (serverInit 0)
        (serverInit 0) rangeRequest con' rangeEntry none (ascii "9-") ∧
      modStaticfileSubrequest noTimes fileConf (rangeInput (ascii "9-")) (serverInit 0)
        rangeRequest bufferInit = some (.finished, serverInit 0, con₁, bufferInit) ∧
      RefusalTraceless rangeFiles (fun _ => none) con' 5 (ascii "9-") con₁ con₂ con₃ := by
  let _ : Malloc := zeroMalloc
  obtain ⟨headers, con₁, hfields, hcall, hparse⟩ :=
    @rangeRequest_refused (ascii "9-") .unsatisfiable (by decide)
  obtain ⟨hanswer, con₂, con₃, -, -, hiff⟩ := refusedRange_iff rangeFiles (fun _ => none)
    ⟨bufferInit, bufferInit, none⟩ headerNames_range nofun hcall hfields hparse
  refine ⟨setHeaders rangeRequest headers, con₁, con₂, con₃, hcall, hanswer,
    hiff.mpr ⟨by decide, .inr ?_⟩⟩
  rw [if_neg (by decide)]
  exact ⟨rfl, fun h => nomatch h.1.2⟩

/-- A malformed range is answered with an empty body. -/
theorem not_refusedRange_malformed : letI : Malloc := zeroMalloc
    ∃ con' con₁ con₂ con₃, RangeCall noTimes fileConf (rangeInput (ascii "0--")) (serverInit 0)
        (serverInit 0) rangeRequest con' rangeEntry none (ascii "0--") ∧
      modStaticfileSubrequest noTimes fileConf (rangeInput (ascii "0--")) (serverInit 0)
        rangeRequest bufferInit = some (.finished, serverInit 0, con₁, bufferInit) ∧
      requestFinished ⟨bufferInit, bufferInit, none⟩ con₁ = some con₂ ∧
      connectionHandleWritePrepare (fun _ => none) con₂ = some con₃ ∧
      ¬ RefusalTraceless rangeFiles (fun _ => none) con' 5 (ascii "0--") con₁ con₂ con₃ := by
  let _ : Malloc := zeroMalloc
  obtain ⟨headers, con₁, hfields, hcall, hparse⟩ :=
    @rangeRequest_refused (ascii "0--") .malformed (by decide)
  obtain ⟨hstatus, hmode, -⟩ := hcall.request
  obtain ⟨con₂, con₃, hfinished, hwrite, hiff⟩ := refusal_sent rangeFiles (fun _ => none)
    ⟨bufferInit, bufferInit, none⟩ headerNames_range nofun hfields hstatus hmode
    (show HttpMethod.get ∈ directMethods by decide) (httpResponseParseRange_refused hparse)
  refine ⟨setHeaders rangeRequest headers, con₁, con₂, con₃, hcall,
    hcall.subrequest hparse, hfinished, hwrite, ?_⟩
  rw [hiff]
  rintro ⟨-, hhead | hwhole⟩
  · exact nomatch hhead
  · rw [if_pos (by decide)] at hwhole
    have hlen := congrArg List.length hwhole
    exact absurd hlen (show (0 : Nat) ≠ 5 by decide)

end Lighttpd
