import Lighttpd.CaselessOrder
import Lighttpd.Plugins.Compress

/-!
# The answer of `mod_compress`

Up to the choice of the encoding the answer is not begun (`compressPlan_good`). A copy from the cache
is sent by another plugin, so it has to be complete; a copy in the write queue is the whole answer, so
no one may be left to answer. Someone finishes the answer exactly if this is so
(`compressFinishable_iff`).
-/

namespace Lighttpd

open CLib

/-! ## The header -/

def encodingName (type : Nat) : Option Bytes :=
  if type = HTTP_ACCEPT_ENCODING_GZIP then some (ascii "gzip")
  else if type = HTTP_ACCEPT_ENCODING_DEFLATE then some (ascii "deflate")
  else if type = HTTP_ACCEPT_ENCODING_BZIP2 then some (ascii "bzip2")
  else none

theorem encodingFlag_cases (value name : Bytes) (flag : Nat) :
    encodingFlag value name flag = 0 ∨ encodingFlag value name flag = flag := by
  unfold encodingFlag
  split
  · exact Or.inr rfl
  · exact Or.inl rfl

theorem allowedEncodings_and (values : List Bytes) :
    allowedEncodings values &&& 22 = allowedEncodings values := by
  have hflag : ∀ {value name : Bytes} {flag : Nat}, flag &&& 22 = flag →
      encodingFlag value name flag &&& 22 = encodingFlag value name flag := by
    intro value name flag h
    rcases encodingFlag_cases value name flag with h0 | h1
    · rw [h0]
      rfl
    · rw [h1, h]
  have hfold : ∀ (values : List Bytes) (allowed : Nat), allowed &&& 22 = allowed →
      (values.foldl (fun allowed value => allowed |||
        encodingFlag value (ascii "gzip") HTTP_ACCEPT_ENCODING_GZIP |||
        encodingFlag value (ascii "deflate") HTTP_ACCEPT_ENCODING_DEFLATE |||
        encodingFlag value (ascii "bzip2") HTTP_ACCEPT_ENCODING_BZIP2) allowed) &&& 22 =
      values.foldl (fun allowed value => allowed |||
        encodingFlag value (ascii "gzip") HTTP_ACCEPT_ENCODING_GZIP |||
        encodingFlag value (ascii "deflate") HTTP_ACCEPT_ENCODING_DEFLATE |||
        encodingFlag value (ascii "bzip2") HTTP_ACCEPT_ENCODING_BZIP2) allowed := by
    intro values
    induction values with
    | nil => exact fun _ h => h
    | cons value values ih =>
      intro allowed h
      refine ih _ ?_
      rw [Nat.and_or_distrib_right, Nat.and_or_distrib_right, Nat.and_or_distrib_right, h,
        hflag rfl, hflag rfl, hflag rfl]
  cases values with
  | nil => rfl
  | cons value values => exact hfold (value :: values) 0 rfl

theorem selectEncoding_name {accepted : Nat} {values : List Bytes}
    (h : accepted &&& allowedEncodings values ≠ 0) :
    ∃ type name, selectEncoding (accepted &&& allowedEncodings values) = (type, some name) ∧
      encodingName type = some name := by
  have hand : (accepted &&& allowedEncodings values) &&& 22 =
      accepted &&& allowedEncodings values := by
    rw [Nat.and_assoc, allowedEncodings_and]
  generalize accepted &&& allowedEncodings values = matched at h hand ⊢
  unfold selectEncoding
  by_cases hbzip2 : matched &&& HTTP_ACCEPT_ENCODING_BZIP2 ≠ 0
  · exact ⟨_, _, if_pos hbzip2, rfl⟩
  rw [if_neg hbzip2]
  by_cases hgzip : matched &&& HTTP_ACCEPT_ENCODING_GZIP ≠ 0
  · exact ⟨_, _, if_pos hgzip, rfl⟩
  rw [if_neg hgzip]
  by_cases hdeflate : matched &&& HTTP_ACCEPT_ENCODING_DEFLATE ≠ 0
  · exact ⟨_, _, if_pos hdeflate, rfl⟩
  refine absurd ?_ h
  have hflags : (22 : Nat) = HTTP_ACCEPT_ENCODING_BZIP2 ||| HTTP_ACCEPT_ENCODING_GZIP |||
    HTTP_ACCEPT_ENCODING_DEFLATE := rfl
  rw [← hand, hflags, Nat.and_or_distrib_left, Nat.and_or_distrib_left, not_not.mp hbzip2,
    not_not.mp hgzip, not_not.mp hdeflate]
  rfl

open Compare

section Header

variable [Malloc] {K : Bytes → Prop} {lib : TimeLib} {conf : CompressConf} {env : CompressEnv}
  {con con' con'' : BackendConnection} {sce : StatCacheEntry} {key : Bytes} {mtime : Buffer}

structure CompressNames (K : Bytes → Prop) : Prop where
  vary : K (ascii "Vary" ++ [0])
  accept : K (ascii "Accept-Encoding" ++ [0])
  encoding : K (ascii "Content-Encoding" ++ [0])
  type : K (ascii "Content-Type" ++ [0])
  modified : K (ascii "Last-Modified" ++ [0])
  etag : K (ascii "ETag" ++ [0])

/-- The answer is not begun, and `Content-Encoding` stays. -/
structure Planned (K : Bytes → Prop) (con con' : BackendConnection) : Prop where
  headers : ResponseFields K con'.response.headers
  encoding : ∀ ds, con'.response.headers.Field (ascii "Content-Encoding") ds ↔
    con.response.headers.Field (ascii "Content-Encoding") ds
  queue : con'.writeQueue = con.writeQueue
  finished : con'.fileFinished = con.fileFinished
  path : con'.physicalPath = con.physicalPath
  root : con'.docRoot = con.docRoot
  uri : con'.uriPath = con.uriPath
  request : con'.request = con.request

theorem Planned.refl (h : ResponseFields K con.response.headers) : Planned K con con :=
  ⟨h, fun _ => Iff.rfl, rfl, rfl, rfl, rfl, rfl, rfl⟩

theorem Planned.trans (h : Planned K con con') (h' : Planned K con' con'') : Planned K con con'' :=
  ⟨h'.headers, fun ds => (h'.encoding ds).trans (h.encoding ds), h'.queue.trans h.queue,
    h'.finished.trans h.finished, h'.path.trans h.path, h'.root.trans h.root,
    h'.uri.trans h.uri, h'.request.trans h.request⟩

theorem Planned.headerIs (h : Planned K con con') (value : Bytes) :
    HeaderIs con'.response.headers (ascii "Content-Encoding") value ↔
      HeaderIs con.response.headers (ascii "Content-Encoding") value :=
  exists_congr fun ds => and_congr_left' (h.encoding ds)

theorem overwriteHeader_planned (hK : PreorderOn bufferCaselessCompare K) (hnames : CompressNames K)
    (hkey : K (key ++ [0]))
    (hne : bufferCaselessCompare (ascii "Content-Encoding" ++ [0]) (key ++ [0]) ≠ 0)
    (h : ResponseFields K con.response.headers) (value : Option Bytes) :
    ∃ con', con.overwriteHeader key value = some con' ∧ Planned K con con' := by
  obtain ⟨headers', hrun, hfields, -, hother⟩ := responseHeaderOverwrite_spec hK hkey h value
  refine ⟨con.setHeaders headers', ?_, hfields, hother _ hnames.encoding hne, rfl, rfl, rfl, rfl, rfl,
    rfl⟩
  unfold BackendConnection.overwriteHeader
  rw [hrun]
  rfl

theorem etagHeader_planned (hK : PreorderOn bufferCaselessCompare K) (hnames : CompressNames K)
    (h : ResponseFields K con.response.headers) (sce : StatCacheEntry) :
    ∃ con', etagHeader con sce = some con' ∧ Planned K con con' := by
  unfold etagHeader
  split
  · exact overwriteHeader_planned hK hnames hnames.etag (by decide) h _
  · exact ⟨con, rfl, Planned.refl h⟩

theorem encodingHeader_spec (hK : PreorderOn bufferCaselessCompare K) (hnames : CompressNames K)
    (h : ResponseFields K con.response.headers) {name : Bytes} (hname : IsCStr name) :
    ∃ headers', encodingHeader con (some name) = some (con.setHeaders headers') ∧
      ResponseFields K headers' ∧ HeaderIs headers' (ascii "Content-Encoding") name := by
  obtain ⟨headers', hrun, hfields, hvalue, -⟩ :=
    responseHeaderOverwrite_spec hK hnames.encoding h (some name)
  refine ⟨headers', ?_, hfields, hvalue name rfl hname⟩
  unfold encodingHeader BackendConnection.overwriteHeader
  rw [Option.bind_eq_bind, Option.bind_some, hrun]
  rfl

theorem lastHeaders_planned (hK : PreorderOn bufferCaselessCompare K) (hnames : CompressNames K)
    (h : ResponseFields K con.response.headers) (sce : StatCacheEntry) (mtime : Buffer) :
    ∃ con', (do
      let con ← con.overwriteHeader (ascii "Last-Modified") mtime.constBufLen
      let con ← etagHeader con sce
      con.overwriteHeader (ascii "Content-Type") sce.contentType.constBufLen) = some con' ∧
        Planned K con con' := by
  obtain ⟨con₁, hrun₁, h₁⟩ := overwriteHeader_planned hK hnames hnames.modified (by decide) h
    mtime.constBufLen
  obtain ⟨con₂, hrun₂, h₂⟩ := etagHeader_planned hK hnames h₁.headers sce
  obtain ⟨con₃, hrun₃, h₃⟩ := overwriteHeader_planned hK hnames hnames.type (by decide) h₂.headers
    sce.contentType.constBufLen
  refine ⟨con₃, ?_, (h₁.trans h₂).trans h₃⟩
  rw [hrun₁, Option.bind_eq_bind, Option.bind_some, hrun₂]
  exact hrun₃

theorem handleCachable_planned (h : ResponseFields K con.response.headers) (lib : TimeLib)
    (env : CompressEnv) (mtime : Buffer) :
    Planned K con (con.handleCachable lib env mtime).2 := by
  have houtcome := handleCachable_outcome lib con.toRespondingConnection env.conditions mtime
  unfold BackendConnection.handleCachable
  generalize httpResponseHandleCachable lib con.toRespondingConnection env.conditions mtime = result
    at houtcome ⊢
  obtain ⟨r, c⟩ := result
  dsimp only at houtcome ⊢
  cases houtcome <;> exact ⟨h, fun _ => Iff.rfl, rfl, rfl, rfl, rfl, rfl, rfl⟩

/-! ## The plan -/

/-- What a plan leaves: an answer that is not begun, or a file to be compressed. -/
inductive GoodPlan (K : Bytes → Prop) (env : CompressEnv) (con : BackendConnection) :
    CompressPlan → Prop
  | done {r : HandlerT} {srv : Server} {con' : BackendConnection}
      (queue : con'.writeQueue = con.writeQueue)
      (finished : con'.fileFinished = con.fileFinished) (goOn : r = .goOn → Planned K con con') :
      GoodPlan K env con (.done r srv con')
  | deflate {srv : Server} {con' : BackendConnection} {sce : StatCacheEntry} {type : Nat}
      {name : Bytes} {mtime : Buffer} (planned : Planned K con con') (entry : env.entry = some sce)
      (chosen : encodingName type = some name) :
      GoodPlan K env con (.deflate srv con' sce type (some name) mtime)

theorem GoodPlan.mono {plan : CompressPlan} (h : Planned K con con')
    (hplan : GoodPlan K env con' plan) : GoodPlan K env con plan := by
  cases hplan with
  | done queue finished goOn =>
    exact .done (queue.trans h.queue) (finished.trans h.finished) fun hr => h.trans (goOn hr)
  | deflate planned entry chosen => exact .deflate (h.trans planned) entry chosen

omit [Malloc] in
theorem isCStr_encodingName {type : Nat} {name : Bytes} (h : encodingName type = some name) :
    IsCStr name := by
  unfold encodingName at h
  split at h
  · obtain rfl := Option.some.inj h
    decide
  split at h
  · obtain rfl := Option.some.inj h
    decide
  split at h
  · obtain rfl := Option.some.inj h
    decide
  · cases h

theorem compressedValidators_good (lib : TimeLib) (conf : CompressConf) (env : CompressEnv)
    (sce : StatCacheEntry) (hK : PreorderOn bufferCaselessCompare K)
    (hnames : CompressNames K) (h : ResponseFields K con.response.headers) (srv : Server)
    (hentry : env.entry = some sce) {accepted : Nat}
    (hmatched : accepted &&& allowedEncodings conf.encodings ≠ 0) (mtime : Buffer) :
    ∃ plan, compressedValidators lib env srv con sce
      (accepted &&& allowedEncodings conf.encodings) mtime = some plan ∧ GoodPlan K env con plan := by
  obtain ⟨type, name, hselect, hname⟩ := selectEncoding_name hmatched
  unfold compressedValidators
  rw [hselect]
  dsimp only
  generalize hcon' : (if useEtag sce = true then _ else con : BackendConnection) = con'
  have hplanned : Planned K con con' := by
    rw [← hcon']
    split
    · exact ⟨h, fun _ => Iff.rfl, rfl, rfl, rfl, rfl, rfl, rfl⟩
    · exact Planned.refl h
  have hcachable := handleCachable_planned hplanned.headers lib env mtime
  have hboth := hplanned.trans hcachable
  generalize con'.handleCachable lib env mtime = r at hcachable hboth ⊢
  obtain ⟨r, con₁⟩ := r
  dsimp only at hcachable hboth ⊢
  cases r with
  | finished =>
    obtain ⟨headers, hrun₁, hfields, -⟩ :=
      encodingHeader_spec hK hnames hboth.headers (isCStr_encodingName hname)
    obtain ⟨con₂, hrun₂, h₂⟩ := overwriteHeader_planned hK hnames hnames.type (by decide)
      (show ResponseFields K (con₁.setHeaders headers).response.headers from hfields)
      sce.contentType.constBufLen
    obtain ⟨con₃, hrun₃, h₃⟩ := overwriteHeader_planned hK hnames hnames.modified (by decide)
      h₂.headers mtime.constBufLen
    obtain ⟨con₄, hrun₄, h₄⟩ := etagHeader_planned hK hnames h₃.headers sce
    refine ⟨.done .finished srv con₄, ?_, .done ?_ ?_ fun hr => nomatch hr⟩
    · simp only [hrun₁, hrun₂, hrun₃, hrun₄, Option.bind_eq_bind, Option.bind_some]
    · rw [h₄.queue, h₃.queue, h₂.queue]
      exact hboth.queue
    · rw [h₄.finished, h₃.finished, h₂.finished]
      exact hboth.finished
  | _ => exact ⟨_, rfl, .deflate hboth hentry hname⟩

theorem originalValidators_good (lib : TimeLib) (conf : CompressConf) (env : CompressEnv)
    (hK : PreorderOn bufferCaselessCompare K)
    (hnames : CompressNames K) (h : ResponseFields K con.response.headers) {srv : Server}
    {times : List Int} (hcache : CacheAfter times srv.mtimeCache)
    (htime : IsTimeT sce.st.stMtime) (hentry : env.entry = some sce) {accepted : Nat}
    (hmatched : accepted &&& allowedEncodings conf.encodings ≠ 0) :
    ∃ plan, originalValidators lib env srv con sce
      (accepted &&& allowedEncodings conf.encodings) = some plan ∧ GoodPlan K env con plan := by
  obtain ⟨cache, mtime, hget, -, -⟩ := strftimeCacheGet_after hcache htime
  unfold originalValidators
  rw [hget, Option.bind_eq_bind, Option.bind_some]
  dsimp only
  split
  · generalize hcon' : ({ con with etag := etagMutate con.etag sce.etag } : BackendConnection) = con'
    have hplanned : Planned K con con' := by
      rw [← hcon']
      exact ⟨h, fun _ => Iff.rfl, rfl, rfl, rfl, rfl, rfl, rfl⟩
    have hcachable := handleCachable_planned hplanned.headers lib env mtime
    have hboth := hplanned.trans hcachable
    generalize con'.handleCachable lib env mtime = r at hcachable hboth ⊢
    obtain ⟨r, con₁⟩ := r
    dsimp only at hcachable hboth ⊢
    have hgoOn := compressedValidators_good lib conf env sce hK
      hnames hboth.headers { srv with mtimeCache := cache } hentry hmatched mtime
    cases r with
    | finished =>
      obtain ⟨con₂, hrun₂, h₂⟩ := overwriteHeader_planned hK hnames hnames.type (by decide)
        hboth.headers sce.contentType.constBufLen
      obtain ⟨con₃, hrun₃, h₃⟩ := overwriteHeader_planned hK hnames hnames.modified (by decide)
        h₂.headers mtime.constBufLen
      obtain ⟨con₄, hrun₄, h₄⟩ := overwriteHeader_planned hK hnames hnames.etag (by decide)
        h₃.headers con₃.etag.constBufLen
      refine ⟨.done .finished { srv with mtimeCache := cache } con₄, ?_,
        .done ?_ ?_ fun hr => nomatch hr⟩
      · simp only [hrun₂, hrun₃, hrun₄, Option.bind_eq_bind, Option.bind_some]
      · rw [h₄.queue, h₃.queue, h₂.queue]
        exact hboth.queue
      · rw [h₄.finished, h₃.finished, h₂.finished]
        exact hboth.finished
    | _ =>
      obtain ⟨plan, hrun, hgood⟩ := hgoOn
      exact ⟨plan, hrun, hgood.mono hboth⟩
  · exact compressedValidators_good lib conf env sce hK hnames h { srv with mtimeCache := cache }
      hentry hmatched mtime

/-- The loop over the types. By induction on the settings: what is inserted is only `Vary`. -/
theorem matchEncodings_spec (conf : CompressConf) (sce : StatCacheEntry)
    (hK : PreorderOn bufferCaselessCompare K) (hnames : CompressNames K)
    (contentType : Option Buffer) (entries : List (Option DataString)) :
    ∀ {con : BackendConnection}, ResponseFields K con.response.headers →
      ResponseFields K con.request.headers →
        ∃ matched con', matchEncodings conf sce contentType entries con = some (matched, con') ∧
          Planned K con con' ∧ ∀ m, matched = some m → ∃ accepted,
            m = accepted &&& allowedEncodings conf.encodings ∧ m ≠ 0 := by
  induction entries with
  | nil => exact fun h _ => ⟨none, _, rfl, Planned.refl h, fun m hm => nomatch hm⟩
  | cons entry entries ih =>
    intro con h hrequest
    cases entry with
    | none => exact ⟨none, _, rfl, Planned.refl h, fun m hm => nomatch hm⟩
    | some compressDs =>
      unfold matchEncodings
      split
      · obtain ⟨headers, hrun, hfields, hother⟩ := responseHeaderInsert_other hK hnames.vary h
          (some (ascii "Accept-Encoding"))
        have hplanned : Planned K con (con.setHeaders headers) :=
          ⟨hfields, hother _ hnames.encoding (by decide), rfl, rfl, rfl, rfl, rfl, rfl⟩
        have hrest := ih
          (show ResponseFields K (con.setHeaders headers).response.headers from hfields) hrequest
        rw [hrun, Option.bind_eq_bind, Option.bind_some]
        obtain ⟨hget, -⟩ | ⟨ndx, ds, hget, -, -⟩ := arrayGetElement_field hK hnames.accept hrequest
        · have hget' : arrayGetElement (con.setHeaders headers).request.headers
            (ascii "Accept-Encoding") = some none := hget
          obtain ⟨matched, con', hloop, hplanned', hmatched⟩ := hrest
          refine ⟨matched, con', ?_, hplanned.trans hplanned', hmatched⟩
          simp only [hget', Option.bind_eq_bind, Option.bind_some, hloop]
        · have hget' : arrayGetElement (con.setHeaders headers).request.headers
            (ascii "Accept-Encoding") = some (some (ndx, ds)) := hget
          by_cases hzero : acceptedEncodings ds.value.str &&& allowedEncodings conf.encodings = 0
          · obtain ⟨matched, con', hloop, hplanned', hmatched⟩ := hrest
            refine ⟨matched, con', ?_, hplanned.trans hplanned', hmatched⟩
            simp only [hget', Option.bind_eq_bind, Option.bind_some, if_pos hzero, hloop]
          · refine ⟨some (acceptedEncodings ds.value.str &&& allowedEncodings conf.encodings),
              con.setHeaders headers, ?_, hplanned, fun m hm => ?_⟩
            · simp only [hget', Option.bind_eq_bind, Option.bind_some, if_neg hzero]
            · obtain rfl := Option.some.inj hm
              exact ⟨_, rfl, hzero⟩
      · exact ih h hrequest

/-- **The plan**: nothing of the answer is begun, or the file is to be compressed. -/
theorem compressPlan_good (lib : TimeLib) (conf : CompressConf) (env : CompressEnv)
    (hK : PreorderOn bufferCaselessCompare K) (hnames : CompressNames K)
    (h : ResponseFields K con.response.headers) (hrequest : ResponseFields K con.request.headers)
    {srv : Server} {times : List Int} (hcache : CacheAfter times srv.mtimeCache)
    (htime : ∀ sce, env.entry = some sce → IsTimeT sce.st.stMtime) :
    ∃ plan, compressPlan lib conf env srv con = some plan ∧ GoodPlan K env con plan := by
  have hchecks : (∃ r con', compressChecks conf env con = .error (r, con') ∧
      con'.writeQueue = con.writeQueue ∧ con'.fileFinished = con.fileFinished ∧
        (r = .goOn → con' = con)) ∨
      ∃ sce, compressChecks conf env con = .ok sce ∧ env.entry = some sce := by
    unfold compressChecks
    split
    · exact Or.inl ⟨_, _, rfl, rfl, rfl, fun _ => rfl⟩
    split
    · exact Or.inl ⟨_, _, rfl, rfl, rfl, fun _ => rfl⟩
    split
    · exact Or.inl ⟨_, _, rfl, rfl, rfl, fun _ => rfl⟩
    cases hentry : env.entry with
    | none => exact Or.inl ⟨_, _, rfl, rfl, rfl, fun hr => nomatch hr⟩
    | some sce =>
      dsimp only
      split
      · exact Or.inl ⟨_, _, rfl, rfl, rfl, fun _ => rfl⟩
      split
      · exact Or.inl ⟨_, _, rfl, rfl, rfl, fun _ => rfl⟩
      split
      · exact Or.inl ⟨_, _, rfl, rfl, rfl, fun _ => rfl⟩
      split
      · exact Or.inl ⟨_, _, rfl, rfl, rfl, fun _ => rfl⟩
      · exact Or.inr ⟨sce, rfl, rfl⟩
  unfold compressPlan
  rcases hchecks with ⟨r, con', herror, hqueue, hfinished, hsame⟩ | ⟨sce, hok, hentry⟩
  · rw [herror]
    refine ⟨_, rfl, .done hqueue hfinished fun hr => ?_⟩
    rw [hsame hr]
    exact Planned.refl h
  · rw [hok]
    dsimp only
    have htype : Planned K con (plainContentType con sce).2 := by
      unfold plainContentType
      split
      · exact Planned.refl h
      · split
        · exact Planned.refl h
        · exact ⟨h, fun _ => Iff.rfl, rfl, rfl, rfl, rfl, rfl, rfl⟩
    generalize plainContentType con sce = typed at htype ⊢
    obtain ⟨contentType, con₁⟩ := typed
    dsimp only at htype ⊢
    obtain ⟨matched, con₂, hloop, hplanned, hmatched⟩ := matchEncodings_spec conf sce
      hK hnames contentType (conf.compress.data.take conf.compress.used) htype.headers
      (htype.request ▸ hrequest)
    rw [hloop, Option.bind_eq_bind, Option.bind_some]
    have hboth := htype.trans hplanned
    cases matched with
    | none => exact ⟨_, rfl, .done hboth.queue hboth.finished fun _ => hboth⟩
    | some m =>
      obtain ⟨accepted, rfl, hne⟩ := hmatched m rfl
      obtain ⟨plan, hrun, hgood⟩ := originalValidators_good lib conf env hK hnames
        hboth.headers hcache (htime sce hentry) hentry hne
      exact ⟨plan, hrun, hgood.mono hboth⟩

/-! ## The answer -/

theorem answerHeaders_spec (hK : PreorderOn bufferCaselessCompare K) (hnames : CompressNames K)
    (h : ResponseFields K con.response.headers) {type : Nat} {name : Bytes}
    (hname : encodingName type = some name) (sce : StatCacheEntry) (mtime : Buffer) :
    ∃ con', (do
      let con ← encodingHeader con (some name)
      let con ← con.overwriteHeader (ascii "Last-Modified") mtime.constBufLen
      let con ← etagHeader con sce
      con.overwriteHeader (ascii "Content-Type") sce.contentType.constBufLen) = some con' ∧
        ResponseFields K con'.response.headers ∧
        HeaderIs con'.response.headers (ascii "Content-Encoding") name ∧
        con'.writeQueue = con.writeQueue ∧ con'.fileFinished = con.fileFinished ∧
        con'.physicalPath = con.physicalPath := by
  obtain ⟨headers, hrun, hfields, hvalue⟩ :=
    encodingHeader_spec hK hnames h (isCStr_encodingName hname)
  obtain ⟨con', hlast, hplanned⟩ :=
    lastHeaders_planned hK hnames
      (show ResponseFields K (con.setHeaders headers).response.headers from hfields) sce mtime
  refine ⟨con', ?_, hplanned.headers, (hplanned.headerIs name).mpr hvalue, hplanned.queue,
    hplanned.finished, hplanned.path⟩
  rw [hrun, Option.bind_eq_bind, Option.bind_some]
  exact hlast

theorem headerIs_unique (hK : PreorderOn bufferCaselessCompare K) {headers : Arr DataString}
    (hkey : K (key ++ [0])) (h : ResponseFields K headers) {v w : Bytes}
    (hv : HeaderIs headers key v) (hw : HeaderIs headers key w) : v = w := by
  obtain ⟨ds, hfield, htext⟩ := hv
  obtain ⟨ds', hfield', htext'⟩ := hw
  obtain rfl := hfield.unique hK hkey h hfield'
  exact htext.text_eq.symm.trans htext'.text_eq

omit [Malloc] in
theorem encodingName_inj {type type' : Nat} {name : Bytes} (h : encodingName type = some name)
    (h' : encodingName type' = some name) : type = type' := by
  have hcases : ∀ {t : Nat}, encodingName t = some name →
      (t = HTTP_ACCEPT_ENCODING_GZIP ∧ name = ascii "gzip") ∨
      (t = HTTP_ACCEPT_ENCODING_DEFLATE ∧ name = ascii "deflate") ∨
      (t = HTTP_ACCEPT_ENCODING_BZIP2 ∧ name = ascii "bzip2") := by
    intro t ht
    unfold encodingName at ht
    split at ht
    · exact Or.inl ⟨‹_›, (Option.some.inj ht).symm⟩
    split at ht
    · exact Or.inr (Or.inl ⟨‹_›, (Option.some.inj ht).symm⟩)
    split at ht
    · exact Or.inr (Or.inr ⟨‹_›, (Option.some.inj ht).symm⟩)
    · cases ht
  rcases hcases h with ⟨rfl, rfl⟩ | ⟨rfl, rfl⟩ | ⟨rfl, rfl⟩
  all_goals
    rcases hcases h' with ⟨rfl, hname⟩ | ⟨rfl, hname⟩ | ⟨rfl, hname⟩
    all_goals first | rfl | exact absurd hname (by decide)

/-- The answer names the file that was asked for, without an encoding. -/
def NamesOriginal (con con' : BackendConnection) : Prop :=
  con'.physicalPath = con.physicalPath ∧
    ∀ ds, ¬ con'.response.headers.Field (ascii "Content-Encoding") ds

/-- The answer names a complete compressed copy, with its encoding. -/
def NamesCopy (codec : Codec) (env : CompressEnv) (s : CompressState) : Prop :=
  ∃ type name content, encodingName type = some name ∧
    s.files.content s.con.physicalPath.str = some content ∧ CompleteCopy codec env type content ∧
      HeaderIs s.con.response.headers (ascii "Content-Encoding") name

/-- Someone finishes the answer: another plugin sends the file that it names, or the copy is queued. -/
structure Finishable (codec : Codec) (env : CompressEnv) (con : BackendConnection) (r : HandlerT)
    (s : CompressState) : Prop where
  goOn : r = .goOn → s.con.writeQueue = con.writeQueue ∧ s.con.fileFinished = false ∧
    (NamesOriginal con s.con ∨ NamesCopy codec env s)
  queued : s.con.writeQueue ≠ con.writeQueue ∨ s.con.fileFinished = true → r = .finished ∧
    ∃ type mtime room, compressText codec type env.original mtime room = some s.b.bytes ∧
      ∀ fs, s.con.writeQueue.content fs = s.b.bytes

/-- The files in the cache are complete; a copy is only queued without a cache, and fits. -/
def CopyReady (codec : Codec) (conf : CompressConf) (env : CompressEnv) (s : CompressState)
    (sce : StatCacheEntry) (type : Nat) : Prop :=
  if useEtag sce = true ∧ conf.compressCacheDir.used ≠ 0 then
    ∀ content, CacheHit conf env s sce type content → CompleteCopy codec env type content
  else ∀ text, Queues codec env s sce type text →
    conf.compressCacheDir.used = 0 ∧ text.length < compressSize type s.b env.original.length

theorem cacheHit_congr {s : CompressState} (h : Planned K s.con con') {type : Nat}
    {content : Bytes} : CacheHit conf env { s with con := con' } sce type content ↔
      CacheHit conf env s sce type content := by
  have hfile : cacheFile conf { s with con := con' } sce type = cacheFile conf s sce type := by
    unfold cacheFile cachePath
    dsimp only
    rw [h.root, h.path, h.uri]
  constructor
  · intro hhit
    obtain ⟨ofn, hofn, hfound⟩ := hhit.name
    exact ⟨hhit.size, ⟨ofn, hfile.symm.trans hofn, hfound⟩, hhit.opened⟩
  · intro hhit
    obtain ⟨ofn, hofn, hfound⟩ := hhit.name
    exact ⟨hhit.size, ⟨ofn, hfile.trans hofn, hfound⟩, hhit.opened⟩

omit [Malloc] in
theorem CacheHit.unique [Malloc] {s : CompressState} {type : Nat} {content content' : Bytes}
    (h : CacheHit conf env s sce type content) (h' : CacheHit conf env s sce type content') :
    content = content' := by
  obtain ⟨ofn, hofn, -, hfound⟩ := h.name
  obtain ⟨ofn', hofn', -, hfound'⟩ := h'.name
  obtain rfl := Option.some.inj (hofn.symm.trans hofn')
  exact Option.some.inj (hfound.symm.trans hfound')

section Answer

variable {codec : Codec} {s s₁ : CompressState} {type : Nat} {name : Bytes}

theorem compressAnswer_failed
    (h : compressFile codec conf env s sce type = some (false, s₁)) (name : Option Bytes)
    (mtime : Buffer) :
    compressAnswer codec conf env s sce type name mtime = some (.goOn, s₁) := by
  unfold compressAnswer
  rw [h]
  rfl

theorem compressAnswer_made (hK : PreorderOn bufferCaselessCompare K) (hnames : CompressNames K)
    (h : compressFile codec conf env s sce type = some (true, s₁))
    (hfields : ResponseFields K s₁.con.response.headers) (hname : encodingName type = some name)
    (mtime : Buffer) :
    ∃ con, compressAnswer codec conf env s sce type (some name) mtime =
      some (if conf.compressCacheDir.used ≠ 0 then .goOn else .finished, { s₁ with con := con }) ∧
        ResponseFields K con.response.headers ∧
        HeaderIs con.response.headers (ascii "Content-Encoding") name ∧
        con.writeQueue = s₁.con.writeQueue ∧ con.fileFinished = s₁.con.fileFinished ∧
        con.physicalPath = s₁.con.physicalPath := by
  obtain ⟨con, hrun, hrest⟩ := answerHeaders_spec hK hnames hfields hname sce mtime
  refine ⟨con, ?_, hrest⟩
  unfold compressAnswer
  rw [h, Option.bind_eq_bind, Option.bind_some]
  dsimp only
  rw [if_neg (by simp)]
  have hbind := congrArg (Option.bind · fun con => some
    (if conf.compressCacheDir.used ≠ 0 then HandlerT.goOn else .finished,
      ({ s₁ with con := con } : CompressState))) hrun
  simpa only [Option.bind_eq_bind, Option.bind_assoc, Option.bind_some] using hbind

/-- The response is not begun: no body, no encoding; its document root is known. -/
structure Unbegun (con : BackendConnection) : Prop where
  finished : con.fileFinished = false
  plain : ∀ ds, ¬ con.response.headers.Field (ascii "Content-Encoding") ds
  queue : ∀ c ∈ con.writeQueue.first, c.type ≠ .unused ∧ c.mem.used < 2 ^ 32
  root : con.docRoot.used ≠ 0

theorem finishable_original (s₁ : CompressState) (hcon : Unbegun con) (h : Planned K con s₁.con)
    (r : HandlerT) :
    Finishable codec env con r s₁ := by
  refine ⟨fun _ => ⟨h.queue, h.finished.trans hcon.finished, Or.inl ⟨h.path, fun ds hds => ?_⟩⟩, ?_⟩
  · exact hcon.plain ds ((h.encoding ds).mp hds)
  · rintro (hqueue | hfinished)
    · exact absurd h.queue hqueue
    · rw [h.finished, hcon.finished] at hfinished
      cases hfinished

section Copies

variable (hK : PreorderOn bufferCaselessCompare K) (hnames : CompressNames K)
  (hcon : Unbegun s.con) (hplanned : Planned K s.con con') (hname : encodingName type = some name)

include hK hnames hcon hplanned hname

theorem compressAnswer_cached (hetag : useEtag sce = true) (hdir : conf.compressCacheDir.used ≠ 0)
    (mtime : Buffer) :
    (∃ r s', compressAnswer codec conf env { s with con := con' } sce type (some name) mtime =
      some (r, s') ∧ Finishable codec env s.con r s') ↔
    ∀ content, CacheHit conf env s sce type content → CompleteCopy codec env type content := by
  obtain ⟨ok, s₁, hrun, -, houtcome⟩ := deflateFileToFile_spec codec conf env
    { s with con := con' } sce type
    (by dsimp only; rw [hplanned.root]; exact hcon.root) hdir
  have hfile : compressFile codec conf env { s with con := con' } sce type = some (ok, s₁) := by
    unfold compressFile
    rw [if_pos ⟨hetag, hdir⟩, hrun]
  rcases houtcome with ⟨rfl, hsame, hmiss⟩ | ⟨rfl, path, content, hsame, hfound, hcopy⟩
  · refine iff_of_true ⟨.goOn, s₁, compressAnswer_failed hfile _ _, ?_⟩ fun content hhit => ?_
    · exact finishable_original s₁ hcon (by rw [hsame]; exact hplanned) _
    · exact absurd ((cacheHit_congr hplanned).mpr hhit) (hmiss content)
  · have hfields : ResponseFields K s₁.con.response.headers := hsame.symm ▸ hplanned.headers
    obtain ⟨con, hanswer, hfields', hvalue, hqueue, hfinished, hpath⟩ :=
      compressAnswer_made hK hnames hfile hfields hname mtime
    rw [if_pos hdir] at hanswer
    have hqueue' : con.writeQueue = s.con.writeQueue := by
      rw [hqueue, hsame]
      exact hplanned.queue
    have hfinished' : con.fileFinished = false := by
      rw [hfinished, hsame]
      exact hplanned.finished.trans hcon.finished
    have hfound' : s₁.files.content con.physicalPath.str = some content := by
      rw [hpath, hsame]
      exact hfound
    constructor
    · rintro ⟨r, s', hrun', hgood⟩ content' hhit
      obtain ⟨rfl, rfl⟩ := Prod.mk.inj (Option.some.inj (hanswer.symm.trans hrun'))
      have hhit' := (cacheHit_congr hplanned).mpr hhit
      obtain rfl : content' = content := by
        rcases hcopy with hthere | ⟨hmiss, -⟩
        · exact hhit'.unique hthere
        · exact absurd hhit' (hmiss content')
      obtain ⟨-, -, ⟨-, hplain⟩ | ⟨type', name', content, hname', hthere, hcomplete, hvalue'⟩⟩ :=
        hgood.goOn rfl
      · obtain ⟨ds, hds, -⟩ := hvalue
        exact absurd hds (hplain ds)
      · obtain rfl := headerIs_unique hK hnames.encoding hfields' hvalue hvalue'
        obtain rfl := encodingName_inj hname hname'
        obtain rfl := Option.some.inj (hfound'.symm.trans hthere)
        exact hcomplete
    · intro hready
      refine ⟨_, _, hanswer, fun _ => ⟨hqueue', hfinished', Or.inr ?_⟩, ?_⟩
      · refine ⟨type, name, content, hname, hfound', ?_, hvalue⟩
        rcases hcopy with hthere | ⟨-, hcomplete⟩
        · exact hready content ((cacheHit_congr hplanned).mp hthere)
        · exact hcomplete
      · rintro (hne | htrue)
        · exact absurd hqueue' hne
        · exact absurd (hfinished'.symm.trans htrue) (by simp)

theorem compressAnswer_queued (hbuffer : ¬ (useEtag sce = true ∧ conf.compressCacheDir.used ≠ 0))
    (mtime : Buffer) :
    (∃ r s', compressAnswer codec conf env { s with con := con' } sce type (some name) mtime =
      some (r, s') ∧ Finishable codec env s.con r s') ↔
    ∀ text, Queues codec env s sce type text → conf.compressCacheDir.used = 0 ∧
      text.length < compressSize type s.b env.original.length := by
  have hfile : compressFile codec conf env { s with con := con' } sce type =
      deflateFileToBuffer codec env { s with con := con' } sce type := by
    unfold compressFile
    rw [if_neg hbuffer]
  have hsame : ∀ {text : Bytes}, Queues codec env { s with con := con' } sce type text ↔
      Queues codec env s sce type text := fun {text} =>
    ⟨fun h => ⟨h.size, h.opened, h.mapped, h.text⟩, fun h => ⟨h.size, h.opened, h.mapped, h.text⟩⟩
  have hqueued : ∀ c ∈ con'.writeQueue.first, c.type ≠ .unused ∧ c.mem.used < 2 ^ 32 := by
    rw [hplanned.queue]
    exact hcon.queue
  rcases deflateFileToBuffer_spec codec env { s with con := con' } sce type hqueued with
    ⟨hnone, s₁, hrun, hcon₁⟩ | ⟨text, htext, hfull, hroom⟩
  · refine iff_of_true ⟨.goOn, s₁, compressAnswer_failed (hfile.trans hrun) _ _, ?_⟩ ?_
    · exact finishable_original s₁ hcon (by rw [hcon₁]; exact hplanned) _
    · exact fun text h => absurd (hsame.mpr h) (hnone text)
  · by_cases hfits : text.length < compressSize type s.b env.original.length
    · obtain ⟨s₁, cq, path, hrun, hbytes, hcon₁, hcontent⟩ := hroom hfits
      have hfields : ResponseFields K s₁.con.response.headers := hcon₁.symm ▸ hplanned.headers
      obtain ⟨con, hanswer, -, -, hqueue, hfinished, -⟩ :=
        compressAnswer_made hK hnames (hfile.trans hrun) hfields hname mtime
      have hfinished' : con.fileFinished = true := by
        rw [hfinished, hcon₁]
      constructor
      · rintro ⟨r, s', hrun', hgood⟩ text' htext'
        obtain ⟨rfl, rfl⟩ := Prod.mk.inj (Option.some.inj (hanswer.symm.trans hrun'))
        obtain rfl : text' = text :=
          Option.some.inj ((hsame.mpr htext').text.symm.trans htext.text)
        refine ⟨?_, hfits⟩
        by_contra hdir
        obtain ⟨-, hfalse, -⟩ := hgood.goOn (if_pos hdir)
        exact absurd (hfinished'.symm.trans hfalse) (by simp)
      · intro hready
        obtain ⟨hdir, -⟩ := hready text (hsame.mp htext)
        rw [if_neg (not_not.mpr hdir)] at hanswer
        refine ⟨_, _, hanswer, fun hr => (nomatch hr), fun _ => ⟨rfl, type, sce.st.stMtime,
          compressRoom type s.b env.original.length, ?_, ?_⟩⟩
        · rw [hbytes]
          exact htext.text
        · intro fs
          rw [hbytes, hqueue, hcon₁]
          exact hcontent fs
    · refine iff_of_false ?_ fun hready => hfits (hready text (hsame.mp htext)).2
      rintro ⟨r, s', hrun', -⟩
      unfold compressAnswer at hrun'
      rw [hfile, hfull (Nat.le_of_not_lt hfits)] at hrun'
      cases hrun'

end Copies

end Answer

variable {codec : Codec} {srv : Server} {s : CompressState} {times : List Int}

/-- **Someone finishes the answer** if and only if a request that is answered with a compressed copy
finds no incomplete one in the cache, or no cache is set. -/
theorem compressFinishable_iff (hK : PreorderOn bufferCaselessCompare K) (hnames : CompressNames K)
    (hfields : ResponseFields K s.con.response.headers)
    (hrequest : ResponseFields K s.con.request.headers) (hcon : Unbegun s.con)
    (hcache : CacheAfter times srv.mtimeCache)
    (htime : ∀ sce, env.entry = some sce → IsTimeT sce.st.stMtime) :
    (∃ r srv' s', modCompressPhysical lib codec conf env srv s = some (r, srv', s') ∧
      Finishable codec env s.con r s') ↔
    ∀ srv' con' sce type name mtime, compressPlan lib conf env srv s.con =
      some (.deflate srv' con' sce type name mtime) → CopyReady codec conf env s sce type := by
  obtain ⟨plan, hplan, hgood⟩ := compressPlan_good lib conf env hK hnames
    hfields hrequest hcache htime
  unfold modCompressPhysical
  rw [hplan, Option.bind_eq_bind, Option.bind_some]
  cases hgood with
  | @done r srv' con' queue finished goOn =>
    refine iff_of_true ⟨r, srv', { s with con := con' }, rfl, fun hr => ?_, ?_⟩ ?_
    · exact (finishable_original { s with con := con' } hcon (goOn hr) r).goOn hr
    · rintro (hne | htrue)
      · exact absurd queue hne
      · exact absurd (htrue.symm.trans (finished.trans hcon.finished)) (by simp)
    · intro srv₁ con₁ sce type name mtime heq
      cases heq
  | @deflate srv' con' sce type name mtime planned entry chosen =>
    have hanswer : (∃ r srv₁ s', (compressAnswer codec conf env { s with con := con' } sce type
          (some name) mtime).bind (fun p => some (p.1, srv', p.2)) = some (r, srv₁, s') ∧
          Finishable codec env s.con r s') ↔
        ∃ r s', compressAnswer codec conf env { s with con := con' } sce type (some name) mtime =
          some (r, s') ∧ Finishable codec env s.con r s' := by
      constructor
      · rintro ⟨r, srv₁, s', hrun, hgood⟩
        obtain ⟨⟨r₁, s₁⟩, hanswer, heq⟩ := Option.bind_eq_some_iff.mp hrun
        cases heq
        exact ⟨_, _, hanswer, hgood⟩
      · rintro ⟨r, s', hrun, hgood⟩
        refine ⟨r, srv', s', ?_, hgood⟩
        rw [hrun]
        rfl
    have hready : CopyReady codec conf env s sce type ↔ ∀ srv₁ con₁ sce₁ type₁ name₁ mtime₁,
        some (CompressPlan.deflate srv' con' sce type (some name) mtime) =
          some (.deflate srv₁ con₁ sce₁ type₁ name₁ mtime₁) →
            CopyReady codec conf env s sce₁ type₁ := by
      constructor
      · intro h srv₁ con₁ sce₁ type₁ name₁ mtime₁ heq
        cases heq
        exact h
      · exact fun h => h _ _ _ _ _ _ rfl
    refine hanswer.trans (Iff.trans ?_ hready)
    unfold CopyReady
    by_cases hetag : useEtag sce = true ∧ conf.compressCacheDir.used ≠ 0
    · rw [if_pos hetag]
      exact compressAnswer_cached hK hnames hcon planned chosen hetag.1 hetag.2 mtime
    · rw [if_neg hetag]
      exact compressAnswer_queued hK hnames hcon planned chosen hetag mtime

end Header

/-- A file of two hundred letters without an ETag, and everything succeeds. -/
def letterFile : CompressEnv where
  entry := some
    { name := ⟨ascii "/srv/a" ++ [0], 7, 1⟩
      etag := bufferInit
      st := { stMode := 0o100644, stIno := 1, stSize := 200, stMtime := 784111777 }
      statTs := 0
      isSymlink := false
      contentType := ⟨ascii "text/plain" ++ [0], 11, 1⟩ }
  conditions := ⟨none, none⟩
  followSymlink := true
  original := List.replicate 200 97
  mkdir _ := true
  openCache := true
  openFile := true
  mmap := true
  write := some
  unlink := true

def letterCodec : Codec where
  deflate _ room := if 6 ≤ room then some [75, 76, 28, 30, 0, 0] else none
  bzip2 _ _ := none
  crc32c _ := 1503326296
  deflate_fits := by
    intro start room out h
    split at h
    · obtain rfl := Option.some.inj h
      assumption
    · cases h
  bzip2_fits h := nomatch h

def gzipRequest : CompressState where
  con :=
    { fileRequest with
      request := { fileRequest.request with
        httpMethod := .get, headers := oneString (ascii "Accept-Encoding") (ascii "gzip") }
      requestContentQueue := chunkqueueInit
      fileStarted := false
      docRoot := ⟨ascii "/srv" ++ [0], 5, 1⟩ }
  ofn := bufferInit
  b := bufferInit
  files := ⟨[], []⟩

def compressTexts (dir : Buffer) : CompressConf :=
  ⟨dir, oneString [] (ascii "text/plain"), 0, []⟩

theorem compressFinishable_iff_uncached : letI : Malloc := zeroMalloc
    (∃ r srv' s', modCompressPhysical noTimes letterCodec (compressTexts bufferInit) letterFile
        (serverInit 0) gzipRequest = some (r, srv', s') ∧
      Finishable letterCodec letterFile gzipRequest.con r s') ↔
    ∀ srv' con' sce type name mtime, compressPlan noTimes (compressTexts bufferInit) letterFile
        (serverInit 0) gzipRequest.con = some (.deflate srv' con' sce type name mtime) →
      CopyReady letterCodec (compressTexts bufferInit) letterFile gzipRequest sce type := by
  let _ : Malloc := zeroMalloc
  have hnames : CompressNames fun s => ∀ c ∈ s, ¬ betweenByte c := by
    unfold betweenByte
    exact ⟨by decide, by decide, by decide, by decide, by decide, by decide⟩
  have hempty := responseFields_arrayInit fun s => ∀ c ∈ s, ¬ betweenByte c
  have hunbegun : Unbegun gzipRequest.con := by
    refine ⟨rfl, ?_, (by rintro _ ⟨⟩), (by rintro ⟨⟩)⟩
    rintro ds ⟨i, hlive, -⟩
    exact absurd hlive.1 (Nat.not_lt_zero i)
  have hcache : CacheAfter [] (serverInit 0).mtimeCache := ⟨_, .unused, rfl⟩
  refine compressFinishable_iff preorderOn_notBetween hnames hempty
    (responseFields_oneString hnames.accept _) hunbegun hcache fun sce hsce => ?_
  obtain rfl := Option.some.inj hsce
  exact ⟨by decide, by decide⟩

/-- With a cache directory the copy is queued all the same, and the request is passed on. -/
theorem not_compressFinishable_cached : letI : Malloc := zeroMalloc
    ¬ ∃ r srv' s', modCompressPhysical noTimes letterCodec
        (compressTexts ⟨ascii "/c" ++ [0], 3, 1⟩) letterFile (serverInit 0) gzipRequest =
          some (r, srv', s') ∧ Finishable letterCodec letterFile gzipRequest.con r s' := by
  let _ : Malloc := zeroMalloc
  have hpassed : (modCompressPhysical noTimes letterCodec
      (compressTexts ⟨ascii "/c" ++ [0], 3, 1⟩) letterFile (serverInit 0) gzipRequest).map
        (fun r => (r.1, r.2.2.con.fileFinished)) = some (.goOn, true) := by decide +kernel
  rintro ⟨r, srv', s', hrun, hgood⟩
  rw [hrun] at hpassed
  obtain ⟨hgoOn, hfinished⟩ := Prod.mk.inj (Option.some.inj hpassed)
  obtain ⟨-, hfalse, -⟩ := hgood.goOn hgoOn
  exact absurd (hfinished.symm.trans hfalse) (by simp)

end Lighttpd
