import Lighttpd.Autothumb.Output

/-!
# `mod_autothumb.c`: the subrequest handler

The handler looks for the picture in the store, makes it from the original when it is not there,
and stores it. The store plugins and the converter are parameters: what they answer is arbitrary.
Every way through the handler ends in one epilogue, which sends whatever the last size stands for.
-/

namespace Lighttpd

open CLib

/-- `result_t` -/
inductive ResultT where
  | unset
  | success
  | failed
  | exception
  deriving DecidableEq, Repr

/-- `store_plugin_t`, over a store with states `σ`. `fetchFile` is given what `file_buff` and
`file_size` hold, `saveSlaveFile` the array `last_filename` and the structure whose
`orig_filename` it may write to. A call that does not return has no value. -/
structure StorePlugin (σ : Type) where
  saveSlaveFile : σ → Option Bytes → Int → FileInfo → Block 128 →
    Option (σ × ResultT × FileInfo × Block 128)
  fetchFile : σ → Bytes → Option Bytes × Int → Option (σ × ResultT × Option Bytes × Int)
  getFileInfo : σ → Bytes → FileInfo → Option (σ × ResultT × FileInfo)

/-- `plugin_config`: the settings the handler reads. -/
structure PluginConfig where
  enable : Bool
  fileTypes : Arr DataString
  fileFormats : Arr DataString
  storeType : Buffer
  storeConf : Buffer

structure HandlerResidue where
  uri : Residue
  pastOrig : Bytes
  lastFilename : Block 128

/-- What the handler is linked with: its id, its settings, the two `STORE_INIT`, and what becomes
of an original and its size, with the size of the thumbnail before and after. -/
structure Handler (σ : Type) where
  id : Nat
  conf : PluginConfig
  fastdfsStoreInit : Bytes → σ → Option (σ × Option (StorePlugin σ))
  fileStoreInit : Bytes → σ → Option (σ × Option (StorePlugin σ))
  convertImage : Bytes → Int → FileInfo → Int → Option Bytes × Int
  residue : HandlerResidue

/-- What the block before the epilogue leaves: the store, the status, the result, the structure,
`file_data1` and `file_size1`. -/
structure Outcome (σ : Type) where
  store : σ
  httpStatus : Int
  result : HandlerT
  fi : FileInfo
  data : Option Bytes
  size : Int

section Operations

variable [Malloc] {σ : Type}

def isFiltered (id : Nat) (con : Connection) : Bool :=
  (con.mode ≠ DIRECT ∧ con.mode ≠ id) ∨ con.httpStatus ≠ 0 ∨ con.uriPath.used = 0 ∨
    con.physicalPath.used = 0 ∨ con.fileFinished = true ∨ con.request.httpMethod ≠ .get

def storeInit (h : Handler σ) (store : σ) : Option (σ × Option (StorePlugin σ)) :=
  if bufferIsEqualString h.conf.storeType (ascii "fastdfs") then
    h.fastdfsStoreInit h.conf.storeConf.str store
  else if bufferIsEqualString h.conf.storeType (ascii "file") then
    h.fileStoreInit h.conf.storeConf.str store
  else some (store, none)

/-- The format for the converter; `memcpy` copies it with its terminator. -/
def transferFormat (fileFormats : Arr DataString) (fi : FileInfo) : Option (ResultT × FileInfo) := do
  if fi.outerFormat.str [] = [] then some (.success, fi)
  else
    match ← arrayGetElement fileFormats (fi.outerFormat.str []) with
    | none => some (.failed, fi)
    | some (_, ds) => do
      let inner ← fi.innerFormat.store 0 ds.value.bytes
      some (.success, { fi with innerFormat := inner })

def needsConversion (fi : FileInfo) : Bool :=
  ¬(fi.rotateDegree = 0 ∧ fi.innerFormat.bytes[0]? = some 0 ∧ fi.quality = 0)

/-- The thumbnail and its size; `buf_size` is an `int`. -/
def getTransitionImageBlob (h : Handler σ) (fileBuf : Option Bytes) (bufSize thumbnailSize : Int)
    (fi : FileInfo) : Option Bytes × Int :=
  match fileBuf with
  | none => (none, thumbnailSize)
  | some buf =>
    if needsConversion fi then
      h.convertImage buf (Int32.ofInt bufSize).toInt fi thumbnailSize
    else (none, thumbnailSize)

/-- The thumbnail `data` goes to the store, and is asked for its time. -/
def saveThumbnail (h : Handler σ) (sp : StorePlugin σ) (store : σ) (fi : FileInfo)
    (data : Option Bytes) (size : Int) : Option (Outcome σ) :=
  match sp.saveSlaveFile store data size fi h.residue.lastFilename with
  | none => none
  | some (store, res, fi, lastFilename) =>
    if res ≠ .success then some ⟨store, 500, .finished, fi, data, size⟩
    else
      match sp.getFileInfo store (lastFilename.str []) fi with
      | none => none
      | some (store, _, fi) => some ⟨store, 0, .finished, fi, data, size⟩

/-- The thumbnail is made from the original `data2`. -/
def makeThumbnail (h : Handler σ) (sp : StorePlugin σ) (store : σ) (fi : FileInfo)
    (data2 : Option Bytes) (size2 size1 : Int) : Option (Outcome σ) :=
  match getTransitionImageBlob h data2 size2 size1 fi with
  | (none, size) => some ⟨store, 500, .finished, fi, none, size⟩
  | (some data, size) => saveThumbnail h sp store fi (some data) size

/-- The original is fetched; `data1` and `size1` are left from the first fetch. -/
def fetchOriginal (h : Handler σ) (sp : StorePlugin σ) (store : σ) (fi : FileInfo)
    (data1 : Option Bytes) (size1 : Int) : Option (Outcome σ) :=
  match sp.fetchFile store (fi.origFilename.str h.residue.pastOrig) (none, 0) with
  | none => none
  | some (store, res, data2, size2) =>
    if res ≠ .success then some ⟨store, 404, .finished, fi, data1, size1⟩
    else makeThumbnail h sp store fi data2 size2 size1

def fetchCurrent (h : Handler σ) (sp : StorePlugin σ) (store : σ) (fi : FileInfo) :
    Option (Outcome σ) :=
  let fullFilename := fi.fullFilename.str h.residue.uri.pastFull
  match sp.fetchFile store fullFilename (none, 0) with
  | none => none
  | some (store, res, data1, size1) =>
    if res = .success then
      match sp.getFileInfo store fullFilename fi with
      | none => none
      | some (store, _, fi) => some ⟨store, 0, .finished, fi, data1, size1⟩
    else fetchOriginal h sp store fi data1 size1

/-- The request as `parse_uri` takes it, whatever it returns, with the formats and the types that
are allowed: the structure, and whether the picture may be served. -/
def parseRequestUri (h : Handler σ) (uri : Bytes) : Option (Bool × FileInfo) :=
  match parseUri h.residue.uri uri fileInfoInit with
  | none => none
  | some (_, fi) =>
    match transferFormat h.conf.fileFormats fi with
    | none => none
    | some (res, fi) =>
      if res = .failed then some (false, fi)
      else
        match arrayGetElement h.conf.fileTypes (fi.fileExtension.str []) with
        | none => none
        | some found => some (found.isSome, fi)

/-- The `do { } while(0)` of the handler. -/
def subrequestBlock (h : Handler σ) (store : σ) (con : Connection) : Option (Outcome σ) :=
  match storeInit h store with
  | none => none
  | some (store, sp) =>
    if h.conf.enable = false then
      some ⟨store, con.httpStatus, .goOn, fileInfoInit, none, 0⟩
    else
      match sp with
      | none => some ⟨store, 500, .error, fileInfoInit, none, 0⟩
      | some sp =>
        match parseRequestUri h con.uriPath.str with
        | none => none
        | some (false, fi) => some ⟨store, 404, .finished, fi, none, 0⟩
        | some (true, fi) => fetchCurrent h sp store fi

/-- The epilogue: what there is goes out, and the connection is nobody's again. -/
def subrequestEpilogue (srv : Server) (con : Connection) (o : Outcome σ) :
    Option (Server × Connection) :=
  let con := { con with httpStatus := o.httpStatus }
  if o.size > 0 then
    match subrequestOutput srv con o.data o.size o.fi with
    | none => none
    | some (srv, con) => some (srv, { con with fileFinished := true, mode := DIRECT })
  else some (srv, { con with mode := DIRECT })

/-- `_mod_autothumb_subrequest` -/
def modAutothumbSubrequest (h : Handler σ) (store : σ) (srv : Server) (con : Connection) :
    Option (σ × Server × Connection × HandlerT) :=
  if isFiltered h.id con then some (store, srv, { con with mode := DIRECT }, .goOn)
  else
    match subrequestBlock h store con with
    | none => none
    | some o =>
      match subrequestEpilogue srv con o with
      | none => none
      | some (srv, con) => some (o.store, srv, con, o.result)

end Operations

/-! ## Consistent responses -/

theorem Queued.ne {old new : Chunkqueue} {image : Bytes} (h : Queued old new image) :
    new ≠ old := by
  rintro rfl
  obtain ⟨-, c, hfirst, -⟩ := h
  have := congrArg List.length hfirst
  simp at this

theorem forall_answer {α β γ δ : Type} {x : Option (α × β × γ × δ)} {a : α} {b : β} {c : γ} {d : δ}
    {P : α → β → γ → δ → Prop} (h : x = some (a, b, c, d)) :
    (∀ a b c d, x = some (a, b, c, d) → P a b c d) ↔ P a b c d := by
  constructor
  · intro hall
    exact hall a b c d h
  · intro hp a' b' c' d' h'
    rw [h] at h'
    cases h'
    exact hp

section Consistent

variable [Malloc] {σ : Type}

def servedImage (h : Handler σ) (store : σ) (con : Connection) : Option Bytes :=
  if isFiltered h.id con then none
  else (subrequestBlock h store con).bind fun o => o.data.map (·.take o.size.toNat)

/-- An error without a picture, or a picture without an error. -/
def Consistent (h : Handler σ) (store : σ) (con con' : Connection) : Prop :=
  (400 ≤ con'.httpStatus ∧ con'.writeQueue = con.writeQueue) ∨
  (con'.fileFinished = true ∧ con'.httpStatus = 0 ∧ ∃ image, servedImage h store con = some image ∧
    Queued con.writeQueue con'.writeQueue image)

/-- A converted picture is stored exactly if it is not empty. -/
def ThumbnailUsable (h : Handler σ) (sp : StorePlugin σ) (store : σ) (fi : FileInfo)
    (data2 : Option Bytes) (size2 size1 : Int) : Prop :=
  ∀ image size, getTransitionImageBlob h data2 size2 size1 fi = (some image, size) →
    ∀ store' res fi' last,
      sp.saveSlaveFile store (some image) size fi h.residue.lastFilename =
        some (store', res, fi', last) →
      (res = .success ↔ 0 < size)

/-- A missing original is reported with nothing left from the first fetch. -/
def OriginalUsable (h : Handler σ) (sp : StorePlugin σ) (store : σ) (fi : FileInfo)
    (data1 : Option Bytes) (size1 : Int) : Prop :=
  ∀ store' res data2 size2,
    sp.fetchFile store (fi.origFilename.str h.residue.pastOrig) (none, 0) =
      some (store', res, data2, size2) →
    if res = .success then ThumbnailUsable h sp store' fi data2 size2 size1
    else data1 = none ∨ size1 ≤ 0

def CurrentUsable (h : Handler σ) (sp : StorePlugin σ) (store : σ) (fi : FileInfo) : Prop :=
  ∀ store' res data size,
    sp.fetchFile store (fi.fullFilename.str h.residue.uri.pastFull) (none, 0) =
      some (store', res, data, size) →
    if res = .success then data ≠ none ∧ 0 < size else OriginalUsable h sp store' fi data size

/-- A request that is left alone has an error already; any other one meets an enabled handler, and
answers of the store and the converter that it can use. -/
def AnswersUsable (h : Handler σ) (store : σ) (con : Connection) : Prop :=
  if isFiltered h.id con then 400 ≤ con.httpStatus
  else h.conf.enable = true ∧ ∀ store' sp fi, storeInit h store = some (store', some sp) →
    parseRequestUri h con.uriPath.str = some (true, fi) → CurrentUsable h sp store' fi

def Outcome.Usable (o : Outcome σ) : Prop :=
  (400 ≤ o.httpStatus ∧ (o.data = none ∨ o.size ≤ 0)) ∨
  (o.httpStatus = 0 ∧ o.data ≠ none ∧ 0 < o.size)

theorem subrequestEpilogue_spec {srv srv' : Server} {con con' : Connection} {o : Outcome σ}
    (h : subrequestEpilogue srv con o = some (srv', con')) :
    con'.httpStatus = o.httpStatus ∧
      if 0 < o.size then con'.fileFinished = true ∧
        (o.data = none → con'.writeQueue = con.writeQueue) ∧
        (∀ image, o.data = some image →
          Queued con.writeQueue con'.writeQueue (image.take o.size.toNat))
      else con'.fileFinished = con.fileFinished ∧ con'.writeQueue = con.writeQueue := by
  unfold subrequestEpilogue at h
  simp only [gt_iff_lt] at h
  split at h
  · next hsize =>
    split at h
    · cases h
    · next srv1 con1 hout =>
      cases h
      obtain ⟨hstatus, hqueue⟩ := subrequestOutput_spec hsize hout
      rw [if_pos hsize]
      exact ⟨hstatus, rfl, hqueue⟩
  · next hsize =>
    cases h
    rw [if_neg hsize]
    exact ⟨rfl, rfl, rfl⟩

theorem consistent_iff_outcome {h : Handler σ} {store : σ} {srv srv' : Server}
    {con con' : Connection} {o : Outcome σ} (hfilter : isFiltered h.id con = false)
    (hblock : subrequestBlock h store con = some o)
    (hout : subrequestEpilogue srv con o = some (srv', con')) :
    Consistent h store con con' ↔ o.Usable := by
  obtain ⟨hstatus, hrest⟩ := subrequestEpilogue_spec hout
  have hserved : servedImage h store con = o.data.map (·.take o.size.toNat) := by
    simp [servedImage, hfilter, hblock]
  have hunfinished : con.fileFinished = false := by
    simp only [isFiltered, decide_eq_false_iff_not, not_or] at hfilter
    simpa using hfilter.2.2.2.2.1
  unfold Consistent Outcome.Usable
  rw [hserved, hstatus]
  by_cases hsize : 0 < o.size
  · rw [if_pos hsize] at hrest
    obtain ⟨hfinished, hnone, hsome⟩ := hrest
    cases hdata : o.data with
    | none => simp [hnone hdata]
    | some image =>
      have hqueue := hsome image hdata
      simp [hqueue, hqueue.ne, hfinished, hsize, Int.not_le.mpr hsize]
  · rw [if_neg hsize] at hrest
    obtain ⟨hfinished, hqueue⟩ := hrest
    simp [hqueue, hfinished, hunfinished, hsize, Int.not_lt.mp hsize]

section Block

variable {h : Handler σ} {sp : StorePlugin σ} {store : σ} {fi : FileInfo} {data1 data2 : Option Bytes}
  {size1 size2 : Int} {o : Outcome σ}

omit [Malloc] in
theorem makeThumbnail_usable (ho : makeThumbnail h sp store fi data2 size2 size1 = some o) :
    o.Usable ↔ ThumbnailUsable h sp store fi data2 size2 size1 := by
  unfold makeThumbnail saveThumbnail at ho
  split at ho
  · next size hconv =>
    cases ho
    simp [Outcome.Usable, ThumbnailUsable, hconv]
  · next image size hconv =>
    split at ho
    · cases ho
    · next store' res fi' last hsave =>
      have husable : ThumbnailUsable h sp store fi data2 size2 size1 ↔
          (res = .success ↔ 0 < size) := by
        unfold ThumbnailUsable
        constructor
        · intro hall
          exact (forall_answer hsave).mp (hall image size hconv)
        · intro hres image' size' hconv'
          rw [hconv] at hconv'
          cases hconv'
          exact (forall_answer hsave).mpr hres
      rw [husable]
      split at ho
      · next hres =>
        cases ho
        simp [Outcome.Usable, hres]
      · next hres =>
        split at ho
        · cases ho
        · cases ho
          simp [Outcome.Usable, not_not.mp hres]

omit [Malloc] in
theorem fetchOriginal_usable (ho : fetchOriginal h sp store fi data1 size1 = some o) :
    o.Usable ↔ OriginalUsable h sp store fi data1 size1 := by
  unfold fetchOriginal at ho
  unfold OriginalUsable
  split at ho
  · cases ho
  · next store' res data2 size2 hfetch =>
    rw [forall_answer hfetch]
    split at ho
    · next hres =>
      cases ho
      simp [Outcome.Usable, hres]
    · next hres =>
      rw [if_pos (not_not.mp hres)]
      exact makeThumbnail_usable ho

omit [Malloc] in
theorem fetchCurrent_usable (ho : fetchCurrent h sp store fi = some o) :
    o.Usable ↔ CurrentUsable h sp store fi := by
  unfold fetchCurrent at ho
  unfold CurrentUsable
  simp only at ho
  split at ho
  · cases ho
  · next store' res data size hfetch =>
    rw [forall_answer hfetch]
    split at ho
    · next hres =>
      rw [if_pos hres]
      split at ho
      · cases ho
      · cases ho
        simp [Outcome.Usable]
    · next hres =>
      rw [if_neg hres]
      exact fetchOriginal_usable ho

theorem subrequestBlock_usable {con : Connection} (hfilter : isFiltered h.id con = false)
    (ho : subrequestBlock h store con = some o) :
    o.Usable ↔ AnswersUsable h store con := by
  have hstatus : con.httpStatus = 0 := by
    simp only [isFiltered, decide_eq_false_iff_not, not_or] at hfilter
    simpa using hfilter.2.1
  unfold AnswersUsable
  rw [hfilter, if_neg (by decide)]
  unfold subrequestBlock at ho
  split at ho
  · cases ho
  · next store' sp hinit =>
    split at ho
    · next henable =>
      cases ho
      simp [Outcome.Usable, henable, hstatus]
    · next henable =>
      have henable' : h.conf.enable = true := by simpa using henable
      cases sp with
      | none =>
        cases ho
        simp [Outcome.Usable, henable', hinit]
      | some sp =>
        simp only at ho
        split at ho
        · cases ho
        · next fi hparse =>
          cases ho
          simp [Outcome.Usable, henable', hparse]
        · next fi hparse =>
          simp only [henable', true_and, hinit, hparse, Option.some.injEq, Prod.mk.injEq]
          constructor
          · rintro husable _ _ _ ⟨rfl, rfl⟩ rfl
            exact (fetchCurrent_usable ho).mp husable
          · intro hall
            exact (fetchCurrent_usable ho).mpr (hall store' sp fi ⟨rfl, rfl⟩ rfl)

end Block

/-- **The response is consistent** exactly if the answers of the store and the converter are ones
the handler can use. -/
theorem consistent_iff_usable (h : Handler σ) (store : σ) (srv : Server) (con : Connection)
    (r : σ × Server × Connection × HandlerT)
    (hrun : modAutothumbSubrequest h store srv con = some r) :
    Consistent h store con r.2.2.1 ↔ AnswersUsable h store con := by
  unfold modAutothumbSubrequest at hrun
  split at hrun
  · next hfilter =>
    cases hrun
    simp [Consistent, AnswersUsable, servedImage, hfilter]
  · next hfilter =>
    have hfilter' : isFiltered h.id con = false := by simpa using hfilter
    split at hrun
    · cases hrun
    · next o hblock =>
      split at hrun
      · cases hrun
      · next srv' con' hout =>
        cases hrun
        rw [consistent_iff_outcome hfilter' hblock hout]
        exact subrequestBlock_usable hfilter' hblock

end Consistent

/-! ## An empty picture -/

def configEntries [Malloc] (entries : List (Bytes × Bytes)) : Arr DataString :=
  entries.foldl (fun a e => (arrayInsertUnique a
    { dataStringInit 0 with
      key := bufferCopyString bufferInit (some e.1)
      value := bufferCopyString bufferInit (some e.2) }).getD a) arrayInit

def emptyFileStore : StorePlugin Unit where
  saveSlaveFile _ _ _ fi last := some ((), .failed, fi, last)
  fetchFile _ _ _ := some ((), .success, some [], 0)
  getFileInfo _ _ fi := some ((), .success, fi)

/-- A handler for `jpg` with one store. -/
def handlerWith [Malloc] {σ : Type} (sp : StorePlugin σ) (formats : Arr DataString)
    (convert : Bytes → Int → FileInfo → Int → Option Bytes × Int) : Handler σ where
  id := 1
  conf :=
    { enable := true, fileTypes := configEntries [(ascii "jpg", [])], fileFormats := formats
      storeType := bufferCopyString bufferInit (some (ascii "file")), storeConf := bufferInit }
  fastdfsStoreInit _ store := some (store, none)
  fileStoreInit _ store := some (store, some sp)
  convertImage := convert
  residue := { uri := ⟨.zero _, .zero _, [], []⟩, pastOrig := [], lastFilename := .zero _ }

/-- A `GET` request for a path. -/
def pictureRequest [Malloc] (path : Bytes) : Connection :=
  { emptyConnection with
    uriPath := bufferCopyString bufferInit (some path)
    physicalPath := bufferCopyString bufferInit (some path)
    request := { emptyConnection.request with httpMethod := .get } }

def emptyFileHandler [Malloc] : Handler Unit :=
  handlerWith emptyFileStore arrayInit fun _ _ _ size => (none, size)

def emptyFileRun [Malloc] : Option (Unit × Server × Connection × HandlerT) :=
  modAutothumbSubrequest emptyFileHandler () (serverInit 0) (pictureRequest (ascii "/a.jpg"))

theorem consistent_iff_usable_empty_file :
    @Consistent zeroMalloc _ (@emptyFileHandler zeroMalloc) ()
        (@pictureRequest zeroMalloc (ascii "/a.jpg"))
        ((@emptyFileRun zeroMalloc).get (by decide +kernel)).2.2.1 ↔
      @AnswersUsable zeroMalloc _ (@emptyFileHandler zeroMalloc) ()
        (@pictureRequest zeroMalloc (ascii "/a.jpg")) :=
  @consistent_iff_usable zeroMalloc _ (@emptyFileHandler zeroMalloc) () (serverInit 0)
    (@pictureRequest zeroMalloc (ascii "/a.jpg"))
    ((@emptyFileRun zeroMalloc).get (by decide +kernel)) (Option.some_get _).symm

/-- An empty picture is answered with neither an error nor a picture. -/
theorem not_consistent_empty_file : ¬ ∀ (m : Malloc) (h : Handler Unit) (srv : Server)
    (con : Connection) (r : Unit × Server × Connection × HandlerT),
    @modAutothumbSubrequest m _ h () srv con = some r → @Consistent m _ h () con r.2.2.1 := by
  intro h
  rcases h zeroMalloc (@emptyFileHandler zeroMalloc) (serverInit 0)
    (@pictureRequest zeroMalloc (ascii "/a.jpg"))
    ((@emptyFileRun zeroMalloc).get (by decide +kernel)) (Option.some_get _).symm with
    ⟨hstatus, -⟩ | ⟨hfinished, -⟩
  · revert hstatus
    decide +kernel
  · revert hfinished
    decide +kernel

end Lighttpd
