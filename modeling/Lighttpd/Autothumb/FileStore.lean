import Lighttpd.Autothumb.Subrequest
import Lighttpd.Autothumb.UriNames

/-!
# `store_plugin/file_store.c`: pictures in files

The file system is a map from paths to contents and modification times. A thumbnail is served
twice: by the request that makes it, and from its file by the next one. The first of them asks for
the time of the file with a name that has the root of the store in it already.
-/

namespace Lighttpd

open CLib

/-- A file that is written gets the time `now`; `writable` is where `fopen` can create files. -/
structure FileSystem where
  files : Bytes → Option (Bytes × Int)
  writable : Bytes → Bool
  now : Int

def FileSystem.write (fs : FileSystem) (path content : Bytes) : FileSystem :=
  { fs with files := fun p => if p = path then some (content, fs.now) else fs.files p }

def FileSystem.stamp (fs : FileSystem) (path : Bytes) : Int :=
  match fs.files path with
  | some (_, mtime) => mtime
  | none => 0

/-- A text in a local array of `n` characters. -/
def localText (n : Nat) (s : Bytes) : Option Bytes := if s.length < n then some s else none

/-- `"%s/%s"` -/
def filePath (root id : Bytes) : Bytes := root ++ ascii "/" ++ id

section Operations

variable (root : Bytes)

def fileFetchFile (fs : FileSystem) (fileId : Bytes) (out : Option Bytes × Int) :
    Option (FileSystem × ResultT × Option Bytes × Int) :=
  match localText 256 (filePath root fileId) with
  | none => none
  | some filename =>
    match fs.files filename with
    | some (content, _) => some (fs, .success, some content, content.length)
    | none => some (fs, .failed, out.1, out.2)

def fileGetFileInfo (fs : FileSystem) (fileId : Bytes) (fi : FileInfo) :
    Option (FileSystem × ResultT × FileInfo) :=
  match localText 256 (filePath root fileId) with
  | none => none
  | some filename =>
    match fs.files filename with
    | some (_, mtime) => some (fs, .success, { fi with createTimestamp := mtime })
    | none => some (fs, .failed, fi)

/-- `fopen`, `fwrite`, `fclose`; a negative size is an enormous one for `fwrite`. -/
def writeFile (fs : FileSystem) (filename : Bytes) (fileBuff : Option Bytes) (fileSize : Int) :
    Option (FileSystem × ResultT) :=
  if fs.writable filename = false then some (fs, .failed)
  else if fileSize < 0 then none
  else
    match readBytes fileBuff fileSize.toNat with
    | some (some data) => some (fs.write filename data, .success)
    | _ => none

/-- `orig_filename` loses its extension, also for the caller. -/
def fileSaveSlaveFile (fs : FileSystem) (fileBuff : Option Bytes) (fileSize : Int) (fi : FileInfo)
    (lastFilename : Block 128) : Option (FileSystem × ResultT × FileInfo × Block 128) :=
  match strrchr (fi.origFilename.str []) 46 with
  | none => some (fs, .failed, fi, lastFilename)
  | some dot => do
    let orig ← fi.origFilename.store dot [0]
    let lastFilename ← lastFilename.strcpy (filePath root
      (orig.str [] ++ fi.suffix.str [] ++ ascii "." ++ fi.fileExtension.str []))
    let (fs, res) ← writeFile fs (lastFilename.str []) fileBuff fileSize
    some (fs, res, { fi with origFilename := orig }, lastFilename)

def fileStorePlugin : StorePlugin FileSystem where
  saveSlaveFile := fileSaveSlaveFile root
  fetchFile := fileFetchFile root
  getFileInfo := fileGetFileInfo root

end Operations

/-- `fgets`: the first line with its newline, at most `n - 1` characters; `none` at the end. -/
def fgets (n : Nat) (content : Bytes) : Option Bytes :=
  if content = [] then none
  else
    let line := content.take (n - 1)
    match strchr line 10 with
    | some i => some (line.take (i + 1))
    | none => some line

/-- `file_client_init`: the root of the store. A missing file is closed all the same. -/
def storeRoot (fs : FileSystem) (cfg : Bytes) : Option (Option Bytes) :=
  match fs.files cfg with
  | none => none
  | some (content, _) => some ((fgets 128 content).map cstr)

def fileStoreInit (cfg : Bytes) (fs : FileSystem) :
    Option (FileSystem × Option (StorePlugin FileSystem)) :=
  match storeRoot fs cfg with
  | none => none
  | some root => some (fs, root.map fileStorePlugin)

section Responses

variable [Malloc]

structure ServedValues where
  createTimestamp : Int
  lastModified : Option Bytes
  expires : Option Bytes
  body : Option Bytes
  deriving DecidableEq

def servedValues (h : Handler FileSystem) (fs : FileSystem) (srv : Server) (con : Connection) :
    Option ServedValues := do
  let o ← subrequestBlock h fs con
  let (_, mtime) ← lastModified srv con o.fi
  let expire ← expires o.fi
  some
    { createTimestamp := o.fi.createTimestamp
      lastModified := mtime.constBufLen
      expires := expire.constBufLen
      body := servedImage h fs con }

def SameResponse (h : Handler FileSystem) (fs fs' : FileSystem) (srv srv' : Server)
    (con con' : Connection) : Prop :=
  ∃ v, servedValues h fs srv con = some v ∧ servedValues h fs' srv' con' = some v

structure UsesFileStore (h : Handler FileSystem) : Prop where
  notFastdfs : bufferIsEqualString h.conf.storeType (ascii "fastdfs") = false
  file : bufferIsEqualString h.conf.storeType (ascii "file") = true
  init : h.fileStoreInit = fileStoreInit

def thumbnailName (h : Handler FileSystem) (con : Connection) : Option Bytes :=
  (parseRequestUri h con.uriPath.str).map fun p => p.2.fullFilename.str h.residue.uri.pastFull

end Responses

/-! ## The handler with the file store -/

theorem transferFormat_spec [Malloc] {formats : Arr DataString} {fi fi' : FileInfo} {res : ResultT}
    (h : transferFormat formats fi = some (res, fi')) :
    ∃ inner, fi' = { fi with innerFormat := inner } ∧
      (fi.outerFormat.str [] = [] → inner = fi.innerFormat) := by
  unfold transferFormat at h
  split at h
  · cases h
    exact ⟨fi.innerFormat, rfl, fun _ => rfl⟩
  · next hne =>
    obtain ⟨found, -, h⟩ := Option.bind_eq_some_iff.mp h
    cases found with
    | none =>
      cases h
      exact ⟨fi.innerFormat, rfl, fun _ => rfl⟩
    | some el =>
      obtain ⟨inner, -, h⟩ := Option.bind_eq_some_iff.mp h
      cases h
      exact ⟨inner, rfl, fun hnil => absurd hnil hne⟩

section Parsed

variable [Malloc] {h : Handler FileSystem} {uri : Bytes} {fi : FileInfo}

theorem parseRequestUri_spec (hparse : parseRequestUri h uri = some (true, fi)) :
    ∃ ret fi0 inner, parseUri h.residue.uri uri fileInfoInit = some (ret, fi0) ∧
      fi = { fi0 with innerFormat := inner } ∧
      (fi0.outerFormat.str [] = [] → inner = fi0.innerFormat) := by
  unfold parseRequestUri at hparse
  split at hparse
  · cases hparse
  · next ret fi0 h0 =>
    split at hparse
    · cases hparse
    · next res fi1 h1 =>
      obtain ⟨inner, rfl, hinner⟩ := transferFormat_spec h1
      split at hparse
      · cases hparse
      · split at hparse
        · cases hparse
        · simp only [Option.some.injEq, Prod.mk.injEq] at hparse
          obtain ⟨-, rfl⟩ := hparse
          exact ⟨ret, fi0, inner, h0, rfl, hinner⟩

theorem accepted_of_needsConversion (huri : IsCStr uri)
    (hparse : parseRequestUri h uri = some (true, fi)) (hneeds : needsConversion fi = true) :
    fi.createTimestamp = 0 ∧ ∃ stem ext o q r, 46 ∉ ext ∧
      fi.fullFilename.str [] = stem ++ suffixText o q r ++ ascii "." ++ ext ∧
      fi.origFilename.str [] = stem ++ ascii "." ++ ext ∧
      fi.suffix.str [] = suffixText o q r ∧ fi.fileExtension.str [] = ext := by
  obtain ⟨ret, fi0, inner, h0, rfl, hinner⟩ := parseRequestUri_spec hparse
  obtain ⟨hstamp, hrefused⟩ := parseUri_leaves h0
  refine ⟨hstamp, ?_⟩
  by_cases hret : ret = 0
  · subst hret
    obtain ⟨ext, o, q, r, hacc⟩ := accepted_of_run huri h0
    exact ⟨uriStem uri, ext, o, q, r, hacc.extension, hacc.named.full, hacc.named.orig,
      hacc.named.suffix, hacc.named.extension⟩
  · exfalso
    obtain ⟨hquality, hdegree, houter, hinit⟩ := hrefused hret
    have hinner' := hinner (by rw [houter]; exact Block.str_zero_nil)
    rw [hinit] at hinner'
    simp only [needsConversion, hinner', hquality, hdegree] at hneeds
    revert hneeds
    decide

end Parsed

theorem localText_of_lt {n : Nat} {s : Bytes} (h : s.length < n) : localText n s = some s :=
  if_pos h

theorem length_filePath (root id : Bytes) :
    (filePath root id).length = root.length + id.length + 1 := by
  rw [filePath, show ascii "/" = [47] from rfl]
  simp only [List.length_append, List.length_singleton]
  omega

theorem filePath_ne (root id : Bytes) : filePath root id ≠ id := by
  intro h
  have := congrArg List.length h
  rw [length_filePath] at this
  omega

section Write

variable {fs fs' : FileSystem} {p content : Bytes}

@[simp] theorem write_files_self : (fs.write p content).files p = some (content, fs.now) :=
  if_pos rfl

theorem write_files_ne {q : Bytes} (h : q ≠ p) : (fs.write p content).files q = fs.files q :=
  if_neg h

theorem write_stamp_ne {q : Bytes} (h : q ≠ p) : (fs.write p content).stamp q = fs.stamp q := by
  rw [FileSystem.stamp, write_files_ne h, FileSystem.stamp]

theorem writeFile_success {image : Option Bytes} {size : Int}
    (h : writeFile fs p image size = some (fs', .success)) :
    ∃ data, image = some data ∧ size.toNat ≤ data.length ∧
      fs' = fs.write p (data.take size.toNat) := by
  unfold writeFile readBytes at h
  split at h
  · cases h
  · split at h
    · cases h
    · cases image with
      | none => cases h
      | some data =>
        simp only at h
        by_cases hle : size.toNat ≤ data.length
        · rw [if_pos hle] at h
          cases h
          exact ⟨data, rfl, hle, rfl⟩
        · rw [if_neg hle] at h
          cases h

end Write

theorem fileSaveSlaveFile_success {root : Bytes} {fs fs' : FileSystem} {image : Option Bytes}
    {size : Int} {fi fi' : FileInfo} {last last' : Block 128} {stem ext : Bytes}
    (hroot : IsCStr root) (hext : 46 ∉ ext) (horig : fi.origFilename.str [] = stem ++ ascii "." ++ ext)
    (hextension : fi.fileExtension.str [] = ext)
    (hfull : fi.fullFilename.str [] = stem ++ fi.suffix.str [] ++ ascii "." ++ ext)
    (h : fileSaveSlaveFile root fs image size fi last = some (fs', .success, fi', last')) :
    last'.str [] = filePath root (fi.fullFilename.str []) ∧
      (filePath root (fi.fullFilename.str [])).length < 128 ∧
      fi'.createTimestamp = fi.createTimestamp ∧
      ∃ data, image = some data ∧ size.toNat ≤ data.length ∧
        fs' = fs.write (filePath root (fi.fullFilename.str [])) (data.take size.toNat) := by
  have hdot : strrchr (fi.origFilename.str []) 46 = some stem.length := by
    rw [horig, show ascii "." = [46] from rfl, List.append_assoc, List.singleton_append,
      strrchr_append_cons stem hext]
  unfold fileSaveSlaveFile at h
  rw [hdot] at h
  obtain ⟨orig, h1, h⟩ := Option.bind_eq_some_iff.mp h
  obtain ⟨last1, h2, h⟩ := Option.bind_eq_some_iff.mp h
  obtain ⟨⟨fs1, res⟩, h3, h⟩ := Option.bind_eq_some_iff.mp h
  cases h
  have hstem : orig.str [] = stem := by
    rw [Block.str_store_zero h1 (by rw [horig]; simp [List.length_append]), horig,
      List.append_assoc, List.take_left' rfl]
  rw [hstem, hextension, ← hfull] at h2
  have hpath : IsCStr (filePath root (fi.fullFilename.str [])) :=
    (hroot.append (by decide)).append (isCStr_cstr _)
  have hlast := Block.str_strcpy h2 hpath []
  rw [hlast] at h3
  exact ⟨hlast, Block.strcpy_lt h2, rfl, writeFile_success h3⟩

section Stages

variable {h : Handler FileSystem} {fs fs' : FileSystem} {root : Bytes} {fi : FileInfo}

theorem storeInit_file (hfile : UsesFileStore h)
    (hroot : storeRoot fs h.conf.storeConf.str = some (some root)) :
    storeInit h fs = some (fs, some (fileStorePlugin root)) := by
  unfold storeInit
  rw [hfile.notFastdfs, hfile.file, hfile.init]
  simp [fileStoreInit, hroot]

theorem isCStr_storeRoot {cfg : Bytes} (hroot : storeRoot fs cfg = some (some root)) :
    IsCStr root := by
  unfold storeRoot at hroot
  split at hroot
  · cases hroot
  · next content mtime hfile =>
    simp only [Option.some.injEq, Option.map_eq_some_iff] at hroot
    obtain ⟨line, -, rfl⟩ := hroot
    exact isCStr_cstr _

theorem fileGetFileInfo_stamp {fileId : Bytes} {fi' : FileInfo} {res : ResultT}
    (hstamp : fi.createTimestamp = 0)
    (hinfo : fileGetFileInfo root fs fileId fi = some (fs', res, fi')) :
    fs' = fs ∧ fi'.createTimestamp = fs.stamp (filePath root fileId) := by
  unfold fileGetFileInfo localText at hinfo
  split at hinfo
  · cases hinfo
  · next filename hlocal =>
    obtain ⟨-, rfl⟩ : _ ∧ filePath root fileId = filename := by
      simpa using hlocal
    unfold FileSystem.stamp
    split at hinfo
    · cases hinfo
      simp
    · cases hinfo
      simp [hstamp]

theorem fileFetchFile_missing {fileId : Bytes} {out : Option Bytes × Int}
    {r : FileSystem × ResultT × Option Bytes × Int} (hnew : fs.files (filePath root fileId) = none)
    (hfetch : fileFetchFile root fs fileId out = some r) : r = (fs, .failed, out.1, out.2) := by
  unfold fileFetchFile localText at hfetch
  split at hfetch
  · cases hfetch
  · next filename hlocal =>
    obtain ⟨-, rfl⟩ : _ ∧ filePath root fileId = filename := by
      simpa using hlocal
    rw [hnew] at hfetch
    exact (Option.some.inj hfetch).symm

theorem fileFetchFile_store {fileId : Bytes} {out : Option Bytes × Int}
    {r : FileSystem × ResultT × Option Bytes × Int}
    (hfetch : fileFetchFile root fs fileId out = some r) : r.1 = fs := by
  unfold fileFetchFile at hfetch
  split at hfetch
  · cases hfetch
  · split at hfetch
    · cases hfetch
      rfl
    · cases hfetch
      rfl

theorem needsConversion_of_blob {fileBuf : Option Bytes} {bufSize size size' : Int} {image : Bytes}
    (hblob : getTransitionImageBlob h fileBuf bufSize size fi = (some image, size')) :
    needsConversion fi = true := by
  unfold getTransitionImageBlob at hblob
  split at hblob
  · cases hblob
  · split at hblob
    · assumption
    · cases hblob

end Stages

section Runs

variable [Malloc] {h : Handler FileSystem} {fs : FileSystem} {con : Connection} {root name : Bytes}

structure Generated (h : Handler FileSystem) (fs : FileSystem) (con : Connection)
    (root name : Bytes) (o : Outcome FileSystem) (fi : FileInfo) : Prop where
  enable : h.conf.enable = true
  parsed : parseRequestUri h con.uriPath.str = some (true, fi)
  named : fi.fullFilename.str h.residue.uri.pastFull = name
  fits : (filePath root name).length < 128
  served : ∃ image, o.data = some image ∧ o.size.toNat ≤ image.length ∧
    o.store = fs.write (filePath root name) (image.take o.size.toNat)
  stamp : o.fi.createTimestamp = fs.stamp (filePath root (filePath root name))

theorem generated_of_make {fi : FileInfo} {data2 : Option Bytes} {size2 size1 : Int}
    {o : Outcome FileSystem} (hroot : IsCStr root) (henable : h.conf.enable = true)
    (hparse : parseRequestUri h con.uriPath.str = some (true, fi))
    (hname : fi.fullFilename.str h.residue.uri.pastFull = name)
    (hmake : makeThumbnail h (fileStorePlugin root) fs fi data2 size2 size1 = some o)
    (hstatus : o.httpStatus = 0) : Generated h fs con root name o fi := by
  unfold makeThumbnail saveThumbnail at hmake
  split at hmake
  · cases hmake
    cases hstatus
  · next image size hblob =>
    obtain ⟨hzero, stem, ext, o', q, r, hext, hfull, horig, hsuffix, hextension⟩ :=
      accepted_of_needsConversion (isCStr_cstr _) hparse (needsConversion_of_blob hblob)
    rw [← hsuffix] at hfull
    split at hmake
    · cases hmake
    · next fs1 res fi1 last hsave =>
      split at hmake
      · cases hmake
        cases hstatus
      · next hres =>
        obtain rfl := not_not.mp hres
        obtain ⟨hlast, hfits, hstamp, data, hdata, hle, rfl⟩ :=
          fileSaveSlaveFile_success hroot hext horig hextension hfull hsave
        cases hdata
        have hshort : (fi.fullFilename.str []).length < FI_FULL_FILENAME_SIZE := by
          have hsize : FI_FULL_FILENAME_SIZE = 128 := rfl
          rw [length_filePath] at hfits
          omega
        have hpast := Block.str_eq_of_lt hshort h.residue.uri.pastFull
        rw [hpast] at hname
        rw [hname] at hlast hfits hmake
        split at hmake
        · cases hmake
        · next fs2 res2 fi2 hinfo =>
          obtain ⟨rfl, hread⟩ := fileGetFileInfo_stamp (hstamp.trans hzero) hinfo
          cases hmake
          rw [hlast, write_stamp_ne (filePath_ne _ _)] at hread
          exact ⟨henable, hparse, hpast.trans hname, hfits, ⟨_, rfl, hle, rfl⟩, hread⟩

theorem generated_of_block {o : Outcome FileSystem} (hfile : UsesFileStore h)
    (hroot : storeRoot fs h.conf.storeConf.str = some (some root))
    (hname : thumbnailName h con = some name) (hnew : fs.files (filePath root name) = none)
    (hblock : subrequestBlock h fs con = some o) (hstatus : o.httpStatus = 0)
    (hsize : 0 < o.size) : ∃ fi, Generated h fs con root name o fi := by
  unfold subrequestBlock at hblock
  rw [storeInit_file hfile hroot] at hblock
  simp only at hblock
  split at hblock
  · cases hblock
    simp at hsize
  · next henable =>
    have henable' : h.conf.enable = true := by simpa using henable
    split at hblock
    · cases hblock
    · cases hblock
      simp at hsize
    · next fi hparse =>
      have hfull : fi.fullFilename.str h.residue.uri.pastFull = name := by
        simpa [thumbnailName, hparse] using hname
      unfold fetchCurrent at hblock
      simp only [hfull] at hblock
      split at hblock
      · cases hblock
      · next hfetch =>
        have hmissing := fileFetchFile_missing hnew hfetch
        cases hmissing
        rw [if_neg (by decide)] at hblock
        unfold fetchOriginal at hblock
        split at hblock
        · cases hblock
        · next fs2 res data2 size2 horiginal =>
          obtain rfl := fileFetchFile_store horiginal
          split at hblock
          · cases hblock
            cases hstatus
          · exact ⟨fi, generated_of_make (isCStr_storeRoot hroot) henable' hparse hfull hblock
              hstatus⟩

theorem block_of_cached {fs' : FileSystem} {con' : Connection} {fi : FileInfo} {content : Bytes}
    {mtime : Int} (hfile : UsesFileStore h) (henable : h.conf.enable = true)
    (hroot : storeRoot fs' h.conf.storeConf.str = some (some root))
    (hparse : parseRequestUri h con'.uriPath.str = some (true, fi))
    (hname : fi.fullFilename.str h.residue.uri.pastFull = name)
    (hfits : (filePath root name).length < 256)
    (hcached : fs'.files (filePath root name) = some (content, mtime)) :
    subrequestBlock h fs' con' = some ⟨fs', 0, .finished, { fi with createTimestamp := mtime },
      some content, content.length⟩ := by
  unfold subrequestBlock
  rw [storeInit_file hfile hroot]
  simp only [henable, hparse]
  rw [if_neg (by decide)]
  simp only [fetchCurrent, hname, fileStorePlugin, fileFetchFile, fileGetFileInfo,
    localText_of_lt hfits, hcached]
  exact if_pos trivial

end Runs

section Compare

variable [Malloc] {h : Handler FileSystem} {fs fs' : FileSystem} {srv srv' : Server}
  {con con' : Connection} {fi fi' : FileInfo} {root name : Bytes}

omit [Malloc] in
theorem expires_congr (fi fi' : FileInfo) (hstamp : fi'.createTimestamp = fi.createTimestamp) :
    expires fi' = expires fi := by
  unfold expires
  rw [hstamp]

theorem lastModified_again (fi' : FileInfo) {cache : List MtimeCache} {mtime : Buffer}
    (hheaders : con'.request.headers = con.request.headers) (hcache : srv'.mtimeCache = cache)
    (hstamp : fi'.createTimestamp = fi.createTimestamp)
    (hlast : lastModified srv con fi = some (cache, mtime)) :
    lastModified srv' con' fi' = some (cache, mtime) := by
  unfold lastModified at hlast ⊢
  obtain ⟨found, hfound, hlast⟩ := Option.bind_eq_some_iff.mp hlast
  rw [hheaders, hfound, hcache, hstamp]
  cases found with
  | some el =>
    cases hlast
    rfl
  | none => exact strftimeCacheGet_again hlast

theorem run_of_finished {r : FileSystem × Server × Connection × HandlerT}
    (hfilter : isFiltered h.id con = false) (hrun : modAutothumbSubrequest h fs srv con = some r)
    (hfinished : r.2.2.1.fileFinished = true) :
    ∃ o mtime expire, subrequestBlock h fs con = some o ∧ 0 < o.size ∧ o.store = r.1 ∧
      o.httpStatus = r.2.2.1.httpStatus ∧
      lastModified srv con o.fi = some (r.2.1.mtimeCache, mtime) ∧ expires o.fi = some expire := by
  unfold modAutothumbSubrequest at hrun
  rw [if_neg (by simp [hfilter])] at hrun
  split at hrun
  · cases hrun
  · next o hblock =>
    split at hrun
    · cases hrun
    · next srv1 con1 hout =>
      cases hrun
      have hspec := subrequestEpilogue_spec hout
      by_cases hsize : 0 < o.size
      · simp only [subrequestEpilogue, gt_iff_lt, if_pos hsize] at hout
        split at hout
        · cases hout
        · next srv2 con2 houtput =>
          cases hout
          obtain ⟨⟨cache, headers⟩, hheaders, houtput⟩ := Option.bind_eq_some_iff.mp houtput
          obtain ⟨content, -, houtput⟩ := Option.bind_eq_some_iff.mp houtput
          cases houtput
          obtain ⟨h1, -, hheaders⟩ := Option.bind_eq_some_iff.mp hheaders
          obtain ⟨⟨cache2, mtime⟩, hlast, hheaders⟩ := Option.bind_eq_some_iff.mp hheaders
          obtain ⟨h2, -, hheaders⟩ := Option.bind_eq_some_iff.mp hheaders
          obtain ⟨expire, hexpire, hheaders⟩ := Option.bind_eq_some_iff.mp hheaders
          obtain ⟨h3, -, hheaders⟩ := Option.bind_eq_some_iff.mp hheaders
          obtain ⟨h4, -, hheaders⟩ := Option.bind_eq_some_iff.mp hheaders
          cases hheaders
          exact ⟨o, mtime, expire, hblock, hsize, rfl, rfl, hlast, hexpire⟩
      · exfalso
        rw [if_neg hsize] at hspec
        have hunfinished : con.fileFinished = false := by
          simp only [isFiltered, decide_eq_false_iff_not, not_or] at hfilter
          simpa using hfilter.2.2.2.2.1
        rw [hspec.2.1, hunfinished] at hfinished
        cases hfinished

omit [Malloc] in
theorem storeRoot_write {cfg content : Bytes}
    (hroot : storeRoot fs cfg = some (some root)) (hnew : fs.files (filePath root name) = none)
    (hfiles : fs'.files = (fs.write (filePath root name) content).files) :
    storeRoot fs' cfg = some (some root) := by
  have hne : cfg ≠ filePath root name := by
    rintro rfl
    simp [storeRoot, hnew] at hroot
  unfold storeRoot
  rw [hfiles, write_files_ne hne]
  exact hroot

/-- **The response from the file is the response of the request that made it** exactly if the file
under the doubled path has the time of the picture. -/
theorem sameResponse_iff (h : Handler FileSystem) (fs fs' : FileSystem) (srv srv' : Server)
    (con con' : Connection) (root name : Bytes) (r : FileSystem × Server × Connection × HandlerT)
    (hfile : UsesFileStore h) (hfilter : isFiltered h.id con = false)
    (hroot : storeRoot fs h.conf.storeConf.str = some (some root))
    (hname : thumbnailName h con = some name) (hnew : fs.files (filePath root name) = none)
    (hrun : modAutothumbSubrequest h fs srv con = some r)
    (hserved : r.2.2.1.fileFinished = true ∧ r.2.2.1.httpStatus = 0)
    (hfiles : fs'.files = r.1.files) (hcache : srv'.mtimeCache = r.2.1.mtimeCache)
    (hfilter' : isFiltered h.id con' = false) (hpath : con'.uriPath.str = con.uriPath.str)
    (hheaders : con'.request.headers = con.request.headers) :
    SameResponse h fs fs' srv srv' con con' ↔
      fs.stamp (filePath root (filePath root name)) = fs.now := by
  obtain ⟨o, mtime, expire, hblock, hsize, hstore, hstatus, hlast, hexpire⟩ :=
    run_of_finished hfilter hrun hserved.1
  obtain ⟨fi, hgen⟩ := generated_of_block hfile hroot hname hnew hblock
    (hstatus.trans hserved.2) hsize
  obtain ⟨image, hdata, hle, hwrite⟩ := hgen.served
  rw [← hstore, hwrite] at hfiles
  have hcached : fs'.files (filePath root name) = some (image.take o.size.toNat, fs.now) := by
    rw [hfiles, write_files_self]
  have hblock' := block_of_cached hfile hgen.enable (storeRoot_write hroot hnew hfiles)
    (hpath ▸ hgen.parsed) hgen.named (Nat.lt_trans hgen.fits (by decide)) hcached
  have hbody : servedImage h fs' con' = servedImage h fs con := by
    have hall : (image.take o.size.toNat).take (image.take o.size.toNat).length =
        image.take o.size.toNat := List.take_of_length_le (Nat.le_refl _)
    unfold servedImage
    rw [hfilter, hfilter', hblock, hblock']
    simp only [Bool.false_eq_true, if_false, Option.bind_some, Option.map_some, hdata,
      Int.toNat_natCast, hall]
  rw [← hgen.stamp]
  constructor
  · rintro ⟨v, hv, hv'⟩
    simp only [servedValues, hblock, hlast, hexpire, Option.bind_eq_bind, Option.bind_some] at hv
    obtain ⟨o', ho', hv'⟩ := Option.bind_eq_some_iff.mp hv'
    obtain ⟨⟨cache', mtime'⟩, -, hv'⟩ := Option.bind_eq_some_iff.mp hv'
    obtain ⟨expire', -, hv'⟩ := Option.bind_eq_some_iff.mp hv'
    rw [hblock'] at ho'
    cases ho'
    cases hv
    exact (congrArg ServedValues.createTimestamp (Option.some.inj hv')).symm
  · intro hstamp
    have hlast' := lastModified_again { fi with createTimestamp := fs.now } hheaders
      hcache hstamp.symm hlast
    have hexpire' := (expires_congr o.fi { fi with createTimestamp := fs.now }
      hstamp.symm).trans hexpire
    refine ⟨⟨o.fi.createTimestamp, mtime.constBufLen, expire.constBufLen, servedImage h fs con⟩,
      ?_, ?_⟩
    · simp [servedValues, hblock, hlast, hexpire]
    · simp [servedValues, hblock', hlast', hexpire', hbody, hstamp]

end Compare

section Example

variable [Malloc]

/-- A handler with the file store and the format `small`. -/
def fileHandler : Handler FileSystem :=
  let h := handlerWith (fileStorePlugin []) (configEntries [(ascii "small", ascii "100x100")])
    fun buf _ _ _ => (some buf, buf.length)
  { h with
    fileStoreInit := fileStoreInit
    conf := { h.conf with storeConf := bufferCopyString bufferInit (some (ascii "/store.conf")) } }

def originalFiles : FileSystem where
  files p :=
    if p = ascii "/store.conf" then some (ascii "/store", 1)
    else if p = ascii "/store/a.jpg" then some ([1, 2, 3], 2)
    else none
  writable _ := true
  now := 1000000000

def smallRequest : Connection := pictureRequest (ascii "/a=small.jpg")

def smallRun : Option (FileSystem × Server × Connection × HandlerT) :=
  modAutothumbSubrequest fileHandler originalFiles (serverInit 1000000000) smallRequest

end Example

theorem smallRun_isSome : (@smallRun zeroMalloc).isSome = true := by decide +kernel

theorem sameResponse_iff_small :
    @SameResponse zeroMalloc (@fileHandler zeroMalloc) originalFiles
        ((@smallRun zeroMalloc).get smallRun_isSome).1 (serverInit 1000000000)
        ((@smallRun zeroMalloc).get smallRun_isSome).2.1 (@smallRequest zeroMalloc)
        (@smallRequest zeroMalloc) ↔
      originalFiles.stamp (filePath (ascii "/store") (filePath (ascii "/store")
        (ascii "a_small.jpg"))) = 1000000000 :=
  @sameResponse_iff zeroMalloc (@fileHandler zeroMalloc) originalFiles
    ((@smallRun zeroMalloc).get smallRun_isSome).1 (serverInit 1000000000)
    ((@smallRun zeroMalloc).get smallRun_isSome).2.1 (@smallRequest zeroMalloc)
    (@smallRequest zeroMalloc) (ascii "/store") (ascii "a_small.jpg")
    ((@smallRun zeroMalloc).get smallRun_isSome)
    ⟨by decide +kernel, by decide +kernel, rfl⟩ (by decide +kernel) (by decide +kernel)
    (by decide +kernel) (by decide +kernel) (Option.some_get _).symm
    ⟨by decide +kernel, by decide +kernel⟩ rfl rfl (by decide +kernel) rfl rfl

/-- The request that makes a picture dates it to 1970, the next one to 2001. -/
theorem not_sameResponse_small : ¬ ∀ (m : Malloc) (h : Handler FileSystem) (fs fs' : FileSystem)
    (srv srv' : Server) (con con' : Connection) (root name : Bytes)
    (r : FileSystem × Server × Connection × HandlerT),
    UsesFileStore h → isFiltered h.id con = false →
    storeRoot fs h.conf.storeConf.str = some (some root) →
    @thumbnailName m h con = some name → fs.files (filePath root name) = none →
    @modAutothumbSubrequest m _ h fs srv con = some r →
    r.2.2.1.fileFinished = true ∧ r.2.2.1.httpStatus = 0 →
    fs'.files = r.1.files → srv'.mtimeCache = r.2.1.mtimeCache →
    isFiltered h.id con' = false → con'.uriPath.str = con.uriPath.str →
    con'.request.headers = con.request.headers → @SameResponse m h fs fs' srv srv' con con' := by
  intro h
  obtain ⟨v, hv, hv'⟩ := h zeroMalloc (@fileHandler zeroMalloc) originalFiles
    ((@smallRun zeroMalloc).get smallRun_isSome).1 (serverInit 1000000000)
    ((@smallRun zeroMalloc).get smallRun_isSome).2.1 (@smallRequest zeroMalloc)
    (@smallRequest zeroMalloc) (ascii "/store") (ascii "a_small.jpg")
    ((@smallRun zeroMalloc).get smallRun_isSome)
    ⟨by decide +kernel, by decide +kernel, rfl⟩ (by decide +kernel) (by decide +kernel)
    (by decide +kernel) (by decide +kernel) (Option.some_get _).symm
    ⟨by decide +kernel, by decide +kernel⟩ rfl rfl (by decide +kernel) rfl rfl
  have hboth := hv.trans hv'.symm
  revert hboth
  decide +kernel

end Lighttpd
