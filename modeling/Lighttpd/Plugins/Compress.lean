import Lighttpd.Plugins.Alias
import Lighttpd.ResponseFields
import Lighttpd.Staticfile.Subrequest
import Lighttpd.TimeCache

/-!
# `mod_compress.c`: the compressed copy of a file

`mod_compress_physical` answers a request with a compressed copy of the file: one from the cache
directory, which it makes if it is not there, or one in the write queue. Which of the two is decided
by the directory and the ETag of the file, but whether the request is finished only by the directory.
So a request for a file without an ETag is passed on with its answer already queued. `USE_ZLIB` and
`USE_BZ2LIB` are defined. Log messages are left out.
-/

namespace Lighttpd

open CLib

/-! ## The settings and the system -/

def HTTP_ACCEPT_ENCODING_IDENTITY : Nat := 1

def HTTP_ACCEPT_ENCODING_GZIP : Nat := 2

def HTTP_ACCEPT_ENCODING_DEFLATE : Nat := 4

def HTTP_ACCEPT_ENCODING_COMPRESS : Nat := 8

def HTTP_ACCEPT_ENCODING_BZIP2 : Nat := 16

/-- `strstr(s, t) != NULL` -/
def strstr : Bytes → Bytes → Bool
  | [], t => t.isPrefixOf []
  | c :: s, t => t.isPrefixOf (c :: s) || strstr s t

def encodingFlag (value name : Bytes) (flag : Nat) : Nat := if strstr value name then flag else 0

/-- `allowed_encodings` for the values of `compress.allowed-encodings`. -/
def allowedEncodings : List Bytes → Nat
  | [] => HTTP_ACCEPT_ENCODING_GZIP ||| HTTP_ACCEPT_ENCODING_DEFLATE ||| HTTP_ACCEPT_ENCODING_BZIP2
  | values => values.foldl (fun allowed value => allowed |||
      encodingFlag value (ascii "gzip") HTTP_ACCEPT_ENCODING_GZIP |||
      encodingFlag value (ascii "deflate") HTTP_ACCEPT_ENCODING_DEFLATE |||
      encodingFlag value (ascii "bzip2") HTTP_ACCEPT_ENCODING_BZIP2) 0

/-- `accept_encoding` for the value of the header field. -/
def acceptedEncodings (value : Bytes) : Nat :=
  encodingFlag value (ascii "gzip") HTTP_ACCEPT_ENCODING_GZIP |||
  encodingFlag value (ascii "deflate") HTTP_ACCEPT_ENCODING_DEFLATE |||
  encodingFlag value (ascii "compress") HTTP_ACCEPT_ENCODING_COMPRESS |||
  encodingFlag value (ascii "bzip2") HTTP_ACCEPT_ENCODING_BZIP2 |||
  encodingFlag value (ascii "identity") HTTP_ACCEPT_ENCODING_IDENTITY

/-- `p->conf`, with the values of `compress.allowed-encodings`. -/
structure CompressConf where
  compressCacheDir : Buffer
  compress : Arr DataString
  compressMaxFilesize : Int
  encodings : List Bytes

/-- The compressors of the libraries on some bytes, with the room for their output, `none` if one of
the calls fails; and `generate_crc32c`. -/
structure Codec where
  deflate : Bytes → Nat → Option Bytes
  bzip2 : Bytes → Nat → Option Bytes
  crc32c : Bytes → Int
  deflate_fits : ∀ {start room out}, deflate start room = some out → out.length ≤ room
  bzip2_fits : ∀ {start room out}, bzip2 start room = some out → out.length ≤ room

/-- The answer of `stat_cache_get_entry`, the strings at the pointers of the request, the setting
`follow_symlink`, and what the system answers: `original` are the bytes of the file, as many as its
`st_size`, `openCache` is that the cache file is created unless it exists, `write` tells for a number
of bytes how many of them are written. -/
structure CompressEnv where
  entry : Option StatCacheEntry
  conditions : Conditions
  followSymlink : Bool
  original : Bytes
  mkdir : Bytes → Bool
  openCache : Bool
  openFile : Bool
  mmap : Bool
  write : Nat → Option Nat
  unlink : Bool

/-- The connection, the two buffers of the plugin and the files. -/
structure CompressState where
  con : BackendConnection
  ofn : Buffer
  b : Buffer
  files : Files

def Files.put (fs : Files) (name s : Bytes) : Files :=
  { fs with contents := (name, s) :: fs.contents }

/-- `unlink(name)` -/
def Files.remove (fs : Files) (name : Bytes) : Files :=
  { fs with contents := fs.contents.filter (·.1 != name) }

section Code

variable [Malloc] (lib : TimeLib) (codec : Codec) (conf : CompressConf) (env : CompressEnv)

/-! ## The compressors -/

/-- The `k`th byte of a number. -/
def byteAt (v : Int) (k : Nat) : UInt8 := UInt8.ofInt (v / 256 ^ k)

def gzipHeader (mtime : Int) : Bytes :=
  [0x1f, 0x8b, 8, 0] ++ (List.range 4).map (byteAt mtime) ++ [0, 3]

def gzipTrailer (start : Bytes) : Bytes :=
  (List.range 4).map (byteAt (codec.crc32c start)) ++ (List.range 4).map (byteAt start.length)

def deflateFileToBufferGzip (b : Buffer) (start : Bytes) (mtime : Int) : Bool × Buffer :=
  let b := bufferPrepareCopy b (start.length * 11 / 10 + 12 + 18)
  let b := { b with ptr := memcpy b.ptr 0 (gzipHeader mtime), used := 10 }
  match codec.deflate start (b.size - b.used - 8) with
  | none => (false, b)
  | some out =>
    let b := { b with ptr := memcpy b.ptr b.used out, used := b.used + out.length }
    (true, { b with ptr := memcpy b.ptr b.used (gzipTrailer codec start), used := b.used + 8 })

def deflateFileToBufferDeflate (b : Buffer) (start : Bytes) : Bool × Buffer :=
  let b := bufferPrepareCopy b (start.length * 11 / 10 + 12)
  match codec.deflate start b.size with
  | none => (false, b)
  | some out => (true, { b with ptr := memcpy b.ptr 0 out, used := b.used + out.length })

def deflateFileToBufferBzip2 (b : Buffer) (start : Bytes) : Bool × Buffer :=
  let b := bufferPrepareCopy b (start.length * 11 / 10 + 12)
  match codec.bzip2 start b.size with
  | none => (false, b)
  | some out => (true, { b with ptr := memcpy b.ptr 0 out, used := out.length })

/-- The `switch` over the type, which both functions have. -/
def compressStart (type : Nat) (b : Buffer) (start : Bytes) (mtime : Int) : Bool × Buffer :=
  if type = HTTP_ACCEPT_ENCODING_GZIP then deflateFileToBufferGzip codec b start mtime
  else if type = HTTP_ACCEPT_ENCODING_DEFLATE then deflateFileToBufferDeflate codec b start
  else if type = HTTP_ACCEPT_ENCODING_BZIP2 then deflateFileToBufferBzip2 codec b start
  else (false, b)

/-- The size overflows when it is made a tenth larger, or is above 128 MB. -/
def tooLarge (stSize : Int) : Bool :=
  stSize * 11 / 10 > 9223372036854775807 || stSize > 128 * 1024 * 1024

/-! ## A file in the cache -/

/-- The directories of a file, from behind the first character on. `front` is the text so far; the
character behind a slash is not looked at. -/
def mkdirLoop (mkdir : Bytes → Bool) : Bool → Bytes → Bytes → Bool
  | _, _, [] => true
  | true, front, c :: rest => mkdirLoop mkdir false (front ++ [c]) rest
  | false, front, c :: rest =>
    if c = 47 then
      if ¬ mkdir front then false
      else if rest = [] then false
      else mkdirLoop mkdir true (front ++ [c]) rest
    else mkdirLoop mkdir false (front ++ [c]) rest

def mkdirForFile (mkdir : Bytes → Bool) (filename : Bytes) : Bool :=
  if filename = [] then false else mkdirLoop mkdir true [] filename

/-- The name of the cache file without its ending, and `p->b`. -/
def cachePath (s : CompressState) : Buffer × Buffer :=
  let ofn := bufferCopyStringBuffer (bufferReset s.ofn) conf.compressCacheDir
  let ofn := bufferAppendSlash ofn
  let root := s.con.docRoot.used - 1
  if strneq root s.con.physicalPath.ptr s.con.docRoot.ptr then
    let ofn := bufferAppendString ofn (some (cstr (s.con.physicalPath.ptr.drop root)))
    (ofn, bufferCopyStringBuffer s.b ofn)
  else (bufferAppendStringBuffer ofn s.con.uriPath, s.b)

def typeSuffix (type : Nat) : Option Bytes :=
  if type = HTTP_ACCEPT_ENCODING_GZIP then some (ascii "-gzip-")
  else if type = HTTP_ACCEPT_ENCODING_DEFLATE then some (ascii "-deflate-")
  else if type = HTTP_ACCEPT_ENCODING_BZIP2 then some (ascii "-bzip2-")
  else none

/-- The cache file was created: it is written, or removed if something fails. -/
def fillCacheFile (s : CompressState) (sce : StatCacheEntry) (type : Nat) : Bool × CompressState :=
  let name := s.ofn.str
  let giveUp (s : CompressState) : Bool × CompressState :=
    (false, { s with files := if env.unlink then s.files.remove name else s.files })
  let s := { s with files := s.files.put name [] }
  if ¬ env.openFile ∨ ¬ env.mmap then giveUp s
  else
    let (ok, b) := compressStart codec type s.b env.original sce.st.stMtime
    let s := { s with b := b }
    if ok then
      let r := env.write b.used
      let s := { s with files := s.files.put name (b.bytes.take (r.getD 0)) }
      if r = some b.used then
        (true, { s with con := { s.con with
          physicalPath := bufferCopyStringBuffer s.con.physicalPath s.ofn } })
      else giveUp s
    else giveUp s

/-- The text of the document root is read, so it has no value without one. -/
def deflateFileToFile (s : CompressState) (sce : StatCacheEntry) (type : Nat) :
    Option (Bool × CompressState) :=
  if tooLarge sce.st.stSize then some (false, s)
  else if s.con.docRoot.used = 0 then none
  else
    let (ofn, b) := cachePath conf s
    match typeSuffix type with
    | none => some (false, { s with ofn := ofn, b := b })
    | some suffix =>
      let ofn := bufferAppendStringLen ofn (some suffix)
      let ofn := bufferAppendStringBuffer ofn sce.etag
      let s := { s with ofn := ofn, b := b }
      if ¬ mkdirForFile env.mkdir ofn.str ∨ ¬ env.openCache then some (false, s)
      else if (s.files.content ofn.str).isSome then
        -- `EEXIST`
        some (true, { s with con := { s.con with
          physicalPath := bufferCopyStringBuffer s.con.physicalPath ofn } })
      else some (fillCacheFile codec env s sce type)

/-! ## The write queue -/

/-- One byte more than there is in the buffer is copied; if that is not in its block, there is no
value. -/
def deflateFileToBuffer (s : CompressState) (sce : StatCacheEntry) (type : Nat) :
    Option (Bool × CompressState) :=
  if tooLarge sce.st.stSize ∨ ¬ env.openFile ∨ ¬ env.mmap then some (false, s)
  else
    let (ok, b) := compressStart codec type s.b env.original sce.st.stMtime
    let s := { s with b := b }
    if ¬ ok then some (false, s)
    else if b.size ≤ b.used then none
    else
      let q := chunkqueueGetAppendBuffer (chunkqueueReset s.con.writeQueue).1
      let q := q.mapLastMem fun m => bufferCopyMemory m (some (b.ptr.take (b.used + 1)))
      some (true, { s with con := { s.con with
        writeQueue := q, physicalPath := bufferReset s.con.physicalPath
        fileFinished := true, fileStarted := true } })

/-! ## `mod_compress_physical` -/

def compressChecks (con : BackendConnection) :
    Except (HandlerT × BackendConnection) StatCacheEntry :=
  if con.mode ≠ DIRECT ∨ con.httpStatus ≠ 0 then .error (.goOn, con)
  else if ¬ (con.request.httpMethod = .get ∨ con.request.httpMethod = .post) then
    .error (.goOn, con)
  else if bufferIsEmpty con.physicalPath then .error (.goOn, con)
  else
    match env.entry with
    | none => .error (.finished, { con with httpStatus := 403 })
    | some sce =>
      if sce.isSymlink ∧ ¬ env.followSymlink then .error (.goOn, con)
      else if ¬ S_ISREG sce.st.stMode then .error (.goOn, con)
      else if conf.compressMaxFilesize ≠ 0 ∧ sce.st.stSize / 1024 > conf.compressMaxFilesize then
        .error (.goOn, con)
      else if sce.st.stSize < 128 then .error (.goOn, con)
      else .ok sce

/-- `content_type`: the type without its parameters, if it has some. -/
def plainContentType (con : BackendConnection) (sce : StatCacheEntry) :
    Option Buffer × BackendConnection :=
  if sce.contentType.ptr = [] then (none, con)
  else
    match strchr sce.contentType.str 59 with
    | none => (none, con)
    | some n =>
      let tmpBuf := bufferCopyStringLen con.tmpBuf (some (sce.contentType.ptr.take n))
      (some tmpBuf, { con with tmpBuf := tmpBuf })

def BackendConnection.setHeaders (con : BackendConnection) (headers : Arr DataString) :
    BackendConnection :=
  { con with response := { con.response with headers := headers } }

def BackendConnection.overwriteHeader (con : BackendConnection) (key : Bytes)
    (value : Option Bytes) : Option BackendConnection :=
  (responseHeaderOverwrite con.response.headers key value).map con.setHeaders

/-- The loop over `compress.filetype`: `matched_encodings`, if there are some. -/
def matchEncodings (sce : StatCacheEntry) (contentType : Option Buffer) :
    List (Option DataString) → BackendConnection → Option (Option Nat × BackendConnection)
  | [], con => some (none, con)
  | none :: _, con => some (none, con)
  | some compressDs :: rest, con =>
    if bufferIsEqual compressDs.value sce.contentType ∨
        contentType.any (bufferIsEqual compressDs.value) then do
      let headers ← responseHeaderInsert con.response.headers (ascii "Vary")
        (some (ascii "Accept-Encoding"))
      let con := con.setHeaders headers
      match ← arrayGetElement con.request.headers (ascii "Accept-Encoding") with
      | none => matchEncodings sce contentType rest con
      | some (_, ds) =>
        let matched := acceptedEncodings ds.value.str &&& allowedEncodings conf.encodings
        if matched = 0 then matchEncodings sce contentType rest con else some (some matched, con)
    else matchEncodings sce contentType rest con

/-- `compression_type`, and `compression_name`, which may be `NULL`. -/
def selectEncoding (matched : Nat) : Nat × Option Bytes :=
  if matched &&& HTTP_ACCEPT_ENCODING_BZIP2 ≠ 0 then
    (HTTP_ACCEPT_ENCODING_BZIP2, some (ascii "bzip2"))
  else if matched &&& HTTP_ACCEPT_ENCODING_GZIP ≠ 0 then
    (HTTP_ACCEPT_ENCODING_GZIP, some (ascii "gzip"))
  else if matched &&& HTTP_ACCEPT_ENCODING_DEFLATE ≠ 0 then
    (HTTP_ACCEPT_ENCODING_DEFLATE, some (ascii "deflate"))
  else (0, none)

/-- `use_etag` -/
def useEtag (sce : StatCacheEntry) : Bool := sce.etag.ptr ≠ []

def BackendConnection.handleCachable (con : BackendConnection) (mtime : Buffer) :
    HandlerT × BackendConnection :=
  let (r, c) := httpResponseHandleCachable lib con.toRespondingConnection env.conditions mtime
  (r, { con with toRespondingConnection := c })

/-- `strlen(compression_name)` -/
def encodingHeader (con : BackendConnection) (name : Option Bytes) : Option BackendConnection := do
  con.overwriteHeader (ascii "Content-Encoding") (some (← name))

def etagHeader (con : BackendConnection) (sce : StatCacheEntry) : Option BackendConnection :=
  if useEtag sce then con.overwriteHeader (ascii "ETag") con.etag.constBufLen else some con

/-- What is to be done: the request is answered or passed on, or the file is to be compressed. -/
inductive CompressPlan where
  | done (r : HandlerT) (srv : Server) (con : BackendConnection)
  | deflate (srv : Server) (con : BackendConnection) (sce : StatCacheEntry) (type : Nat)
      (name : Option Bytes) (mtime : Buffer)

def compressedValidators (srv : Server) (con : BackendConnection) (sce : StatCacheEntry)
    (matched : Nat) (mtime : Buffer) : Option CompressPlan :=
  let (type, name) := selectEncoding matched
  let con :=
    if useEtag sce then
      let tmpBuf := bufferCopyStringBuffer con.tmpBuf sce.etag
      let tmpBuf := bufferAppendStringLen tmpBuf (some (ascii "-"))
      let tmpBuf := bufferAppendString tmpBuf name
      { con with tmpBuf := tmpBuf, etag := etagMutate con.etag tmpBuf }
    else con
  match con.handleCachable lib env mtime with
  | (.finished, con) => do
    let con ← encodingHeader con name
    let con ← con.overwriteHeader (ascii "Content-Type") sce.contentType.constBufLen
    let con ← con.overwriteHeader (ascii "Last-Modified") mtime.constBufLen
    let con ← etagHeader con sce
    some (.done .finished srv con)
  | (_, con) => some (.deflate srv con sce type name mtime)

def originalValidators (srv : Server) (con : BackendConnection) (sce : StatCacheEntry)
    (matched : Nat) : Option CompressPlan := do
  let (cache, mtime) ← strftimeCacheGet srv.mtimeCache sce.st.stMtime
  let srv := { srv with mtimeCache := cache }
  if useEtag sce then
    let con := { con with etag := etagMutate con.etag sce.etag }
    match con.handleCachable lib env mtime with
    | (.finished, con) => do
      let con ← con.overwriteHeader (ascii "Content-Type") sce.contentType.constBufLen
      let con ← con.overwriteHeader (ascii "Last-Modified") mtime.constBufLen
      let con ← con.overwriteHeader (ascii "ETag") con.etag.constBufLen
      some (.done .finished srv con)
    | (_, con) => compressedValidators lib env srv con sce matched mtime
  else compressedValidators lib env srv con sce matched mtime

def compressPlan (srv : Server) (con : BackendConnection) : Option CompressPlan :=
  match compressChecks conf env con with
  | .error (r, con) => some (.done r srv con)
  | .ok sce => do
    let (contentType, con) := plainContentType con sce
    let (matched, con) ← matchEncodings conf sce contentType
      (conf.compress.data.take conf.compress.used) con
    match matched with
    | none => some (.done .goOn srv con)
    | some matched => originalValidators lib env srv con sce matched

def compressFile (s : CompressState) (sce : StatCacheEntry) (type : Nat) :
    Option (Bool × CompressState) :=
  if useEtag sce ∧ conf.compressCacheDir.used ≠ 0 then deflateFileToFile codec conf env s sce type
  else deflateFileToBuffer codec env s sce type

def compressAnswer (s : CompressState) (sce : StatCacheEntry) (type : Nat) (name : Option Bytes)
    (mtime : Buffer) : Option (HandlerT × CompressState) := do
  let (ok, s) ← compressFile codec conf env s sce type
  if ¬ ok then some (.goOn, s)
  else
    let con ← encodingHeader s.con name
    let con ← con.overwriteHeader (ascii "Last-Modified") mtime.constBufLen
    let con ← etagHeader con sce
    let con ← con.overwriteHeader (ascii "Content-Type") sce.contentType.constBufLen
    some (if conf.compressCacheDir.used ≠ 0 then .goOn else .finished, { s with con := con })

def modCompressPhysical (srv : Server) (s : CompressState) :
    Option (HandlerT × Server × CompressState) := do
  match ← compressPlan lib conf env srv s.con with
  | .done r srv con => some (r, srv, { s with con := con })
  | .deflate srv con sce type name mtime => do
    let (r, s) ← compressAnswer codec conf env { s with con := con } sce type name mtime
    some (r, srv, s)

end Code

/-! ## What the compressors write -/

/-- The output for the type: what the library wrote, for gzip between header and trailer. -/
def compressText (codec : Codec) (type : Nat) (start : Bytes) (mtime : Int) (room : Nat) :
    Option Bytes :=
  if type = HTTP_ACCEPT_ENCODING_GZIP then
    (codec.deflate start room).map fun out => gzipHeader mtime ++ out ++ gzipTrailer codec start
  else if type = HTTP_ACCEPT_ENCODING_DEFLATE then codec.deflate start room
  else if type = HTTP_ACCEPT_ENCODING_BZIP2 then codec.bzip2 start room
  else none

/-- The size of `p->b` for an input of that length. -/
def compressSize [Malloc] (type : Nat) (b : Buffer) (length : Nat) : Nat :=
  (bufferPrepareCopy b (length * 11 / 10 + 12 +
    if type = HTTP_ACCEPT_ENCODING_GZIP then 18 else 0)).size

def compressRoom [Malloc] (type : Nat) (b : Buffer) (length : Nat) : Nat :=
  compressSize type b length - if type = HTTP_ACCEPT_ENCODING_GZIP then 18 else 0

section Compressors

variable [Malloc] (codec : Codec) {type : Nat} {b : Buffer} {start : Bytes} {mtime : Int}

structure Buffer.Output (b : Buffer) (text : Bytes) (size : Nat) : Prop where
  bytes : b.bytes = text
  used : b.used = text.length
  size : b.size = size

omit [Malloc] in
theorem Buffer.Output.write {n : Nat} {text : Bytes} (h : b.Output text n) (out : Bytes)
    (hfits : text.length + out.length ≤ n) :
    ({ b with ptr := memcpy b.ptr b.used out, used := b.used + out.length } : Buffer).Output
      (text ++ out) n := by
  have hsize : b.ptr.length = n := h.size
  have hle : b.used ≤ b.ptr.length := by
    rw [h.used, hsize]
    omega
  refine ⟨?_, ?_, ?_⟩
  · show (memcpy b.ptr b.used out).take (b.used + out.length) = text ++ out
    rw [take_memcpy hle, ← h.bytes]
    rfl
  · rw [List.length_append, ← h.used]
  · show (memcpy b.ptr b.used out).length = n
    rw [length_memcpy (by rw [h.used, hsize]; exact hfits), hsize]

theorem output_prepared (b : Buffer) (n : Nat) :
    (bufferPrepareCopy b n).Output [] (bufferPrepareCopy b n).size :=
  ⟨by simp [Buffer.bytes], bufferPrepareCopy_used b n, rfl⟩

/-- **The compressors** put their output into the buffer, or fail. -/
theorem compressStart_spec (type : Nat) (b : Buffer) (start : Bytes) (mtime : Int) :
    (compressText codec type start mtime (compressRoom type b start.length) = none ∧
      (compressStart codec type b start mtime).1 = false) ∨
    ∃ text b', compressText codec type start mtime (compressRoom type b start.length) = some text ∧
      compressStart codec type b start mtime = (true, b') ∧
        b'.Output text (compressSize type b start.length) := by
  unfold compressText compressStart compressRoom compressSize
  by_cases hgzip : type = HTTP_ACCEPT_ENCODING_GZIP
  · simp only [if_pos hgzip]
    unfold deflateFileToBufferGzip
    have hprepared := output_prepared b (start.length * 11 / 10 + 12 + 18)
    have hle := le_size_bufferPrepareCopy b (start.length * 11 / 10 + 12 + 18)
    generalize bufferPrepareCopy b (start.length * 11 / 10 + 12 + 18) = b₀ at hprepared hle ⊢
    have hheader := hprepared.write (gzipHeader mtime)
      (show 0 + 10 ≤ b₀.size by omega)
    have hused : b₀.used = 0 := hprepared.used
    rw [hused] at hheader
    have hsize : (({ b₀ with ptr := memcpy b₀.ptr 0 (gzipHeader mtime), used := 10 } :
        Buffer).size - 10 - 8) = b₀.size - 18 := by
      have hfull := hheader.size
      rw [show ({ b₀ with ptr := memcpy b₀.ptr 0 (gzipHeader mtime), used := 10 } : Buffer).size =
        b₀.size from hfull]
      omega
    dsimp only
    rw [hsize]
    cases hout : codec.deflate start (b₀.size - 18) with
    | none => exact Or.inl ⟨rfl, rfl⟩
    | some out =>
      have hfits := codec.deflate_fits hout
      have hbody := hheader.write out
        (show 10 + out.length ≤ b₀.size by omega)
      have htrailer := hbody.write (gzipTrailer codec start) (by
        show ([] ++ gzipHeader mtime ++ out).length + 8 ≤ b₀.size
        rw [List.length_append]
        show 10 + out.length + 8 ≤ b₀.size
        omega)
      refine Or.inr ⟨_, _, rfl, rfl, ?_⟩
      exact htrailer
  · simp only [if_neg hgzip, Nat.add_zero, Nat.sub_zero]
    have hprepared := output_prepared b (start.length * 11 / 10 + 12)
    unfold deflateFileToBufferDeflate deflateFileToBufferBzip2
    generalize bufferPrepareCopy b (start.length * 11 / 10 + 12) = b₀ at hprepared ⊢
    have hused : b₀.used = 0 := hprepared.used
    have hplain : ∀ {out : Bytes}, out.length ≤ b₀.size → ({ b₀ with
        ptr := memcpy b₀.ptr 0 out, used := out.length } : Buffer).Output out b₀.size := by
      intro out hfits
      have hwritten := hprepared.write out (by simpa using hfits)
      rwa [hused, Nat.zero_add] at hwritten
    dsimp only
    rw [hused]
    simp only [Nat.zero_add]
    by_cases hdeflate : type = HTTP_ACCEPT_ENCODING_DEFLATE
    · simp only [if_pos hdeflate]
      cases hout : codec.deflate start b₀.size with
      | none => exact Or.inl ⟨rfl, rfl⟩
      | some out => exact Or.inr ⟨out, _, rfl, rfl, hplain (codec.deflate_fits hout)⟩
    · simp only [if_neg hdeflate]
      by_cases hbzip2 : type = HTTP_ACCEPT_ENCODING_BZIP2
      · simp only [if_pos hbzip2]
        cases hout : codec.bzip2 start b₀.size with
        | none => exact Or.inl ⟨rfl, rfl⟩
        | some out => exact Or.inr ⟨out, _, rfl, rfl, hplain (codec.bzip2_fits hout)⟩
      · rw [if_neg hbzip2, if_neg hbzip2]
        exact Or.inl ⟨rfl, rfl⟩

end Compressors

/-! ## The cache directory -/

theorem content_put (fs : Files) (name s name' : Bytes) :
    (fs.put name s).content name' = if name' = name then some s else fs.content name' := by
  unfold Files.content Files.put
  rw [List.lookup_cons]
  by_cases h : name' = name
  · rw [if_pos h, beq_iff_eq.mpr h]
  · rw [if_neg h, beq_eq_false_iff_ne.mpr h]

theorem content_remove (fs : Files) (name name' : Bytes) :
    (fs.remove name).content name' = if name' = name then none else fs.content name' := by
  have key : ∀ l : List (Bytes × Bytes), (l.filter (·.1 != name)).lookup name' =
      if name' = name then none else l.lookup name' := by
    intro l
    induction l with
    | nil => simp
    | cons f l ih =>
      obtain ⟨n, t⟩ := f
      rw [List.filter_cons, List.lookup_cons]
      by_cases hn : n = name
      · rw [if_neg (by simpa using hn), ih]
        by_cases h : name' = name
        · rw [if_pos h, if_pos h]
        · rw [if_neg h, if_neg h, beq_eq_false_iff_ne.mpr (hn ▸ h)]
      · rw [if_pos (by simpa using hn), List.lookup_cons, ih]
        by_cases h : name' = name
        · have hne : name' ≠ n := fun e => hn (e.symm.trans h)
          rw [if_pos h, if_pos h, beq_eq_false_iff_ne.mpr hne]
        · rw [if_neg h, if_neg h]
  exact key fs.contents

def CompleteCopy (codec : Codec) (env : CompressEnv) (type : Nat) (content : Bytes) : Prop :=
  ∃ mtime room, compressText codec type env.original mtime room = some content

section Cache

variable [Malloc] {codec : Codec} {conf : CompressConf} {env : CompressEnv} {s : CompressState}
  {sce : StatCacheEntry} {type : Nat} {content : Bytes}

def cacheFile (conf : CompressConf) (s : CompressState) (sce : StatCacheEntry) (type : Nat) :
    Option Buffer :=
  (typeSuffix type).map fun suffix =>
    bufferAppendStringBuffer (bufferAppendStringLen (cachePath conf s).1 (some suffix)) sce.etag

/-- The cache file is looked for, and is there with this content. -/
structure CacheHit (conf : CompressConf) (env : CompressEnv) (s : CompressState)
    (sce : StatCacheEntry) (type : Nat) (content : Bytes) : Prop where
  size : tooLarge sce.st.stSize = false
  name : ∃ ofn, cacheFile conf s sce type = some ofn ∧ mkdirForFile env.mkdir ofn.str = true ∧
    s.files.content ofn.str = some content
  opened : env.openCache = true

theorem cachePath_text (s : CompressState) (hdir : conf.compressCacheDir.used ≠ 0) :
    ∃ t, (cachePath conf s).1.Text t := by
  have hcopy := text_bufferCopyStringBuffer (bufferReset s.ofn) hdir
  have hslash := text_bufferAppendSlash hcopy
  unfold cachePath
  dsimp only
  split
  · exact ⟨_, (text_bufferAppendString hslash _).1⟩
  · exact ⟨_, text_bufferAppendStringBuffer_take hslash s.con.uriPath⟩

theorem fillCacheFile_spec (codec : Codec) (env : CompressEnv) (s : CompressState)
    (sce : StatCacheEntry) (type : Nat) (hofn : s.ofn.Ended)
    (hnone : s.files.content s.ofn.str = none) :
    ∃ ok s', fillCacheFile codec env s sce type = (ok, s') ∧
      (env.unlink = true → ∀ name, s'.files.content name = s.files.content name ∨
        ∃ content, s'.files.content name = some content ∧ CompleteCopy codec env type content) ∧
      ((ok = false ∧ s'.con = s.con) ∨ ok = true ∧ ∃ path content,
        s'.con = { s.con with physicalPath := path } ∧ s'.files.content path.str = some content ∧
          CompleteCopy codec env type content) := by
  have hremoved : ∀ (t : Bytes) (name : Bytes), ((s.files.put s.ofn.str t).remove s.ofn.str).content
      name = s.files.content name := by
    intro t name
    rw [content_remove, content_put]
    by_cases h : name = s.ofn.str
    · rw [if_pos h, h, hnone]
    · rw [if_neg h, if_neg h]
  have hagain : ∀ (t u : Bytes) (name : Bytes), (((s.files.put s.ofn.str t).put s.ofn.str u).remove
      s.ofn.str).content name = s.files.content name := by
    intro t u name
    rw [content_remove, content_put, content_put]
    by_cases h : name = s.ofn.str
    · rw [if_pos h, h, hnone]
    · rw [if_neg h, if_neg h, if_neg h]
  unfold fillCacheFile
  dsimp only
  by_cases hopen : ¬ env.openFile = true ∨ ¬ env.mmap = true
  · rw [if_pos hopen]
    refine ⟨false, _, rfl, fun hunlink name => Or.inl ?_, Or.inl ⟨rfl, rfl⟩⟩
    dsimp only
    rw [if_pos hunlink, hremoved]
  · rw [if_neg hopen]
    obtain ⟨htext, hfail⟩ | ⟨text, b', htext, hrun, houtput⟩ :=
      compressStart_spec codec type s.b env.original sce.st.stMtime
    · generalize compressStart codec type s.b env.original sce.st.stMtime = started at hfail ⊢
      obtain ⟨ok, b'⟩ := started
      obtain rfl : ok = false := hfail
      refine ⟨false, _, rfl, fun hunlink name => Or.inl ?_, Or.inl ⟨rfl, rfl⟩⟩
      dsimp only
      rw [if_pos hunlink, hremoved]
    · rw [hrun]
      dsimp only
      rw [if_pos rfl]
      by_cases hwrite : env.write b'.used = some b'.used
      · rw [if_pos hwrite, hwrite]
        have hwhole : b'.bytes.take b'.used = text := by
          rw [houtput.bytes, houtput.used, List.take_length]
        have hcopy : CompleteCopy codec env type text := ⟨_, _, htext⟩
        refine ⟨true, _, rfl, fun _ name => ?_, Or.inr ⟨rfl, _, text, rfl, ?_, hcopy⟩⟩
        · dsimp only
          rw [Option.getD_some, hwhole, content_put, content_put]
          by_cases h : name = s.ofn.str
          · rw [if_pos h]
            exact Or.inr ⟨text, rfl, hcopy⟩
          · rw [if_neg h, if_neg h]
            exact Or.inl rfl
        · dsimp only
          rw [bufferCopyStringBuffer_str _ hofn, Option.getD_some, hwhole, content_put, if_pos rfl]
      · rw [if_neg hwrite]
        refine ⟨false, _, rfl, fun hunlink name => Or.inl ?_, Or.inl ⟨rfl, rfl⟩⟩
        dsimp only
        rw [if_pos hunlink, hagain]

/-- **A copy in the cache**: the one that is there, or a new one, or none. -/
theorem deflateFileToFile_spec (codec : Codec) (conf : CompressConf) (env : CompressEnv)
    (s : CompressState) (sce : StatCacheEntry) (type : Nat) (hroot : s.con.docRoot.used ≠ 0)
    (hdir : conf.compressCacheDir.used ≠ 0) :
    ∃ ok s', deflateFileToFile codec conf env s sce type = some (ok, s') ∧
      (env.unlink = true → ∀ name, s'.files.content name = s.files.content name ∨
        ∃ content, s'.files.content name = some content ∧ CompleteCopy codec env type content) ∧
      ((ok = false ∧ s'.con = s.con ∧ ∀ content, ¬ CacheHit conf env s sce type content) ∨
        ok = true ∧ ∃ path content, s'.con = { s.con with physicalPath := path } ∧
          s'.files.content path.str = some content ∧ (CacheHit conf env s sce type content ∨
            (∀ content, ¬ CacheHit conf env s sce type content) ∧
              CompleteCopy codec env type content)) := by
  unfold deflateFileToFile
  by_cases hsize : tooLarge sce.st.stSize = true
  · rw [if_pos hsize]
    refine ⟨false, s, rfl, fun _ name => Or.inl rfl, Or.inl ⟨rfl, rfl, fun content hhit => ?_⟩⟩
    rw [hhit.size] at hsize
    cases hsize
  rw [if_neg hsize, if_neg hroot]
  obtain ⟨t, hpath⟩ := cachePath_text s hdir
  cases hsuffix : typeSuffix type with
  | none =>
    refine ⟨false, _, rfl, fun _ name => Or.inl rfl, Or.inl ⟨rfl, rfl, fun content hhit => ?_⟩⟩
    obtain ⟨ofn, hfile, -⟩ := hhit.name
    unfold cacheFile at hfile
    rw [hsuffix] at hfile
    cases hfile
  | some suffix =>
    have htext := text_bufferAppendStringBuffer_take (text_bufferAppendStringLen hpath suffix)
      sce.etag
    have hfile : cacheFile conf s sce type = some (bufferAppendStringBuffer
        (bufferAppendStringLen (cachePath conf s).1 (some suffix)) sce.etag) := by
      unfold cacheFile
      rw [hsuffix]
      rfl
    dsimp only
    generalize bufferAppendStringBuffer
      (bufferAppendStringLen (cachePath conf s).1 (some suffix)) sce.etag = ofn at htext hfile ⊢
    have hended := ended_of_holds htext.holds htext.wf
    have hsame : ∀ {content : Bytes}, CacheHit conf env s sce type content →
        mkdirForFile env.mkdir ofn.str = true ∧ env.openCache = true ∧
          s.files.content ofn.str = some content := by
      intro content hhit
      obtain ⟨ofn', hfile', hmkdir, hcontent⟩ := hhit.name
      obtain rfl := Option.some.inj (hfile.symm.trans hfile')
      exact ⟨hmkdir, hhit.opened, hcontent⟩
    by_cases hfail : ¬ mkdirForFile env.mkdir ofn.str = true ∨ ¬ env.openCache = true
    · rw [if_pos hfail]
      refine ⟨false, _, rfl, fun _ name => Or.inl rfl, Or.inl ⟨rfl, rfl, fun content hhit => ?_⟩⟩
      obtain ⟨hmkdir, hopened, -⟩ := hsame hhit
      exact hfail.elim (fun h => h hmkdir) (fun h => h hopened)
    rw [if_neg hfail]
    obtain ⟨hmkdir, hopened⟩ := not_or.mp hfail
    cases hcontent : s.files.content ofn.str with
    | some content =>
      rw [if_pos (by rfl)]
      refine ⟨true, _, rfl, fun _ name => Or.inl rfl, Or.inr ⟨rfl, _, content, rfl, ?_, Or.inl ?_⟩⟩
      · rw [bufferCopyStringBuffer_str _ hended]
        exact hcontent
      · exact ⟨by simpa using hsize, ⟨ofn, hfile, not_not.mp hmkdir, hcontent⟩, not_not.mp hopened⟩
    | none =>
      rw [if_neg (by simp)]
      have hmiss : ∀ content, ¬ CacheHit conf env s sce type content := by
        intro content hhit
        have hfound := (hsame hhit).2.2
        rw [hcontent] at hfound
        cases hfound
      obtain ⟨ok, s', hrun, hcache, houtcome⟩ := fillCacheFile_spec codec env
        { s with ofn := ofn, b := (cachePath conf s).2 } sce type hended hcontent
      refine ⟨ok, s', congrArg some hrun, hcache, ?_⟩
      rcases houtcome with ⟨hok, hcon⟩ | ⟨hok, path, content, hcon, hfiles, hcopy⟩
      · exact Or.inl ⟨hok, hcon, hmiss⟩
      · exact Or.inr ⟨hok, path, content, hcon, hfiles, Or.inr ⟨hmiss, hcopy⟩⟩

end Cache

section Queue

variable [Malloc] {codec : Codec} {env : CompressEnv} {s : CompressState} {sce : StatCacheEntry}
  {type : Nat}

structure Queues (codec : Codec) (env : CompressEnv) (s : CompressState) (sce : StatCacheEntry)
    (type : Nat) (text : Bytes) : Prop where
  size : tooLarge sce.st.stSize = false
  opened : env.openFile = true
  mapped : env.mmap = true
  text : compressText codec type env.original sce.st.stMtime
    (compressRoom type s.b env.original.length) = some text

theorem content_queued {cq : Chunkqueue} {b : Buffer} {text : Bytes} {n : Nat} (fs : Files)
    (hempty : cq.first = []) (houtput : b.Output text n) (hroom : text.length < n) :
    ((chunkqueueGetAppendBuffer cq).mapLastMem fun m =>
      bufferCopyMemory m (some (b.ptr.take (b.used + 1)))).content fs = text := by
  have hsize : b.ptr.length = n := houtput.size
  have hlen : (b.ptr.take (b.used + 1)).length = b.used + 1 := by
    rw [List.length_take, hsize, houtput.used]
    omega
  have hne : b.ptr.take (b.used + 1) ≠ [] := by
    intro hnil
    rw [hnil] at hlen
    cases hlen
  unfold chunkqueueGetAppendBuffer chunkqueueAppendChunk
  dsimp only
  unfold Chunkqueue.content
  rw [first_mapLastMem rfl, chunkqueueGetUnusedChunk_first, hempty, List.nil_append,
    List.map_singleton, List.flatten_singleton]
  unfold Chunk.content
  dsimp only
  rw [Chunk.unread_eq]
  dsimp only
  generalize bufferReset _ = m
  obtain ⟨hused, hbytes, -⟩ := bufferCopyMemory_bytes m hne
  have htake : (bufferCopyMemory m (some (b.ptr.take (b.used + 1)))).ptr.take (b.used + 1) =
      b.ptr.take (b.used + 1) := by
    unfold Buffer.bytes at hbytes
    rwa [hused, hlen] at hbytes
  rw [hused, hlen]
  show (List.take b.used _).drop 0 = text
  rw [List.drop_zero, ← houtput.bytes]
  have hcut := congrArg (List.take b.used) htake
  rwa [List.take_take, List.take_take, Nat.min_eq_left (Nat.le_succ _)] at hcut

/-- **A copy in the queue**: there is none, or the buffer is full, or it is in the queue. -/
theorem deflateFileToBuffer_spec (codec : Codec) (env : CompressEnv) (s : CompressState)
    (sce : StatCacheEntry) (type : Nat)
    (hqueue : ∀ c ∈ s.con.writeQueue.first, c.type ≠ .unused ∧ c.mem.used < 2 ^ 32) :
    ((∀ text, ¬ Queues codec env s sce type text) ∧
      ∃ s', deflateFileToBuffer codec env s sce type = some (false, s') ∧ s'.con = s.con) ∨
    ∃ text, Queues codec env s sce type text ∧
      (compressSize type s.b env.original.length ≤ text.length →
        deflateFileToBuffer codec env s sce type = none) ∧
      (text.length < compressSize type s.b env.original.length →
        ∃ s' cq path, deflateFileToBuffer codec env s sce type = some (true, s') ∧
          s'.b.bytes = text ∧ s'.con = { s.con with
            writeQueue := cq, physicalPath := path, fileFinished := true, fileStarted := true } ∧
          ∀ fs, cq.content fs = text) := by
  unfold deflateFileToBuffer
  by_cases hfail : tooLarge sce.st.stSize = true ∨ ¬ env.openFile = true ∨ ¬ env.mmap = true
  · rw [if_pos hfail]
    refine Or.inl ⟨fun text h => ?_, s, rfl, rfl⟩
    rcases hfail with hsize | hopen | hmap
    · rw [h.size] at hsize
      cases hsize
    · exact hopen h.opened
    · exact hmap h.mapped
  rw [if_neg hfail]
  obtain ⟨hsize, hopen⟩ := not_or.mp hfail
  obtain ⟨hopen, hmap⟩ := not_or.mp hopen
  obtain ⟨hnone, hret⟩ | ⟨text, b', htext, hrun, houtput⟩ :=
    compressStart_spec codec type s.b env.original sce.st.stMtime
  · generalize compressStart codec type s.b env.original sce.st.stMtime = started at hret ⊢
    obtain ⟨ok, b'⟩ := started
    obtain rfl : ok = false := hret
    refine Or.inl ⟨fun text h => ?_, _, rfl, rfl⟩
    exact absurd (hnone.symm.trans h.text) (by simp)
  · refine Or.inr ⟨text, ⟨by simpa using hsize, not_not.mp hopen, not_not.mp hmap, htext⟩, ?_, ?_⟩
    · intro hfull
      rw [hrun]
      dsimp only
      rw [if_neg (by simp), if_pos (by rw [houtput.size, houtput.used]; exact hfull)]
    · intro hroom
      rw [hrun]
      dsimp only
      rw [if_neg (by simp), if_neg (by rw [houtput.size, houtput.used]; omega)]
      exact ⟨_, _, _, rfl, houtput.bytes, rfl,
        fun fs => content_queued fs (first_chunkqueueReset hqueue) houtput hroom⟩

end Queue

end Lighttpd
