import Lighttpd.Autothumb.Common
import Lighttpd.Response

/-!
# `mod_autothumb.c`: the response for a picture

`_subrequest_output` sets the headers and queues the picture. It copies the picture into a buffer
with the memory functions, which do not count a terminator, and hands the buffer to the queue,
which takes the last byte for one.
-/

namespace Lighttpd

open CLib

section Operations

variable [Malloc]

def matchesType (path : Buffer) (ds : DataString) : Bool :=
  if ds.key.used = 0 ∨ ds.key.used > path.used then false
  else strncaseeq (ds.key.used - 1) (path.ptr.drop (path.used - ds.key.used)) ds.key.ptr

def contentType (con : Connection) : Buffer :=
  match con.conf.mimetypes.elements.find? (matchesType con.physicalPath) with
  | some ds => bufferCopyStringBuffer bufferInit ds.value
  | none => bufferInit

def outputContentType (con : Connection) : Option (Arr DataString) := do
  match ← arrayGetElement con.response.headers (ascii "Content-Type") with
  | some _ => some con.response.headers
  | none =>
    let type := contentType con
    let type :=
      if bufferIsEmpty type then bufferCopyString type (some (ascii "application/octet-stream"))
      else type
    responseHeaderOverwrite con.response.headers (ascii "Content-Type") type.constBufLen

/-- The value of `Last-Modified`: what the client sent, or the formatted time. -/
def lastModified (srv : Server) (con : Connection) (fi : FileInfo) :
    Option (List MtimeCache × Buffer) := do
  match ← arrayGetElement con.request.headers (ascii "If-Modified-Since") with
  | some (_, ds) => some (srv.mtimeCache, ds.value)
  | none => strftimeCacheGet srv.mtimeCache fi.createTimestamp

/-- The value of `Expires`, ten days later. The buffer has no memory yet. -/
def expires (fi : FileInfo) : Option Buffer := do
  let expire := bufferInit
  let (ptr, lens) ← strftime expire.ptr 32 (fi.createTimestamp + 864000)
  some { expire with ptr := ptr, used := lens + 1 }

/-- The value of `Cache-Control`. -/
def maxAge (srv : Server) (expire : Buffer) (fi : FileInfo) : Buffer :=
  bufferAppendLong (bufferCopyStringLen expire (some (ascii "max-age=")))
    (fi.createTimestamp + 864000 - srv.curTs)

def outputHeaders (srv : Server) (con : Connection) (fi : FileInfo) :
    Option (List MtimeCache × Arr DataString) := do
  let headers ← outputContentType con
  let (cache, mtime) ← lastModified srv con fi
  let headers ← responseHeaderAppend headers (ascii "Last-Modified") mtime.constBufLen
  let expire ← expires fi
  let headers ← responseHeaderAppend headers (ascii "Expires") expire.constBufLen
  let headers ← responseHeaderAppend headers (ascii "Cache-Control")
    (maxAge srv expire fi).constBufLen
  some (cache, headers)

/-- The first `n` bytes behind a pointer. -/
def readBytes (p : Option Bytes) (n : Nat) : Option (Option Bytes) :=
  match p with
  | none => some none
  | some m => if n ≤ m.length then some (some (m.take n)) else none

def outputContent (fileBuff : Option Bytes) (fileSize : Int) : Option Buffer := do
  let content := bufferPrepareAppend bufferInit (fileSize + 1).toNat
  let s ← readBytes fileBuff fileSize.toNat
  some (bufferCopyMemory content s)

/-- `fileBuff` is the memory at `file_buff`, `none` for `NULL`. -/
def subrequestOutput (srv : Server) (con : Connection) (fileBuff : Option Bytes) (fileSize : Int)
    (fi : FileInfo) : Option (Server × Connection) := do
  let (cache, headers) ← outputHeaders srv con fi
  let content ← outputContent fileBuff fileSize
  some ({ srv with mtimeCache := cache },
    { con with
      response := { con.response with headers := headers }
      writeQueue := chunkqueueAppendBuffer con.writeQueue content })

end Operations

def Chunk.payload (c : Chunk) : Bytes := c.mem.ptr.take (c.mem.used - 1)

/-- The picture is queued: all of its bytes but the last one, in a memory chunk. -/
def Queued (old new : Chunkqueue) (image : Bytes) : Prop :=
  image ≠ [] ∧ ∃ c, new.first = old.first ++ [c] ∧ c.type = .mem ∧ c.offset = 0 ∧
    c.mem.used = image.length ∧ c.payload = image.dropLast

theorem first_getUnusedChunk (cq : Chunkqueue) :
    (chunkqueueGetUnusedChunk cq).1.first = cq.first := by
  unfold chunkqueueGetUnusedChunk
  split <;> rfl

section Specs

variable [Malloc]

theorem outputContent_some {image : Bytes} {n : Int} {content : Buffer} (hn : 0 < n)
    (h : outputContent (some image) n = some content) :
    content.used = (image.take n.toNat).length ∧ content.bytes = image.take n.toNat ∧
      image.take n.toNat ≠ [] := by
  simp only [outputContent, readBytes, Option.bind_eq_bind] at h
  by_cases hle : n.toNat ≤ image.length
  · rw [if_pos hle, Option.bind_some] at h
    cases h
    have hne : image.take n.toNat ≠ [] := by
      intro hnil
      have := congrArg List.length hnil
      simp only [List.length_take, List.length_nil] at this
      omega
    obtain ⟨hused, hbytes, -⟩ := bufferCopyMemory_bytes
      (bufferPrepareAppend bufferInit (n + 1).toNat) hne
    exact ⟨hused, hbytes, hne⟩
  · rw [if_neg hle, Option.bind_none] at h
    cases h

theorem outputContent_none {n : Int} {content : Buffer} (h : outputContent none n = some content) :
    content.used = 0 := by
  simp only [outputContent, readBytes, Option.bind_eq_bind, Option.bind_some] at h
  cases h
  exact (bufferPrepareAppend_spec (wf_of_used_zero rfl) _).1

theorem queued_appendBuffer (cq : Chunkqueue) {content : Buffer} {image : Bytes}
    (hne : image ≠ []) (hused : content.used = image.length) (hbytes : content.bytes = image) :
    Queued cq (chunkqueueAppendBuffer cq content) image := by
  have hpos : content.used ≠ 0 := by
    rw [hused]
    simpa using hne
  have htake : content.ptr.take (content.used - 1) = image.dropLast := by
    rw [List.dropLast_eq_take, ← hused, ← hbytes, Buffer.bytes, List.take_take,
      Nat.min_eq_left (Nat.sub_le _ _)]
  unfold chunkqueueAppendBuffer
  rw [if_neg hpos]
  refine ⟨hne,
    { (chunkqueueGetUnusedChunk cq).2 with
      type := .mem, offset := 0
      mem := bufferCopyStringBuffer (chunkqueueGetUnusedChunk cq).2.mem content },
    by simp only [chunkqueueAppendChunk, first_getUnusedChunk], rfl, rfl, ?_⟩
  simp only [Chunk.payload, bufferCopyStringBuffer, if_neg hpos, htake]
  have hlen : image.dropLast.length + 1 = image.length := by
    rw [List.length_dropLast]
    omega
  refine ⟨by rw [bufferCopyStringLen_used, hlen], ?_⟩
  exact take_of_holds (holds_bufferCopyStringLen _ _) (bufferCopyStringLen_used _ _)

theorem subrequestOutput_spec {srv srv' : Server} {con con' : Connection}
    {fileBuff : Option Bytes} {fileSize : Int} {fi : FileInfo} (hn : 0 < fileSize)
    (h : subrequestOutput srv con fileBuff fileSize fi = some (srv', con')) :
    con'.httpStatus = con.httpStatus ∧
      (fileBuff = none → con'.writeQueue = con.writeQueue) ∧
      ∀ image, fileBuff = some image →
        Queued con.writeQueue con'.writeQueue (image.take fileSize.toNat) := by
  obtain ⟨⟨cache, headers⟩, -, h⟩ := Option.bind_eq_some_iff.mp h
  obtain ⟨content, hcontent, h⟩ := Option.bind_eq_some_iff.mp h
  cases h
  refine ⟨rfl, ?_, ?_⟩
  · rintro rfl
    simp only [chunkqueueAppendBuffer, if_pos (outputContent_none hcontent)]
  · rintro image rfl
    obtain ⟨hused, hbytes, hne⟩ := outputContent_some hn hcontent
    exact queued_appendBuffer con.writeQueue hne hused hbytes

end Specs

/-! ## The last byte -/

theorem Queued.length {old new : Chunkqueue} {image : Bytes} (h : Queued old new image) :
    chunkqueueLength new = chunkqueueLength old + image.length - 1 := by
  obtain ⟨hne, c, hfirst, htype, -, hused, -⟩ := h
  have hpos : image.length ≠ 0 := by simpa using hne
  simp only [chunkqueueLength, hfirst, List.map_append, List.map_cons, List.map_nil,
    List.sum_append, List.sum_singleton, htype, hused, ne_eq, hpos, not_false_eq_true, if_true]
  omega

def Intact [Malloc] (srv : Server) (con : Connection) (image : Bytes) (fi : FileInfo) : Prop :=
  ∃ srv' con' c, subrequestOutput srv con (some image) image.length fi = some (srv', con') ∧
    con'.writeQueue.first = con.writeQueue.first ++ [c] ∧ c.type = .mem ∧ c.payload = image ∧
    chunkqueueLength con'.writeQueue = chunkqueueLength con.writeQueue + image.length

theorem queued_of_output [Malloc] {srv srv' : Server} {con con' : Connection} {image : Bytes}
    {fi : FileInfo} (hne : image ≠ [])
    (h : subrequestOutput srv con (some image) image.length fi = some (srv', con')) :
    Queued con.writeQueue con'.writeQueue image := by
  have hpos : (0 : Int) < image.length := by
    have := List.length_pos_iff.mpr hne
    omega
  have hq := (subrequestOutput_spec hpos h).2.2 image rfl
  simpa using hq

theorem intact_false [Malloc] {srv : Server} {con : Connection} {image : Bytes} {fi : FileInfo}
    (hne : image ≠ []) : ¬ Intact srv con image fi := by
  rintro ⟨srv', con', c, h, -, -, -, hlen⟩
  have := (queued_of_output hne h).length
  omega

/-- **The last byte of every picture is lost** on its way to the queue, and no other. -/
theorem subrequestOutput_loses_last [Malloc] (srv : Server) (con : Connection) (image : Bytes)
    (fi : FileInfo) (hne : image ≠ []) :
    ¬ Intact srv con image fi ∧
    ∀ srv' con', subrequestOutput srv con (some image) image.length fi = some (srv', con') →
      Queued con.writeQueue con'.writeQueue image ∧
      chunkqueueLength con'.writeQueue = chunkqueueLength con.writeQueue + image.length - 1 :=
  ⟨intact_false hne, fun _ _ h => ⟨queued_of_output hne h, (queued_of_output hne h).length⟩⟩

def emptyConnection : Connection :=
  connectionInit { mimetypes := arrayInit, allowHttp11 := true }

theorem subrequestOutput_loses_last_byte :
    ¬ @Intact zeroMalloc (serverInit 0) emptyConnection [0xff, 0xd8, 0xd9] fileInfoInit :=
  (@subrequestOutput_loses_last zeroMalloc (serverInit 0) emptyConnection [0xff, 0xd8, 0xd9]
    fileInfoInit (by decide)).1

example : (@subrequestOutput zeroMalloc (serverInit 0) emptyConnection (some [0xff, 0xd8, 0xd9]) 3
    fileInfoInit).map (fun r => r.2.writeQueue.first.map Chunk.payload) = some [[0xff, 0xd8]] := by
  decide +kernel

/-- A picture of three bytes arrives without its last one. -/
theorem not_intact_three_bytes : ¬ ∀ (m : Malloc) (srv : Server) (con : Connection)
    (image : Bytes) (fi : FileInfo), image ≠ [] → @Intact m srv con image fi := by
  intro h
  exact @intact_false zeroMalloc _ _ _ _ (by decide)
    (h zeroMalloc (serverInit 0) emptyConnection [0xff, 0xd8, 0xd9] fileInfoInit (by decide))

end Lighttpd
