import Lighttpd.Base
import Lighttpd.Lib.Pieces
import Lighttpd.QueueContent

/-!
# `connections.c`: receiving a request

`connection_handle_read` puts what the socket has into the last chunk of `read_queue`, or into a new
one. `connection_handle_read_state` then looks for the end of the header, or moves the body into
`request_content_queue`. Connections without SSL only. What the system answers is a parameter; the
files it keeps are `Files`.
-/

namespace Lighttpd

open CLib

/-- `connection_state_t` -/
inductive ConnectionState where
  | connect
  | requestStart
  | read
  | requestEnd
  | readPost
  | handleRequest
  | responseStart
  | write
  | responseEnd
  | error
  | close
  deriving DecidableEq, Repr

/-- `connection`, with the fields for receiving. -/
structure ReadingConnection extends Connection where
  state : ConnectionState
  isReadable : Bool
  readQueue : Chunkqueue
  requestContentQueue : Chunkqueue
  deriving DecidableEq, Repr

/-! ## `connection_handle_read` -/

/-- `EAGAIN`, `EINTR`, another error, or the bytes the socket has; none are left when it is
closed. -/
inductive ReadResult where
  | again
  | interrupted
  | failed
  | data (s : Bytes)
  deriving DecidableEq, Repr

/-- The answer to `FIONREAD`, if there is one, and the result of `read`. -/
structure ReadAnswer where
  toread : Option Nat
  result : ReadResult
  deriving DecidableEq, Repr

/-- `settings.h` -/
def MAX_READ_LIMIT : Nat := 4 * 1024 * 1024

section Read

variable [Malloc]

def newReadBuffer (cq : Chunkqueue) (size : Nat) : Chunkqueue :=
  (chunkqueueGetAppendBuffer cq).mapLastMem (bufferPrepareCopy · size)

def selectReadBuffer (cq : Chunkqueue) (toread : Option Nat) : Chunkqueue :=
  let toread := toread.getD 0
  if toread ≤ 4 * 1024 then
    match cq.first.getLast? with
    | some c => if c.mem.size - c.mem.used < 1024 then newReadBuffer cq (4 * 1024) else cq
    | none => newReadBuffer cq (4 * 1024)
  else newReadBuffer cq (min toread MAX_READ_LIMIT + 1)

def readOffset (b : Buffer) : Nat := if b.used = 0 then 0 else b.used - 1

/-- How many bytes `read` is asked for. -/
def readSize (b : Buffer) : Nat := b.size - 1 - readOffset b

/-- The bytes of `read`, behind the old ones, and a terminator. -/
def storeRead (b : Buffer) (s : Bytes) : Buffer :=
  let used := readOffset b + s.length
  { b with ptr := (memcpy b.ptr (readOffset b) s).set used 0, used := used + 1 }

/-- What `read` puts into the buffer. -/
def bytesRead (b : Buffer) : ReadResult → Bytes
  | .data s => s.take (readSize b)
  | _ => []

def connectionHandleRead (con : ReadingConnection) (answer : ReadAnswer) :
    Int × ReadingConnection :=
  let con := { con with readQueue := selectReadBuffer con.readQueue answer.toread }
  match answer.result with
  | .again => (0, { con with isReadable := false })
  | .interrupted => (0, { con with isReadable := true })
  | .failed => (-1, { con with isReadable := false, state := .error })
  | .data s =>
    let b := con.readQueue.lastMem
    let s := bytesRead b (.data s)
    if s.length = 0 then (-2, { con with isReadable := false })
    else
      let con := if s.length < b.size - 1 then { con with isReadable := false } else con
      (0, { con with readQueue := con.readQueue.mapLastMem (storeRead · s) })

end Read

/-! ## Empty chunks -/

/-- The loop from a chunk on that is not empty; an empty one behind it goes to `unused`. -/
def dropEmptyBehind : List Chunk → List Chunk → List Chunk × List Chunk
  | c :: d :: cs, unused =>
    if d.mem.used = 0 then
      let (cs, unused) := dropEmptyBehind cs (d :: unused)
      (c :: cs, unused)
    else
      let (cs, unused) := dropEmptyBehind (d :: cs) unused
      (c :: cs, unused)
  | cs, unused => (cs, unused)

def dropEmpty : List Chunk → List Chunk → List Chunk × List Chunk
  | c :: cs, unused =>
    if c.mem.used = 0 then dropEmpty cs (c :: unused) else dropEmptyBehind (c :: cs) unused
  | [], unused => ([], unused)

def dropEmptyChunks (cq : Chunkqueue) : Chunkqueue :=
  let (first, unused) := dropEmpty cq.first cq.unused
  { cq with
    first := first, unused := unused
    unusedChunks := cq.unusedChunks + (unused.length - cq.unused.length) }

/-! ## `CON_STATE_READ` -/

def headerEnd : Bytes := ascii "\r\n\r\n"

/-- `last_chunk`, by its number in the queue, and `last_offset`. What `b` stands for in the loops are
the unread bytes of a chunk. -/
def findHeaderEnd (cq : Chunkqueue) : Option (Nat × Nat) :=
  Pieces.search headerEnd 0 (cq.first.map Chunk.unread)

section Header

variable [Malloc]

/-- The loop that copies the header, up to `lastOffset` of the chunk with this number. -/
def copyHeader (request : Buffer) : Nat → Nat → List Chunk → Buffer × List Chunk
  | _, _, [] => (request, [])
  | 0, lastOffset, c :: cs =>
    let b : Buffer := ⟨c.mem.ptr.drop c.offset.toNat, lastOffset + 1, 0⟩
    (bufferAppendStringBuffer request b, { c with offset := c.offset + lastOffset } :: cs)
  | n + 1, lastOffset, c :: cs =>
    let b : Buffer := ⟨c.mem.ptr.drop c.offset.toNat, c.mem.used - c.offset.toNat, 0⟩
    let (request, cs) := copyHeader (bufferAppendStringBuffer request b) n lastOffset cs
    (request, { c with offset := c.mem.used - 1 } :: cs)

def readHeader (con : ReadingConnection) : ReadingConnection :=
  match findHeaderEnd con.readQueue with
  | some (n, lastOffset) =>
    let (request, first) :=
      copyHeader (bufferReset con.request.request) n lastOffset con.readQueue.first
    { con with
      request := { con.request with request := request }
      readQueue := { con.readQueue with first := first }
      state := .requestEnd }
  | none =>
    if chunkqueueLength con.readQueue > 64 * 1024 then
      { con with httpStatus := 414, keepAlive := false, state := .handleRequest }
    else con

end Header

/-! ## `CON_STATE_READ_POST` -/

/-- The answers for one chunk: to `mkstemp` in each of the directories, to `open`, and to `write`,
which says how many of so many bytes it wrote. -/
structure PostAnswer where
  mkstemp : Nat → MkstempAnswer
  reopen : Option Nat
  write : Nat → Option Nat

def Chunkqueue.mapLast (cq : Chunkqueue) (f : Chunk → Chunk) : Chunkqueue :=
  { cq with first := cq.first.dropLast ++ (cq.first.getLast?.map f).toList }

def Chunkqueue.last (cq : Chunkqueue) : Chunk := cq.first.getLast?.getD chunkInit

def Chunk.setFd (c : Chunk) (fd : Option Nat) : Chunk := { c with file := { c.file with fd := fd } }

/-- `close` where the chunk has a descriptor. -/
def closeLast (dst : Chunkqueue) (fs : Files) : Chunkqueue × Files :=
  (dst.mapLast (·.setFd none), dst.last.file.fd.elim fs fs.close)

section Post

variable [Malloc] (contentLength : Nat) (answer : PostAnswer)

def newTempfile (dst : Chunkqueue) (fs : Files) : Option (Chunkqueue × Files) :=
  let dst := (chunkqueueGetAppendTempfile dst answer.mkstemp).1
  match dst.last.file.fd with
  | none => some (dst, fs)
  | some fd => (fs.create dst.last.file.name.str fd).map fun fs => (dst, fs)

def selectTempfile (dst : Chunkqueue) (fs : Files) : Option (Chunkqueue × Files) :=
  match dst.first.getLast? with
  | none => newTempfile answer dst fs
  | some c =>
    if c.type = .file ∧ c.file.isTemp ∧ c.offset = 0 then
      if c.file.length < 1 * 1024 * 1024 then
        if c.file.fd = none then
          match answer.reopen with
          | none => some (dst, fs)
          | some fd => (fs.openAppend c.file.name.str fd).map fun fs =>
              (dst.mapLast (·.setFd (some fd)), fs)
        else some (dst, fs)
      else
        let (dst, fs) := closeLast dst fs
        newTempfile answer dst fs
    else newTempfile answer dst fs

/-- Where a part of the body goes, and whether the loop goes on. -/
structure Stored where
  dst : Chunkqueue
  fs : Files
  ok : Bool

def storeInTempfile (dst : Chunkqueue) (fs : Files) (s : Bytes) : Option Stored :=
  match selectTempfile answer dst fs with
  | none => none
  | some (dst, fs) =>
    match dst.last.file.fd with
    | none => some ⟨dst, fs, false⟩
    | some fd =>
      let fs := fs.append fd (s.take ((answer.write s.length).getD 0))
      if answer.write s.length ≠ some s.length then
        let (dst, fs) := closeLast dst fs
        some ⟨dst, fs, false⟩
      else
        let dst := dst.mapLast fun c =>
          { c with file := { c.file with length := c.file.length + s.length } }
        if dst.bytesIn + s.length = contentLength then
          let (dst, fs) := closeLast dst fs
          some ⟨dst, fs, true⟩
        else some ⟨dst, fs, true⟩

def storeInMemory (dst : Chunkqueue) (s : Bytes) : Chunkqueue :=
  let dst : Chunkqueue :=
    match dst.first.getLast? with
    | some c =>
      if c.type = ChunkType.mem then dst else newReadBuffer dst (contentLength - dst.bytesIn + 1).toNat
    | none => newReadBuffer dst (contentLength - dst.bytesIn + 1).toNat
  dst.mapLastMem (bufferAppendStringLen · (some s))

def storeBody (dst : Chunkqueue) (fs : Files) (s : Bytes) : Option Stored :=
  if contentLength > 64 * 1024 then storeInTempfile contentLength answer dst fs s
  else some ⟨storeInMemory contentLength dst s, fs, true⟩

def toRead (dst : Chunkqueue) (c : Chunk) : Int :=
  let weWant := contentLength - dst.bytesIn
  let weHave := c.mem.used - c.offset - 1
  if weHave > weWant then weWant else weHave

/-- The loop over the chunks that were read; `answers i` are for the `i`-th of them. -/
def postLoop (answers : Nat → PostAnswer) :
    Nat → List Chunk → Chunkqueue → Files → Option (List Chunk × Stored)
  | _, [], dst, fs => some ([], ⟨dst, fs, true⟩)
  | i, c :: cs, dst, fs =>
    if dst.bytesIn = contentLength then some (c :: cs, ⟨dst, fs, true⟩)
    else if c.mem.used = 0 then none
    else
      let n := toRead contentLength dst c
      let s := (c.mem.ptr.drop c.offset.toNat).take n.toNat
      match storeBody contentLength (answers i) dst fs s with
      | none => none
      | some ⟨dst, fs, false⟩ => some (c :: cs, ⟨dst, fs, false⟩)
      | some ⟨dst, fs, true⟩ =>
        match postLoop answers (i + 1) cs { dst with bytesIn := dst.bytesIn + n } fs with
        | none => none
        | some (cs, stored) => some ({ c with offset := c.offset + n } :: cs, stored)

def readPost (con : ReadingConnection) (fs : Files) (answers : Nat → PostAnswer) :
    Option (ReadingConnection × Files) :=
  match postLoop con.request.contentLength answers 0 con.readQueue.first con.requestContentQueue fs
    with
  | none => none
  | some (first, stored) =>
    let con := { con with
      readQueue := { con.readQueue with first := first }, requestContentQueue := stored.dst }
    let con := if stored.ok then con
      else { con with httpStatus := 413, keepAlive := false, state := .handleRequest }
    some (if stored.dst.bytesIn = con.request.contentLength then
      { con with state := .handleRequest } else con, stored.fs)

end Post

section State

variable [Malloc]

/-- The part of `connection_handle_read_state` in front of the `switch`. -/
def receive (con : ReadingConnection) (answer : ReadAnswer) : Int × ReadingConnection :=
  let (r, con) := if con.isReadable then connectionHandleRead con answer else (0, con)
  if r = -1 then (r, con) else (r, { con with readQueue := dropEmptyChunks con.readQueue })

/-- The part behind it; `ostate` is the state at the start. -/
def leaveRead (isClosed : Bool) (ostate : ConnectionState) (con : ReadingConnection) :
    ReadingConnection :=
  let con := if isClosed ∧ ostate = con.state then { con with state := .error } else con
  { con with readQueue := (chunkqueueRemoveFinishedChunks con.readQueue).1 }

def connectionHandleReadState (con : ReadingConnection) (fs : Files) (answer : ReadAnswer)
    (answers : Nat → PostAnswer) : Option (ReadingConnection × Files) :=
  let ostate := con.state
  let (r, con) := receive con answer
  if r = -1 then some (con, fs)
  else
    match ostate with
    | .read => some (leaveRead (r == -2) ostate (readHeader con), fs)
    | .readPost =>
      (readPost con fs answers).map fun (con, fs) => (leaveRead (r == -2) ostate con, fs)
    | _ => some (leaveRead (r == -2) ostate con, fs)

end State

end Lighttpd
