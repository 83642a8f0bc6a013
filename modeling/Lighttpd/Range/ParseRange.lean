import Lighttpd.HttpChunk
import Lighttpd.Response

/-!
# `mod_staticfile.c`, `mod_fastdfs.c`: `http_response_parse_range`

Both modules parse a `Range` value with the same code, and queue the parts it asks for: one from a
file, the other from memory. They differ in the number they take for the size and in the function
that appends a part (`RangeTarget`).
-/

namespace Lighttpd

open CLib

/-- What the parts are taken from. `last` is the size less 1, as it is computed. -/
structure RangeTarget where
  size : Int
  last : Int
  append : Chunkqueue → Int → Int → Chunkqueue

structure RangeState where
  s : Bytes
  start : Int
  stop : Int
  multipart : Bool
  error : Bool
  httpStatus : Int
  responseLength : Int
  writeQueue : Chunkqueue

/-! ## Reading a range -/

def endRange (err : Bytes) (start stop : Int) (st : RangeState) : RangeState :=
  match err with
  | [] => { st with s := [], stop := stop, start := start }
  | c :: rest =>
    if c = 44 then { st with multipart := true, s := rest, stop := stop, start := start }
    else { st with error := true }

/-- `-<stop>` -/
def readSuffix (target : RangeTarget) (st : RangeState) : RangeState :=
  let (le, err) := strtoll st.s
  if le = 0 then { st with httpStatus := 416, error := true }
  else endRange err (target.size + le) target.last st

/-- `<start>-`; `minus` is the text from the minus on. -/
def readOpen (target : RangeTarget) (minus : Bytes) (st : RangeState) : RangeState :=
  let (la, err) := strtoll st.s
  if err = minus then endRange (err.drop 1) la target.last st else { st with error := true }

/-- `<start>-<stop>` -/
def readClosed (minus : Bytes) (st : RangeState) : RangeState :=
  let (la, err) := strtoll st.s
  if err = minus then
    let (le, err) := strtoll (minus.drop 1)
    let st := if la > le then { st with error := true } else st
    endRange err la le st
  else { st with error := true }

/-- `m` is the index of the first minus. -/
def readRange (target : RangeTarget) (m : Nat) (st : RangeState) : RangeState :=
  let minus := st.s.drop m
  if m = 0 then readSuffix target st
  else
    match minus.drop 1 with
    | [] => readOpen target minus st
    | c :: _ => if c = 44 then readOpen target minus st else readClosed minus st

def clampRange (target : RangeTarget) (st : RangeState) : RangeState :=
  if st.error then st
  else
    let st := if st.start < 0 then { st with start := 0 } else st
    let st := if st.stop > target.last then { st with stop := target.last } else st
    if st.start > target.last then { st with error := true, httpStatus := 416 } else st

section Operations

variable [Malloc]

/-! ## Queueing a part -/

def boundary : Bytes := ascii "fkj49sn38dcn3"

def partHeader (size start stop : Int) (contentType : Option Buffer) (b : Buffer) : Buffer :=
  let b := bufferCopyStringLen b (some (ascii "\r\n--"))
  let b := bufferAppendString b (some boundary)
  let b := bufferAppendStringLen b (some (ascii "\r\nContent-Range: bytes "))
  let b := bufferAppendOffT b start
  let b := bufferAppendStringLen b (some (ascii "-"))
  let b := bufferAppendOffT b stop
  let b := bufferAppendStringLen b (some (ascii "/"))
  let b := bufferAppendOffT b size
  let b := bufferAppendStringLen b (some (ascii "\r\nContent-Type: "))
  let b := (contentType.map (bufferAppendStringBuffer b)).getD b
  bufferAppendStringLen b (some (ascii "\r\n\r\n"))

def boundaryEnd (b : Buffer) : Buffer :=
  let b := bufferCopyStringLen b (some (ascii "\r\n--"))
  let b := bufferAppendString b (some boundary)
  bufferAppendStringLen b (some (ascii "--\r\n"))

/-- A text goes into a new memory chunk, and its length is counted. -/
def queueText (text : Buffer → Buffer) (st : RangeState) : RangeState :=
  let cq := (chunkqueueGetAppendBuffer st.writeQueue).mapLastMem text
  { st with writeQueue := cq, responseLength := st.responseLength + ((cq.lastMem.used : Int) - 1) }

def queuePart (target : RangeTarget) (contentType : Option Buffer) (st : RangeState) :
    RangeState :=
  if st.error then st
  else
    let st :=
      if st.multipart then queueText (partHeader target.size st.start st.stop contentType) st
      else st
    let len := st.stop - st.start + 1
    { st with
      writeQueue := target.append st.writeQueue st.start len
      responseLength := st.responseLength + len }

def rangeRound (target : RangeTarget) (contentType : Option Buffer) (m : Nat) (st : RangeState) :
    RangeState :=
  queuePart target contentType (clampRange target (readRange target m st))

/-- The loop; `fuel` bounds the number of rounds. -/
def rangeLoop (target : RangeTarget) (contentType : Option Buffer) :
    Nat → RangeState → Option RangeState
  | 0, _ => none
  | fuel + 1, st =>
    if st.error = true ∨ st.s = [] then some st
    else
      match strchr st.s 45 with
      | none => some st
      | some m => rangeLoop target contentType fuel (rangeRound target contentType m st)

/-! ## The whole function -/

def rangeStart (target : RangeTarget) (con : RespondingConnection) (httpRange : Bytes) :
    RangeState where
  s := httpRange
  start := 0
  stop := target.last
  multipart := false
  error := false
  httpStatus := con.httpStatus
  responseLength := 0
  writeQueue := con.writeQueue

def contentRange (size start stop : Int) (b : Buffer) : Buffer :=
  let b := bufferCopyStringLen b (some (ascii "bytes "))
  let b := bufferAppendOffT b start
  let b := bufferAppendStringLen b (some (ascii "-"))
  let b := bufferAppendOffT b stop
  let b := bufferAppendStringLen b (some (ascii "/"))
  bufferAppendOffT b size

def multipartType (b : Buffer) : Buffer :=
  bufferAppendString (bufferCopyStringLen b (some (ascii "multipart/byteranges; boundary=")))
    (some boundary)

def RangeState.store (st : RangeState) (con : RespondingConnection) : RespondingConnection :=
  { con with
    httpStatus := st.httpStatus, responseLength := st.responseLength, writeQueue := st.writeQueue }

def setHeaders (con : RespondingConnection) (headers : Arr DataString) : RespondingConnection :=
  { con with response := { con.response with headers := headers } }

/-- `http_response_parse_range`: the result, the connection, and `p->range_buf`. `httpRange` is the
C string at `con->request.http_range`. -/
def parseRange (target : RangeTarget) (con : RespondingConnection) (httpRange : Bytes)
    (rangeBuf : Buffer) : Option (Int × RespondingConnection × Buffer) := do
  let contentType := (← arrayGetElement con.response.headers (ascii "Content-Type")).map (·.2.value)
  let st ← rangeLoop target contentType (httpRange.length + 1) (rangeStart target con httpRange)
  if st.error then some (-1, st.store con, rangeBuf)
  else if st.multipart then
    let st := queueText boundaryEnd st
    let rangeBuf := multipartType rangeBuf
    let headers ← responseHeaderOverwrite con.response.headers (ascii "Content-Type")
      rangeBuf.constBufLen
    some (0, setHeaders (st.store con) headers, rangeBuf)
  else
    let rangeBuf := contentRange target.size st.start st.stop rangeBuf
    let headers ← responseHeaderInsert con.response.headers (ascii "Content-Range")
      rangeBuf.constBufLen
    some (0, setHeaders (st.store con) headers, rangeBuf)

/-- The file `path` with `stSize` bytes. -/
def ModStaticfile.rangeTarget (path : Buffer) (stSize : Int) : RangeTarget where
  size := stSize
  last := stSize - 1
  append cq start len := chunkqueueAppendFile cq path start len

/-- The buffer `content`, whose size is `content->used`. -/
def ModFastdfs.rangeTarget (content : Buffer) : RangeTarget where
  size := content.used
  last := sizePred content.used
  append cq start len := chunkqueueAppendMem cq ((content.ptr.drop start.toNat).take len.toNat)

/-- `http_response_parse_range` of `mod_staticfile.c` -/
def ModStaticfile.httpResponseParseRange (con : RespondingConnection) (stSize : Int)
    (httpRange : Bytes) (rangeBuf : Buffer) : Option (Int × RespondingConnection × Buffer) :=
  parseRange (ModStaticfile.rangeTarget con.physicalPath stSize) con httpRange rangeBuf

/-- `http_response_parse_range` of `mod_fastdfs.c` -/
def ModFastdfs.httpResponseParseRange (con : RespondingConnection) (content : Buffer)
    (httpRange : Bytes) (rangeBuf : Buffer) : Option (Int × RespondingConnection × Buffer) :=
  parseRange (ModFastdfs.rangeTarget content) con httpRange rangeBuf

end Operations

end Lighttpd
