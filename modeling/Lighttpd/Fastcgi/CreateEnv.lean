import Lighttpd.Base
import Lighttpd.ChunkRecycle
import Lighttpd.Fastcgi.Packets

/-!
# `mod_fastcgi.c`: the request to the backend

`fcgi_create_env` puts the records of a request on the write queue: the begin record, the variables
of the environment, and the body in records of at most `FCGI_MAX_LENGTH` bytes. A memory chunk of
the body is copied behind the header of its record; a temporary file is queued, and handed over to
the write queue with its last part.
-/

namespace Lighttpd

open CLib

def FCGI_MAX_LENGTH : Nat := 0xffff

def FCGI_BEGIN_REQUEST : Nat := 1

def FCGI_PARAMS : Nat := 4

def FCGI_STDIN : Nat := 5

/-- `none` is the failure of the assertion. -/
def fcgiHeader (type requestId : Nat) (contentLength : Int) (paddingLength : Nat) : Option Bytes :=
  if contentLength ≤ FCGI_MAX_LENGTH then
    some [1, UInt8.ofNat type, UInt8.ofNat (requestId >>> 8 &&& 0xff),
      UInt8.ofNat (requestId &&& 0xff), UInt8.ofNat (contentLength.toNat >>> 8 &&& 0xff),
      UInt8.ofNat (contentLength.toNat &&& 0xff), UInt8.ofNat paddingLength, 0]
  else none

def fcgiEnvLength (n : Nat) : Bytes :=
  if n > 127 then
    [UInt8.ofNat (n >>> 24 &&& 0xff) ||| 0x80, UInt8.ofNat (n >>> 16 &&& 0xff),
      UInt8.ofNat (n >>> 8 &&& 0xff), UInt8.ofNat (n &&& 0xff)]
  else [UInt8.ofNat n]

/-- A call of `fcgi_env_add`: `none` is `NULL`, and `checked` says whether the result is looked at
(`FCGI_ENV_ADD_CHECK`). -/
structure FcgiEnvVar where
  key : Option Bytes
  val : Option Bytes
  checked : Bool
  deriving DecidableEq, Repr

section Code

variable [Malloc]

/-- `none` is the result -1. -/
def fcgiEnvAdd (env : Buffer) (key val : Option Bytes) : Option Buffer :=
  match key, val with
  | some key, some val =>
    let len := key.length + val.length + (if key.length > 127 then 4 else 1) +
      if val.length > 127 then 4 else 1
    if env.used + len ≥ FCGI_MAX_LENGTH then none
    else
      let env := bufferPrepareAppend env len
      let pair := fcgiEnvLength key.length ++ fcgiEnvLength val.length ++ key ++ val
      some { env with ptr := memcpy env.ptr env.used pair, used := env.used + pair.length }
  | _, _ => none

/-- The calls one after the other; `none` if one of those that are looked at fails. -/
def fcgiEnvAddAll : List FcgiEnvVar → Buffer → Option Buffer
  | [], env => some env
  | v :: vs, env =>
    match fcgiEnvAdd env v.key v.val with
    | some env => fcgiEnvAddAll vs env
    | none => if v.checked then none else fcgiEnvAddAll vs env

/-- `buffer_append_memory` on the buffer of the chunk `i`. -/
def appendMemory (i : Nat) (s : Bytes) (wb : Chunkqueue) : Chunkqueue :=
  wb.modify i fun h => { h with mem := bufferAppendMemory h.mem (some s) }

/-- `b->used++;`, for the chunk `b` is in. -/
def addVirtualZero (i : Nat) (wb : Chunkqueue) : Chunkqueue :=
  wb.modify i fun h => { h with mem := { h.mem with used := h.mem.used + 1 } }

/-- A new chunk with the bytes, which gets its place in the queue as a result. -/
def appendBytes (wb : Chunkqueue) (s : Bytes) : Nat × Chunkqueue :=
  let wb := chunkqueueGetAppendBuffer wb
  let i := wb.first.length - 1
  (i, wb.modify i fun h => { h with mem := bufferCopyMemory h.mem (some s) })

/-- One turn of the loop that fills a record for which there is `room`: some bytes of the first
chunk of the body go to the write queue, to the chunk with the header (`i`) or in a chunk of their
own. `none` stands for an assertion that fails, or a pointer that is `NULL`. -/
def takeFromBody (i : Nat) (room : Int) (wb reqCq : Chunkqueue) :
    Option (Int × Chunkqueue × Chunkqueue × List Syscall) :=
  match reqCq.first with
  | [] => none
  | c :: cs =>
    match c.type with
    | .file =>
      let weHave := min (c.file.length - c.offset) room
      if weHave = 0 then none
      else
        let wb := chunkqueueAppendFile wb c.file.name c.offset weHave
        let wb := { wb with bytesIn := wb.bytesIn + weHave }
        let c := { c with offset := c.offset + weHave }
        let reqCq := { reqCq with first := c :: cs, bytesOut := reqCq.bytesOut + weHave }
        if c.offset = c.file.length then
          match wb.first.getLast? with
          | none => none
          | some last =>
            if last.type ≠ .file ∨ ¬ c.file.isTemp then none
            else
              -- the temporary file is stolen
              let last := { last with file := { last.file with isTemp := true } }
              let c := { c with file := { c.file with isTemp := false } }
              let wb := { wb with first := wb.first.dropLast ++ [last] }
              let (reqCq, calls) := chunkqueueRemoveFinishedChunks { reqCq with first := c :: cs }
              some (weHave, wb, reqCq, calls)
        else some (weHave, wb, reqCq, [])
    | .mem =>
      if c.mem.used = 0 then none
      else
        let weHave := min ((c.mem.used : Int) - 1 - c.offset) room
        let wb := appendMemory i ((c.mem.ptr.drop c.offset.toNat).take weHave.toNat) wb
        let wb := { wb with bytesIn := wb.bytesIn + weHave }
        let c := { c with offset := c.offset + weHave }
        let reqCq := { reqCq with first := c :: cs, bytesOut := reqCq.bytesOut + weHave }
        if c.offset = (c.mem.used : Int) - 1 then
          let (reqCq, calls) := chunkqueueRemoveFinishedChunks reqCq
          some (weHave, wb, reqCq, calls)
        else some (weHave, wb, reqCq, [])
    | .unused => some (0, wb, reqCq, [])

/-- The loop that fills a record; it also has no value if `fuel` turns are not enough. -/
def fillRecord (i : Nat) (weWant : Int) :
    Nat → Int → Chunkqueue → Chunkqueue → Option (Chunkqueue × Chunkqueue × List Syscall)
  | 0, _, _, _ => none
  | fuel + 1, written, wb, reqCq =>
    if written = weWant then some (wb, reqCq, [])
    else do
      let (n, wb, reqCq, calls) ← takeFromBody i (weWant - written) wb reqCq
      let (wb, reqCq, more) ← fillRecord i weWant fuel (written + n) wb reqCq
      some (wb, reqCq, calls ++ more)

def sendBody (requestId : Nat) :
    Nat → Int → Chunkqueue → Chunkqueue → Option (Chunkqueue × Chunkqueue × List Syscall)
  | 0, _, _, _ => none
  | fuel + 1, offset, wb, reqCq =>
    if offset = reqCq.bytesIn then some (wb, reqCq, [])
    else do
      let weWant := if reqCq.bytesIn - offset > FCGI_MAX_LENGTH then (FCGI_MAX_LENGTH : Int)
        else reqCq.bytesIn - offset
      let header ← fcgiHeader FCGI_STDIN requestId weWant 0
      let (i, wb) := appendBytes wb header
      let wb := { wb with bytesIn := wb.bytesIn + header.length }
      let (wb, reqCq, calls) ← fillRecord i weWant fuel 0 wb reqCq
      let wb := addVirtualZero i wb
      let (wb, reqCq, more) ← sendBody requestId fuel (offset + weWant) wb reqCq
      some (wb, reqCq, calls ++ more)

/-- The environment and the end of `FCGI_PARAMS`, behind the begin record in the chunk `i`. -/
def queueParams (i requestId : Nat) (env : Buffer) (wb : Chunkqueue) : Option Chunkqueue := do
  let header ← fcgiHeader FCGI_PARAMS requestId env.used 0
  let lastHeader ← fcgiHeader FCGI_PARAMS requestId 0 0
  let wb := appendMemory i lastHeader (appendMemory i env.bytes (appendMemory i header wb))
  let wb := addVirtualZero i wb
  let used := ((wb.first[i]?).map (·.mem.used)).getD 0
  some { wb with bytesIn := wb.bytesIn + (used - 1 : Nat) }

/-- The end of `FCGI_STDIN`. -/
def queueEnd (requestId : Nat) (wb : Chunkqueue) : Option Chunkqueue := do
  let header ← fcgiHeader FCGI_STDIN requestId 0 0
  let (i, wb) := appendBytes wb header
  let wb := addVirtualZero i wb
  some { wb with bytesIn := wb.bytesIn + header.length }

/-- The body of `FCGI_BEGIN_REQUEST`: the role, and no flags. -/
def beginBody (mode : Nat) : Bytes := [0, UInt8.ofNat mode, 0, 0, 0, 0, 0, 0]

/-- `vars` are the calls of `fcgi_env_add`, with the values they get from the request, the host and
the sockets; `mode` is `host->mode`. What the scratch buffer `p->fcgi_env` held before does not
matter. The first component is the result, 0 or -1. -/
def fcgiCreateEnv (fuel mode : Nat) (vars : List FcgiEnvVar) (requestId : Nat)
    (con : BackendConnection) (wb : Chunkqueue) :
    Option (Int × BackendConnection × Chunkqueue × List Syscall) := do
  let header ← fcgiHeader FCGI_BEGIN_REQUEST requestId 8 0
  let (i, wb) := appendBytes wb (header ++ beginBody mode)
  match fcgiEnvAddAll vars (bufferPrepareCopy bufferInit 1024) with
  | none => some (-1, { con with httpStatus := 400, fileFinished := true }, wb, [])
  | some env =>
    let wb ← queueParams i requestId env wb
    let sent :=
      if con.request.contentLength ≠ 0 then sendBody requestId fuel 0 wb con.requestContentQueue
      else some (wb, con.requestContentQueue, [])
    let (wb, reqCq, calls) ← sent
    let wb ← queueEnd requestId wb
    some (0, { con with requestContentQueue := reqCq }, wb, calls)

end Code

end Lighttpd
