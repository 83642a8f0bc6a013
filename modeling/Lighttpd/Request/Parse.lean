import Lighttpd.Lib.Flow
import Lighttpd.Request.Hostname
import Mathlib.Data.List.DropRight

/-!
# `request.c`: `http_request_parse`

The parser works on a copy of the request. It writes NULs into this copy only where a piece of text
ends that it goes on to use, so a `char *` is an offset into the text and a string the bytes up to
the next of these NULs. A read outside an object has no value (`Flow.fault`).
-/

namespace Lighttpd

open CLib

/-! ## `keyvalue.c` -/

def httpMethods : List (HttpMethod × Bytes) :=
  [(.get, ascii "GET"), (.post, ascii "POST"), (.head, ascii "HEAD"),
    (.propfind, ascii "PROPFIND"), (.proppatch, ascii "PROPPATCH"), (.report, ascii "REPORT"),
    (.options, ascii "OPTIONS"), (.mkcol, ascii "MKCOL"), (.put, ascii "PUT"),
    (.delete, ascii "DELETE"), (.copy, ascii "COPY"), (.move, ascii "MOVE"),
    (.label, ascii "LABEL"), (.checkout, ascii "CHECKOUT"), (.checkin, ascii "CHECKIN"),
    (.merge, ascii "MERGE"), (.lock, ascii "LOCK"), (.unlock, ascii "UNLOCK"),
    (.mkactivity, ascii "MKACTIVITY"), (.uncheckout, ascii "UNCHECKOUT"),
    (.versionControl, ascii "VERSION-CONTROL"), (.connect, ascii "CONNECT")]

/-- `none` for -1. -/
def getHttpMethodKey (s : Bytes) : Option HttpMethod :=
  (httpMethods.find? fun kv => kv.2 == s).map (·.1)

def getHttpMethodName (m : HttpMethod) : Option Bytes :=
  (httpMethods.find? fun kv => kv.1 == m).map (·.2)

/-! ## Exits -/

/-- A part of `http_request_parse`. All its early exits return 0, with the connection and
`srv->split_vals` as they are then. -/
abbrev Parsing (α : Type) : Type := Flow (Connection × Arr DataString) α

namespace Connection

/-- A change to `con->request`. -/
def mapRequest (con : Connection) (f : Request → Request) : Connection :=
  { con with request := f con.request }

def fail (con : Connection) (status : Int) : Connection :=
  { con with httpStatus := status, keepAlive := false }

/-- An error exit that clears `con->response.keep_alive` as well. -/
def failClose (con : Connection) (status : Int) : Connection :=
  { con.fail status with response := { con.response with keepAlive := false } }

@[simp] theorem mapRequest_request (con : Connection) (f : Request → Request) :
    (con.mapRequest f).request = f con.request := rfl

end Connection

/-! ## The request line -/

def slice (m : Bytes) (a b : Nat) : Bytes := (m.take b).drop a

theorem slice_eq {m a b c : Bytes} {i j : Nat} (hm : m = a ++ (b ++ c)) (hi : i = a.length)
    (hj : j = a.length + b.length) : slice m i j = b := by
  subst hm hi hj
  rw [slice, ← List.append_assoc, List.take_left' (by rw [List.length_append]), List.drop_left' rfl]

structure ReqLine where
  requestLineStage : Nat
  first : Nat
  method : Nat
  uri : Nat
  deriving DecidableEq

structure ReqLineEnd where
  con : Connection
  i : Nat
  reqlineHost : Option Bytes

def requestUriIsValidChar (c : UInt8) : Bool := !(c ≤ 32) && c != 127 && c != 255

/-- The two numbers of a version, the text behind `HTTP/`; `none` for an invalid version. -/
def versionNumbers (major : Bytes) : Option (Int × Int) :=
  match strchr major 46 with
  | none => none
  | some dot =>
    if dot = 0 ∨ major.drop (dot + 1) = [] then none
    else
      let (majorNum, err) := strtol (major.take dot)
      let (minorNum, err') := strtol (major.drop (dot + 1))
      if err ≠ [] ∨ err' ≠ [] then none else some (majorNum, minorNum)

/-- The length of `http://host`, for a uri with this scheme and a path. -/
def schemeAndHost (scheme uri : Bytes) : Option Nat :=
  if scheme.isPrefixOf uri then
    (strchr (cstr (uri.drop scheme.length)) 47).map (scheme.length + ·)
  else none

def splitUri (uri : Bytes) : Option Bytes × Bytes :=
  match schemeAndHost (ascii "http://") uri with
  | some nuri => (some ((uri.take nuri).drop 7), uri.drop nuri)
  | none =>
    match schemeAndHost (ascii "https://") uri with
    | some nuri => (some ((uri.take nuri).drop 8), uri.drop nuri)
    | none => (none, uri)

section RequestLine

variable [Malloc] (m : Bytes) (splitVals : Arr DataString)

def requestVersion (proto : Bytes) (con : Connection) : Parsing Connection :=
  if (ascii "HTTP/").isPrefixOf proto then
    match versionNumbers (proto.drop 5) with
    | none => .ret (con.fail 400, splitVals)
    | some (majorNum, minorNum) =>
      if majorNum = 1 ∧ minorNum = 1 then
        .next (con.mapRequest fun r =>
          { r with httpVersion := if con.conf.allowHttp11 then .v11 else .v10 })
      else if majorNum = 1 ∧ minorNum = 0 then
        .next (con.mapRequest fun r => { r with httpVersion := .v10 })
      -- of all the error exits only this one leaves `keep_alive` alone
      else .ret ({ con with httpStatus := 505 }, splitVals)
  else .ret (con.fail 400, splitVals)

/-- The uri, of which `uri` are the bytes between the two blanks. -/
def requestUri (uri : Bytes) (con : Connection) : Parsing (Connection × Option Bytes) :=
  let (reqlineHost, uri) := splitUri uri
  let con := con.mapRequest fun r => { r with uri := bufferCopyStringLen r.uri (some uri) }
  if uri.all requestUriIsValidChar then
    .next ({ con.mapRequest fun r => { r with origUri := bufferCopyStringBuffer r.origUri r.uri }
      with httpStatus := 0 }, reqlineHost)
  else .ret (con.fail 400, splitVals)

/-- The request line ends at `i`. -/
def requestLineEnd (con : Connection) (i : Nat) (st : ReqLine) : Parsing ReqLineEnd := do
  let con := con.mapRequest fun r =>
    { r with requestLine := bufferCopyStringLen r.requestLine (some (m.take i)) }
  if st.requestLineStage ≠ 2 then .ret (con.failClose 400, splitVals)
  else
    let proto := st.first
    match getHttpMethodKey (cstr (slice m st.method (st.uri - 1))) with
    | none => .ret (con.failClose 501, splitVals)
    | some r => do
      let con := con.mapRequest fun q => { q with httpMethod := r }
      let con ← requestVersion splitVals (cstr (slice m proto i)) con
      let (con, reqlineHost) ← requestUri splitVals (slice m st.uri (proto - 1)) con
      .next ⟨con, i + 2, reqlineHost⟩

/-- The loop over the request line, from `i` on, where `rest` are the bytes from there. -/
def requestLineLoop (con : Connection) : Bytes → Nat → ReqLine → Parsing ReqLineEnd
  | [], i, _ => .next ⟨con, i, none⟩
  | c :: rest, i, st =>
    if c = 13 ∧ rest.head? = some 10 then requestLineEnd m splitVals con i st
    else if c = 32 then
      match st.requestLineStage with
      | 0 => requestLineLoop con rest (i + 1) ⟨1, i + 1, st.first, st.uri⟩
      | 1 => requestLineLoop con rest (i + 1) ⟨2, i + 1, st.method, st.first⟩
      | _ => .ret (con.failClose 400, splitVals)
    else requestLineLoop con rest (i + 1) st

end RequestLine

/-! ## Header fields -/

/-- `keep_alive_set` -/
inductive KeepAliveSet where
  | unset
  | keepAlive
  | close
  deriving DecidableEq, Repr

structure HeaderState where
  con : Connection
  splitVals : Arr DataString
  i : Nat
  first : Nat
  isKey : Bool
  keyLen : Nat
  isWsAfterKey : Bool
  inFolding : Bool
  value : Nat
  key : Option Nat
  done : Bool
  conLengthSet : Bool
  keepAliveSet : KeepAliveSet
  deriving DecidableEq

def isBlank (c : UInt8) : Bool := c == 32 || c == 9

/-- The values of a list `val1, val2, …`, without the blanks around them; the last one may be
missing. `fuel` bounds their number. For an empty value the byte in front of it is read too, even
one in front of the buffer; it does not count. -/
def splitValues : Nat → Bytes → List Bytes
  | 0, _ => []
  | fuel + 1, s =>
    let s := s.dropWhile isBlank
    if s = [] then []
    else
      (s.takeWhile (· != 44)).rdropWhile isBlank ::
        match s.dropWhile (· != 44) with
        | [] => []
        | _ :: s => splitValues fuel s

/-- `strtoul` for a text that starts with a digit: the value, and the text at `err`. -/
def strtoul (s : Bytes) : Nat × Bytes :=
  (min (digitsValue (s.takeWhile isDigit)) 4294967295, s.dropWhile isDigit)

/-- `strcasecmp(a, b) == 0` -/
def strcaseeq (a b : Bytes) : Bool := (cstr a).map tolower == (cstr b).map tolower

inductive KnownField where
  | connection
  | contentLength
  | contentType
  | expect
  | host
  | ifModifiedSince
  | ifNoneMatch
  | range
  deriving DecidableEq, Repr

def knownFields : List (Bytes × KnownField) :=
  [(ascii "Connection", .connection), (ascii "Content-Length", .contentLength),
    (ascii "Content-Type", .contentType), (ascii "Expect", .expect), (ascii "Host", .host),
    (ascii "If-Modified-Since", .ifModifiedSince), (ascii "If-None-Match", .ifNoneMatch),
    (ascii "Range", .range)]

/-- The chain of comparisons; the names are sorted, so it ends where `key` is the smaller one. -/
def knownField (key : Bytes) : List (Bytes × KnownField) → Option KnownField
  | [] => none
  | (name, field) :: rest =>
    if bufferCaselessCompare key name = 0 then some field
    else if bufferCaselessCompare key name > 0 then knownField key rest
    else none

/-- The element a `buffer *` points into, and its index. -/
def Connection.headerAt (con : Connection) (addr : Nat) : Option (Nat × DataString) := do
  let ndx ← con.request.headers.data.findIdx? fun d => d.any (·.addr == addr)
  let ds ← (← con.request.headers.data[ndx]?)
  some (ndx, ds)

/-- The memory at a `char *` into a value, while the buffer has not moved. -/
def Connection.valueAt (con : Connection) (p : ValuePtr) : Option Bytes := do
  let (_, ds) ← con.headerAt p.addr
  if ds.value.gen = p.gen then some (ds.value.ptr.drop p.offset) else none

/-- `ds->value->ptr` -/
def DataString.valuePtr (ds : DataString) : ValuePtr := ⟨ds.addr, ds.value.gen, 0⟩

section Header

variable [Malloc]

def newField (con : Connection) : DataString × Connection :=
  let (ds, headers) := arrayGetUnusedElement con.request.headers .string
  let con := con.mapRequest fun r => { r with headers := headers }
  match ds with
  | some ds => (ds, con)
  | none => (dataStringInit con.allocs, { con with allocs := con.allocs + 1 })

def DataString.set (ds : DataString) (key value : Bytes) : DataString :=
  { ds with
    key := bufferCopyStringLen ds.key (some key)
    value := bufferCopyStringLen ds.value (some value) }

def insertField (con : Connection) (ds : DataString) : Parsing Connection := do
  let headers ← Flow.ofOption (arrayInsertUnique con.request.headers ds)
  .next (con.mapRequest fun r => { r with headers := headers })

def insertReqlineHost (reqlineHost : Option Bytes) (con : Connection) : Parsing Connection :=
  match reqlineHost with
  | none => .next con
  | some host => do
    let (ds, con) := newField con
    let con ← insertField con (ds.set (ascii "Host") host)
    .next (con.mapRequest fun r => { r with httpHost := some ds.addr })

def insertValue (vals : Arr DataString) (value : Bytes) : Option (Arr DataString) :=
  let (ds, vals) := arrayGetUnusedElement vals .string
  let ds := ds.getD (dataStringInit 0)
  arrayInsertUnique vals { ds with value := bufferCopyStringLen ds.value (some value) }

def httpRequestSplitValue (vals : Arr DataString) (b : Buffer) : Option (Arr DataString) :=
  let s := b.ptr.take (b.used - 1)
  (splitValues (s.length + 1) s).foldlM insertValue vals

def keepAliveOf (old : KeepAliveSet) : List DataString → KeepAliveSet
  | [] => old
  | dsv :: vals =>
    let value := dsv.value.constBufLen.getD []
    if bufferCaselessCompare value (ascii "keep-alive") = 0 then .keepAlive
    else if bufferCaselessCompare value (ascii "close") = 0 then .close
    else keepAliveOf old vals

/-- What a handler leaves: the state, and the field unless it was dropped. -/
abbrev Handled := Parsing (HeaderState × Option DataString)

def rejectField {α : Type} (st : HeaderState) (ds : DataString) (status : Int) : Parsing α := do
  let con ← insertField st.con ds
  .ret (con.fail status, st.splitVals)

def HeaderState.mapRequest (st : HeaderState) (f : Request → Request) : HeaderState :=
  { st with con := st.con.mapRequest f }

def connectionField (st : HeaderState) (ds : DataString) : Handled := do
  let vals ← Flow.ofOption (httpRequestSplitValue (arrayReset st.splitVals) ds.value)
  let keepAliveSet := keepAliveOf st.keepAliveSet vals.elements
  .next ({ st with splitVals := vals, keepAliveSet := keepAliveSet }, some ds)

def contentLengthField (st : HeaderState) (ds : DataString) : Handled :=
  if st.conLengthSet then rejectField st ds 400
  else if ds.value.used = 0 then .fault
  else if !(ds.value.ptr.take (ds.value.used - 1)).all isDigit then rejectField st ds 400
  else
    let (r, err) := strtoul ds.value.str
    if err = [] then
      .next ({ st.mapRequest fun q => { q with contentLength := r } with conLengthSet := true },
        some ds)
    else rejectField st ds 400

def contentTypeField (st : HeaderState) (ds : DataString) : Handled :=
  if st.con.request.httpContentType = none then
    .next (st.mapRequest fun r => { r with httpContentType := some ds.valuePtr }, some ds)
  else rejectField st ds 400

def expectField (rejectExpect100With417 : Bool) (st : HeaderState) (ds : DataString) : Handled :=
  if rejectExpect100With417 ∧
      bufferCaselessCompare (ds.value.constBufLen.getD []) (ascii "100-continue") = 0 then
    rejectField st ds 417
  else .next (st, some ds)

/-- A host in the request line outweighs all `Host` fields. -/
def hostField (reqlineHost : Bool) (st : HeaderState) (ds : DataString) : Handled :=
  if reqlineHost then .next (st, none)
  else if st.con.request.httpHost = none then
    .next (st.mapRequest fun r => { r with httpHost := some ds.addr }, some ds)
  else rejectField st ds 400

def ifModifiedSinceField (st : HeaderState) (ds : DataString) : Handled :=
  match st.con.request.httpIfModifiedSince with
  | none =>
    .next (st.mapRequest fun r => { r with httpIfModifiedSince := some ds.valuePtr }, some ds)
  | some p => do
    let old ← Flow.ofOption (st.con.valueAt p)
    if strcaseeq old ds.value.ptr then .next (st, none) else rejectField st ds 400

def ifNoneMatchField (st : HeaderState) (ds : DataString) : Handled :=
  if st.con.request.httpIfNoneMatch = none then
    .next (st.mapRequest fun r => { r with httpIfNoneMatch := some ds.valuePtr }, some ds)
  else .next (st, none)

def rangeField (st : HeaderState) (ds : DataString) : Handled :=
  if st.con.request.httpRange = none then
    if strncaseeq 6 ds.value.ptr (ascii "bytes=") = true ∧
        strchr (cstr (ds.value.ptr.drop 6)) 45 ≠ none then
      .next (st.mapRequest fun r =>
        { r with httpRange := some { ds.valuePtr with offset := 6 } }, some ds)
    else .next (st, some ds)
  else rejectField st ds 400

/-- The value of `srvconf.reject_expect_100_with_417`, and whether the request line has a host. -/
structure FieldConf where
  rejectExpect100With417 : Bool
  reqlineHost : Bool
  deriving DecidableEq

def handleField (cfg : FieldConf) (st : HeaderState) (ds : DataString) (key : Bytes) : Handled :=
  match knownField key knownFields with
  | some .connection => connectionField st ds
  | some .contentLength => contentLengthField st ds
  | some .contentType => contentTypeField st ds
  | some .expect => expectField cfg.rejectExpect100With417 st ds
  | some .host => hostField cfg.reqlineHost st ds
  | some .ifModifiedSince => ifModifiedSinceField st ds
  | some .ifNoneMatch => ifNoneMatchField st ds
  | some .range => rangeField st ds
  | none => .next (st, some ds)

def storeField (cfg : FieldConf) (st : HeaderState) (key value : Bytes) : Parsing HeaderState := do
  let (ds, con) := newField st.con
  let (st, ds) ← handleField cfg { st with con := con } (ds.set key value) key
  match ds with
  | none => .next st
  | some ds => do
    let con ← insertField st.con ds
    .next { st with con := con }

variable (cfg : FieldConf) (m : Bytes)

/-- The end of a line that starts with a blank: its text is appended to the last field. -/
def foldedLine (st : HeaderState) : Parsing HeaderState :=
  match st.key with
  | none => .ret (st.con.failClose 400, st.splitVals)
  | some key =>
    if st.keyLen = 0 then .ret (st.con.failClose 400, st.splitVals)
    else do
      let found ← Flow.ofOption
        (arrayGetElement st.con.request.headers (cstr (slice m key (key + st.keyLen))))
      match found with
      | none => .next st
      | some (ndx, ds) =>
        let value := bufferAppendString ds.value (some (cstr (slice m st.value st.i)))
        .next (st.mapRequest fun r =>
          { r with headers := r.headers.setElement ndx { ds with value := value } })

/-- The end of a line with a field; fields without a value are ignored. -/
def fieldLine (st : HeaderState) : Parsing HeaderState :=
  let st := { st with key := some st.first }
  let value := (slice m st.value st.i).rdropWhile isBlank
  if value.length > 0 then storeField cfg st (slice m st.first (st.first + st.keyLen)) value
  else .next st

/-- The end of a header line at `i`. -/
def headerLineEnd (st : HeaderState) : Parsing HeaderState := do
  let st ← if st.inFolding then foldedLine m st else fieldLine cfg m st
  .next { st with
    i := st.i + 1, first := st.i + 2, isKey := true, value := 0, inFolding := false }

/-- The separators that must not stand in a field name; `:` ends it. -/
def separators : Bytes := ascii "()<>@,;\\\"/[]?={}"

def keyStep (st : HeaderState) (c : UInt8) : Parsing HeaderState :=
  if c = 58 then
    .next { st with
      isKey := false
      value := st.i + 1
      keyLen := if st.isWsAfterKey then st.keyLen else st.i - st.first
      isWsAfterKey := false }
  else if c ∈ separators then .ret (st.con.failClose 400, st.splitVals)
  else if isBlank c then
    if st.i = st.first then .next { st with isKey := false, inFolding := true, value := st.i }
    else
      -- up to the `:`, which is read once more
      let ws := ((m.drop (st.i + 1)).takeWhile isBlank).length
      if m[st.i + 1 + ws]? = some 58 then
        .next { st with keyLen := st.i - st.first, i := st.i + ws }
      else .ret (st.con.failClose 400, st.splitVals)
  else if c = 13 ∧ m[st.i + 1]? = some 10 ∧ st.i = st.first then
    .next { st with i := st.i + 1, done := true }
  else if c < 32 ∨ c = 127 then .ret (st.con.failClose 400, st.splitVals)
  else .next st

def valueStep (st : HeaderState) (c : UInt8) : Parsing HeaderState :=
  if c = 13 then
    if m[st.i + 1]? = some 10 then headerLineEnd cfg m st
    else .ret (st.con.failClose 400, st.splitVals)
  else if c < 32 ∧ c ≠ 9 then .ret (st.con.fail 400, st.splitVals)
  else if isBlank c ∧ st.value = st.i then .next { st with value := st.i + 1 }
  else .next st

def headerStep (st : HeaderState) (c : UInt8) : Parsing HeaderState :=
  if st.isKey then keyStep m st c else valueStep cfg m st c

/-- A round of the loop over the header, which ends with the header or the text. -/
def headerRound (st : HeaderState) : Option (Parsing HeaderState) :=
  if st.done then none
  else
    match m[st.i]? with
    | none => none
    | some c => some do
      let st ← headerStep cfg m st c
      .next { st with i := st.i + 1 }

end Header

/-! ## After the header -/

/-- HTTP/1.1 keeps the connection unless told otherwise, and needs a host. -/
def checkVersion (st : HeaderState) : Parsing Connection :=
  if st.con.request.httpVersion = .v11 then
    let con := { st.con with keepAlive := st.keepAliveSet != KeepAliveSet.close }
    match con.request.httpHost with
    | none => .ret (con.failClose 400, st.splitVals)
    | some addr => do
      let (_, ds) ← Flow.ofOption (con.headerAt addr)
      if bufferIsEmpty ds.value then .ret (con.failClose 400, st.splitVals) else .next con
  else .next { st.con with keepAlive := st.keepAliveSet == KeepAliveSet.keepAlive }

def checkHost (con : Connection) (splitVals : Arr DataString) : Parsing Connection :=
  match con.request.httpHost with
  | none => .next con
  | some addr => do
    let (ndx, ds) ← Flow.ofOption (con.headerAt addr)
    let (ret, host) := requestCheckHostname ds.value
    let con := con.mapRequest fun r =>
      { r with headers := r.headers.setElement ndx { ds with value := host } }
    if ret ≠ 0 then .ret (con.failClose 400, splitVals) else .next con

/-- A request without a body must not announce one, a `POST` has to. -/
def checkMethod (con : Connection) (conLengthSet : Bool) (splitVals : Arr DataString) :
    Parsing Connection :=
  match con.request.httpMethod with
  | .get | .head =>
    if conLengthSet ∧ con.request.contentLength ≠ 0 then .ret (con.fail 400, splitVals)
    else .next con
  | .post => if conLengthSet then .next con else .ret (con.fail 411, splitVals)
  | _ => .next con

/-- `max_request_size` is in kBytes. -/
def checkSize (maxRequestSize : Nat) (con : Connection) (conLengthSet : Bool)
    (splitVals : Arr DataString) : Parsing Connection :=
  if conLengthSet then
    if con.request.contentLength > SSIZE_MAX then .ret (con.fail 413, splitVals)
    else if maxRequestSize ≠ 0 ∧ con.request.contentLength / 1024 > maxRequestSize then
      .ret (con.fail 413, splitVals)
    else .next con
  else .next con

/-- The post-processing. The request is parsed; 1 is returned when a body follows. -/
def finishRequest (srv : Server) (st : HeaderState) : Parsing (Int × Connection) := do
  let st := { st with con := { st.con with headerLen := st.i } }
  let con ← checkVersion st
  let con ← checkHost con st.splitVals
  let con ← checkMethod con st.conLengthSet st.splitVals
  let con ← checkSize srv.maxRequestSize con st.conLengthSet st.splitVals
  .next (if st.conLengthSet ∧ con.request.contentLength ≠ 0 then 1 else 0, con)

section Parse

variable [Malloc]

/-- The request as it is copied: after a `POST` there may be a line end in front of it. -/
def copyRequest (con : Connection) : Option Buffer :=
  let req := con.request.request
  if con.requestCount > 1 ∧ req.ptr = [] then none
  else if con.requestCount > 1 ∧ (ascii "\r\n").isPrefixOf req.ptr then
    some (bufferCopyStringLen con.parseRequest (some ((req.ptr.drop 2).take (req.used - 1 - 2))))
  else some (bufferCopyStringBuffer con.parseRequest req)

def headerStart (con : Connection) (splitVals : Arr DataString) (i : Nat) : HeaderState where
  con := con
  splitVals := splitVals
  i := i
  first := i
  isKey := true
  keyLen := 0
  isWsAfterKey := false
  inFolding := false
  value := 0
  key := none
  done := false
  conLengthSet := false
  keepAliveSet := .unset

def parseRequestLine (srv : Server) (con : Connection) (m : Bytes) : Parsing ReqLineEnd := do
  let r ← requestLineLoop m srv.splitVals con m 0 ⟨0, 0, 0, 0⟩
  if r.con.request.uri.used = 1 then .ret (r.con.failClose 400, srv.splitVals)
  else do
    let con ← insertReqlineHost r.reqlineHost r.con
    .next { r with con := con }

/-- The header, up to its end or the end of the text `m`. -/
def parseHeader (srv : Server) (m : Bytes) (r : ReqLineEnd) : Parsing HeaderState :=
  Flow.loop (headerRound ⟨srv.rejectExpect100With417, r.reqlineHost.isSome⟩ m) (m.length + 1)
    (headerStart r.con srv.splitVals r.i)

def parseCopy (srv : Server) (con : Connection) : Option (Int × Connection × Server) :=
  let m := con.parseRequest.bytes
  let parsed := do
    let r ← parseRequestLine srv con m
    let st ← parseHeader srv m r
    let (ret, con) ← finishRequest srv st
    .next (ret, con, st.splitVals)
  match parsed with
  | .next (ret, con, splitVals) => some (ret, con, { srv with splitVals := splitVals })
  | .ret (con, splitVals) => some (0, con, { srv with splitVals := splitVals })
  | .fault => none

def httpRequestParse (srv : Server) (con : Connection) : Option (Int × Connection × Server) :=
  match copyRequest con with
  | none => none
  | some parseRequest => parseCopy srv { con with parseRequest := parseRequest }

def receiveRequest (con : Connection) (text : Bytes) : Connection :=
  { con.mapRequest fun r => { r with request := bufferCopyStringLen r.request (some text) } with
    requestCount := con.requestCount + 1 }

end Parse

end Lighttpd
