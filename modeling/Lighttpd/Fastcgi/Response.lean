import Lighttpd.Connections.WritePrepare
import Lighttpd.Fastcgi.Packets
import Lighttpd.Fastcgi.Requests
import Lighttpd.Lib.Flow
import Lighttpd.UrlCoding

/-!
# `mod_fastcgi.c`: the response of the backend

The content of the packets is collected until the header is complete; `fcgi_response_parse` takes the
header apart, and the rest is the body. What `stat_cache_get_entry` answers is a parameter, and so is
`host->allow_xsendfile`. Reading from the socket and the list of jobs are left out.
-/

namespace Lighttpd

open CLib

/-- The context of a request, with `parse_response` of the plugin. -/
structure FcgiAnswer where
  hctx : HandlerCtx
  parseResponse : Buffer
  deriving DecidableEq, Repr

/-- The variables of the loop in `fcgi_response_parse`. -/
structure FcgiParse where
  con : BackendConnection
  haveSendfile2 : Bool
  sendfile2ContentLength : Int
  deriving DecidableEq, Repr

/-- A part of `fcgi_response_parse`. All its early exits return 1, with the connection as it is
then. -/
abbrev FcgiParsing (α : Type) : Type := Flow BackendConnection α

def FCGI_END_REQUEST : Nat := 3

def FCGI_STDOUT : Nat := 6

namespace BackendConnection

def mapResponse (con : BackendConnection) (f : Response → Response) : BackendConnection :=
  { con with response := f con.response }

/-- `con->parsed_response |= flag` -/
def parsed (con : BackendConnection) (flag : Nat) : BackendConnection :=
  { con with parsedResponse := con.parsedResponse ||| flag }

/-- A `Location` without a status is a redirect: CGI/1.1 rev 03 - 7.2.1.2. -/
def withLocation (con : BackendConnection) : BackendConnection :=
  if con.parsedResponse &&& HTTP_LOCATION ≠ 0 ∧ con.parsedResponse &&& HTTP_STATUS = 0 then
    { con with httpStatus := 302 }
  else con

/-- The status with which an authorizer approves of a request. -/
def Approved (con : BackendConnection) : Prop := con.httpStatus = 0 ∨ con.httpStatus = 200

instance (con : BackendConnection) : Decidable con.Approved := inferInstanceAs (Decidable (_ ∨ _))

section Body

variable [Malloc]

/-- `http_chunk_append_file` -/
def appendBodyFile (con : BackendConnection) (fn : Buffer) (offset len : Int) : BackendConnection :=
  { con with toRespondingConnection := con.appendFile fn offset len }

/-- `http_chunk_append_mem` -/
def appendBody (con : BackendConnection) (mem : Bytes) : BackendConnection :=
  let q := httpChunkAppendMem ⟨con.writeQueue, con.transferEncoding, con.tmpChunkLen⟩ mem
  { con with writeQueue := q.writeQueue, tmpChunkLen := q.tmpChunkLen }

end Body

end BackendConnection

section Model

variable [Malloc] (stat : Buffer → Option StatCacheEntry)

/-! ## `X-Sendfile2` -/

def sendfileNumber (s : Bytes) : Option (Int × Bytes) :=
  let (n, rest) := strtoll s
  if strtollErange s ∨ n < 0 ∨ rest = s then none else some (n, rest)

/-- The two ends of a range, of which `pos` is the text behind it; `size` is the size of the file. -/
def sendfileRange (size : Int) (range pos : Bytes) : Option (Int × Int) := do
  let (beginRange, rpos) ← sendfileNumber range
  match rpos with
  | 45 :: rpos =>
    if rpos = pos then some (beginRange, size - 1)
    else do
      let (endRange, rpos) ← sendfileNumber rpos
      if rpos = pos then some (beginRange, endRange) else none
  | _ => none

/-- The files that the text at `pos` names, each with a range, and commas between them. -/
def sendfile2Loop : Nat → Bytes → FcgiParse → FcgiParsing FcgiParse
  | 0, _, st => .next st
  | fuel + 1, pos, st =>
    let pos := pos.dropWhile (· == 32)
    if pos = [] then .next st
    else
      match strchr pos 32 with
      | none => .ret st.con
      | some n => do
        let name := bufferCopyStringLen st.con.tmpBuf (some (pos.take n))
        let range := pos.drop (n + 1)
        let pos := range.dropWhile fun c => c != 32 && c != 44
        let (name, _) ← Flow.ofOption (bufferUrldecodePath name)
        let con := { st.con with tmpBuf := name }
        match stat name with
        | none => .ret con
        | some sce =>
          if ¬ S_ISREG sce.st.stMode then .ret con
          else
            match sendfileRange sce.st.stSize range pos with
            | none => .ret con
            | some (beginRange, endRange) =>
              let pos := pos.dropWhile (· == 32)
              if pos ≠ [] ∧ pos.head? ≠ some 44 then .ret con
              else
                let rangeLen := (endRange - beginRange + 1).bmod (2 ^ 64)
                if rangeLen < 0 then .ret con
                else
                  let con :=
                    if rangeLen ≠ 0 then con.appendBodyFile name beginRange rangeLen else con
                  sendfile2Loop fuel (if pos.head? = some 44 then pos.drop 1 else pos)
                    { st with
                      con := con
                      sendfile2ContentLength :=
                        (st.sendfile2ContentLength + rangeLen).bmod (2 ^ 64) }

/-! ## The header -/

/-- `data_response_init`, and the field is inserted. -/
def insertResponseField (con : BackendConnection) (key value : Bytes) :
    Option BackendConnection := do
  let (ds, headers) := arrayGetUnusedElement con.response.headers .string
  let ds := ds.getD (dataResponseInit 0)
  let headers ← arrayInsertUnique headers { ds with
    key := bufferCopyStringLen ds.key (some key), value := bufferCopyString ds.value (some value) }
  some (con.mapResponse fun r => { r with headers := headers })

def isFieldName (key : Bytes) (name : String) : Bool :=
  key.length = name.length && strncaseeq key.length key (ascii name)

variable (host : FcgiExtensionHost) (allowXsendfile sendContentBody : Bool)

def fcgiKnownField (st : FcgiParse) (key value : Bytes) : FcgiParsing FcgiParse :=
  let con := st.con
  if isFieldName key "Date" then .next { st with con := con.parsed HTTP_DATE }
  else if isFieldName key "Status" then
    .next { st with con := { con.parsed HTTP_STATUS with httpStatus := (strtol value).1 } }
  else if isFieldName key "Location" then .next { st with con := con.parsed HTTP_LOCATION }
  else if isFieldName key "Connection" then
    let keepAlive := strncaseeq 11 (value ++ [0]) (ascii "Keep-Alive" ++ [0])
    .next { st with
      con := (con.parsed HTTP_CONNECTION).mapResponse fun r => { r with keepAlive := keepAlive } }
  else if allowXsendfile ∧ isFieldName key "X-Sendfile2" ∧ sendContentBody then
    sendfile2Loop stat (value.length + 1) value { st with haveSendfile2 := true }
  else if isFieldName key "Content-Length" then
    .next { st with con :=
      { con.parsed HTTP_CONTENT_LENGTH with responseLength := max (strtol value).1 0 } }
  else .next st

def fcgiResponseLine (st : FcgiParse) (s : Bytes) : FcgiParsing FcgiParse :=
  match strchr s 58 with
  | none => .next st
  | some keyLen => do
    let key := s.take keyLen
    let value := (s.drop (keyLen + 1)).dropWhile fun c => c == 32 || c == 9
    -- authorizers shouldn't affect the response headers, and `Status` is not forwarded
    let con ←
      if (host.mode ≠ FCGI_AUTHORIZER ∨ ¬ st.con.Approved) ∧
          strncaseeq key.length key (ascii "Status") = false then
        Flow.ofOption (insertResponseField st.con key value)
      else Flow.next st.con
    fcgiKnownField stat allowXsendfile sendContentBody { st with con := con } key value

/-- The lines of the text at `s`, each up to its line feed. -/
def responseLines : Nat → Bytes → List Bytes
  | 0, _ => []
  | fuel + 1, s =>
    match strchr s 10 with
    | none => []
    | some n =>
      let text := s.take n
      (if text.getLast? = some 13 then text.dropLast else text) ::
        responseLines fuel (s.drop (n + 1))

def fcgiResponseLines : List Bytes → FcgiParse → FcgiParsing FcgiParse
  | [], st => .next st
  | s :: ss, st => do
    let st ← fcgiResponseLine stat host allowXsendfile sendContentBody st s
    fcgiResponseLines ss st

def sendfile2Length (st : FcgiParse) : Option BackendConnection := do
  let (dcls, headers) := arrayGetUnusedElement st.con.response.headers .string
  let dcls := dcls.getD (dataResponseInit 0)
  let (headers, _) ← arrayReplace headers { dcls with
    key := bufferCopyStringLen dcls.key (some (ascii "Content-Length"))
    value := bufferCopyOffT dcls.value st.sendfile2ContentLength }
  let con := st.con.mapResponse fun r => { r with headers := headers }
  some { con.parsed HTTP_CONTENT_LENGTH with responseLength := st.sendfile2ContentLength }

/-- The end of `fcgi_response_parse`, and whether the body of the packets is still sent. -/
def fcgiResponseEnd (st : FcgiParse) : Option (BackendConnection × Bool) :=
  if st.haveSendfile2 then (sendfile2Length st).map fun con => (con.withLocation, false)
  else some (st.con.withLocation, sendContentBody)

/-- `fcgi_response_parse`, with the connection and the context as it leaves them, and whether it
returns 0. -/
def fcgiResponseParse (ans : FcgiAnswer) (input : Buffer) : Option (FcgiAnswer × Bool) :=
  let ans := { ans with parseResponse := bufferCopyStringBuffer ans.parseResponse input }
  let s := ans.parseResponse.str
  let hctx := ans.hctx
  match fcgiResponseLines stat host allowXsendfile hctx.sendContentBody
    (responseLines (s.length + 1) s) ⟨hctx.remoteConn, false, 0⟩ with
  | .fault => none
  | .ret con => some ({ ans with hctx := { hctx with remoteConn := con } }, false)
  | .next st => do
    let (con, sendContentBody) ← fcgiResponseEnd hctx.sendContentBody st
    some ({ ans with hctx :=
      { hctx with remoteConn := con, sendContentBody := sendContentBody } }, true)

/-! ## The packets -/

/-- `buffer_search_string_len` -/
def bufferSearchStringLen (b : Buffer) (needle : Bytes) : Option Nat :=
  if b.used < needle.length then none
  else (List.range (b.used - needle.length)).find? fun i =>
    (b.ptr.drop i).take needle.length == needle

def collectHeader (header : Buffer) (packet : FastcgiResponsePacket) : Buffer :=
  if header.used = 0 then bufferCopyStringBuffer header packet.b
  else bufferAppendStringBuffer header packet.b

/-- The header terminator: `used` of the header, and where the response starts. -/
def headerTerminator (header : Buffer) : Option (Nat × Nat) :=
  match bufferSearchStringLen header (ascii "\r\n\r\n") with
  | some c => some (c + 3, c + 4)
  | none => (bufferSearchStringLen header (ascii "\n\n")).map fun c => (c + 2, c + 2)

namespace FcgiAnswer

def mapCon (ans : FcgiAnswer) (f : BackendConnection → BackendConnection) : FcgiAnswer :=
  { ans with hctx := { ans.hctx with remoteConn := f ans.hctx.remoteConn } }

def withSendContentBody (ans : FcgiAnswer) (b : Bool) : FcgiAnswer :=
  { ans with hctx := { ans.hctx with sendContentBody := b } }

/-- `fcgi_response_parse` or `stat_cache_get_entry` has failed. -/
def badGateway (ans : FcgiAnswer) : FcgiAnswer :=
  (ans.mapCon fun con => { con with httpStatus := 502, fileStarted := true }).withSendContentBody
    false

/-- Text of the response is a part of the body, which may be chunked. -/
def sendBody (ans : FcgiAnswer) (mem : Bytes) : FcgiAnswer :=
  ans.mapCon fun con =>
    let con :=
      if con.request.httpVersion = .v11 ∧ con.parsedResponse &&& HTTP_CONTENT_LENGTH = 0 then
        { con with transferEncoding := HTTP_TRANSFER_ENCODING_CHUNKED }
      else con
    con.appendBody mem

end FcgiAnswer

/-- The file that `X-Sendfile` names is the body; `none` if there is none of that name. -/
def sendfile (ans : FcgiAnswer) (ds : DataString) : Option (Option FcgiAnswer) :=
  match stat ds.value with
  | none => some none
  | some sce => do
    let con := ans.hctx.remoteConn
    let (dcls, headers) := arrayGetUnusedElement con.response.headers .string
    let con := con.appendBodyFile ds.value 0 sce.st.stSize
    let dcls := dcls.getD (dataResponseInit 0)
    let (headers, _) ← arrayReplace headers { dcls with
      key := bufferCopyStringLen dcls.key (some (ascii "Content-Length"))
      value := bufferCopyOffT dcls.value sce.st.stSize }
    let con := (con.parsed HTTP_CONTENT_LENGTH).mapResponse fun r => { r with headers := headers }
    some (some ((ans.mapCon fun _ => { con with responseLength := sce.st.stSize
      }).withSendContentBody false))

def sendfileField (ans : FcgiAnswer) : Option (Option FcgiAnswer) := do
  if allowXsendfile ∧ ans.hctx.sendContentBody then
    let headers := ans.hctx.remoteConn.response.headers
    match ← arrayGetElement headers (ascii "X-LIGHTTPD-send-file") with
    | some (_, ds) => sendfile stat ans ds
    | none =>
      match ← arrayGetElement headers (ascii "X-Sendfile") with
      | some (_, ds) => sendfile stat ans ds
      | none => some (some ans)
  else some (some ans)

/-- The header is complete, and the response starts at `c` in `header`. -/
def fcgiHeaderDone (ans : FcgiAnswer) (header : Buffer) (used c : Nat) : Option FcgiAnswer := do
  let ans := { ans with hctx := { ans.hctx with responseHeader := { header with used := used } } }
  match ← fcgiResponseParse stat host allowXsendfile ans { header with used := used } with
  | (ans, false) => some ans.badGateway
  | (ans, true) =>
    let ans := ans.mapCon fun con => { con with fileStarted := true }
    -- the content of an authorizer that approves is ignored
    let ans :=
      if host.mode = FCGI_AUTHORIZER ∧ ans.hctx.remoteConn.Approved then
        ans.withSendContentBody false
      else ans
    match ← sendfileField stat allowXsendfile ans with
    | none => some ans.badGateway
    | some ans =>
      let blen := header.used - c
      if ans.hctx.sendContentBody ∧ blen > 1 then
        some (ans.sendBody ((header.ptr.drop c).take blen))
      else some ans

def fcgiStdout (ans : FcgiAnswer) (packet : FastcgiResponsePacket) : Option FcgiAnswer :=
  if packet.len = 0 then some ans
  else if ans.hctx.remoteConn.fileStarted = false then
    let header := collectHeader ans.hctx.responseHeader packet
    match headerTerminator header with
    | none => some { ans with hctx := { ans.hctx with responseHeader := header } }
    | some (used, c) => fcgiHeaderDone stat host allowXsendfile ans header used c
  else if ans.hctx.sendContentBody ∧ packet.b.used > 1 then
    some (ans.sendBody (packet.b.ptr.take packet.b.used))
  else some ans

def fcgiEndRequest (ans : FcgiAnswer) : FcgiAnswer :=
  let ans := ans.mapCon fun con => { con with fileFinished := true }
  if host.mode ≠ FCGI_AUTHORIZER ∨ ¬ ans.hctx.remoteConn.Approved then
    ans.mapCon fun con => con.appendBody []
  else ans

/-- The loop of `fcgi_demux_response` over the packets, and `fin`. -/
def fcgiDemuxPackets : List FastcgiResponsePacket → FcgiAnswer → Option (FcgiAnswer × Bool)
  | [], ans => some (ans, false)
  | packet :: packets, ans =>
    if packet.type = FCGI_STDOUT then do
      let ans ← fcgiStdout stat host allowXsendfile ans packet
      fcgiDemuxPackets packets ans
    else if packet.type = FCGI_END_REQUEST then some (fcgiEndRequest host ans, true)
    else fcgiDemuxPackets packets ans

/-- The request is handled locally from then on, because the authorizer approves of it: the end of
the request in `fcgi_handle_fdevent`. -/
def handledLocally (packets : List FastcgiResponsePacket) (ans : FcgiAnswer) :
    Option BackendConnection := do
  let (ans, fin) ← fcgiDemuxPackets stat host allowXsendfile packets ans
  if fin = true ∧ host.mode = FCGI_AUTHORIZER ∧ ans.hctx.remoteConn.Approved then
    some (authorized host ans.hctx.remoteConn)
  else none

end Model

end Lighttpd
