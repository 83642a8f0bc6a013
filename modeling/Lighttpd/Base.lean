import Lighttpd.Array
import Lighttpd.Chunk

/-!
# `base.h`: the connection and the server

The fields the modelled functions read and write. A `char *` into a value buffer is the address of
the element, the allocation it was taken from and an offset; a `buffer *` to it is the address.
-/

namespace Lighttpd

open CLib

/-- `handler_t` -/
inductive HandlerT where
  | unset
  | goOn
  | finished
  | comeback
  | waitForEvent
  | error
  | waitForFd
  deriving DecidableEq, Repr

/-- `http_method_t`; `HTTP_METHOD_UNSET` is -1. -/
inductive HttpMethod where
  | unset
  | get
  | post
  | head
  | options
  | propfind
  | mkcol
  | put
  | delete
  | copy
  | move
  | proppatch
  | report
  | checkout
  | checkin
  | versionControl
  | uncheckout
  | mkactivity
  | merge
  | lock
  | unlock
  | label
  | connect
  deriving DecidableEq, Repr

/-- `http_version_t` -/
inductive HttpVersion where
  | unset
  | v10
  | v11
  deriving DecidableEq, Repr

structure ValuePtr where
  addr : Nat
  gen : Nat
  offset : Nat
  deriving DecidableEq, Repr

/-- `request` -/
structure Request where
  request : Buffer
  uri : Buffer
  origUri : Buffer
  httpMethod : HttpMethod
  httpVersion : HttpVersion
  requestLine : Buffer
  httpHost : Option Nat
  httpRange : Option ValuePtr
  httpContentType : Option ValuePtr
  httpIfModifiedSince : Option ValuePtr
  httpIfNoneMatch : Option ValuePtr
  headers : Arr DataString
  contentLength : Nat
  deriving DecidableEq, Repr

/-- `response` -/
structure Response where
  keepAlive : Bool
  headers : Arr DataString
  deriving DecidableEq, Repr

/-- `specific_config` -/
structure SpecificConfig where
  mimetypes : Arr DataString
  allowHttp11 : Bool
  deriving DecidableEq, Repr

/-- `connection`. `uriPath` is `uri.path`, `physicalPath` is `physical.path`; `mode` is 0 for
`DIRECT` and else the id of a plugin. `allocs` counts the elements allocated for the headers. -/
structure Connection where
  requestCount : Nat
  keepAlive : Bool
  fileFinished : Bool
  writeQueue : Chunkqueue
  httpStatus : Int
  parseRequest : Buffer
  request : Request
  uriPath : Buffer
  physicalPath : Buffer
  response : Response
  headerLen : Nat
  mode : Nat
  conf : SpecificConfig
  allocs : Nat
  deriving DecidableEq, Repr

def DIRECT : Nat := 0

/-- `connection`, with the fields for the response. `responseLength` is `response.content_length`,
`etag` is `physical.etag`; the last two are buffers of the server. -/
structure RespondingConnection extends Connection where
  transferEncoding : Nat
  parsedResponse : Nat
  responseLength : Int
  etag : Buffer
  rangeRequests : Bool
  errorfilePrefix : Buffer
  tmpChunkLen : Buffer
  tmpBuf : Buffer
  deriving DecidableEq, Repr

/-- `connection`, with the fields for the request to a backend. `docRoot` is `physical.doc_root`. -/
structure BackendConnection extends RespondingConnection where
  requestContentQueue : Chunkqueue
  fileStarted : Bool
  docRoot : Buffer
  deriving DecidableEq, Repr

/-- `mtime_cache_type` -/
structure MtimeCache where
  mtime : Int
  str : Buffer
  deriving DecidableEq, Repr

def FILE_CACHE_MAX : Nat := 16

/-- `server`, with the two settings of `srvconf` the request parser reads. -/
structure Server where
  curTs : Int
  mtimeCache : List MtimeCache
  splitVals : Arr DataString
  maxRequestSize : Nat
  rejectExpect100With417 : Bool
  deriving DecidableEq, Repr

/-- A new connection with the settings `conf`. -/
def connectionInit (conf : SpecificConfig) : Connection where
  requestCount := 0
  keepAlive := false
  fileFinished := false
  writeQueue := chunkqueueInit
  httpStatus := 0
  parseRequest := bufferInit
  request :=
    { request := bufferInit, uri := bufferInit, origUri := bufferInit
      -- the zeros of `calloc`; `connection_reset` follows before the first request
      httpMethod := .get, httpVersion := .v10
      requestLine := bufferInit, httpHost := none, httpRange := none, httpContentType := none
      httpIfModifiedSince := none, httpIfNoneMatch := none
      headers := arrayInit, contentLength := 0 }
  uriPath := bufferInit
  physicalPath := bufferInit
  response := { keepAlive := false, headers := arrayInit }
  headerLen := 0
  mode := DIRECT
  conf := conf
  allocs := 0

/-- `connection_reset`, between two requests; `conf` are the settings for the next one. -/
def connectionReset [Malloc] (conf : SpecificConfig) (con : Connection) : Connection :=
  { con with
    httpStatus := 0
    fileFinished := false
    writeQueue := (chunkqueueReset con.writeQueue).1
    parseRequest := bufferReset con.parseRequest
    request :=
      { con.request with
        httpMethod := .unset
        httpVersion := .unset
        httpIfModifiedSince := none
        httpIfNoneMatch := none
        uri := bufferReset con.request.uri
        requestLine := bufferReset con.request.requestLine
        request := bufferReset con.request.request
        httpHost := none
        httpRange := none
        httpContentType := none
        contentLength := 0
        headers := arrayReset con.request.headers }
    physicalPath := bufferReset con.physicalPath
    response := { keepAlive := false, headers := arrayReset con.response.headers }
    mode := DIRECT
    headerLen := 0
    conf := conf }

def serverInit (curTs : Int) : Server where
  curTs := curTs
  mtimeCache := List.replicate FILE_CACHE_MAX { mtime := -1, str := bufferInit }
  splitVals := arrayInit
  maxRequestSize := 0
  rejectExpect100With417 := true

end Lighttpd
