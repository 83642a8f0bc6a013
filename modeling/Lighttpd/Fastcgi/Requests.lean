import Lighttpd.Fastcgi.CreateEnv
import Lighttpd.Fastcgi.Procs

/-!
# `mod_fastcgi.c`: requests and their backends

A `handler_ctx` takes a request to a process: a host is chosen, then a process of it, which is
connected to and gets the request. What fails on the way is tried again, with the next host. The
events of the server come in any order, for any number of requests; what the system answers, and
what the response of the backend does to the connection, are parts of the event.
-/

namespace Lighttpd

open CLib

/-- `FCGI_STATE_*` -/
inductive FcgiConnectionState where
  | unset
  | init
  | connectDelayed
  | prepareWrite
  | write
  | read
  deriving DecidableEq, Repr

/-- `handler_ctx`. `host` is the place of the host, `proc` that of its host and its own. An `fd` of
-1 is `none`. -/
structure HandlerCtx where
  proc : Option (Nat × Nat)
  host : Option Nat
  ext : Nat
  state : FcgiConnectionState
  reconnects : Nat
  rb : Chunkqueue
  wb : Chunkqueue
  responseHeader : Buffer
  requestId : Nat
  fd : Option Nat
  pid : Int
  gotProc : Bool
  sendContentBody : Bool
  remoteConn : BackendConnection
  deriving DecidableEq, Repr

/-- `fcgi_extension`; `hosts` are their places. -/
structure FcgiExtension where
  hosts : List Nat
  lastUsedNdx : Int
  deriving DecidableEq, Repr

/-- The state of the plugin: `id` is `p->id`, `ctxs` are the contexts that are not freed. -/
structure FcgiPlugin where
  id : Nat
  backends : Backends
  exts : List FcgiExtension
  ctxs : List HandlerCtx
  curTs : Int
  deriving DecidableEq, Repr

def handlerCtxInit (con : BackendConnection) (ext : Nat) : HandlerCtx where
  proc := none
  host := none
  ext := ext
  state := .init
  reconnects := 0
  rb := chunkqueueInit
  wb := chunkqueueInit
  responseHeader := bufferInit
  requestId := 0
  fd := none
  pid := 0
  gotProc := false
  sendContentBody := true
  remoteConn := con

/-! ## Hosts of a request -/

def fcgiHostAssign (b : Backends) (hctx : HandlerCtx) (h : Nat) : Option (Backends × HandlerCtx) := do
  let b ← hostLoadBy 1 b h
  some (b, { hctx with host := some h })

def fcgiHostReset (b : Backends) (hctx : HandlerCtx) : Option (Backends × HandlerCtx) := do
  let h ← hctx.host
  let b ← hostLoadBy (-1) b h
  some (b, { hctx with host := none })

/-- What `fcgi_host_disable` does to a process. -/
def disableProc (curTs : Int) (disableTime : Nat) (proc : FcgiProc) : FcgiProc :=
  { proc with
    disabledUntil := curTs + disableTime
    state := if proc.isLocal then .diedWaitForPid else .died }

def fcgiHostDisable (curTs : Int) (b : Backends) (hctx : HandlerCtx) : Option Backends := do
  let h ← hctx.host
  let host ← b.hosts[h]?
  let p ← hctx.proc
  let proc ← b.proc p
  if host.disableTime ≠ 0 ∨ proc.isLocal then
    let b := b.modifyProc p (disableProc curTs host.disableTime)
    some (if proc.state = .running then
      b.modifyHost h fun host => { host with activeProcs := host.activeProcs - 1 } else b)
  else some b

/-- The case `CONNECTION_OVERLOADED`. -/
def overloadProc (curTs : Int) (b : Backends) (hctx : HandlerCtx) : Option Backends := do
  let h ← hctx.host
  let host ← b.hosts[h]?
  let p ← hctx.proc
  let proc ← b.proc p
  if host.disableTime ≠ 0 then
    let b := b.modifyProc p fun proc => { proc with
      disabledUntil := curTs + host.disableTime, state := .overloaded }
    some (if proc.state = .running then
      b.modifyHost h fun host => { host with activeProcs := host.activeProcs - 1 } else b)
  else some b

/-- `handler_ctx_free`, with the `fcgi_host_reset` in it. -/
def handlerCtxFree (b : Backends) (hctx : HandlerCtx) : Option Backends :=
  match hctx.host with
  | some h => hostLoadBy (-1) b h
  | none => some b

def releaseProc (b : Backends) (hctx : HandlerCtx) : Option Backends :=
  match hctx.proc with
  | some p => if hctx.gotProc then fcgiProcLoadDec b p else some b
  | none => some b

def fcgiConnectionClose (b : Backends) (hctx : HandlerCtx) :
    Option (Backends × BackendConnection) := do
  let released := if hctx.host.isSome then releaseProc b hctx else some b
  let b ← released
  let b ← handlerCtxFree b hctx
  some (b, hctx.remoteConn)

def fcgiReconnect (b : Backends) (hctx : HandlerCtx) : Option (Backends × HandlerCtx) := do
  let hctx := { hctx with
    fd := none, state := .init, requestId := 0, reconnects := hctx.reconnects + 1 }
  let b ← releaseProc b hctx
  fcgiHostReset b hctx

/-! ## Connecting and writing -/

/-- `socket`: a descriptor, none are left (`EMFILE`, `EINTR`), or another error. -/
inductive SocketAnswer where
  | fd (n : Nat)
  | wait
  | failed
  deriving DecidableEq, Repr

/-- `connection_result_t` -/
inductive ConnectionResult where
  | ok
  | delayed
  | overloaded
  | dead
  deriving DecidableEq, Repr

/-- `getsockopt`: it fails, there is an error, or the connection is there. -/
inductive SockoptAnswer where
  | failed
  | error
  | ok
  deriving DecidableEq, Repr

/-- What `fcgi_write_request` gets from the system, and from the request for its environment;
`write` is `network_backend_write`. -/
structure WriteAnswer where
  sockopt : SockoptAnswer
  socket : SocketAnswer
  fcntl : Bool
  connect : ConnectionResult
  vars : List FcgiEnvVar
  write : Chunkqueue → Chunkqueue × Int

/-- The first process that is running, and from then on one with a lower load. -/
def chooseProc : List FcgiProc → Nat → Option (Nat × Int) → Option (Nat × Int)
  | [], _, best => best
  | proc :: procs, i, none =>
    chooseProc procs (i + 1) (if proc.state = .running then some (i, proc.load) else none)
  | proc :: procs, i, some (k, load) =>
    chooseProc procs (i + 1) (if proc.state = .running ∧ proc.load < load then some (i, proc.load)
      else some (k, load))

section Code

variable [Malloc]

/-- The case `FCGI_STATE_WRITE`. -/
def writeOut (write : Chunkqueue → Chunkqueue × Int) (hctx : HandlerCtx) : HandlerT × HandlerCtx :=
  let (wb, ret) := write hctx.wb
  let (wb, _) := chunkqueueRemoveFinishedChunks wb
  let hctx := { hctx with wb := wb }
  if ret < 0 then (.error, hctx)
  else if wb.bytesOut = wb.bytesIn then (.waitForEvent, { hctx with state := .read })
  else (.waitForEvent, hctx)

/-- Enough turns for the loops of `fcgi_create_env`. -/
def createEnvFuel (con : BackendConnection) : Nat :=
  con.requestContentQueue.bytesIn.toNat + con.requestContentQueue.first.length + 2

/-- The case `FCGI_STATE_PREPARE_WRITE`. -/
def prepareWrite (curTs : Int) (b : Backends) (hctx : HandlerCtx) (answer : WriteAnswer) :
    Option (HandlerT × Backends × HandlerCtx) := do
  let p ← hctx.proc
  let h ← hctx.host
  let host ← b.hosts[h]?
  let b ← fcgiProcLoadInc b p
  let b := b.modifyProc p fun proc => { proc with lastUsed := curTs }
  let hctx := { hctx with
    gotProc := true, requestId := if hctx.requestId = 0 then 1 else hctx.requestId }
  let (ret, con, wb, _) ← fcgiCreateEnv (createEnvFuel hctx.remoteConn) host.mode answer.vars
    hctx.requestId hctx.remoteConn hctx.wb
  let hctx := { hctx with remoteConn := con, wb := wb }
  if ret = -1 then some (.error, b, hctx)
  else
    let (ret, hctx) := writeOut answer.write { hctx with state := .write }
    some (ret, b, hctx)

/-- The case `FCGI_STATE_INIT`. -/
def connectProc (curTs : Int) (b : Backends) (hctx : HandlerCtx) (answer : WriteAnswer) :
    Option (HandlerT × Backends × HandlerCtx) := do
  let h ← hctx.host
  let host ← b.hosts[h]?
  let hctx := { hctx with proc := none }
  match chooseProc host.first 0 none with
  | none => some (.error, b, hctx)
  | some (i, _) =>
    let hctx := { hctx with proc := some (h, i) }
    match answer.socket with
    | .wait => some (.waitForFd, b, { hctx with fd := none })
    | .failed => some (.error, b, { hctx with fd := none })
    | .fd n =>
      let hctx := { hctx with fd := some n }
      if ¬ answer.fcntl then some (.error, b, hctx)
      else
        let proc ← b.proc (h, i)
        let hctx := if proc.isLocal then { hctx with pid := proc.pid } else hctx
        match answer.connect with
        | .delayed => some (.waitForEvent, b, { hctx with state := .connectDelayed })
        | .overloaded =>
          let b ← overloadProc curTs b hctx
          some (.error, b, hctx)
        | .dead =>
          let b ← fcgiHostDisable curTs b hctx
          some (.error, b, hctx)
        | .ok =>
          prepareWrite curTs b { hctx with reconnects := 0, state := .prepareWrite } answer

/-- `none` stands for a pointer that is `NULL`, or an assertion that fails. -/
def fcgiWriteRequest (curTs : Int) (b : Backends) (hctx : HandlerCtx) (answer : WriteAnswer) :
    Option (HandlerT × Backends × HandlerCtx) :=
  match hctx.host with
  | none => some (.error, b, hctx)
  | some h => do
    let host ← b.hosts[h]?
    if host.port = 0 ∧ host.unixsocket.used = 0 then some (.error, b, hctx)
    else
      match hctx.state with
      | .connectDelayed =>
        match answer.sockopt with
        | .ok => prepareWrite curTs b { hctx with state := .prepareWrite } answer
        | .failed | .error =>
          let b ← fcgiHostDisable curTs b hctx
          some (.error, b, hctx)
      | .init => connectProc curTs b hctx answer
      | .prepareWrite => prepareWrite curTs b hctx answer
      | .write =>
        let (ret, hctx) := writeOut answer.write hctx
        some (ret, b, hctx)
      | .read => some (.waitForEvent, b, hctx)
      | .unset => some (.error, b, hctx)

/-! ## The handlers -/

/-- The loop over the hosts of an extension: the place in it of one with the least load, among those
with a running process. -/
def leastLoaded (b : Backends) : List Nat → Int → Int → Int → Option Int
  | [], _, _, ndx => some ndx
  | h :: hs, k, used, ndx => do
    let host ← b.hosts[h]?
    if host.activeProcs = 0 then leastLoaded b hs (k + 1) used ndx
    else if used = -1 ∨ host.load < used then leastLoaded b hs (k + 1) host.load k
    else leastLoaded b hs (k + 1) used ndx

/-- The place of the host for a request, -1 if all of them are down. -/
def chooseHost (b : Backends) (ext : FcgiExtension) : Option Int := do
  let ndx := ext.lastUsedNdx + 1
  let ndx := if ndx ≥ ext.hosts.length ∨ ndx < 0 then 0 else ndx
  let h ← ext.hosts[ndx.toNat]?
  let host ← b.hosts[h]?
  if host.load > 0 then leastLoaded b ext.hosts 0 (-1) (-1) else some ndx

def giveUp (status : Int) (con : BackendConnection) : BackendConnection :=
  { con with physicalPath := bufferReset con.physicalPath, mode := DIRECT, httpStatus := status }

/-- What a handler leaves: its result, the hosts and extensions, and the context or, if that was
freed, the connection. -/
structure FcgiHandled where
  ret : HandlerT
  backends : Backends
  exts : List FcgiExtension
  left : HandlerCtx ⊕ BackendConnection

/-- `restarts` is for `fcgi_restart_dead_procs`. -/
structure SubrequestAnswer where
  write : WriteAnswer
  restarts : Nat → RestartAnswer

/-- The end of `mod_fastcgi_handle_subrequest`, for a context that has a host. -/
def handleWritten (curTs : Int) (b : Backends) (exts : List FcgiExtension) (hctx : HandlerCtx)
    (answer : SubrequestAnswer) : Option FcgiHandled := do
  let (ret, b, hctx) ← fcgiWriteRequest curTs b hctx answer.write
  match ret with
  | .error =>
    if hctx.state = .init ∨ hctx.state = .connectDelayed then
      let h ← hctx.host
      let host ← b.hosts[h]?
      let host ← fcgiRestartDeadProcs curTs host answer.restarts
      let b := { b with hosts := b.hosts.set h host }
      if hctx.reconnects < 5 then
        let (b, hctx) ← fcgiReconnect b hctx
        some ⟨.waitForFd, b, exts, .inl hctx⟩
      else
        let (b, con) ← fcgiConnectionClose b hctx
        some ⟨.finished, b, exts, .inr (giveUp 503 con)⟩
    else
      let (b, con) ← fcgiConnectionClose b hctx
      some ⟨.finished, b, exts,
        .inr (giveUp (if con.httpStatus ≠ 400 then 503 else con.httpStatus) con)⟩
  | .waitForEvent =>
    some ⟨if hctx.remoteConn.fileStarted then .finished else .waitForEvent, b, exts, .inl hctx⟩
  | .waitForFd => some ⟨.waitForFd, b, exts, .inl hctx⟩
  | _ => some ⟨.error, b, exts, .inl hctx⟩

def modFastcgiHandleSubrequest (id : Nat) (curTs : Int) (b : Backends) (exts : List FcgiExtension)
    (hctx : HandlerCtx) (answer : SubrequestAnswer) : Option FcgiHandled :=
  if hctx.remoteConn.mode ≠ id then some ⟨.goOn, b, exts, .inl hctx⟩
  else
    match hctx.host with
    | some _ => handleWritten curTs b exts hctx answer
    | none => do
      let ext ← exts[hctx.ext]?
      let ndx ← chooseHost b ext
      if ndx = -1 then
        let (b, con) ← fcgiConnectionClose b hctx
        some ⟨.finished, b, exts, .inr { con with httpStatus := 500, mode := DIRECT }⟩
      else
        let h ← ext.hosts[ndx.toNat]?
        let exts := exts.set hctx.ext { ext with lastUsedNdx := ndx }
        let (b, hctx) ← fcgiHostAssign b hctx h
        handleWritten curTs b exts { hctx with proc := none } answer

/-- `FDEVENT_*` -/
structure Revents where
  readable : Bool
  writable : Bool
  hup : Bool
  err : Bool
  deriving DecidableEq, Repr

/-- What `fcgi_demux_response` did: its result, the connection, and the context's side of the
response. -/
structure Demuxed where
  fin : Int
  con : BackendConnection
  rb : Chunkqueue
  responseHeader : Buffer
  sendContentBody : Bool

structure FdeventAnswer where
  revents : Revents
  demuxed : Demuxed
  wait : WaitAnswer
  spawn : SpawnAnswer
  subrequest : SubrequestAnswer

/-- The branch with `waitpid`: a child that is gone is started again at once. -/
def respawn (curTs : Int) (b : Backends) (h : Nat) (p : Nat × Nat) (answer : FdeventAnswer) :
    Option Backends := do
  let host ← b.hosts[h]?
  let proc ← b.proc p
  if proc.pid ≠ 0 ∧ proc.state ≠ .died ∧ answer.wait = .exited then
    match fcgiSpawnConnection curTs host.activeProcs proc answer.spawn with
    | some (active, proc) =>
      let b := b.modifyProc p fun _ => proc
      some (b.modifyHost h fun host => { host with activeProcs := active })
    | none => some (b.modifyProc p fun proc => { proc with state := .died })
  else some b

def authorized (host : FcgiExtensionHost) (con : BackendConnection) : BackendConnection :=
  let path := bufferCopyStringBuffer con.physicalPath host.docroot
  { con with
    docRoot := bufferCopyStringBuffer con.docRoot host.docroot
    physicalPath := bufferAppendStringBuffer path con.uriPath
    mode := DIRECT
    httpStatus := 0
    fileStarted := true }

/-- The result -1 of `fcgi_demux_response`. -/
def responseFailed (curTs : Int) (b : Backends) (exts : List FcgiExtension) (hctx : HandlerCtx)
    (answer : FdeventAnswer) : Option FcgiHandled := do
  let h ← hctx.host
  let p ← hctx.proc
  let b ← respawn curTs b h p answer
  if ¬ hctx.remoteConn.fileStarted then
    if hctx.wb.bytesOut = 0 ∧ hctx.reconnects < 5 then
      let (b, hctx) ← fcgiReconnect b hctx
      some ⟨.waitForFd, b, exts, .inl hctx⟩
    else
      let (b, con) ← fcgiConnectionClose b hctx
      some ⟨.finished, b, exts, .inr (giveUp 500 con)⟩
  else
    let (b, con) ← fcgiConnectionClose b hctx
    some ⟨.finished, b, exts, .inr con⟩

/-- The tests for `FDEVENT_OUT`, `FDEVENT_HUP` and `FDEVENT_ERR`. That the connection is set to
`CON_STATE_ERROR` when it is closed is left out. -/
def handleOtherEvents (id : Nat) (curTs : Int) (b : Backends) (exts : List FcgiExtension)
    (hctx : HandlerCtx) (answer : FdeventAnswer) : Option FcgiHandled :=
  if answer.revents.writable ∧ (hctx.state = .connectDelayed ∨ hctx.state = .write) then
    modFastcgiHandleSubrequest id curTs b exts hctx answer.subrequest
  else if answer.revents.hup then
    if hctx.state = .connectDelayed then
      modFastcgiHandleSubrequest id curTs b exts hctx answer.subrequest
    else do
      let p ← hctx.proc
      let proc ← b.proc p
      if hctx.state = .read ∧ proc.port = 0 then some ⟨.finished, b, exts, .inl hctx⟩
      else
        let (b, con) ← fcgiConnectionClose b hctx
        some ⟨.finished, b, exts, .inr con⟩
  else if answer.revents.err then do
    let (b, con) ← fcgiConnectionClose b hctx
    some ⟨.finished, b, exts, .inr con⟩
  else some ⟨.finished, b, exts, .inl hctx⟩

def fcgiHandleFdevent (id : Nat) (curTs : Int) (b : Backends) (exts : List FcgiExtension)
    (hctx : HandlerCtx) (answer : FdeventAnswer) : Option FcgiHandled :=
  if answer.revents.readable ∧ hctx.state = .read then
    let hctx := { hctx with
      remoteConn := answer.demuxed.con
      rb := answer.demuxed.rb
      responseHeader := answer.demuxed.responseHeader
      sendContentBody := answer.demuxed.sendContentBody }
    if answer.demuxed.fin = 1 then do
      let h ← hctx.host
      let host ← b.hosts[h]?
      let (b, con) ← fcgiConnectionClose b hctx
      if host.mode = FCGI_AUTHORIZER ∧ (con.httpStatus = 200 ∨ con.httpStatus = 0) then
        some ⟨.finished, b, exts, .inr (authorized host con)⟩
      else some ⟨.finished, b, exts, .inr con⟩
    else if answer.demuxed.fin = -1 then responseFailed curTs b exts hctx answer
    else handleOtherEvents id curTs b exts hctx answer
  else handleOtherEvents id curTs b exts hctx answer

/-! ## Runs -/

/-- The test of `fcgi_check_extension` for a host that can take the request. -/
def someHostActive (b : Backends) (hosts : List Nat) : Option (Option Nat) :=
  match hosts with
  | [] => some none
  | h :: hs => do
    let host ← b.hosts[h]?
    if host.activeProcs = 0 then someHostActive b hs else some (some h)

/-- The end of `fcgi_check_extension`, for a request that the extension `ext` matches. The
`PATH_INFO` is split off elsewhere. The second component is a new context. -/
def fcgiCheckExtension (id : Nat) (b : Backends) (exts : List FcgiExtension)
    (con : BackendConnection) (ext : Nat) (uriPathHandler : Bool) :
    Option (HandlerT × (HandlerCtx ⊕ BackendConnection)) :=
  if con.mode ≠ DIRECT ∨ con.fileStarted then some (.goOn, .inr con)
  else do
    let extension ← exts[ext]?
    match ← someHostActive b extension.hosts with
    | none =>
      some (.finished, .inr { con with
        physicalPath := bufferReset con.physicalPath, httpStatus := 500 })
    | some h =>
      let host ← b.hosts[h]?
      if uriPathHandler ∧ host.checkLocal then some (.goOn, .inr con)
      else
        let con := { con with mode := id }
        some (.goOn, .inl (handlerCtxInit con ext))

/-- The events: a request is checked for an extension, a subrequest is handled, an event of the
socket to the backend, the connection is closed or reset, the trigger once a second, and the time
goes on. `i` is the place of the context. -/
inductive FcgiEvent where
  | check (con : BackendConnection) (ext : Nat) (uriPathHandler : Bool)
  | subrequest (i : Nat) (answer : SubrequestAnswer)
  | fdevent (i : Nat) (answer : FdeventAnswer)
  | close (i : Nat)
  | trigger (restarts : Nat → Nat → RestartAnswer) (waits : Nat → Nat → WaitAnswer)
  | tick (curTs : Int)

def triggerHosts (curTs : Int) (restarts : Nat → Nat → RestartAnswer)
    (waits : Nat → Nat → WaitAnswer) :
    Nat → List FcgiExtensionHost → Option (List FcgiExtensionHost)
  | _, [] => some []
  | n, host :: hosts => do
    let host ← triggerHost curTs host (restarts n) (waits n)
    let hosts ← triggerHosts curTs restarts waits (n + 1) hosts
    some (host :: hosts)

/-- The context in the place `i` is replaced by what the handler left, or freed. -/
def FcgiPlugin.put (s : FcgiPlugin) (i : Nat) (handled : FcgiHandled) : FcgiPlugin :=
  { s with
    backends := handled.backends
    exts := handled.exts
    ctxs :=
      match handled.left with
      | .inl hctx => s.ctxs.set i hctx
      | .inr _ => s.ctxs.eraseIdx i }

/-- The state after the event; `none` if it cannot come, or the server aborts. -/
def FcgiPlugin.step (s : FcgiPlugin) : FcgiEvent → Option FcgiPlugin
  | .check con ext uriPathHandler => do
    let (_, left) ← fcgiCheckExtension s.id s.backends s.exts con ext uriPathHandler
    match left with
    | .inl hctx => some { s with ctxs := s.ctxs ++ [hctx] }
    | .inr _ => some s
  | .subrequest i answer => do
    let hctx ← s.ctxs[i]?
    let handled ← modFastcgiHandleSubrequest s.id s.curTs s.backends s.exts hctx answer
    some (s.put i handled)
  | .fdevent i answer => do
    let hctx ← s.ctxs[i]?
    -- the descriptor is registered with the context
    let _ ← hctx.fd
    let handled ← fcgiHandleFdevent s.id s.curTs s.backends s.exts hctx answer
    some (s.put i handled)
  | .close i => do
    let hctx ← s.ctxs[i]?
    let (b, con) ← fcgiConnectionClose s.backends hctx
    some (s.put i ⟨.goOn, b, s.exts, .inr con⟩)
  | .trigger restarts waits => do
    let hosts ← triggerHosts s.curTs restarts waits 0 s.backends.hosts
    some { s with backends := { s.backends with hosts := hosts } }
  | .tick curTs => some { s with curTs := curTs }

end Code

end Lighttpd
