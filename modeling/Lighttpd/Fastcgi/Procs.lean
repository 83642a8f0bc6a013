import Lighttpd.Buffer

/-!
# `mod_fastcgi.c`: hosts and their processes

A host counts its running processes (`active_procs`) and its requests (`load`), a process counts
the requests it got. A process is known by the places of its host and of itself in the lists. The
counters are integers here, so that one that went below zero would be seen.
-/

namespace Lighttpd

/-- `PROC_STATE_*` -/
inductive ProcState where
  | unset
  | running
  | overloaded
  | diedWaitForPid
  | died
  | killed
  deriving DecidableEq, Repr

/-- `fcgi_proc`. A `pid` of 0 is not one of ours. -/
structure FcgiProc where
  id : Nat
  port : Nat
  pid : Int
  load : Int
  lastUsed : Int
  disabledUntil : Int
  isLocal : Bool
  state : ProcState
  deriving DecidableEq, Repr

/-- `fcgi_extension_host` -/
structure FcgiExtensionHost where
  first : List FcgiProc
  unusedProcs : List FcgiProc
  maxProcs : Nat
  numProcs : Nat
  activeProcs : Int
  maxId : Int
  disableTime : Nat
  port : Nat
  unixsocket : Buffer
  binPath : Buffer
  docroot : Buffer
  mode : Nat
  checkLocal : Bool
  load : Int
  deriving DecidableEq, Repr

/-- `host->mode` -/
def FCGI_RESPONDER : Nat := 1

def FCGI_AUTHORIZER : Nat := 2

/-- `fastcgi_process_init` -/
def fastcgiProcessInit : FcgiProc where
  id := 0
  port := 0
  pid := 0
  load := 0
  lastUsed := 0
  disabledUntil := 0
  isLocal := false
  state := .unset

/-! ## Processes -/

/-- How the calls of `fcgi_spawn_connection` end: one of them fails, or the new child is gone
already; somebody listens on the socket; there is a child; or `fork` fails, which nothing looks
at. -/
inductive SpawnAnswer where
  | failed
  | inUse
  | child (pid : Int)
  | forkFailed
  deriving DecidableEq, Repr

/-- `host->active_procs` and the process afterwards; `none` is the result -1. -/
def fcgiSpawnConnection (curTs active : Int) (proc : FcgiProc) :
    SpawnAnswer → Option (Int × FcgiProc)
  | .failed => none
  | .inUse => some (active + 1, { proc with isLocal := false, pid := 0, state := .running })
  | .child pid =>
    some (active + 1, { proc with pid := pid, lastUsed := curTs, isLocal := true, state := .running })
  | .forkFailed => some (active + 1, { proc with state := .running })

/-- `waitpid` with `WNOHANG`: the child is alive, the call fails, or it has got the child. A call
that is interrupted is made again. -/
inductive WaitAnswer where
  | alive
  | failed
  | exited
  deriving DecidableEq, Repr

structure RestartAnswer where
  wait : WaitAnswer
  spawn : SpawnAnswer
  deriving DecidableEq, Repr

/-- The case `PROC_STATE_DIED`; the flag says that the loop is left with an error. -/
def restartDied (curTs : Int) (binPath : Buffer) (active : Int) (proc : FcgiProc)
    (answer : RestartAnswer) : Int × FcgiProc × Bool :=
  if ¬ bufferIsEmpty binPath then
    if proc.load ≠ 0 then (active, proc, false)
    else
      match fcgiSpawnConnection curTs active proc answer.spawn with
      | none => (active, proc, true)
      | some (active, proc) => (active, proc, false)
  else if curTs ≤ proc.disabledUntil then (active, proc, false)
  else (active + 1, { proc with state := .running }, false)

/-- One turn of `fcgi_restart_dead_procs`; `none` is an assertion that fails. -/
def restartProc (curTs : Int) (binPath : Buffer) (active : Int) (proc : FcgiProc)
    (answer : RestartAnswer) : Option (Int × FcgiProc × Bool) :=
  match proc.state with
  | .killed | .unset => none
  | .running => some (active, proc, false)
  | .overloaded =>
    if curTs ≤ proc.disabledUntil then some (active, proc, false)
    else some (active + 1, { proc with state := .running }, false)
  | .diedWaitForPid =>
    if ¬ proc.isLocal then
      some (restartDied curTs binPath active { proc with state := .died } answer)
    else
      match answer.wait with
      | .alive =>
        if curTs ≤ proc.disabledUntil then some (active, proc, false)
        else some (active + 1, { proc with state := .running }, false)
      | .failed | .exited =>
        some (restartDied curTs binPath active { proc with state := .died } answer)
  | .died => some (restartDied curTs binPath active proc answer)

/-- The loop; `answers i` is for the process `i`. -/
def restartProcs (curTs : Int) (binPath : Buffer) (answers : Nat → RestartAnswer) :
    Nat → Int → List FcgiProc → Option (Int × List FcgiProc)
  | _, active, [] => some (active, [])
  | i, active, proc :: procs =>
    match restartProc curTs binPath active proc (answers i) with
    | none => none
    | some (active, proc, true) => some (active, proc :: procs)
    | some (active, proc, false) =>
      (restartProcs curTs binPath answers (i + 1) active procs).map fun (active, procs) =>
        (active, proc :: procs)

/-! ## Hosts -/

def fcgiRestartDeadProcs (curTs : Int) (host : FcgiExtensionHost) (answers : Nat → RestartAnswer) :
    Option FcgiExtensionHost :=
  (restartProcs curTs host.binPath answers 0 host.activeProcs host.first).map
    fun (active, procs) => { host with activeProcs := active, first := procs }

/-- The loop of `mod_fastcgi_handle_trigger` over `unused_procs`. -/
def reapUnused (answers : Nat → WaitAnswer) :
    Nat → FcgiExtensionHost → List FcgiProc → FcgiExtensionHost × List FcgiProc
  | _, host, [] => (host, [])
  | i, host, proc :: procs =>
    let (host, proc) :=
      if proc.pid ≠ 0 ∧ answers i = .exited then
        ({ host with
            activeProcs := if proc.state = .running then host.activeProcs - 1 else host.activeProcs
            maxId := host.maxId - 1 },
          { proc with pid := 0, state := .unset })
      else (host, proc)
    let (host, procs) := reapUnused answers (i + 1) host procs
    (host, proc :: procs)

def triggerHost (curTs : Int) (host : FcgiExtensionHost) (restarts : Nat → RestartAnswer)
    (waits : Nat → WaitAnswer) : Option FcgiExtensionHost :=
  (fcgiRestartDeadProcs curTs host restarts).map fun host =>
    let (host, unused) := reapUnused waits 0 host host.unusedProcs
    { host with unusedProcs := unused }

/-- The loop of `mod_fastcgi_set_defaults` that starts the processes of a host with a `bin-path`:
`pno` are started already. `none` means that the server does not start. -/
def spawnProcs (curTs : Int) (answers : Nat → SpawnAnswer) :
    Nat → Nat → FcgiExtensionHost → Option FcgiExtensionHost
  | 0, _, host => some host
  | n + 1, pno, host =>
    let proc := { fastcgiProcessInit with
      id := host.numProcs, port := if bufferIsEmpty host.unixsocket then host.port + pno else 0 }
    match fcgiSpawnConnection curTs host.activeProcs proc (answers pno) with
    | none => none
    | some (active, proc) =>
      spawnProcs curTs answers n (pno + 1) { host with
        numProcs := host.numProcs + 1, maxId := host.maxId + 1, activeProcs := active
        first := proc :: host.first }

/-- The processes of a host with the settings `conf` are set up. -/
def setDefaultsHost (curTs : Int) (conf : FcgiExtensionHost) (answers : Nat → SpawnAnswer) :
    Option FcgiExtensionHost :=
  let host := { conf with
    first := [], unusedProcs := [], numProcs := 0, activeProcs := 0, maxId := 0, load := 0 }
  if ¬ bufferIsEmpty host.binPath then spawnProcs curTs answers host.maxProcs 0 host
  else
    let proc := { fastcgiProcessInit with
      state := .running, port := if bufferIsEmpty host.unixsocket then host.port else 0 }
    some { host with
      numProcs := 1, maxId := 1, activeProcs := host.activeProcs + 1, first := [proc], maxProcs := 1 }

/-! ## The counters -/

/-- The hosts, and the values the status counters for loads were set to, in order. -/
structure Backends where
  hosts : List FcgiExtensionHost
  loads : List Int
  deriving DecidableEq, Repr

namespace Backends

def proc (b : Backends) (p : Nat × Nat) : Option FcgiProc := do
  let host ← b.hosts[p.1]?
  host.first[p.2]?

def modifyHost (b : Backends) (h : Nat) (f : FcgiExtensionHost → FcgiExtensionHost) : Backends :=
  { b with hosts := b.hosts.modify h f }

def modifyProc (b : Backends) (p : Nat × Nat) (f : FcgiProc → FcgiProc) : Backends :=
  b.modifyHost p.1 fun host => { host with first := host.first.modify p.2 f }

end Backends

/-- The load of a process changes by `d`, and is published. -/
def procLoadBy (d : Int) (b : Backends) (p : Nat × Nat) : Option Backends := do
  let proc ← b.proc p
  some { b.modifyProc p fun proc => { proc with load := proc.load + d } with
    loads := b.loads ++ [proc.load + d] }

def hostLoadBy (d : Int) (b : Backends) (h : Nat) : Option Backends := do
  let host ← b.hosts[h]?
  some { b.modifyHost h fun host => { host with load := host.load + d } with
    loads := b.loads ++ [host.load + d] }

def fcgiProcLoadInc (b : Backends) (p : Nat × Nat) : Option Backends := procLoadBy 1 b p

def fcgiProcLoadDec (b : Backends) (p : Nat × Nat) : Option Backends := procLoadBy (-1) b p

end Lighttpd
