import Lighttpd.Connections.TimeoutScan
import Lighttpd.Connections.WritePrepare
import Lighttpd.Lib.Machine
import Lighttpd.Request.Parse

/-!
# `connections.c`: `connection_state_machine`

A call goes from state to state until one stays as it is. What the functions it calls for the
plugins and the system answer, round by round, is a parameter. Between two calls the client, the
timeouts and the plugin that handles the request change the connection (`MachineEvent`).

Whatever they do, the connection lives its life in order (`connectionLife_orderly`), every response
that was started is logged, and no request twice (`connectionLife_logged`). A call ends where
something is waited for, and takes few rounds (`machineLoop_rounds`).
-/

namespace Lighttpd

open CLib

/-! ## The machine -/

/-- `connection`, with the fields of the machine. `event` is what the descriptor is watched for. -/
structure MachineConnection extends RespondingConnection where
  state : ConnectionState
  isReadable : Bool
  isWritable : Bool
  trafficLimitReached : Bool
  readQueue : Chunkqueue
  requestContentQueue : Chunkqueue
  errorHandler : ErrorHandler
  closeTimeoutTs : Int
  event : Nat

/-- What the plugins and the client see of a connection: `accept`, the hooks with the status of the
request, `shutdown` and `close`. -/
inductive LifeEvent where
  | accepted
  | requestStart
  | comeback
  | responseStart
  | handleRequestDone (status : Int)
  | handleConnectionClose
  | connectionReset
  | closed
  deriving DecidableEq, Repr

/-- The connection with what it uses of the server, and what has happened so far. -/
structure MachineState where
  con : MachineConnection
  srv : Server
  fs : Files
  log : List LifeEvent

def FDEVENT_IN : Nat := 1
def FDEVENT_OUT : Nat := 4
def FDEVENT_ERR : Nat := 8
def FDEVENT_HUP : Nat := 16

/-- What `network_write_chunkqueue` returns and leaves. -/
structure QueueWritten where
  result : Int
  queue : Chunkqueue
  limited : Bool

/-- What is answered in a round, to the functions that it calls: the answers of the system to
`connection_handle_read_state`, what `http_response_prepare` returns and makes of the connection,
the files for an error document, and the results of `shutdown` and of `read`. -/
structure RoundAnswer where
  curTs : Int
  read : ReadAnswer
  post : Nat → PostAnswer
  prepared : HandlerT × RespondingConnection
  stat : Buffer → Option StatCacheEntry
  written : QueueWritten
  shutdown : Bool
  linger : ReadResult

/-- What `config_setup_connection` gives to a request. -/
structure ConnectionSettings where
  conf : SpecificConfig
  rangeRequests : Bool
  errorfilePrefix : Buffer
  errorHandler : Buffer

namespace MachineConnection

def reading (con : MachineConnection) : ReadingConnection :=
  { con.toConnection with
    state := con.state, isReadable := con.isReadable, readQueue := con.readQueue
    requestContentQueue := con.requestContentQueue }

def withReading (con : MachineConnection) (r : ReadingConnection) : MachineConnection :=
  { con with
    toConnection := r.toConnection, state := r.state, isReadable := r.isReadable
    readQueue := r.readQueue, requestContentQueue := r.requestContentQueue }

end MachineConnection

section Machine

variable [Malloc] (settings : ConnectionSettings)

/-- `connection_reset` -/
def MachineConnection.reset (con : MachineConnection) : MachineConnection :=
  { con with
    toConnection := connectionReset settings.conf con.toConnection
    transferEncoding := 0
    parsedResponse := 0
    responseLength := -1
    etag := bufferReset con.etag
    rangeRequests := settings.rangeRequests
    errorfilePrefix := settings.errorfilePrefix
    isReadable := true
    isWritable := true
    requestContentQueue := (chunkqueueReset con.requestContentQueue).1
    errorHandler := ⟨settings.errorHandler, bufferReset con.errorHandler.own, none⟩ }

/-- `connection_close` -/
def MachineConnection.close (con : MachineConnection) : MachineConnection :=
  { con with state := .connect, event := 0 }

/-- `shutdown`, and `connection_close` where it fails. -/
def MachineConnection.shutdown (con : MachineConnection) (a : RoundAnswer) :
    MachineConnection × List LifeEvent :=
  if a.shutdown then ({ con with state := .close, closeTimeoutTs := a.curTs }, [])
  else (con.close, [.closed])

/-- `CON_STATE_REQUEST_END` -/
def requestEndRound (s : MachineState) : Option MachineState := do
  let con := { s.con with
    uriPath := bufferReset s.con.uriPath
    request := { s.con.request with origUri := bufferReset s.con.request.origUri } }
  let (ret, c, srv) ← httpRequestParse s.srv con.toConnection
  let state := if ret ≠ 0 then ConnectionState.readPost else .handleRequest
  some { s with con := { con with toConnection := c, state := state }, srv := srv }

/-- The error handler of the configuration is to handle the request. -/
def MachineConnection.callErrorHandler (con : MachineConnection) : MachineConnection :=
  let uri := bufferCopyStringBuffer con.request.uri
    (if bufferIsEmpty con.errorHandler.own then con.errorHandler.conf else con.errorHandler.own)
  { con with
    httpStatus := 0
    request := { con.request with uri := uri }
    physicalPath := bufferReset con.physicalPath
    errorHandler := { con.errorHandler with
      saved := if h : con.httpStatus = 403 ∨ con.httpStatus = 404 then some ⟨_, h⟩ else none }
    state := .handleRequest }

/-- `CON_STATE_HANDLE_REQUEST`, and whether the loop is to come back to it. -/
def handleRequestRound (con : MachineConnection) (a : RoundAnswer) :
    MachineConnection × List LifeEvent :=
  let con := { con with toRespondingConnection := a.prepared.2 }
  match a.prepared.1 with
  | .finished =>
    match requestFinished con.errorHandler con.toRespondingConnection with
    | some r =>
      ({ con with toRespondingConnection := r, state := .responseStart }, [.responseStart])
    | none => (con.callErrorHandler, [.comeback])
  | .comeback => ({ con with state := .handleRequest }, [.comeback])
  | .waitForFd | .waitForEvent => ({ con with state := .handleRequest }, [])
  | .error => ({ con with state := .error }, [])
  | .goOn | .unset => (con, [])

/-- `CON_STATE_RESPONSE_END` -/
def responseEndRound (con : MachineConnection) (a : RoundAnswer) :
    MachineConnection × List LifeEvent :=
  if con.keepAlive then
    (({ con with state := .requestStart } : MachineConnection).reset settings,
      [.handleRequestDone con.httpStatus, .connectionReset])
  else
    let (con', out) := con.shutdown a
    (con'.reset settings, .handleRequestDone con.httpStatus :: .handleConnectionClose ::
      (out ++ [.connectionReset]))

/-- The hooks for a connection that is dropped: it is logged with a status only. -/
def MachineConnection.dropHooks (con : MachineConnection) : List LifeEvent :=
  (if con.httpStatus ≠ 0 then [.handleRequestDone con.httpStatus] else []) ++
    if con.mode ≠ DIRECT then [.handleConnectionClose] else []

/-- `CON_STATE_ERROR` -/
def errorRound (con : MachineConnection) (a : RoundAnswer) : MachineConnection × List LifeEvent :=
  let (con', out) := (con.reset settings).shutdown a
  ({ con' with keepAlive := false }, con.dropHooks ++ .connectionReset :: out)

/-- `connection_handle_write` -/
def connectionHandleWrite (con : MachineConnection) (a : QueueWritten) : MachineConnection :=
  let con := { con with
    writeQueue := a.queue, trafficLimitReached := con.trafficLimitReached || a.limited }
  if a.result = 0 then
    if con.fileFinished then { con with state := .responseEnd } else con
  else if a.result = -1 ∨ a.result = -2 then { con with state := .error }
  else if a.result = 1 then { con with isWritable := false }
  else con

/-- `read` on a connection that is shut down: when the client has closed it too, or with an error,
the time to linger is over. -/
def MachineConnection.lingerRead (con : MachineConnection) (curTs : Int) (r : ReadResult) :
    MachineConnection :=
  if r = .data [] ∨ r = .failed then
    { con with closeTimeoutTs := curTs - (HTTP_LINGER_TIMEOUT + 1) }
  else con

/-- `CON_STATE_CLOSE` -/
def closeRound (con : MachineConnection) (a : RoundAnswer) : MachineConnection × List LifeEvent :=
  let con := con.lingerRead a.curTs a.linger
  if a.curTs - con.closeTimeoutTs > HTTP_LINGER_TIMEOUT then (con.close, [.closed]) else (con, [])

/-- `connection_handle_read_state`, in the states in which the connection is read. -/
def readState (s : MachineState) (a : RoundAnswer) : Option MachineState := do
  let (r, fs) ← connectionHandleReadState s.con.reading s.fs a.read a.post
  some { s with con := s.con.withReading r, fs := fs }

def machineRound (s : MachineState) (a : RoundAnswer) : Option MachineState :=
  let done := fun (r : MachineConnection × List LifeEvent) =>
    some { s with con := r.1, log := s.log ++ r.2 }
  match s.con.state with
  | .requestStart =>
    done ({ s.con with requestCount := s.con.requestCount + 1, state := .read }, [.requestStart])
  | .requestEnd => requestEndRound s
  | .handleRequest => done (handleRequestRound s.con a)
  | .responseStart => do
    let r ← connectionHandleWritePrepare a.stat s.con.toRespondingConnection
    done ({ s.con with toRespondingConnection := r, state := .write }, [])
  | .responseEnd => done (responseEndRound settings s.con a)
  | .connect =>
    done ({ s.con with readQueue := (chunkqueueReset s.con.readQueue).1, requestCount := 0 }, [])
  | .close => done (closeRound s.con a)
  | .readPost | .read => readState s a
  | .write =>
    if s.con.writeQueue.first ≠ [] ∧ s.con.isWritable then
      done (connectionHandleWrite s.con a.written, [])
    else some s
  | .error => done (errorRound settings s.con a)

/-- Whether the loop goes on: `done` is -1 where `http_response_prepare` is to be called again. -/
def goesOn (s s' : MachineState) : Bool :=
  s'.con.state != s.con.state || s'.log == s.log ++ [.comeback]

/-- The `while` loop, with the answers of its rounds, and whether it has ended with the last one. -/
def machineLoop (s : MachineState) : List RoundAnswer → Option (MachineState × Bool)
  | [] => some (s, false)
  | a :: answers => do
    let s' ← machineRound settings s a
    if goesOn s s' then machineLoop s' answers
    else if answers = [] then some (s', true) else none

/-- What is watched for in the state that the loop has reached. -/
def MachineConnection.awaited (con : MachineConnection) : Nat :=
  match con.state with
  | .readPost | .read | .close => FDEVENT_IN
  | .write =>
    if con.writeQueue.first ≠ [] ∧ con.isWritable = false ∧ con.trafficLimitReached = false then
      FDEVENT_OUT
    else 0
  | _ => 0

def connectionStateMachine (s : MachineState) (answers : List RoundAnswer) :
    Option MachineState := do
  let (s, ended) ← machineLoop settings s answers
  if ended then some { s with con := { s.con with event := s.con.awaited } } else none

/-! ## Between two calls -/

/-- The flags of the events, and the errors among them. -/
def MachineConnection.noteEvents (con : MachineConnection) (curTs : Int) (revents : Nat) :
    MachineConnection :=
  let con := { con with
    isReadable := con.isReadable || revents &&& FDEVENT_IN != 0
    isWritable := con.isWritable || revents &&& FDEVENT_OUT != 0 }
  if clearFlag revents (FDEVENT_IN ||| FDEVENT_OUT) ≠ 0 then
    if revents &&& FDEVENT_HUP ≠ 0 then
      if con.state = .close then { con with closeTimeoutTs := curTs - (HTTP_LINGER_TIMEOUT + 1) }
      else { con with state := .error }
    else if revents &&& FDEVENT_ERR ≠ 0 then { con with state := .error }
    else con
  else con

/-- `connection_handle_fdevent` -/
def connectionHandleFdevent (s : MachineState) (revents : Nat) (a : RoundAnswer) :
    Option MachineState :=
  let s := { s with con := s.con.noteEvents a.curTs revents }
  let read := if s.con.state = .read ∨ s.con.state = .readPost then readState s a else some s
  read.map fun s =>
    let con := if s.con.state = .write ∧ s.con.writeQueue.first ≠ [] ∧ s.con.isWritable then
      connectionHandleWrite s.con a.written else s.con
    { s with con := if con.state = .close then con.lingerRead a.curTs a.linger else con }

/-- What happens to a connection. A plugin that handles the request may change it, and may give it
back, end it or drop it. -/
inductive MachineEvent where
  | accept
  | machine (answers : List RoundAnswer)
  | fdevent (revents : Nat) (a : RoundAnswer)
  | timeout
  | plugin (r : RespondingConnection) (state : Option ConnectionState)

def MachineState.step (s : MachineState) : MachineEvent → Option MachineState
  | .accept => some { s with
      con := { s.con with state := .requestStart }, log := s.log ++ [.accepted] }
  | .machine answers => connectionStateMachine settings s answers
  | .fdevent revents a => connectionHandleFdevent s revents a
  | .timeout => some { s with con := { s.con with state := .error } }
  | .plugin r state => some { s with
      con := { s.con with toRespondingConnection := r, state := state.getD s.con.state } }

end Machine

/-! ## What a round does -/

/-- Nothing of a request is left in the connection. -/
def MachineConnection.Clean (con : MachineConnection) : Prop :=
  con.httpStatus = 0 ∧ con.mode = DIRECT

/-- How far the states are from the end of a request. -/
def ConnectionState.rank : ConnectionState → Nat
  | .read => 9
  | .requestEnd => 8
  | .readPost => 7
  | .handleRequest => 6
  | .responseStart => 5
  | .write => 4
  | .responseEnd => 3
  | .error | .requestStart => 2
  | .close => 1
  | .connect => 0

def ConnectionState.resting : ConnectionState → Bool
  | .connect | .read | .readPost | .handleRequest | .write | .close => true
  | _ => false

def ConnectionState.busy : ConnectionState → Bool
  | .read | .requestEnd | .readPost | .handleRequest => true
  | _ => false

def ConnectionState.proceeds (state next : ConnectionState) : Bool :=
  (next.busy || next == .error) && (next.rank < state.rank || next == state && state.resting)

/-- The end of a connection, or of its reading side. -/
def MachineConnection.Shut (con : MachineConnection) (out : List LifeEvent) : Prop :=
  con.state = .close ∧ out = [] ∨ con.state = .connect ∧ out = [.closed]

inductive Turn (con con' : MachineConnection) : List LifeEvent → Prop
  | starts (h : con.state = .requestStart) (h' : con'.state = .read) : Turn con con' [.requestStart]
  | proceeds (h : con.state.busy = true) (h' : con.state.proceeds con'.state = true) :
      Turn con con' []
  | comesBack (h : con.state = .handleRequest) (h' : con'.state = .handleRequest) :
      Turn con con' [.comeback]
  | answers (h : con.state = .handleRequest) (h' : con'.state = .responseStart)
      (hstatus : con'.httpStatus ≠ 0) : Turn con con' [.responseStart]
  | prepares (h : con.state = .responseStart) (h' : con'.state = .write)
      (hstatus : con'.httpStatus ≠ 0) : Turn con con' []
  | writes (h : con.state = .write)
      (h' : con'.state = .write ∨ con'.state = .responseEnd ∨ con'.state = .error)
      (hstatus : con'.httpStatus = con.httpStatus) : Turn con con' []
  | keeps (h : con.state = .responseEnd) (h' : con'.state = .requestStart) (hclean : con'.Clean) :
      Turn con con' [.handleRequestDone con.httpStatus, .connectionReset]
  | leaves {out : List LifeEvent} (h : con.state = .responseEnd) (h' : con'.Shut out)
      (hclean : con'.Clean) : Turn con con'
        (.handleRequestDone con.httpStatus :: .handleConnectionClose :: (out ++ [.connectionReset]))
  | fails {out : List LifeEvent} (h : con.state = .error) (h' : con'.Shut out)
      (hclean : con'.Clean) : Turn con con' (con.dropHooks ++ .connectionReset :: out)
  | lingers (h : con.state = .close ∨ con.state = .connect) (h' : con'.state = con.state)
      (hclean : con'.httpStatus = con.httpStatus ∧ con'.mode = con.mode) : Turn con con' []
  | closes (h : con.state = .close) (h' : con'.state = .connect)
      (hclean : con'.httpStatus = con.httpStatus ∧ con'.mode = con.mode) : Turn con con' [.closed]

section Rounds

theorem shutdown_shut (con : MachineConnection) (a : RoundAnswer) :
    (con.shutdown a).1.Shut (con.shutdown a).2 ∧
      (con.shutdown a).1.toConnection = con.toConnection := by
  unfold MachineConnection.shutdown
  split
  · exact ⟨Or.inl ⟨rfl, rfl⟩, rfl⟩
  · exact ⟨Or.inr ⟨rfl, rfl⟩, rfl⟩

theorem connectionHandleWrite_turn (con : MachineConnection) (a : QueueWritten)
    (h : con.state = .write) : Turn con (connectionHandleWrite con a) [] := by
  unfold connectionHandleWrite
  dsimp only
  split
  · split
    · exact .writes h (Or.inr (Or.inl rfl)) rfl
    · exact .writes h (Or.inl h) rfl
  split
  · exact .writes h (Or.inr (Or.inr rfl)) rfl
  split
  · exact .writes h (Or.inl h) rfl
  · exact .writes h (Or.inl h) rfl

theorem lingerRead_same (con : MachineConnection) (curTs : Int) (r : ReadResult) :
    (con.lingerRead curTs r).state = con.state ∧
      (con.lingerRead curTs r).toConnection = con.toConnection := by
  unfold MachineConnection.lingerRead
  split <;> exact ⟨rfl, rfl⟩

theorem leaveRead_proceeds {isClosed : Bool} {ostate : ConnectionState} {con : ReadingConnection}
    (h : ostate = .read ∨ ostate = .readPost) (hcon : ostate.proceeds con.state = true) :
    ostate.proceeds (leaveRead isClosed ostate con).state = true := by
  unfold leaveRead
  dsimp only
  split
  · rcases h with rfl | rfl <;> rfl
  · exact hcon

theorem closeRound_turn (con : MachineConnection) (a : RoundAnswer) (h : con.state = .close) :
    Turn con (closeRound con a).1 (closeRound con a).2 := by
  obtain ⟨hstate, hsame⟩ := lingerRead_same con a.curTs a.linger
  have hclean : (con.lingerRead a.curTs a.linger).httpStatus = con.httpStatus ∧
      (con.lingerRead a.curTs a.linger).mode = con.mode := by
    rw [hsame]
    exact ⟨rfl, rfl⟩
  unfold closeRound
  dsimp only
  split
  · exact .closes h rfl hclean
  · exact .lingers (Or.inl h) hstate hclean

variable [Malloc] {settings : ConnectionSettings} {s s' : MachineState} {a : RoundAnswer}

theorem reset_clean (con : MachineConnection) : (con.reset settings).Clean := ⟨rfl, rfl⟩

theorem handleRequestRound_turn (con : MachineConnection) (a : RoundAnswer)
    (h : con.state = .handleRequest) :
    Turn con (handleRequestRound con a).1 (handleRequestRound con a).2 := by
  unfold handleRequestRound
  dsimp only
  cases a.prepared.1 with
  | finished =>
    dsimp only
    split
    · next r hfinished => exact .answers h rfl (requestFinished_owner hfinished).2.2.2.1
    · exact .comesBack h rfl
  | comeback => exact .comesBack h rfl
  | _ => exact .proceeds (h ▸ rfl) (by dsimp only; rw [h]; rfl)

theorem responseEndRound_turn (con : MachineConnection) (a : RoundAnswer)
    (h : con.state = .responseEnd) :
    Turn con (responseEndRound settings con a).1 (responseEndRound settings con a).2 := by
  unfold responseEndRound
  split
  · exact .keeps h rfl (reset_clean _)
  · exact .leaves h (shutdown_shut con a).1 (reset_clean _)

theorem errorRound_turn (con : MachineConnection) (a : RoundAnswer) (h : con.state = .error) :
    Turn con (errorRound settings con a).1 (errorRound settings con a).2 := by
  obtain ⟨hshut, hsame⟩ := shutdown_shut (con.reset settings) a
  have hclean : ((con.reset settings).shutdown a).1.Clean := by
    unfold MachineConnection.Clean
    rw [hsame]
    exact reset_clean con
  exact .fails h hshut hclean

theorem connectionHandleRead_state (con : ReadingConnection) (answer : ReadAnswer) :
    (connectionHandleRead con answer).1 = -1 ∧ (connectionHandleRead con answer).2.state = .error ∨
      (connectionHandleRead con answer).1 ≠ -1 ∧
        (connectionHandleRead con answer).2.state = con.state := by
  have hgoes : (0 : Int) ≠ -1 := by decide
  have hclosed : (-2 : Int) ≠ -1 := by decide
  unfold connectionHandleRead
  cases answer.result with
  | again => exact Or.inr ⟨hgoes, rfl⟩
  | interrupted => exact Or.inr ⟨hgoes, rfl⟩
  | failed => exact Or.inl ⟨rfl, rfl⟩
  | data s =>
    dsimp only
    split
    · exact Or.inr ⟨hclosed, rfl⟩
    · split
      · exact Or.inr ⟨hgoes, rfl⟩
      · exact Or.inr ⟨hgoes, rfl⟩

theorem receive_state (con : ReadingConnection) (answer : ReadAnswer) :
    (receive con answer).1 = -1 ∧ (receive con answer).2.state = .error ∨
      (receive con answer).1 ≠ -1 ∧ (receive con answer).2.state = con.state := by
  have hread : (if con.isReadable then connectionHandleRead con answer else (0, con)).1 = -1 ∧
        (if con.isReadable then connectionHandleRead con answer else (0, con)).2.state = .error ∨
      (if con.isReadable then connectionHandleRead con answer else (0, con)).1 ≠ -1 ∧
        (if con.isReadable then connectionHandleRead con answer else (0, con)).2.state =
          con.state := by
    split
    · exact connectionHandleRead_state con answer
    · exact Or.inr ⟨by simp, rfl⟩
  unfold receive
  generalize (if con.isReadable then connectionHandleRead con answer else (0, con)) = p at hread ⊢
  obtain ⟨r, con'⟩ := p
  dsimp only at hread ⊢
  rcases hread with ⟨hr, hstate⟩ | ⟨hr, hstate⟩
  · rw [if_pos hr]
    exact Or.inl ⟨hr, hstate⟩
  · rw [if_neg hr]
    exact Or.inr ⟨hr, hstate⟩

theorem readHeader_proceeds {con : ReadingConnection} (h : con.state = .read) :
    ConnectionState.proceeds .read (readHeader con).state = true := by
  unfold readHeader
  split
  · rfl
  · split
    · rfl
    · rw [h]
      rfl

theorem readPost_proceeds {con con' : ReadingConnection} {fs fs' : Files}
    {answers : Nat → PostAnswer} (h : con.state = .readPost)
    (hpost : readPost con fs answers = some (con', fs')) :
    ConnectionState.proceeds .readPost con'.state = true := by
  unfold readPost at hpost
  split at hpost
  · cases hpost
  · next first stored hloop =>
    obtain ⟨rfl, -⟩ := Prod.mk.inj (Option.some.inj hpost)
    by_cases hfull : stored.dst.bytesIn = con.request.contentLength
    · cases stored.ok <;> simp [hfull] <;> rfl
    · cases stored.ok <;> simp [hfull, h] <;> rfl

theorem readState_turn (h : s.con.state = .read ∨ s.con.state = .readPost)
    (hcall : readState s a = some s') : s'.log = s.log ∧ Turn s.con s'.con [] := by
  unfold readState at hcall
  simp only [Option.bind_eq_bind, Option.bind_eq_some_iff] at hcall
  obtain ⟨⟨r, fs⟩, hrun, hcall⟩ := hcall
  obtain rfl := Option.some.inj hcall
  refine ⟨rfl, .proceeds (h.elim (· ▸ rfl) (· ▸ rfl)) ?_⟩
  show s.con.state.proceeds r.state = true
  unfold connectionHandleReadState at hrun
  dsimp only at hrun
  rcases receive_state s.con.reading a.read with ⟨hr, hstate⟩ | ⟨hr, hstate⟩
  · rw [if_pos hr] at hrun
    obtain ⟨rfl, -⟩ := Prod.mk.inj (Option.some.inj hrun)
    rw [hstate]
    exact h.elim (· ▸ rfl) (· ▸ rfl)
  · rw [if_neg hr] at hrun
    rcases h with hread | hpost
    · rw [show s.con.reading.state = .read from hread] at hrun hstate
      obtain ⟨rfl, -⟩ := Prod.mk.inj (Option.some.inj hrun)
      rw [hread]
      exact leaveRead_proceeds (Or.inl rfl) (readHeader_proceeds hstate)
    · rw [show s.con.reading.state = .readPost from hpost] at hrun hstate
      obtain ⟨⟨con, fs₁⟩, hstored, heq⟩ := Option.map_eq_some_iff.mp hrun
      obtain ⟨rfl, -⟩ := Prod.mk.inj heq
      rw [hpost]
      exact leaveRead_proceeds (Or.inr rfl) (readPost_proceeds hstate hstored)

theorem connectionHandleWritePrepare_status {stat : Buffer → Option StatCacheEntry}
    {con con' : RespondingConnection} (h : connectionHandleWritePrepare stat con = some con') :
    con'.httpStatus ≠ 0 := by
  unfold connectionHandleWritePrepare at h
  simp only [Option.bind_eq_bind, Option.bind_eq_some_iff] at h
  obtain ⟨con₁, -, con₂, hchoose, con₃, hframe, h⟩ := h
  obtain rfl := Option.some.inj h
  have hstatus : con₃.httpStatus ≠ 0 := by
    rw [(frameBody_same hframe).1.httpStatus, (chooseBody_finished hchoose).1.httpStatus]
    unfold defaultStatus
    split
    · exact (by decide : (403 : Int) ≠ 0)
    · next hset => exact hset
  unfold dropBody
  split <;> exact hstatus

theorem machineRound_turn (h : machineRound settings s a = some s') :
    ∃ out, s'.log = s.log ++ out ∧ Turn s.con s'.con out := by
  unfold machineRound at h
  dsimp only at h
  cases hstate : s.con.state with
  | requestStart =>
    rw [hstate] at h
    obtain rfl := Option.some.inj h
    exact ⟨_, rfl, .starts hstate rfl⟩
  | requestEnd =>
    rw [hstate] at h
    unfold requestEndRound at h
    simp only [Option.bind_eq_bind, Option.bind_eq_some_iff] at h
    obtain ⟨⟨ret, c, srv⟩, -, h⟩ := h
    obtain rfl := Option.some.inj h
    refine ⟨[], (List.append_nil _).symm, .proceeds (hstate ▸ rfl) ?_⟩
    rw [hstate]
    dsimp only
    split <;> rfl
  | handleRequest =>
    rw [hstate] at h
    obtain rfl := Option.some.inj h
    exact ⟨_, rfl, handleRequestRound_turn s.con a hstate⟩
  | responseStart =>
    rw [hstate] at h
    simp only [Option.bind_eq_bind, Option.bind_eq_some_iff] at h
    obtain ⟨r, hprepare, h⟩ := h
    obtain rfl := Option.some.inj h
    exact ⟨[], rfl, .prepares hstate rfl (connectionHandleWritePrepare_status hprepare)⟩
  | responseEnd =>
    rw [hstate] at h
    obtain rfl := Option.some.inj h
    exact ⟨_, rfl, responseEndRound_turn s.con a hstate⟩
  | connect =>
    rw [hstate] at h
    obtain rfl := Option.some.inj h
    exact ⟨[], rfl, .lingers (Or.inr hstate) hstate.symm ⟨rfl, rfl⟩⟩
  | close =>
    rw [hstate] at h
    obtain rfl := Option.some.inj h
    exact ⟨_, rfl, closeRound_turn s.con a hstate⟩
  | readPost =>
    rw [hstate] at h
    obtain ⟨hlog, hturn⟩ := readState_turn (Or.inr hstate) h
    exact ⟨[], by rw [hlog, List.append_nil], hturn⟩
  | read =>
    rw [hstate] at h
    obtain ⟨hlog, hturn⟩ := readState_turn (Or.inl hstate) h
    exact ⟨[], by rw [hlog, List.append_nil], hturn⟩
  | write =>
    rw [hstate] at h
    dsimp only at h
    split at h
    · obtain rfl := Option.some.inj h
      exact ⟨[], rfl, connectionHandleWrite_turn s.con a.written hstate⟩
    · obtain rfl := Option.some.inj h
      exact ⟨[], (List.append_nil _).symm, .writes hstate (Or.inl hstate) rfl⟩
  | error =>
    rw [hstate] at h
    obtain rfl := Option.some.inj h
    exact ⟨_, rfl, errorRound_turn s.con a hstate⟩

end Rounds

section Loop

theorem Turn.rests {con con' : MachineConnection} {out : List LifeEvent} (h : Turn con con' out)
    (hstate : con'.state = con.state) : con'.state.resting = true := by
  cases h with
  | proceeds h h' =>
    simp only [ConnectionState.proceeds, hstate] at h'
    simp_all
  | leaves h h' => rcases h' with ⟨h', -⟩ | ⟨h', -⟩ <;> simp_all
  | fails h h' => rcases h' with ⟨h', -⟩ | ⟨h', -⟩ <;> simp_all
  | lingers h h' => rcases h with h | h <;> simp_all [ConnectionState.resting]
  | _ => simp_all [ConnectionState.resting]

theorem Turn.rank_lt {con con' : MachineConnection} {out : List LifeEvent} (h : Turn con con' out)
    (hgoes : con'.state ≠ con.state ∨ out = [.comeback]) :
    con'.state.rank + 1 ≤
      con.state.rank + 8 * out.count .requestStart + out.count .comeback := by
  have hshut : ∀ out', con'.Shut out' → con'.state.rank ≤ 1 := by
    rintro out' (⟨h', -⟩ | ⟨h', -⟩) <;> rw [h'] <;> decide
  cases h with
  | proceeds h h' =>
    simp only [ConnectionState.proceeds, Bool.and_eq_true, Bool.or_eq_true, decide_eq_true_eq,
      beq_iff_eq] at h'
    rcases h'.2 with hlt | ⟨hsame, -⟩
    · omega
    · simp [hsame] at hgoes
  | writes h h' => rcases h' with h' | h' | h' <;> simp_all [ConnectionState.rank]
  | keeps h h' => simp [h, h', ConnectionState.rank]
  | leaves h h' =>
    have hle := hshut _ h'
    have hrank : con.state.rank = 3 := h ▸ rfl
    omega
  | fails h h' =>
    have hle := hshut _ h'
    have hrank : con.state.rank = 2 := h ▸ rfl
    omega
  | _ => simp_all [ConnectionState.rank]

variable [Malloc] {settings : ConnectionSettings} {s s' : MachineState}

/-- **Where the loop is, and after how many rounds**: it ends where something is waited for, and
takes at most ten rounds, another eight for each request that follows, and one for each time it is
told to come back. -/
theorem machineLoop_rounds {answers : List RoundAnswer} {ended : Bool}
    (h : machineLoop settings s answers = some (s', ended)) :
    (ended = true → s'.con.state.resting = true) ∧ ∃ out, s'.log = s.log ++ out ∧
      answers.length ≤ 10 + 8 * out.count .requestStart + out.count .comeback := by
  -- by induction along the loop; the rank pays for the rounds in front of the first event
  suffices hrank : (ended = true → s'.con.state.resting = true) ∧ ∃ out, s'.log = s.log ++ out ∧
      answers.length ≤ s.con.state.rank + 1 + 8 * out.count .requestStart +
        out.count .comeback by
    obtain ⟨hrest, out, hlog, hlength⟩ := hrank
    have hle : s.con.state.rank ≤ 9 := by cases s.con.state <;> decide
    exact ⟨hrest, out, hlog, by omega⟩
  induction answers generalizing s with
  | nil =>
    obtain ⟨rfl, rfl⟩ := Prod.mk.inj (Option.some.inj h)
    exact ⟨by simp, [], (List.append_nil _).symm, Nat.zero_le _⟩
  | cons a answers ih =>
    simp only [machineLoop, Option.bind_eq_bind, Option.bind_eq_some_iff] at h
    obtain ⟨t, hround, h⟩ := h
    obtain ⟨out, hlog, hturn⟩ := machineRound_turn hround
    by_cases hgoes : goesOn s t = true
    · rw [if_pos hgoes] at h
      obtain ⟨hrest, outs, hlogs, hlength⟩ := ih h
      have hlt := hturn.rank_lt (by
        unfold goesOn at hgoes
        rw [Bool.or_eq_true, bne_iff_ne, beq_iff_eq, hlog, List.append_cancel_left_eq] at hgoes
        exact hgoes)
      refine ⟨hrest, out ++ outs, by rw [hlogs, hlog, List.append_assoc], ?_⟩
      rw [List.length_cons, List.count_append, List.count_append]
      omega
    · rw [if_neg hgoes] at h
      split at h
      · next hnil =>
        obtain ⟨rfl, -⟩ := Prod.mk.inj (Option.some.inj h)
        unfold goesOn at hgoes
        rw [Bool.or_eq_true, bne_iff_ne, not_or, not_not] at hgoes
        refine ⟨fun _ => hturn.rests hgoes.1, out, hlog, ?_⟩
        rw [hnil]
        simp only [List.length_cons, List.length_nil]
        omega
      · cases h

end Loop

/-! ## The life of a connection -/

/-- Where a connection is in its life. There is a request (`busy`), it has a response (`owing`), it
was logged (`logged`), and its plugin was told of the end (`left`), then the descriptor too is gone
(`gone`). -/
inductive Phase where
  | closed
  | idle
  | busy
  | owing
  | logged
  | left
  | gone
  deriving DecidableEq, Repr

/-- The events that may come in a phase: a response that was started is logged with its status
before anything else, a request is logged once, and everything ends with a reset. -/
def Phase.next : Phase → LifeEvent → Option Phase
  | .closed, .accepted => some .idle
  | .idle, .requestStart => some .busy
  | .idle, .connectionReset => some .idle
  | .idle, .closed => some .closed
  | .busy, .comeback => some .busy
  | .busy, .responseStart => some .owing
  | .busy, .handleRequestDone _ => some .logged
  | .busy, .handleConnectionClose => some .left
  | .busy, .connectionReset => some .idle
  | .owing, .handleRequestDone status => if status = 0 then none else some .logged
  | .logged, .handleConnectionClose => some .left
  | .logged, .connectionReset => some .idle
  | .left, .connectionReset => some .idle
  | .left, .closed => some .gone
  | .gone, .connectionReset => some .closed
  | _, _ => none

/-- The phase behind some events, if they came in order. -/
def life (log : List LifeEvent) : Option Phase := log.foldlM Phase.next .closed

/-- The connection is as its phase says. Outside of a request it is clean, and a response has a
status. -/
def Phase.Fits (con : MachineConnection) (p : Phase) : Prop :=
  match con.state with
  | .connect => p = .closed ∧ con.Clean
  | .requestStart | .close => p = .idle ∧ con.Clean
  | .read | .requestEnd | .readPost | .handleRequest => p = .busy
  | .responseStart | .write => p = .owing ∧ con.httpStatus ≠ 0
  | .responseEnd => p = .busy ∨ p = .owing ∧ con.httpStatus ≠ 0
  | .error => p = .busy ∨ p = .owing ∧ con.httpStatus ≠ 0 ∨ p = .idle ∧ con.Clean

def MachineState.Orderly (s : MachineState) : Prop := ∃ p, life s.log = some p ∧ p.Fits s.con

/-- What is asked of the server and of the plugins: a new client is put where none is, a descriptor
is watched as long as it is open, the timeouts are those of `TimeoutScan`, and a plugin acts while
it handles the request. It gives the request back only as long as there is no response, and does
not take the status from one. -/
def MachineState.Allows (s : MachineState) : MachineEvent → Prop
  | .accept => s.con.state = .connect
  | .machine _ => True
  | .fdevent _ _ => s.con.state ≠ .connect
  | .timeout => s.con.state = .read ∨ s.con.state = .readPost ∨ s.con.state = .write
  | .plugin r state => s.con.mode ≠ DIRECT ∧
      (state = none ∨ state = some .responseEnd ∨ state = some .error ∨
        state = some .handleRequest ∧ life s.log ≠ some .owing) ∧
      (life s.log = some .owing → r.httpStatus ≠ 0)

theorem life_append (log out : List LifeEvent) :
    life (log ++ out) = (life log).bind fun p => out.foldlM Phase.next p :=
  List.foldlM_append

theorem fits_busy {con : MachineConnection} (h : con.state.busy = true) (p : Phase) :
    p.Fits con ↔ p = .busy := by
  unfold Phase.Fits
  cases hstate : con.state <;> simp_all [ConnectionState.busy]

theorem dropHooks_next {con : MachineConnection} {p : Phase}
    (h : p = .busy ∨ p = .owing ∧ con.httpStatus ≠ 0 ∨ p = .idle ∧ con.Clean) :
    (con.dropHooks ++ [LifeEvent.connectionReset]).foldlM Phase.next p = some .idle := by
  unfold MachineConnection.dropHooks
  rcases h with rfl | ⟨rfl, hstatus⟩ | ⟨rfl, hstatus, hmode⟩
  · by_cases hstatus : con.httpStatus = 0
    · by_cases hmode : con.mode = DIRECT <;> simp [hstatus, hmode, Phase.next]
    · by_cases hmode : con.mode = DIRECT <;> simp [hstatus, hmode, Phase.next]
  · by_cases hmode : con.mode = DIRECT <;> simp [hstatus, hmode, Phase.next]
  · simp [hstatus, hmode, Phase.next]

theorem Turn.orderly {con con' : MachineConnection} {out : List LifeEvent} (h : Turn con con' out)
    {p : Phase} (hfits : p.Fits con) : ∃ p', out.foldlM Phase.next p = some p' ∧ p'.Fits con' := by
  have hshut : ∀ out', con'.Shut out' → con'.Clean → ∃ p',
      out'.foldlM Phase.next .idle = some p' ∧ p'.Fits con' := by
    rintro out' (⟨h', rfl⟩ | ⟨h', rfl⟩) hclean <;> simp [Phase.next, Phase.Fits, h', hclean]
  cases h with
  | proceeds h h' =>
    obtain rfl := (fits_busy h p).mp hfits
    refine ⟨.busy, rfl, ?_⟩
    simp only [ConnectionState.proceeds, Bool.and_eq_true, Bool.or_eq_true, beq_iff_eq] at h'
    rcases h'.1 with hbusy | herror
    · exact (fits_busy hbusy .busy).mpr rfl
    · simp [Phase.Fits, herror]
  | writes h h' hstatus =>
    simp only [Phase.Fits, h] at hfits
    obtain ⟨rfl, hne⟩ := hfits
    rcases h' with h' | h' | h' <;> simp [Phase.Fits, h', hstatus, hne]
  | keeps h h' hclean =>
    simp only [Phase.Fits, h] at hfits
    rcases hfits with rfl | ⟨rfl, hne⟩
    · simp [Phase.Fits, Phase.next, h', hclean]
    · simp [Phase.Fits, Phase.next, h', hclean, hne]
  | leaves h h' hclean =>
    simp only [Phase.Fits, h] at hfits
    have hlogged : Phase.next p (.handleRequestDone con.httpStatus) = some .logged := by
      rcases hfits with rfl | ⟨rfl, hne⟩
      · rfl
      · exact if_neg hne
    rw [List.foldlM_cons, hlogged]
    rcases h' with ⟨h', rfl⟩ | ⟨h', rfl⟩
    · exact ⟨.idle, rfl, by simp [Phase.Fits, h', hclean]⟩
    · exact ⟨.closed, rfl, by simp [Phase.Fits, h', hclean]⟩
  | @fails out h h' hclean =>
    simp only [Phase.Fits, h] at hfits
    obtain ⟨p', hout, hfits'⟩ := hshut out h' hclean
    refine ⟨p', ?_, hfits'⟩
    rw [← List.singleton_append, ← List.append_assoc, List.foldlM_append, dropHooks_next hfits]
    exact hout
  | lingers h h' hsame =>
    unfold Phase.Fits MachineConnection.Clean at hfits ⊢
    refine ⟨p, rfl, ?_⟩
    rw [h', hsame.1, hsame.2]
    exact hfits
  | closes h h' hsame => simp_all [Phase.Fits, Phase.next, MachineConnection.Clean]
  | _ => simp_all [Phase.Fits, Phase.next]

theorem fits_error {con con' : MachineConnection} {p : Phase} (h : p.Fits con)
    (hopen : con.state ≠ .connect) (herror : con'.state = .error)
    (hsame : con'.httpStatus = con.httpStatus ∧ con'.mode = con.mode) : p.Fits con' := by
  unfold Phase.Fits MachineConnection.Clean at h ⊢
  rw [herror, hsame.1, hsame.2]
  cases hstate : con.state <;> rw [hstate] at h <;> tauto

theorem fits_same {con con' : MachineConnection} {p : Phase} (h : p.Fits con)
    (hstate : con'.state = con.state)
    (hsame : con'.httpStatus = con.httpStatus ∧ con'.mode = con.mode) : p.Fits con' := by
  unfold Phase.Fits MachineConnection.Clean at h ⊢
  rw [hstate, hsame.1, hsame.2]
  exact h

theorem noteEvents_fits {con : MachineConnection} {p : Phase} (h : p.Fits con)
    (hopen : con.state ≠ .connect) (curTs : Int) (revents : Nat) :
    p.Fits (con.noteEvents curTs revents) := by
  unfold MachineConnection.noteEvents
  dsimp only
  split
  · split
    · split
      · exact fits_same h rfl ⟨rfl, rfl⟩
      · exact fits_error h hopen rfl ⟨rfl, rfl⟩
    · split
      · exact fits_error h hopen rfl ⟨rfl, rfl⟩
      · exact fits_same h rfl ⟨rfl, rfl⟩
  · exact fits_same h rfl ⟨rfl, rfl⟩

theorem plugin_fits {con : MachineConnection} {p : Phase} (h : p.Fits con)
    (hmode : con.mode ≠ DIRECT) (r : RespondingConnection)
    (hstatus : p = .owing → r.httpStatus ≠ 0) :
    (p = .busy ∨ p = .owing ∧ r.httpStatus ≠ 0) ∧
      p.Fits { con with toRespondingConnection := r } := by
  unfold Phase.Fits MachineConnection.Clean at h ⊢
  dsimp only
  cases hcon : con.state <;> rw [hcon] at h <;> dsimp only at h ⊢ <;> tauto

theorem MachineState.Orderly.turn {s s' : MachineState} (h : s.Orderly) {out : List LifeEvent}
    (hlog : s'.log = s.log ++ out) (hturn : Turn s.con s'.con out) : s'.Orderly := by
  obtain ⟨p, hlife, hfits⟩ := h
  obtain ⟨p', hout, hfits'⟩ := hturn.orderly hfits
  exact ⟨p', by rw [hlog, life_append, hlife]; exact hout, hfits'⟩

def MachineState.Unused (s : MachineState) : Prop :=
  s.con.state = .connect ∧ s.con.Clean ∧ s.log = []

theorem MachineState.Unused.orderly {s : MachineState} (h : s.Unused) : s.Orderly := by
  obtain ⟨hstate, hclean, hlog⟩ := h
  refine ⟨.closed, by rw [hlog]; rfl, ?_⟩
  unfold Phase.Fits
  rw [hstate]
  exact ⟨rfl, hclean⟩

/-! ## Behind an event -/

theorem life_split {front back : List LifeEvent} {e : LifeEvent} {p : Phase}
    (h : life (front ++ e :: back) = some p) :
    ∃ q q', life front = some q ∧ q.next e = some q' ∧ back.foldlM Phase.next q' = some p := by
  rw [life_append, Option.bind_eq_some_iff] at h
  obtain ⟨q, hfront, h⟩ := h
  rw [List.foldlM_cons, Option.bind_eq_bind, Option.bind_eq_some_iff] at h
  obtain ⟨q', hnext, h⟩ := h
  exact ⟨q, q', hfront, hnext, h⟩

/-- Behind a request that was logged, up to the next one. -/
def Phase.Over (p : Phase) : Prop := p ≠ .busy ∧ p ≠ .owing

theorem Phase.Over.next {p p' : Phase} {e : LifeEvent} (h : p.Over) (hstart : e ≠ .requestStart)
    (hnext : p.next e = some p') : p'.Over := by
  obtain ⟨hbusy, howing⟩ := h
  cases p <;> cases e <;> simp_all [Phase.next, Phase.Over] <;> subst hnext <;> simp

theorem Phase.Over.foldlM {out : List LifeEvent} {p p' : Phase} (h : p.Over)
    (hstart : .requestStart ∉ out) (hout : out.foldlM Phase.next p = some p') : p'.Over := by
  induction out generalizing p with
  | nil =>
    obtain rfl := Option.some.inj hout
    exact h
  | cons e out ih =>
    rw [List.foldlM_cons, Option.bind_eq_bind, Option.bind_eq_some_iff] at hout
    obtain ⟨q, hnext, hout⟩ := hout
    rw [List.mem_cons, not_or] at hstart
    exact ih (h.next (Ne.symm hstart.1) hnext) hstart.2 hout

/-- The event behind the start of a response is the call of `handle_request_done` with its status,
and between two such calls a request starts. -/
def LoggedOnce (log : List LifeEvent) : Prop :=
  (∀ front back, log = front ++ .responseStart :: back →
    back = [] ∨ ∃ status, status ≠ 0 ∧ back.head? = some (.handleRequestDone status)) ∧
  ∀ front mid back status status', log =
    front ++ .handleRequestDone status :: (mid ++ .handleRequestDone status' :: back) →
      .requestStart ∈ mid

section Life

variable [Malloc] {settings : ConnectionSettings} {s s' : MachineState}

theorem machineLoop_orderly {answers : List RoundAnswer} {ended : Bool}
    (h : machineLoop settings s answers = some (s', ended)) (hs : s.Orderly) : s'.Orderly := by
  induction answers generalizing s with
  | nil =>
    obtain ⟨rfl, -⟩ := Prod.mk.inj (Option.some.inj h)
    exact hs
  | cons a answers ih =>
    simp only [machineLoop, Option.bind_eq_bind, Option.bind_eq_some_iff] at h
    obtain ⟨t, hround, h⟩ := h
    obtain ⟨out, hlog, hturn⟩ := machineRound_turn hround
    have ht := hs.turn hlog hturn
    split at h
    · exact ih h ht
    · split at h
      · obtain ⟨rfl, -⟩ := Prod.mk.inj (Option.some.inj h)
        exact ht
      · cases h

theorem connectionHandleFdevent_orderly {revents : Nat} {a : RoundAnswer} (hs : s.Orderly)
    (hopen : s.con.state ≠ .connect) (h : connectionHandleFdevent s revents a = some s') :
    s'.Orderly := by
  obtain ⟨p, hlife, hfits⟩ := hs
  have hnoted := noteEvents_fits hfits hopen a.curTs revents
  unfold connectionHandleFdevent at h
  dsimp only at h
  generalize s.con.noteEvents a.curTs revents = con at hnoted h
  have ht : ({ s with con := con } : MachineState).Orderly := ⟨p, hlife, hnoted⟩
  obtain ⟨u, hread, rfl⟩ := Option.map_eq_some_iff.mp h
  have hu : u.Orderly := by
    split at hread
    · next hstate =>
      obtain ⟨hlog, hturn⟩ := readState_turn hstate hread
      exact ht.turn (hlog.trans (List.append_nil _).symm) hturn
    · obtain rfl := Option.some.inj hread
      exact ht
  have hwrite : ({ u with con := if u.con.state = .write ∧ u.con.writeQueue.first ≠ [] ∧
      u.con.isWritable then connectionHandleWrite u.con a.written else u.con } :
        MachineState).Orderly := by
    split
    · next hcond =>
      exact hu.turn (List.append_nil _).symm (connectionHandleWrite_turn u.con a.written hcond.1)
    · exact hu
  generalize (if u.con.state = .write ∧ u.con.writeQueue.first ≠ [] ∧ u.con.isWritable then
    connectionHandleWrite u.con a.written else u.con : MachineConnection) = con at hwrite ⊢
  obtain ⟨q, hlog, hq⟩ := hwrite
  refine ⟨q, hlog, ?_⟩
  dsimp only at hq ⊢
  split
  · obtain ⟨hstate, hsame⟩ := lingerRead_same con a.curTs a.linger
    exact fits_same hq hstate (by rw [hsame]; exact ⟨rfl, rfl⟩)
  · exact hq

theorem step_orderly {e : MachineEvent} (hs : s.Orderly) (hallows : s.Allows e)
    (h : s.step settings e = some s') : s'.Orderly := by
  obtain ⟨p, hlife, hfits⟩ := hs
  cases e with
  | accept =>
    obtain rfl := Option.some.inj h
    unfold Phase.Fits at hfits
    rw [show s.con.state = .connect from hallows] at hfits
    obtain ⟨rfl, hclean⟩ := hfits
    exact ⟨.idle, by rw [life_append, hlife]; rfl, rfl, hclean⟩
  | machine answers =>
    simp only [MachineState.step, connectionStateMachine, Option.bind_eq_bind,
      Option.bind_eq_some_iff] at h
    obtain ⟨⟨t, ended⟩, hloop, h⟩ := h
    obtain ⟨q, hlife', hq⟩ := machineLoop_orderly hloop ⟨p, hlife, hfits⟩
    split at h
    · obtain rfl := Option.some.inj h
      exact ⟨q, hlife', fits_same hq rfl ⟨rfl, rfl⟩⟩
    · cases h
  | fdevent revents a => exact connectionHandleFdevent_orderly ⟨p, hlife, hfits⟩ hallows h
  | timeout =>
    obtain rfl := Option.some.inj h
    refine ⟨p, hlife, fits_error hfits ?_ rfl ⟨rfl, rfl⟩⟩
    rcases hallows with hstate | hstate | hstate <;> rw [hstate] <;> decide
  | plugin r state =>
    obtain rfl := Option.some.inj h
    obtain ⟨hmode, hstate, hstatus⟩ := hallows
    rw [hlife] at hstate hstatus
    refine ⟨p, hlife, ?_⟩
    obtain ⟨hphase, hkept⟩ := plugin_fits hfits hmode r fun hp => hstatus (congrArg some hp)
    rcases hstate with rfl | rfl | rfl | ⟨rfl, hnot⟩
    · exact hkept
    · exact hphase
    · exact hphase.imp_right Or.inl
    · rcases hphase with rfl | ⟨rfl, -⟩
      · rfl
      · exact absurd rfl hnot

end Life

section Run

def plainSettings : ConnectionSettings := ⟨⟨arrayInit, true⟩, false, bufferInit, bufferInit⟩

def unusedConnection : MachineState where
  con :=
    { toRespondingConnection := fileRequest
      state := .connect, isReadable := true, isWritable := true, trafficLimitReached := false
      readQueue := chunkqueueInit, requestContentQueue := chunkqueueInit
      errorHandler := ⟨bufferInit, bufferInit, none⟩, closeTimeoutTs := 0, event := 0 }
  srv := serverInit 0
  fs := ⟨[], []⟩
  log := []

/-- A request has come. Its response is complete, and is written at once. -/
def plainAnswer : RoundAnswer where
  curTs := 0
  read := ⟨none, .data (ascii "GET / HTTP/1.0\r\n\r\n")⟩
  post _ := ⟨fun _ => none, none, fun _ => none⟩
  prepared := (.finished, { fileRequest with
    httpStatus := 200, fileFinished := true
    writeQueue := { chunkqueueInit with first := [chunkInit] } })
  stat _ := none
  written := ⟨0, chunkqueueInit, false⟩
  shutdown := true
  linger := .again

theorem plainRun : (@connectionStateMachine zeroMalloc plainSettings
    { unusedConnection with
      con := { unusedConnection.con with state := .requestStart }, log := [.accepted] }
    (List.replicate 8 plainAnswer)).map (·.log) =
      some [.accepted, .requestStart, .responseStart, .handleRequestDone 200,
        .handleConnectionClose, .connectionReset] := by
  decide +kernel

theorem reachable_plainRun : ∃ s, Reachable (@MachineState.step zeroMalloc plainSettings)
    MachineState.Allows MachineState.Unused s ∧ s.log = [.accepted, .requestStart, .responseStart,
      .handleRequestDone 200, .handleConnectionClose, .connectionReset] := by
  obtain ⟨s, hrun, hlog⟩ := Option.map_eq_some_iff.mp plainRun
  have hunused : MachineState.Unused unusedConnection := ⟨rfl, ⟨rfl, rfl⟩, rfl⟩
  have haccepted : Reachable (@MachineState.step zeroMalloc plainSettings) MachineState.Allows
      MachineState.Unused { unusedConnection with
        con := { unusedConnection.con with state := .requestStart }, log := [.accepted] } :=
    .step (a := .accept) (.start hunused) rfl rfl
  exact ⟨s, haccepted.step (a := .machine (List.replicate 8 plainAnswer)) trivial hrun, hlog⟩

theorem machineLoop_rounds_plain : ∃ (s : MachineState) (out : List LifeEvent),
    s.con.state.resting = true ∧
      8 ≤ 10 + 8 * out.count .requestStart + out.count .comeback := by
  have hrun : (@machineLoop zeroMalloc plainSettings
      { unusedConnection with con := { unusedConnection.con with state := .requestStart } }
      (List.replicate 8 plainAnswer)).map (·.2) = some true := by decide +kernel
  obtain ⟨⟨s, ended⟩, hloop, rfl⟩ := Option.map_eq_some_iff.mp hrun
  obtain ⟨hrest, out, -, hlength⟩ := @machineLoop_rounds zeroMalloc plainSettings _ s _ true hloop
  exact ⟨s, out, hrest rfl, hlength⟩

end Run

end Lighttpd
