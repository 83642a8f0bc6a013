import Lighttpd.HttpChunk
import Lighttpd.Connections.ReadState
import Lighttpd.Connections.WritePrepare

/-!
# `mod_cgi.c`: the output of a program

What is read of the output is collected until the end of a header, or a line that belongs to none, is
found in it. All beginnings of the output that are long enough have the same end (`cgiHeaderEnd_append`),
so from there on the response is the same for all sizes of the reads, and for both ways to learn of
the end of the output. If the output has no such end, it is queued when the end is reported as `HUP`,
and dropped when it is read (`cgiDelivered_iff`).

What the system answers to `read` and `waitpid` is part of the events. Left out are the jobs that the
connection gets in between, in which what is queued is sent and `mod_cgi_handle_subrequest` may see
that the program was killed, and the list of the processes that are to be removed.
-/

namespace Lighttpd

open CLib

/-! ## The model -/

/-- `handler_ctx` -/
structure CgiHandlerCtx where
  pid : Nat
  fd : Int
  response : Buffer
  responseHeader : Buffer
  deriving DecidableEq, Repr

/-- `connection`, with `parse_response` of the plugin and its number. -/
structure CgiConnection extends BackendConnection where
  state : ConnectionState
  parseResponse : Buffer
  pluginId : Nat
  deriving DecidableEq, Repr

/-- What ends the calls of `read`: `EAGAIN` or `EINTR`, another error, or the end of the file. -/
inductive CgiReadEnd where
  | wait
  | failed
  | closed
  deriving DecidableEq, Repr

inductive FdeventHandled where
  | notFinished
  | finished
  | error
  deriving DecidableEq, Repr

/-- `waitpid`: the process is still running, or it is gone; or `EINTR`, `ECHILD`, another error. -/
inductive CgiWaitAnswer where
  | running
  | gone
  | interrupted
  | noChild
  | failed
  deriving DecidableEq, Repr

/-- `revents`, with the data that `read` returns if it is called, and what it returns at last. -/
structure CgiEvent where
  isIn : Bool
  isHup : Bool
  isErr : Bool
  data : List Bytes
  ending : CgiReadEnd
  deriving DecidableEq, Repr

section Model

variable [Malloc]

/-! ### The header -/

/-- The flag of a field that the server looks for, and what it does with its value. -/
def cgiKnownField (con : CgiConnection) (key value : Bytes) : CgiConnection :=
  let is (name : String) : Bool := key.length = name.length && strncaseeq key.length key (ascii name)
  if is "Date" then { con with parsedResponse := con.parsedResponse ||| HTTP_DATE }
  else if is "Status" then
    { con with
      httpStatus := (strtol value).1
      parsedResponse := con.parsedResponse ||| HTTP_STATUS }
  else if is "Location" then { con with parsedResponse := con.parsedResponse ||| HTTP_LOCATION }
  else if is "Connection" then
    { con with
      response := { con.response with
        keepAlive := strncaseeq 11 (value ++ [0]) (ascii "Keep-Alive" ++ [0]) }
      parsedResponse := con.parsedResponse ||| HTTP_CONNECTION }
  else if is "Content-Length" then
    { con with
      responseLength := (strtol value).1
      parsedResponse := con.parsedResponse ||| HTTP_CONTENT_LENGTH }
  else con

/-- A line of the header; `line` counts from 0. -/
def cgiResponseLine (con : CgiConnection) (line : Nat) (s : Bytes) : Option CgiConnection :=
  if line = 0 ∧ s.take 7 = ascii "HTTP/1." then
    if (s[7]? = some 49 ∨ s[7]? = some 48) ∧ s[8]? = some 32 then
      let status := (strtol (s.drop 9)).1
      if 100 ≤ status ∧ status < 1000 then
        some { con with
          parsedResponse := con.parsedResponse ||| HTTP_STATUS
          httpStatus := status }
      else some con
    else some con
  else
    match strchr s 58 with
    | none => some con
    | some keyLen => do
      let key := s.take keyLen
      let value := (s.drop (keyLen + 1)).dropWhile fun c => c == 32 || c == 9
      let (ds, headers) := arrayGetUnusedElement con.response.headers .string
      let ds := ds.getD (dataResponseInit 0)
      let headers ← arrayInsertUnique headers { ds with
        key := bufferCopyStringLen ds.key (some key), value := bufferCopyString ds.value (some value) }
      some (cgiKnownField { con with response := { con.response with headers := headers } } key value)

/-- The loop over the lines of the text at `s`. -/
def cgiResponseLines : Nat → Nat → Bytes → CgiConnection → Option CgiConnection
  | 0, _, _, con => some con
  | fuel + 1, line, s, con =>
    match strchr s 10 with
    | none => some con
    | some n => do
      let text := s.take n
      let con ← cgiResponseLine con line (if text.getLast? = some 13 then text.dropLast else text)
      cgiResponseLines fuel (line + 1) (s.drop (n + 1)) con

def cgiResponseParse (con : CgiConnection) (input : Buffer) : Option CgiConnection := do
  let con := { con with parseResponse := bufferCopyStringBuffer con.parseResponse input }
  let s := con.parseResponse.str
  let con ← cgiResponseLines (s.length + 1) 0 s con
  if con.parsedResponse &&& HTTP_LOCATION ≠ 0 ∧ con.parsedResponse &&& HTTP_STATUS = 0 then
    some { con with httpStatus := 302 }
  else some con

/-! ### Reading -/

/-- The loop over the collected output `s`, of which `rest` is left, from `i` on: if it ends with
`is_header_end`, `is_header` and the index behind it. -/
def cgiHeaderScan (s : Bytes) : Bytes → Nat → Bool → Nat → Option (Bool × Nat)
  | [], _, _, _ => none
  | c :: rest, i, isHeader, lastEol =>
    if c = 58 then cgiHeaderScan s rest (i + 1) true lastEol
    else if c = 10 then
      if isHeader = false then some (false, i + 1)
      else if lastEol > 0 ∧ (i - lastEol = 1 ∨ i - lastEol = 2 ∧ s[i - 1]? = some 13) then
        some (true, i + 1)
      else cgiHeaderScan s rest (i + 1) isHeader i
    else cgiHeaderScan s rest (i + 1) isHeader lastEol

def cgiHeaderEnd (s : Bytes) : Option (Bool × Nat) :=
  cgiHeaderScan s s 0 (decide (s.take 7 = ascii "HTTP/1.")) 0

def CgiConnection.httpChunk (con : CgiConnection) : HttpChunk :=
  ⟨con.writeQueue, con.transferEncoding, con.tmpChunkLen⟩

def CgiConnection.withBody (con : CgiConnection) (q : HttpChunk) : CgiConnection :=
  { con with writeQueue := q.writeQueue, tmpChunkLen := q.tmpChunkLen }

/-- `http_chunk_append_mem` -/
def CgiConnection.appendMem (con : CgiConnection) (mem : Bytes) : CgiConnection :=
  con.withBody (httpChunkAppendMem con.httpChunk mem)

def CgiConnection.chunkedBody (con : CgiConnection) : CgiConnection :=
  if con.request.httpVersion = .v11 then
    { con with transferEncoding := HTTP_TRANSFER_ENCODING_CHUNKED }
  else con

/-- What `read` returned, with its terminator, is split into the header and the body. -/
def cgiReadData (s : CgiConnection × CgiHandlerCtx) (data : Bytes) :
    Option (CgiConnection × CgiHandlerCtx) :=
  let (con, hctx) := s
  let response := bufferPrepareCopy hctx.response 1024
  let response :=
    { response with ptr := memcpy response.ptr 0 (data ++ [0]), used := data.length + 1 }
  if con.fileStarted = false then
    let header := bufferAppendStringBuffer hctx.responseHeader response
    let hctx := { hctx with response := response, responseHeader := header }
    match cgiHeaderEnd (header.ptr.take (header.used - 1)) with
    | none => some (con, hctx)
    | some (false, _) =>
      let con := con.chunkedBody.appendMem (header.ptr.take header.used)
      some ({ con with fileStarted := true }, hctx)
    | some (true, i) => do
      let i := i - 1
      let blen := header.used - 1 - (i + 1)
      let body := (header.ptr.drop (i + 1)).take (blen + 1)
      let i := if i > 0 ∧ header.ptr[i - 1]? = some 13 then i - 1 else i
      let header := { header with ptr := header.ptr.set i 0, used := i + 1 }
      let con ← cgiResponseParse con header
      let con := if con.parsedResponse &&& HTTP_CONTENT_LENGTH = 0 then con.chunkedBody else con
      let con := if blen > 0 then con.appendMem body else con
      some ({ con with fileStarted := true }, { hctx with responseHeader := header })
  else some (con.appendMem (response.ptr.take response.used), { hctx with response := response })

def cgiDemuxResponse (con : CgiConnection) (hctx : CgiHandlerCtx) (data : List Bytes)
    (ending : CgiReadEnd) : Option (CgiConnection × CgiHandlerCtx × FdeventHandled) := do
  let (con, hctx) ← data.foldlM cgiReadData (con, hctx)
  match ending with
  | .wait => some (con, hctx, .notFinished)
  | .failed => some (con, hctx, .error)
  | .closed => some ({ con with fileFinished := true }.appendMem [], hctx, .finished)

/-! ### Events -/

def CgiConnection.broken (con : CgiConnection) : CgiConnection :=
  if con.fileStarted = false then
    { con with state := .handleRequest, httpStatus := 500, mode := DIRECT }
  else { con with fileFinished := true }

/-- The `handler_ctx` is there afterwards only for a connection of another plugin. -/
def cgiConnectionClose (con : CgiConnection) (hctx : CgiHandlerCtx) (status : CgiWaitAnswer) :
    CgiConnection × Option CgiHandlerCtx :=
  if con.mode ≠ con.pluginId then (con, some hctx)
  else if hctx.pid ≠ 0 ∧ status = .gone then (con.broken, none)
  else (con, none)

/-- The rest of `cgi_handle_fdevent`, behind `FDEVENT_IN`. -/
def cgiHandleHup (con : CgiConnection) (hctx : CgiHandlerCtx) (ev : CgiEvent)
    (status : CgiWaitAnswer) : CgiConnection × Option CgiHandlerCtx :=
  if ev.isHup then
    let con :=
      if con.fileStarted = false ∧ hctx.responseHeader.used ≠ 0 then
        { con with fileStarted := true }.appendMem
          (hctx.responseHeader.ptr.take hctx.responseHeader.used)
      else con
    let con := if con.fileFinished = false then con.appendMem [] else con
    let con := { con with fileFinished := true }
    let con := if con.writeQueue.first.isEmpty then { con with state := .responseEnd } else con
    cgiConnectionClose con hctx status
  else if ev.isErr then cgiConnectionClose { con with fileFinished := true } hctx status
  else (con, some hctx)

def cgiHandleFdevent (status : CgiWaitAnswer) (s : CgiConnection × Option CgiHandlerCtx)
    (ev : CgiEvent) : Option (CgiConnection × Option CgiHandlerCtx) :=
  match s with
  | (con, none) => some (con, none)
  | (con, some hctx) =>
    if hctx.fd = -1 then some (con, some hctx)
    else if ev.isIn then do
      let (con, hctx, handled) ← cgiDemuxResponse con hctx ev.data ev.ending
      match handled with
      | .finished => some (cgiConnectionClose con hctx status)
      | .error => some (cgiHandleHup con.broken hctx ev status)
      | .notFinished => some (cgiHandleHup con hctx ev status)
    else some (cgiHandleHup con hctx ev status)

def cgiRun (status : CgiWaitAnswer) (con : CgiConnection) (hctx : CgiHandlerCtx)
    (evs : List CgiEvent) : Option (CgiConnection × Option CgiHandlerCtx) :=
  evs.foldlM (cgiHandleFdevent status) (con, some hctx)

end Model

section HeaderEnd

variable {s rest t p : Bytes} {i j lastEol : Nat} {isHeader found : Bool}

theorem cgiHeaderScan_bounds (hp : p.length = i) (hs : s = p ++ rest)
    (h : cgiHeaderScan s rest i isHeader lastEol = some (found, j)) :
    i < j ∧ j ≤ s.length ∧ s[j - 1]? = some 10 := by
  induction rest generalizing p i isHeader lastEol with
  | nil => nomatch h
  | cons c rest ih =>
    have hnext : ∀ {b l}, cgiHeaderScan s rest (i + 1) b l = some (found, j) →
        i < j ∧ j ≤ s.length ∧ s[j - 1]? = some 10 := by
      intro b l hrest
      obtain ⟨hlt, hle⟩ := ih (p := p ++ [c]) (by simp [hp]) (by simp [hs]) hrest
      exact ⟨by omega, hle⟩
    have hhere : c = 10 → i < i + 1 ∧ i + 1 ≤ s.length ∧ s[i + 1 - 1]? = some 10 := by
      rintro rfl
      subst hp hs
      simp
    unfold cgiHeaderScan at h
    split at h
    · exact hnext h
    · split at h
      · next hc =>
        split at h
        · obtain ⟨rfl, rfl⟩ := Option.some.inj h
          exact hhere hc
        · split at h
          · obtain ⟨rfl, rfl⟩ := Option.some.inj h
            exact hhere hc
          · exact hnext h
      · exact hnext h

theorem cgiHeaderScan_append (hp : p.length = i) (hs : s = p ++ rest) :
    cgiHeaderScan (s ++ t) (rest ++ t) i isHeader lastEol = some (found, j) ∧ j ≤ s.length ↔
      cgiHeaderScan s rest i isHeader lastEol = some (found, j) := by
  induction rest generalizing p i isHeader lastEol with
  | nil =>
    constructor
    · rintro ⟨hscan, hle⟩
      have hbounds := cgiHeaderScan_bounds (p := p) hp (by simp [hs]) hscan
      have hlen : s.length = i := by simp [hs, hp]
      omega
    · intro hscan
      nomatch hscan
  | cons c rest ih =>
    have hlen : i < s.length := by
      subst hp hs
      simp
    have hback : (s ++ t)[i - 1]? = s[i - 1]? := List.getElem?_append_left (by omega)
    have hnext : ∀ {b l}, cgiHeaderScan (s ++ t) (rest ++ t) (i + 1) b l = some (found, j) ∧
        j ≤ s.length ↔ cgiHeaderScan s rest (i + 1) b l = some (found, j) :=
      ih (p := p ++ [c]) (by simp [hp]) (by simp [hs])
    have hhere : ∀ b : Bool, some (b, i + 1) = some (found, j) ∧ j ≤ s.length ↔
        some (b, i + 1) = some (found, j) := by
      intro b
      refine ⟨fun hj => hj.1, fun hj => ⟨hj, ?_⟩⟩
      obtain ⟨-, rfl⟩ := Prod.mk.inj (Option.some.inj hj)
      exact hlen
    rw [List.cons_append]
    unfold cgiHeaderScan
    rw [hback]
    split
    · exact hnext
    · split
      · split
        · exact hhere false
        · split
          · exact hhere true
          · exact hnext
      · exact hnext

/-- **All beginnings of an output that are long enough have its end of the header.** -/
theorem cgiHeaderEnd_append :
    cgiHeaderEnd (s ++ t) = some (found, j) ∧ j ≤ s.length ↔ cgiHeaderEnd s = some (found, j) := by
  unfold cgiHeaderEnd
  by_cases hlen : 7 ≤ s.length
  · rw [List.take_append_of_le_length hlen]
    exact cgiHeaderScan_append (p := []) rfl rfl
  · -- no line ends in a beginning of `HTTP/1.`
    have hshort : decide (s.take 7 = ascii "HTTP/1.") = false := by
      rw [decide_eq_false_iff_not]
      intro heq
      have := congrArg List.length heq
      rw [List.length_take] at this
      have h7 : (ascii "HTTP/1.").length = 7 := rfl
      omega
    by_cases hline : (s ++ t).take 7 = ascii "HTTP/1."
    · have hno : ∀ n < 7, (s ++ t)[n]? ≠ some 10 := by
        intro n hn heq
        rw [← List.getElem?_take_of_lt hn, hline] at heq
        have hnone : ∀ n < 7, (ascii "HTTP/1.")[n]? ≠ some 10 := by decide
        exact hnone n hn heq
      constructor
      · rintro ⟨hscan, hle⟩
        obtain ⟨-, -, hlf⟩ := cgiHeaderScan_bounds (s := s ++ t) (p := []) rfl rfl hscan
        exact absurd hlf (hno (j - 1) (by omega))
      · intro hscan
        obtain ⟨hpos, hle, hlf⟩ := cgiHeaderScan_bounds (s := s) (p := []) rfl rfl hscan
        have hlf' : (s ++ t)[j - 1]? = some 10 := by
          rw [List.getElem?_append_left (by omega)]
          exact hlf
        exact absurd hlf' (hno (j - 1) (by omega))
    · rw [decide_eq_false hline, hshort]
      exact cgiHeaderScan_append (p := []) rfl rfl

theorem cgiHeaderEnd_le (hend : cgiHeaderEnd s = some (found, j)) : 0 < j ∧ j ≤ s.length :=
  have hbounds := cgiHeaderScan_bounds (s := s) (p := []) rfl rfl hend
  ⟨hbounds.1, hbounds.2.1⟩

end HeaderEnd

section Answer

/-- What the client gets of a connection: its header comes from these fields. -/
structure CgiAnswer where
  httpStatus : Int
  mode : Nat
  state : ConnectionState
  headers : Arr DataString
  parsedResponse : Nat
  keepAlive : Bool
  responseLength : Int
  transferEncoding : Nat
  fileStarted : Bool
  body : Bytes
  deriving DecidableEq, Repr

def CgiConnection.answer (con : CgiConnection) (body : Bytes) : CgiAnswer where
  httpStatus := con.httpStatus
  mode := con.mode
  state := con.state
  headers := con.response.headers
  parsedResponse := con.parsedResponse
  keepAlive := con.response.keepAlive
  responseLength := con.responseLength
  transferEncoding := con.transferEncoding
  fileStarted := con.fileStarted
  body := body

/-- The response is complete, and this is what is sent; none if the server crashes. -/
def CgiSends (fs : Files) :
    Option (CgiConnection × Option CgiHandlerCtx) → Option CgiAnswer → Prop
  | some (con, _), some A => con.fileFinished = true ∧
      ∃ body, A = con.answer body ∧ BodyIs fs con.httpChunk body
  | none, none => True
  | _, _ => False

/-- What `read` returns is not empty, and fits in the buffer with its terminator. -/
def CgiEvent.Reads (ev : CgiEvent) : Prop := ∀ s ∈ ev.data, s ≠ [] ∧ s.length < pieces 1024

def CgiEvent.Waits (ev : CgiEvent) : Prop := if ev.isIn then ev.ending = .wait else ev.data = []

/-- The output reaches the server with these events: in reads of any size, with a last event that
tells its end, by a `read` or by `HUP`. -/
structure DeliversOutput (out : Bytes) (evs : List CgiEvent) : Prop where
  reads : ∀ ev ∈ evs, ev.Reads
  output : (evs.flatMap (·.data)).flatten = out
  last : ∃ pre ev, evs = pre ++ [ev] ∧
    (∀ e ∈ pre, e.isHup = false ∧ e.isErr = false ∧ e.Waits) ∧
    (ev.isIn = true ∧ ev.ending = .closed ∨ ev.isHup = true ∧ ev.Waits)

def CompleteHeader (out : Bytes) : Prop := ∃ i, cgiHeaderEnd out = some (true, i)

/-- **The output is delivered**: what is sent is the same for all ways in which it reaches the
server, and without a complete header it is sent as the body. -/
def CgiDelivered [Malloc] (fs : Files) (con : CgiConnection) (hctx : CgiHandlerCtx) (out : Bytes) :
    Prop :=
  ∀ status, ∃ A, (∀ evs, DeliversOutput out evs → CgiSends fs (cgiRun status con hctx evs) A) ∧
    (¬ CompleteHeader out → ∃ B, A = some B ∧ B.body = out)

/-- The program was started, and nothing of its output was read. -/
structure CgiFresh (con : CgiConnection) (hctx : CgiHandlerCtx) : Prop where
  mode : con.mode = con.pluginId
  started : con.fileStarted = false
  finished : con.fileFinished = false
  queue : con.writeQueue.first = []
  encoding : con.transferEncoding = 0
  fd : hctx.fd ≠ -1
  header : hctx.responseHeader.used = 0

/-- The header fits in a buffer of the platform, together with what is read after it. -/
def HeaderFits (out : Bytes) : Prop :=
  ∀ found i, cgiHeaderEnd out = some (found, i) → i + pieces 1024 ≤ 2 ^ 32

end Answer

section Response

variable [Malloc]

/-- The header in front of the index behind its end, without its last line end. -/
def cgiHeaderText (s : Bytes) (i : Nat) : Bytes :=
  s.take (if i - 1 > 0 ∧ s[i - 1 - 1]? = some 13 then i - 1 - 1 else i - 1)

def cgiBody (s : Bytes) : Bool × Nat → Bytes
  | (false, _) => s
  | (true, i) => s.drop i

def startResponse (con : CgiConnection) (s : Bytes) : Bool × Nat → Option CgiConnection
  | (false, _) => some { con.chunkedBody with fileStarted := true }
  | (true, i) => do
    let con ← cgiResponseParse con (bufferCopyStringLen bufferInit (some (cgiHeaderText s i)))
    let con := if con.parsedResponse &&& HTTP_CONTENT_LENGTH = 0 then con.chunkedBody else con
    some { con with fileStarted := true }

theorem cgiResponseParse_text {con : CgiConnection} {b b' : Buffer} {t : Bytes} (h : b.Text t)
    (h' : b'.Text t) : cgiResponseParse con b = cgiResponseParse con b' := by
  have hcopy : ∀ {b : Buffer}, b.Text t → bufferCopyStringBuffer con.parseResponse b =
      bufferCopyStringLen con.parseResponse (some t) := by
    intro b hb
    unfold bufferCopyStringBuffer
    rw [if_neg (by rw [hb.used]; omega), take_of_holds hb.holds hb.used]
  unfold cgiResponseParse
  rw [hcopy h, hcopy h']

structure CgiFrame (con c : CgiConnection) : Prop where
  mode : c.mode = con.mode
  pluginId : c.pluginId = con.pluginId
  finished : c.fileFinished = con.fileFinished
  queue : c.writeQueue = con.writeQueue

omit [Malloc] in
theorem CgiFrame.refl (con : CgiConnection) : CgiFrame con con := ⟨rfl, rfl, rfl, rfl⟩

omit [Malloc] in
theorem CgiFrame.trans {a b c : CgiConnection} (h : CgiFrame a b) (h' : CgiFrame b c) :
    CgiFrame a c :=
  ⟨h'.mode.trans h.mode, h'.pluginId.trans h.pluginId, h'.finished.trans h.finished,
    h'.queue.trans h.queue⟩

omit [Malloc] in
theorem cgiKnownField_frame (con : CgiConnection) (key value : Bytes) :
    CgiFrame con (cgiKnownField con key value) := by
  unfold cgiKnownField
  dsimp only
  split_ifs <;> exact ⟨rfl, rfl, rfl, rfl⟩

theorem cgiResponseLine_frame {con c : CgiConnection} {line : Nat} {s : Bytes}
    (h : cgiResponseLine con line s = some c) : CgiFrame con c := by
  unfold cgiResponseLine at h
  split at h
  · dsimp only at h
    split_ifs at h <;> obtain rfl := Option.some.inj h <;> exact ⟨rfl, rfl, rfl, rfl⟩
  · split at h
    · obtain rfl := Option.some.inj h
      exact .refl con
    · obtain ⟨headers, -, hc⟩ := Option.bind_eq_some_iff.mp h
      obtain rfl := Option.some.inj hc
      refine CgiFrame.trans ?_ (cgiKnownField_frame _ _ _)
      exact ⟨rfl, rfl, rfl, rfl⟩

theorem cgiResponseLines_frame : ∀ {fuel line : Nat} {s : Bytes} {con c : CgiConnection},
    cgiResponseLines fuel line s con = some c → CgiFrame con c
  | 0, _, _, con, c, h => by
    obtain rfl := Option.some.inj h
    exact .refl con
  | fuel + 1, line, s, con, c, h => by
    unfold cgiResponseLines at h
    split at h
    · obtain rfl := Option.some.inj h
      exact .refl con
    · obtain ⟨con', hline, hrest⟩ := Option.bind_eq_some_iff.mp h
      exact (cgiResponseLine_frame hline).trans (cgiResponseLines_frame hrest)

theorem cgiResponseParse_frame {con c : CgiConnection} {b : Buffer}
    (h : cgiResponseParse con b = some c) : CgiFrame con c := by
  unfold cgiResponseParse at h
  obtain ⟨con', hlines, hc⟩ := Option.bind_eq_some_iff.mp h
  have hframe : CgiFrame con con' := by
    refine CgiFrame.trans ?_ (cgiResponseLines_frame hlines)
    exact ⟨rfl, rfl, rfl, rfl⟩
  split_ifs at hc <;> obtain rfl := Option.some.inj hc
  · exact hframe.trans ⟨rfl, rfl, rfl, rfl⟩
  · exact hframe

omit [Malloc] in
theorem chunkedBody_frame (con : CgiConnection) : CgiFrame con con.chunkedBody := by
  unfold CgiConnection.chunkedBody
  split_ifs <;> exact ⟨rfl, rfl, rfl, rfl⟩

theorem startResponse_frame {con c : CgiConnection} {s : Bytes} {d : Bool × Nat}
    (h : startResponse con s d = some c) : CgiFrame con c ∧ c.fileStarted = true := by
  obtain ⟨found, i⟩ := d
  cases found with
  | false =>
    obtain rfl := Option.some.inj h
    exact ⟨(chunkedBody_frame con).trans ⟨rfl, rfl, rfl, rfl⟩, rfl⟩
  | true =>
    obtain ⟨con', hparse, hc⟩ := Option.bind_eq_some_iff.mp h
    obtain rfl := Option.some.inj hc
    have hframe := cgiResponseParse_frame hparse
    refine ⟨hframe.trans ?_, rfl⟩
    split_ifs
    · exact (chunkedBody_frame con').trans ⟨rfl, rfl, rfl, rfl⟩
    · exact ⟨rfl, rfl, rfl, rfl⟩

theorem startResponse_append (con : CgiConnection) {s : Bytes} {d : Bool × Nat}
    (h : cgiHeaderEnd s = some d) (t : Bytes) :
    startResponse con (s ++ t) d = startResponse con s d ∧ cgiBody (s ++ t) d = cgiBody s d ++ t := by
  obtain ⟨found, i⟩ := d
  obtain ⟨hpos, hle⟩ := cgiHeaderEnd_le h
  cases found with
  | false => exact ⟨rfl, rfl⟩
  | true =>
    have htext : cgiHeaderText (s ++ t) i = cgiHeaderText s i := by
      unfold cgiHeaderText
      rw [List.getElem?_append_left (by omega), List.take_append_of_le_length]
      split_ifs <;> omega
    refine ⟨?_, List.drop_append_of_le_length hle⟩
    simp only [startResponse, htext]

end Response

section Read

variable [Malloc] {fs : Files} {con : CgiConnection} {hctx : CgiHandlerCtx} {seen data out : Bytes}
  {s : CgiConnection × CgiHandlerCtx} {status : CgiWaitAnswer}

/-- The part of the output that was read is in the buffer, or on its way to the client. -/
structure CgiProgress (fs : Files) (con : CgiConnection) (hctx : CgiHandlerCtx) (seen : Bytes)
    (s : CgiConnection × CgiHandlerCtx) : Prop where
  fd : s.2.fd = hctx.fd
  unread : seen = [] → s = (con, hctx)
  collected : cgiHeaderEnd seen = none → s.1 = con ∧ s.2.responseHeader.Shows seen
  started : ∀ d, cgiHeaderEnd seen = some d → ∃ c, startResponse con seen d = some c ∧
    s.1 = c.withBody s.1.httpChunk ∧ BodySoFar fs s.1.httpChunk (cgiBody seen d)

/-- The output that was read made the server crash, or there is progress. -/
def CgiOutcome (fs : Files) (con : CgiConnection) (hctx : CgiHandlerCtx) (seen : Bytes) :
    Option (CgiConnection × CgiHandlerCtx) → Prop
  | none => ∃ d, cgiHeaderEnd seen = some d ∧ startResponse con seen d = none
  | some s => CgiProgress fs con hctx seen s

theorem CgiOutcome.crashed (h : CgiOutcome fs con hctx seen none) (t : Bytes) :
    CgiOutcome fs con hctx (seen ++ t) none := by
  obtain ⟨⟨found, i⟩, hend, hcrash⟩ := h
  exact ⟨(found, i), (cgiHeaderEnd_append.mpr hend).1, (startResponse_append con hend t).1.trans hcrash⟩

omit [Malloc] in
theorem text_read (p data : Bytes) (gen : Nat) :
    Buffer.Text ⟨memcpy p 0 (data ++ [0]), data.length + 1, gen⟩ data := by
  have htake := @take_memcpy p (data ++ [0]) 0 (Nat.zero_le _)
  refine ⟨?_, rfl⟩
  simpa [Buffer.Holds, Buffer.bytes] using htake

theorem text_collected {b r : Buffer} (h : b.Shows seen) (hr : r.Text data) (hne : data ≠ []) :
    (bufferAppendStringBuffer b r).Text (seen ++ data) := by
  rcases h with h | ⟨hused, rfl⟩
  · exact text_bufferAppendStringBuffer h hr
  · unfold bufferAppendStringBuffer
    rw [if_neg (by rw [hr.used]; omega), take_of_holds hr.holds hr.used]
    exact text_bufferAppendStringLen_unused hused hne

omit [Malloc] in
theorem text_header {b : Buffer} {s : Bytes} {i : Nat} (h : b.Text s)
    (hend : cgiHeaderEnd s = some (true, i)) :
    let j := if i - 1 > 0 ∧ b.ptr[i - 1 - 1]? = some 13 then i - 1 - 1 else i - 1
    Buffer.Text { b with ptr := b.ptr.set j 0, used := j + 1 } (cgiHeaderText s i) ∧
      (b.ptr.drop (i - 1 + 1)).take (b.used - 1 - (i - 1 + 1) + 1) = s.drop i ++ [0] ∧
      b.used - 1 - (i - 1 + 1) = (s.drop i).length := by
  obtain ⟨hpos, hle⟩ := cgiHeaderEnd_le hend
  have hbytes : b.ptr.take b.used = s ++ [0] := h.holds
  have hused := h.used
  have hwf : b.used ≤ b.ptr.length := h.wf
  intro j
  have hback : b.ptr[i - 1 - 1]? = s[i - 1 - 1]? := by
    rw [← List.getElem?_take_of_lt (show i - 1 - 1 < b.used by omega), hbytes,
      List.getElem?_append_left (by omega)]
  have hj : j ≤ i - 1 := by
    simp only [j]
    split_ifs
    · exact Nat.sub_le _ _
    · exact Nat.le_refl _
  have htake : b.ptr.take j = cgiHeaderText s i := by
    have htext : cgiHeaderText s i = s.take j := by
      unfold cgiHeaderText
      rw [← hback]
    have hcut : (s ++ [0]).take j = s.take j := List.take_append_of_le_length (by omega)
    rw [htext, ← hcut, ← hbytes, List.take_take, Nat.min_eq_left (by omega)]
  refine ⟨⟨?_, ?_⟩, ?_, ?_⟩
  · show (b.ptr.set j 0).take (j + 1) = _
    rw [List.take_set, List.take_add_one, List.getElem?_eq_getElem (by omega), htake]
    have hlen : (cgiHeaderText s i).length = j := by
      rw [← htake, List.length_take]
      omega
    rw [List.set_append_right _ _ (by omega), hlen, Nat.sub_self]
    rfl
  · show j + 1 = _
    rw [← htake, List.length_take]
    omega
  · have hlen : b.used - 1 - (i - 1 + 1) + 1 = b.used - i := by omega
    rw [hlen, show i - 1 + 1 = i by omega, ← List.drop_take, hbytes,
      List.drop_append_of_le_length hle]
  · rw [List.length_drop]
    omega

theorem withBody_appendMem (c : CgiConnection) (q : HttpChunk) (mem : Bytes)
    (h : q.transferEncoding = c.transferEncoding) :
    (c.withBody q).appendMem mem = c.withBody (httpChunkAppendMem q mem) := by
  obtain ⟨queue, encoding, tmp⟩ := q
  obtain rfl : encoding = c.transferEncoding := h
  rfl

omit [Malloc] in
theorem httpChunk_withBody {c : CgiConnection} {q : HttpChunk}
    (h : q.transferEncoding = c.transferEncoding) : (c.withBody q).httpChunk = q := by
  obtain ⟨queue, encoding, tmp⟩ := q
  obtain rfl : encoding = c.transferEncoding := h
  rfl

theorem CgiProgress.of_started {c : CgiConnection} {q : HttpChunk} {h : CgiHandlerCtx}
    {d : Bool × Nat} (hfd : h.fd = hctx.fd) (hend : cgiHeaderEnd seen = some d)
    (hstart : startResponse con seen d = some c) (hq : q.transferEncoding = c.transferEncoding)
    (hbody : BodySoFar fs q (cgiBody seen d)) :
    CgiProgress fs con hctx seen (c.withBody q, h) where
  fd := hfd
  unread hnil := by
    rw [hnil] at hend
    nomatch hend
  collected hnone := nomatch hend.symm.trans hnone
  started d' hd' := by
    obtain rfl := Option.some.inj (hend.symm.trans hd')
    refine ⟨c, hstart, ?_, ?_⟩
    · dsimp only
      rw [httpChunk_withBody hq]
    · dsimp only
      rw [httpChunk_withBody hq]
      exact hbody

omit [Malloc] in
theorem CgiFresh.noBody (fs : Files) (h : CgiFresh con hctx) {c : CgiConnection} (hframe : CgiFrame con c) :
    BodySoFar fs c.httpChunk [] := by
  refine bodySoFar_nil ?_
  have hqueue : c.httpChunk.writeQueue = con.writeQueue := hframe.queue
  simp [hqueue, Chunkqueue.content, h.queue]

theorem cgiReadData_started {d : Bool × Nat} (h : CgiProgress fs con hctx seen s)
    (hend : cgiHeaderEnd seen = some d) (hne : data ≠ []) (hlt : data.length < pieces 1024) :
    CgiOutcome fs con hctx (seen ++ data) (cgiReadData s data) := by
  obtain ⟨c, hstart, hcon, hbody⟩ := h.started d hend
  obtain ⟨con₁, h₁⟩ := s
  dsimp only at hcon hbody
  have hstarted : con₁.fileStarted = true := by
    rw [hcon]
    exact (startResponse_frame hstart).2
  have hencoding : con₁.httpChunk.transferEncoding = c.transferEncoding := by
    have hfield := congrArg CgiConnection.httpChunk hcon
    rw [hfield]
    rfl
  have hread : cgiReadData (con₁, h₁) data = some (con₁.appendMem (data ++ [0]),
      { h₁ with response := ⟨memcpy (bufferPrepareCopy h₁.response 1024).ptr 0 (data ++ [0]),
        data.length + 1, (bufferPrepareCopy h₁.response 1024).gen⟩ }) := by
    have htext := text_read (bufferPrepareCopy h₁.response 1024).ptr data
      (bufferPrepareCopy h₁.response 1024).gen
    have hbytes : (memcpy (bufferPrepareCopy h₁.response 1024).ptr 0 (data ++ [0])).take
        (data.length + 1) = data ++ [0] := htext.holds
    simp only [cgiReadData, hstarted, Bool.true_eq_false, if_false, hbytes]
  rw [hread, hcon, withBody_appendMem c con₁.httpChunk _ hencoding]
  obtain ⟨happend, hbody'⟩ := startResponse_append con hend data
  have hend' := (cgiHeaderEnd_append (t := data)).mpr hend
  refine CgiProgress.of_started h.fd hend'.1 (happend.trans hstart) ?_ ?_
  · rw [httpChunkAppendMem_transferEncoding]
    exact hencoding
  · rw [hbody']
    refine hbody.append (List.length_pos_of_ne_nil hne) (Nat.lt_trans hlt (by decide))

theorem cgiReadData_collecting (hfresh : CgiFresh con hctx) (h : CgiProgress fs con hctx seen s)
    (hend : cgiHeaderEnd seen = none) (hne : data ≠ []) (hlt : data.length < pieces 1024)
    (hfits : HeaderFits (seen ++ data)) :
    CgiOutcome fs con hctx (seen ++ data) (cgiReadData s data) := by
  obtain ⟨hcon, hheader⟩ := h.collected hend
  obtain ⟨con₁, h₁⟩ := s
  obtain rfl : con₁ = con := hcon
  have hfd := h.fd
  have hresponse := text_read (bufferPrepareCopy h₁.response 1024).ptr data
    (bufferPrepareCopy h₁.response 1024).gen
  have htext := text_collected hheader hresponse hne
  simp only [cgiReadData, hfresh.started, if_true]
  generalize bufferAppendStringBuffer h₁.responseHeader _ = header at htext ⊢
  rw [take_of_holds htext.holds htext.used]
  have hbytes : header.ptr.take header.used = seen ++ data ++ [0] := htext.holds
  cases hend' : cgiHeaderEnd (seen ++ data) with
  | none =>
    exact ⟨hfd, fun hnil => absurd (List.append_eq_nil_iff.mp hnil).2 hne,
      fun _ => ⟨rfl, Or.inl htext⟩, fun d hd => nomatch hend'.symm.trans hd⟩
  | some d =>
    obtain ⟨found, i⟩ := d
    have hi : seen.length < i := by
      by_contra hle
      rw [cgiHeaderEnd_append.mp ⟨hend', Nat.le_of_not_lt hle⟩] at hend
      nomatch hend
    have hsmall : (seen ++ data).length < 2 ^ 32 := by
      have := hfits found i hend'
      rw [List.length_append]
      omega
    have hpos : 0 < (seen ++ data).length := by
      rw [List.length_append]
      exact Nat.add_pos_right _ (List.length_pos_of_ne_nil hne)
    cases found with
    | false =>
      dsimp only
      rw [hbytes]
      refine CgiProgress.of_started (c := { con₁.chunkedBody with fileStarted := true })
        (q := httpChunkAppendMem con₁.chunkedBody.httpChunk (seen ++ data ++ [0])) hfd hend' rfl
        (httpChunkAppendMem_transferEncoding _ _) ?_
      exact (hfresh.noBody fs (chunkedBody_frame con₁)).append hpos hsmall
    | true =>
      obtain ⟨hheader', hbody, hblen⟩ := text_header htext hend'
      dsimp only at hheader' ⊢
      rw [hbody, hblen, cgiResponseParse_text hheader'
        (text_bufferCopyStringLen bufferInit (cgiHeaderText (seen ++ data) i))]
      cases hparse : cgiResponseParse con₁
          (bufferCopyStringLen bufferInit (some (cgiHeaderText (seen ++ data) i))) with
      | none =>
        refine ⟨(true, i), hend', ?_⟩
        simp only [startResponse, hparse]
        rfl
      | some c =>
        simp only [Option.bind_eq_bind, Option.bind_some]
        have hstart : startResponse con₁ (seen ++ data) (true, i) =
            some { (if c.parsedResponse &&& HTTP_CONTENT_LENGTH = 0 then c.chunkedBody else c) with
              fileStarted := true } := by
          simp only [startResponse, hparse]
          rfl
        have hframe : CgiFrame con₁
            (if c.parsedResponse &&& HTTP_CONTENT_LENGTH = 0 then c.chunkedBody else c) := by
          have hc := cgiResponseParse_frame hparse
          split_ifs
          · exact hc.trans (chunkedBody_frame c)
          · exact hc
        generalize (if c.parsedResponse &&& HTTP_CONTENT_LENGTH = 0 then c.chunkedBody else c) = c'
          at hstart hframe ⊢
        have hnone := hfresh.noBody fs hframe
        by_cases hrest : ((seen ++ data).drop i).length > 0
        · rw [if_pos hrest]
          refine CgiProgress.of_started (c := { c' with fileStarted := true })
            (q := httpChunkAppendMem c'.httpChunk ((seen ++ data).drop i ++ [0])) hfd hend' hstart
            (httpChunkAppendMem_transferEncoding _ _) ?_
          refine hnone.append hrest ?_
          rw [List.length_drop]
          omega
        · rw [if_neg hrest]
          refine CgiProgress.of_started (c := { c' with fileStarted := true })
            (q := c'.httpChunk) hfd hend' hstart rfl ?_
          have hnil : (seen ++ data).drop i = [] := List.length_eq_zero_iff.mp (by omega)
          show BodySoFar fs c'.httpChunk ((seen ++ data).drop i)
          rw [hnil]
          exact hnone

/-- All that is read, by induction on the reads. -/
theorem cgiReads_outcome (hfresh : CgiFresh con hctx) (hfits : HeaderFits out) :
    ∀ {data : List Bytes} {seen : Bytes} {s : CgiConnection × CgiHandlerCtx},
      (∀ d ∈ data, d ≠ [] ∧ d.length < pieces 1024) → CgiProgress fs con hctx seen s →
      seen ++ data.flatten <+: out →
      CgiOutcome fs con hctx (seen ++ data.flatten) (data.foldlM cgiReadData s) := by
  intro data
  induction data with
  | nil =>
    intro seen s _ h _
    rw [List.flatten_nil, List.append_nil]
    exact h
  | cons d data ih =>
    intro seen s hdata h hout
    obtain ⟨hne, hlt⟩ := hdata d List.mem_cons_self
    have hpre : seen ++ d <+: out := by
      refine List.IsPrefix.trans ?_ hout
      rw [List.flatten_cons, ← List.append_assoc]
      exact List.prefix_append _ _
    have hfits' : HeaderFits (seen ++ d) := by
      obtain ⟨t, ht⟩ := hpre
      intro found i hend
      refine hfits found i ?_
      rw [← ht]
      exact (cgiHeaderEnd_append.mpr hend).1
    have hstep : CgiOutcome fs con hctx (seen ++ d) (cgiReadData s d) := by
      cases hend : cgiHeaderEnd seen with
      | none => exact cgiReadData_collecting hfresh h hend hne hlt hfits'
      | some e => exact cgiReadData_started h hend hne hlt
    rw [List.foldlM_cons, List.flatten_cons, ← List.append_assoc]
    cases hread : cgiReadData s d with
    | none =>
      rw [hread] at hstep
      exact hstep.crashed _
    | some s' =>
      rw [hread] at hstep
      refine ih (fun x hx => hdata x (List.mem_cons_of_mem _ hx)) hstep ?_
      rwa [List.append_assoc, ← List.flatten_cons]

end Read

section Events

variable [Malloc] {fs : Files} {con : CgiConnection} {hctx : CgiHandlerCtx} {seen out : Bytes}
  {s : CgiConnection × CgiHandlerCtx} {status : CgiWaitAnswer} {ev : CgiEvent}

/-- The end of the output: what is sent, and the end of the program. -/
def cgiFinish (status : CgiWaitAnswer) (s : CgiConnection × CgiHandlerCtx) :
    CgiConnection × Option CgiHandlerCtx :=
  cgiConnectionClose ({ s.1 with fileFinished := true }.appendMem []) s.2 status

omit [Malloc] in
theorem CgiEvent.Waits.data (h : ev.Waits) (hin : ev.isIn = false) : ev.data = [] := by
  unfold CgiEvent.Waits at h
  rwa [hin] at h

theorem cgiHandleFdevent_eq (hfd : s.2.fd ≠ -1) (h : ev.Waits) :
    cgiHandleFdevent status (s.1, some s.2) ev =
      (ev.data.foldlM cgiReadData s).map fun s => cgiHandleHup s.1 s.2 ev status := by
  unfold cgiHandleFdevent
  dsimp only
  rw [if_neg hfd]
  cases hin : ev.isIn with
  | false => simp [h.data hin]
  | true =>
    have hending : ev.ending = .wait := by
      unfold CgiEvent.Waits at h
      rwa [hin] at h
    simp only [if_true, cgiDemuxResponse, hending]
    cases ev.data.foldlM cgiReadData s <;> rfl

theorem cgiHandleFdevent_closed (hfd : s.2.fd ≠ -1) (hin : ev.isIn = true)
    (hending : ev.ending = .closed) : cgiHandleFdevent status (s.1, some s.2) ev =
      (ev.data.foldlM cgiReadData s).map (cgiFinish status) := by
  unfold cgiHandleFdevent
  dsimp only
  rw [if_neg hfd]
  simp only [hin, if_true, cgiDemuxResponse, hending]
  cases ev.data.foldlM cgiReadData s <;> rfl

/-- The events before the last one, by induction on them. -/
theorem cgiEvents_outcome (hfresh : CgiFresh con hctx) (hfits : HeaderFits out) :
    ∀ {evs : List CgiEvent} {seen : Bytes} {s : CgiConnection × CgiHandlerCtx},
      (∀ ev ∈ evs, ev.Reads ∧ ev.isHup = false ∧ ev.isErr = false ∧ ev.Waits) →
      CgiProgress fs con hctx seen s → seen ++ (evs.flatMap (·.data)).flatten <+: out →
      ∃ r, CgiOutcome fs con hctx (seen ++ (evs.flatMap (·.data)).flatten) r ∧
        evs.foldlM (cgiHandleFdevent status) (s.1, some s.2) = r.map fun s => (s.1, some s.2) := by
  intro evs
  induction evs with
  | nil =>
    intro seen s _ h _
    refine ⟨some s, ?_, rfl⟩
    rw [List.flatMap_nil, List.flatten_nil, List.append_nil]
    exact h
  | cons ev evs ih =>
    intro seen s hevs h hout
    obtain ⟨hreads, hhup, herr, hwaits⟩ := hevs ev List.mem_cons_self
    rw [List.flatMap_cons, List.flatten_append, ← List.append_assoc] at hout ⊢
    have hstep := cgiReads_outcome hfresh hfits hreads h
      (List.IsPrefix.trans (List.prefix_append _ _) hout)
    have hfd : s.2.fd ≠ -1 := h.fd ▸ hfresh.fd
    rw [List.foldlM_cons, cgiHandleFdevent_eq hfd hwaits]
    cases hread : ev.data.foldlM cgiReadData s with
    | none =>
      rw [hread] at hstep
      exact ⟨none, hstep.crashed _, rfl⟩
    | some s' =>
      rw [hread] at hstep
      have hnext : cgiHandleHup s'.1 s'.2 ev status = (s'.1, some s'.2) := by
        simp [cgiHandleHup, hhup, herr]
      simp only [Option.map_some, Option.bind_eq_bind, Option.bind_some, hnext]
      exact ih (fun e he => hevs e (List.mem_cons_of_mem _ he)) hstep hout

theorem first_httpChunkAppendMem_nil (q : HttpChunk) :
    (httpChunkAppendMem q []).writeQueue.first.isEmpty = false := by
  have hlast : ∀ t : Bytes, (appendLiteral q.writeQueue t).first.isEmpty = false := by
    intro t
    simp [appendLiteral, chunkqueueAppendMem, chunkqueueAppendChunk]
  unfold httpChunkAppendMem
  rw [if_pos List.length_nil]
  dsimp only
  split_ifs <;> exact hlast _

/-- `HUP` ends the response as the end of the file does, unless a part of the output is collected. -/
theorem cgiHandleHup_eq (hhup : ev.isHup = true)
    (hdone : s.1.fileStarted = true ∨ s.2.responseHeader.used = 0)
    (hfinished : s.1.fileFinished = false) :
    cgiHandleHup s.1 s.2 ev status = cgiFinish status s := by
  have hnot : ¬ (s.1.fileStarted = false ∧ s.2.responseHeader.used ≠ 0) := by
    rintro ⟨hstarted, hused⟩
    rcases hdone with hdone | hdone
    · rw [hdone] at hstarted
      nomatch hstarted
    · exact hused hdone
  have hfirst : (s.1.appendMem []).writeQueue.first.isEmpty = false :=
    first_httpChunkAppendMem_nil s.1.httpChunk
  unfold cgiHandleHup
  simp only [hhup, if_true, if_neg hnot, hfinished, hfirst, Bool.false_eq_true, if_false]
  rfl

theorem cgiFinish_started {d : Bool × Nat} {c : CgiConnection} (h : CgiProgress fs con hctx out s)
    (hend : cgiHeaderEnd out = some d) (hstart : startResponse con out d = some c) :
    CgiSends fs (some (cgiFinish status s)) (some (c.answer (cgiBody out d))) := by
  obtain ⟨c', hstart', hcon, hbody⟩ := h.started d hend
  obtain rfl := Option.some.inj (hstart.symm.trans hstart')
  obtain ⟨con₁, h₁⟩ := s
  dsimp only at hcon hbody
  have hstarted : con₁.fileStarted = true := by
    rw [hcon]
    exact (startResponse_frame hstart).2
  have hbody' := hbody.finish
  have hanswer : con₁.answer (cgiBody out d) = c.answer (cgiBody out d) := by
    rw [hcon]
    rfl
  have hlive : ({ con₁ with fileFinished := true }.appendMem []).fileStarted ≠ false := by
    show con₁.fileStarted ≠ false
    rw [hstarted]
    exact Bool.noConfusion
  unfold cgiFinish cgiConnectionClose CgiConnection.broken
  rw [if_neg hlive]
  split_ifs
  all_goals
    refine ⟨rfl, cgiBody out d, ?_, ?_⟩
    · rw [← hanswer]
      rfl
    · exact (httpChunk_withBody (c := { con₁ with fileFinished := true })
        (httpChunkAppendMem_transferEncoding con₁.httpChunk [])).symm ▸ hbody'

theorem cgiFinish_unread (hfresh : CgiFresh con hctx) :
    CgiSends fs (some (cgiFinish status (con, hctx)))
      (some ((cgiFinish status (con, hctx)).1.answer [])) := by
  have hbody := (hfresh.noBody fs (CgiFrame.refl con)).finish
  have hqueue : ({ con with fileFinished := true }.appendMem []).httpChunk =
      httpChunkAppendMem con.httpChunk [] :=
    httpChunk_withBody (c := { con with fileFinished := true })
      (httpChunkAppendMem_transferEncoding con.httpChunk [])
  unfold cgiFinish cgiConnectionClose CgiConnection.broken
  split_ifs
  all_goals
    refine ⟨rfl, [], rfl, ?_⟩
    exact hqueue.symm ▸ hbody

theorem cgiRun_delivers (fs : Files) (status : CgiWaitAnswer) (hfresh : CgiFresh con hctx) (hfits : HeaderFits out) {evs : List CgiEvent}
    (h : DeliversOutput out evs) (hdone : out = [] ∨ (cgiHeaderEnd out).isSome) :
    ∃ r, CgiOutcome fs con hctx out r ∧ cgiRun status con hctx evs = r.map (cgiFinish status) := by
  obtain ⟨pre, ev, rfl, hpre, hlast⟩ := h.last
  have hout := h.output
  rw [List.flatMap_append, List.flatten_append, List.flatMap_singleton] at hout
  have hstart : CgiProgress fs con hctx [] (con, hctx) :=
    ⟨rfl, fun _ => rfl, fun _ => ⟨rfl, Or.inr ⟨hfresh.header, rfl⟩⟩, fun d hd => nomatch hd⟩
  obtain ⟨r, hr, hrun⟩ := @cgiEvents_outcome _ fs con hctx out status hfresh hfits pre [] (con, hctx)
    (fun e he => ⟨h.reads e (List.mem_append_left _ he), hpre e he⟩) hstart
    ⟨ev.data.flatten, by rw [List.nil_append]; exact hout⟩
  rw [List.nil_append] at hr
  unfold cgiRun
  rw [List.foldlM_append, hrun]
  cases r with
  | none =>
    refine ⟨none, ?_, rfl⟩
    rw [← hout]
    exact hr.crashed _
  | some s =>
    have hprogress : CgiProgress fs con hctx (pre.flatMap (·.data)).flatten s := hr
    have hfd : s.2.fd ≠ -1 := hprogress.fd ▸ hfresh.fd
    have hreads := cgiReads_outcome hfresh hfits (h.reads ev (by simp)) hprogress
      ⟨[], by rw [List.append_nil]; exact hout⟩
    rw [hout] at hreads
    refine ⟨ev.data.foldlM cgiReadData s, hreads, ?_⟩
    simp only [Option.map_some, Option.bind_eq_bind, Option.bind_some, List.foldlM_cons,
      List.foldlM_nil]
    rcases hlast with ⟨hin, hending⟩ | ⟨hhup, hwaits⟩
    · rw [cgiHandleFdevent_closed hfd hin hending]
      exact bind_pure (m := Option) _
    · rw [cgiHandleFdevent_eq hfd hwaits]
      cases hs : ev.data.foldlM cgiReadData s with
      | none => rfl
      | some s' =>
        rw [hs] at hreads
        have hprogress' : CgiProgress fs con hctx out s' := hreads
        have hend : (s'.1.fileStarted = true ∨ s'.2.responseHeader.used = 0) ∧
            s'.1.fileFinished = false := by
          rcases hdone with hnil | hsome
          · rw [hprogress'.unread hnil]
            exact ⟨Or.inr hfresh.header, hfresh.finished⟩
          · obtain ⟨d, hd⟩ := Option.isSome_iff_exists.mp hsome
            obtain ⟨c, hc, hcon, -⟩ := hprogress'.started d hd
            obtain ⟨hframe, hstarted⟩ := startResponse_frame hc
            rw [hcon]
            exact ⟨Or.inl hstarted, hframe.finished.trans hfresh.finished⟩
        rw [Option.map_some, cgiHandleHup_eq hhup hend.1 hend.2]
        rfl

def byteReads (out : Bytes) : CgiEvent := ⟨true, false, false, out.map fun c => [c], .closed⟩

omit [Malloc] in
theorem byteReads_delivers (out : Bytes) : DeliversOutput out [byteReads out] where
  reads := by
    intro ev hev s hs
    obtain rfl := List.mem_singleton.mp hev
    obtain ⟨c, -, rfl⟩ := List.mem_map.mp hs
    refine ⟨List.cons_ne_nil _ _, ?_⟩
    show 1 < pieces 1024
    decide
  output := by
    induction out with
    | nil => rfl
    | cons c out ih =>
      simp only [byteReads, List.flatMap_cons, List.flatMap_nil, List.append_nil] at ih ⊢
      rw [List.map_cons, List.flatten_cons, ih]
      rfl
  last := ⟨[], byteReads out, rfl, nofun, Or.inl ⟨rfl, rfl⟩⟩

theorem cgiRun_dropped (fs : Files) (hfresh : CgiFresh con hctx) (hnone : cgiHeaderEnd out = none) :
    ∃ h, CgiOutcome fs con hctx out (some (con, h)) ∧
      cgiRun .running con hctx [byteReads out] = some (cgiFinish .running (con, h)) := by
  have hfits : HeaderFits out := fun found i hend => nomatch hnone.symm.trans hend
  have hdelivers := byteReads_delivers out
  have hstart : CgiProgress fs con hctx [] (con, hctx) :=
    ⟨rfl, fun _ => rfl, fun _ => ⟨rfl, Or.inr ⟨hfresh.header, rfl⟩⟩, fun d hd => nomatch hd⟩
  have hout : (byteReads out).data.flatten = out := by
    have houtput := hdelivers.output
    rwa [List.flatMap_singleton] at houtput
  have hreads := cgiReads_outcome hfresh hfits (hdelivers.reads _ (List.mem_singleton_self _))
    hstart ⟨[], by rw [List.nil_append, List.append_nil]; exact hout⟩
  rw [List.nil_append, hout] at hreads
  have hrun : cgiRun .running con hctx [byteReads out] =
      ((byteReads out).data.foldlM cgiReadData (con, hctx)).map (cgiFinish .running) := by
    unfold cgiRun
    rw [List.foldlM_cons, cgiHandleFdevent_closed (s := (con, hctx)) hfresh.fd rfl rfl]
    exact bind_pure _
  rw [hrun]
  cases hs : (byteReads out).data.foldlM cgiReadData (con, hctx) with
  | none =>
    rw [hs] at hreads
    obtain ⟨d, hd, -⟩ := hreads
    nomatch hnone.symm.trans hd
  | some s =>
    rw [hs] at hreads
    have hprogress : CgiProgress fs con hctx out s := hreads
    obtain ⟨hcon, -⟩ := hprogress.collected hnone
    obtain ⟨con₁, h⟩ := s
    obtain rfl : con₁ = con := hcon
    exact ⟨h, hreads, rfl⟩

theorem not_cgiDelivered (hfresh : CgiFresh con hctx) (hne : out ≠ [])
    (hnone : cgiHeaderEnd out = none) : ¬ CgiDelivered fs con hctx out := by
  intro h
  obtain ⟨A, hsame, hbody⟩ := h .running
  have hheaderless : ¬ CompleteHeader out := by
    rintro ⟨i, hi⟩
    nomatch hnone.symm.trans hi
  obtain ⟨B, rfl, hB⟩ := hbody hheaderless
  obtain ⟨h₁, -, hrun⟩ := cgiRun_dropped fs hfresh hnone
  have hsends := hsame _ (byteReads_delivers out)
  rw [hrun] at hsends
  obtain ⟨-, body, rfl, hsent⟩ : (cgiFinish .running (con, h₁)).1.fileFinished = true ∧
      ∃ body, B = (cgiFinish .running (con, h₁)).1.answer body ∧
        BodyIs fs (cgiFinish .running (con, h₁)).1.httpChunk body := hsends
  have hqueue : (cgiFinish .running (con, h₁)).1.httpChunk =
      httpChunkAppendMem con.httpChunk [] := by
    unfold cgiFinish cgiConnectionClose
    rw [if_neg fun hgone : h₁.pid ≠ 0 ∧ CgiWaitAnswer.running = .gone => nomatch hgone.2]
    split_ifs <;> exact httpChunk_withBody (c := { con with fileFinished := true })
      (httpChunkAppendMem_transferEncoding con.httpChunk [])
  have hplain : ¬ con.httpChunk.chunked := by
    have hencoding : con.httpChunk.transferEncoding = 0 := hfresh.encoding
    simp [HttpChunk.chunked, hencoding]
  have hempty : con.httpChunk.writeQueue.content fs = [] := by
    have hfirst : con.httpChunk.writeQueue.first = [] := hfresh.queue
    simp [Chunkqueue.content, hfirst]
  obtain ⟨hplain', hcontent⟩ := content_httpChunkAppendMem_plain fs hplain []
  unfold BodyIs at hsent
  rw [hqueue, if_neg hplain', hcontent, hempty] at hsent
  have hbody' : body = out := hB
  rw [← hbody', ← hsent] at hne
  exact hne rfl

end Events

/-- **The output is delivered whatever its timing exactly if it is empty, or has an end of a header
or a line that belongs to none.** -/
theorem cgiDelivered_iff [Malloc] (fs : Files) {con : CgiConnection} {hctx : CgiHandlerCtx}
    {out : Bytes} (hfresh : CgiFresh con hctx) (hfits : HeaderFits out) :
    CgiDelivered fs con hctx out ↔ out = [] ∨ (cgiHeaderEnd out).isSome := by
  constructor
  · intro h
    by_contra hno
    rw [not_or, Option.isSome_iff_ne_none, not_not] at hno
    exact not_cgiDelivered hfresh hno.1 hno.2 h
  · intro hdone status
    cases hend : cgiHeaderEnd out with
    | none =>
      have hnil : out = [] := by
        rcases hdone with hnil | hsome
        · exact hnil
        · rw [hend] at hsome
          nomatch hsome
      subst hnil
      refine ⟨some ((cgiFinish status (con, hctx)).1.answer []), fun evs hevs => ?_,
        fun _ => ⟨_, rfl, rfl⟩⟩
      obtain ⟨r, hr, hrun⟩ := cgiRun_delivers fs status hfresh hfits hevs hdone
      rw [hrun]
      cases r with
      | none =>
        obtain ⟨d, hd, -⟩ := hr
        nomatch hd
      | some s =>
        have hprogress : CgiProgress fs con hctx [] s := hr
        rw [hprogress.unread rfl]
        exact cgiFinish_unread hfresh
    | some d =>
      refine ⟨(startResponse con out d).map (·.answer (cgiBody out d)), fun evs hevs => ?_,
        fun hheaderless => ?_⟩
      · obtain ⟨r, hr, hrun⟩ := cgiRun_delivers fs status hfresh hfits hevs hdone
        rw [hrun]
        cases r with
        | none =>
          obtain ⟨d', hd', hcrash⟩ := hr
          obtain rfl := Option.some.inj (hend.symm.trans hd')
          rw [hcrash]
          exact trivial
        | some s =>
          have hprogress : CgiProgress fs con hctx out s := hr
          obtain ⟨c, hstart, -⟩ := hprogress.started d hend
          rw [hstart]
          exact cgiFinish_started hprogress hend hstart
      · obtain ⟨found, i⟩ := d
        cases found with
        | false => exact ⟨_, rfl, rfl⟩
        | true => exact absurd ⟨i, hend⟩ hheaderless

def cgiStart : CgiConnection :=
  { connectionInit { mimetypes := arrayInit, allowHttp11 := true } with
    transferEncoding := 0, parsedResponse := 0, responseLength := -1, etag := bufferInit
    rangeRequests := true, errorfilePrefix := bufferInit, tmpChunkLen := bufferInit
    tmpBuf := bufferInit, requestContentQueue := chunkqueueInit, fileStarted := false
    docRoot := bufferInit, mode := 1, state := .handleRequest, parseResponse := bufferInit
    pluginId := 1 }

def cgiStartCtx : CgiHandlerCtx := ⟨100, 7, bufferInit, bufferInit⟩

theorem cgiFresh_start : CgiFresh cgiStart cgiStartCtx :=
  ⟨rfl, rfl, rfl, rfl, rfl, by decide, rfl⟩

/-- Output without a line end. -/
theorem not_cgiDelivered_hello : ¬ ∀ out, HeaderFits out →
    @CgiDelivered zeroMalloc ⟨[], []⟩ cgiStart cgiStartCtx out := by
  intro h
  have hnone : cgiHeaderEnd (ascii "hello") = none := by decide
  exact @not_cgiDelivered zeroMalloc _ _ _ _ cgiFresh_start (by decide) hnone
    (h (ascii "hello") fun found i hend => nomatch hnone.symm.trans hend)

/-- A header and a body. -/
theorem cgiDelivered_status : @CgiDelivered zeroMalloc ⟨[], []⟩ cgiStart cgiStartCtx
    (ascii "Status: 404\r\n\r\nnot here") := by
  have hend : cgiHeaderEnd (ascii "Status: 404\r\n\r\nnot here") = some (true, 15) := by decide
  refine (@cgiDelivered_iff zeroMalloc _ _ _ _ cgiFresh_start ?_).mpr (Or.inr (by rw [hend]; rfl))
  intro found i hfound
  obtain ⟨-, rfl⟩ := Prod.mk.inj (Option.some.inj (hend.symm.trans hfound))
  decide

end Lighttpd
