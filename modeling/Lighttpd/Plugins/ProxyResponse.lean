import Lighttpd.Fastcgi.HeaderSplit

/-!
# `mod_proxy.c`: the response of the backend

What is read is collected until there is a CR LF CR LF in it: the header is parsed, and all that
follows is the body. So the response depends on the bytes that the backend sends, and not on the way
they are cut into reads (`proxyDemuxResponse_segments`).

What the system answers is part of the events. Between two calls the connection may do anything with
what is queued.
-/

namespace Lighttpd

open CLib

/-- What `proxy_demux_response` uses of the connection and `handler_ctx`, with `parse_response` of
the plugin. -/
structure ProxyAnswer where
  con : BackendConnection
  gotResponse : Bool
  response : Buffer
  responseHeader : Buffer
  parseResponse : Buffer
  deriving DecidableEq, Repr

/-- What `ioctl` and `read` answer: there are `b` bytes to read, and `read` says `EAGAIN`, or fails,
or returns some; or there is nothing more. -/
inductive ProxyIo where
  | ioctlFailed
  | again (b : Nat)
  | readFailed (b : Nat)
  | data (b : Nat) (s : Bytes)
  | closed
  deriving DecidableEq, Repr

section Model

variable [Malloc]

/-! ## The header -/

/-- The lines of the text at `s`, each up to its CR LF. -/
def crlfLines : Nat → Bytes → List Bytes
  | 0, _ => []
  | fuel + 1, s =>
    match firstOccurrence crlf s with
    | none => []
    | some n => s.take n :: crlfLines fuel (s.drop (n + 2))

def proxyStatusLine (con : BackendConnection) (s : Bytes) : BackendConnection :=
  let key := s.dropWhile (· != 32)
  let status :=
    if key = [] then 502 else if (strtol key).1 ≤ 0 then 502 else (strtol key).1
  { con.parsed HTTP_STATUS with httpStatus := status }

def proxyKnownField (con : BackendConnection) (key value : Bytes) : BackendConnection :=
  if isFieldName key "Date" then con.parsed HTTP_DATE
  else if isFieldName key "Location" then con.parsed HTTP_LOCATION
  else if isFieldName key "Content-Length" then
    { con.parsed HTTP_CONTENT_LENGTH with responseLength := (strtol value).1 }
  else con

def proxyResponseLine (con : BackendConnection) (s : Bytes) : Option BackendConnection :=
  match strchr s 58 with
  | none => some con
  | some keyLen =>
    let key := s.take keyLen
    let value := (s.drop (keyLen + 1)).dropWhile fun c => c == 32 || c == 9
    let con := proxyKnownField con key value
    if isFieldName key "Connection" then some con else insertResponseField con key value

def proxyResponseLines (con : BackendConnection) : List Bytes → Option BackendConnection
  | [] => some con
  | s :: ss => ss.foldlM proxyResponseLine (proxyStatusLine con s)

/-- `proxy_response_parse`, with `p->parse_response`. -/
def proxyResponseParse (con : BackendConnection) (parseResponse input : Buffer) :
    Option (BackendConnection × Buffer) :=
  let parseResponse := bufferCopyStringBuffer parseResponse input
  let s := parseResponse.str
  (proxyResponseLines con (crlfLines (s.length + 1) s)).map fun con => (con, parseResponse)

/-! ## Reading -/

/-- "enable chunked-transfer-encoding", and `file_started`. -/
def BackendConnection.startBody (con : BackendConnection) : BackendConnection :=
  let con :=
    if con.Chunks then { con with transferEncoding := HTTP_TRANSFER_ENCODING_CHUNKED } else con
  { con with fileStarted := true }

/-- Room for `b` bytes; the terminator of an unused buffer is counted. -/
def proxyRoom (response : Buffer) (b : Nat) : Buffer :=
  if response.used = 0 then { bufferPrepareAppend response (b + 1) with used := 1 }
  else bufferPrepareAppend response b

/-- `read` over the terminator, and a new one. -/
def proxyReadInto (response : Buffer) (s : Bytes) : Buffer :=
  let used := response.used + s.length
  { response with
    ptr := (memcpy response.ptr (response.used - 1) s).set (used - 1) 0
    used := used }

/-- The CR LF CR LF is at `c`. -/
def proxyHeaderFound (a : ProxyAnswer) (c : Nat) : Option ProxyAnswer := do
  let hlen := c + 4
  let blen := a.response.used - hlen - 1
  let header := bufferAppendStringLen a.responseHeader (some (a.response.ptr.take hlen))
  let (con, parseResponse) ← proxyResponseParse a.con a.parseResponse header
  let con := con.startBody
  let con :=
    if blen ≠ 0 then con.appendBody ((a.response.ptr.drop hlen).take (blen + 1)) else con
  some { a with
    con := con
    response := { a.response with used := 0 }
    responseHeader := header
    parseResponse := parseResponse }

def proxyGotResponse (a : ProxyAnswer) : ProxyAnswer :=
  if a.gotResponse then a
  else { a with gotResponse := true, responseHeader := bufferPrepareCopy a.responseHeader 128 }

def proxyReadDone (a : ProxyAnswer) : Option ProxyAnswer :=
  let a := proxyGotResponse a
  if a.con.fileStarted = false then
    match bufferSearchStringLen a.response (ascii "\r\n\r\n") with
    | some c => proxyHeaderFound a c
    | none => some a
  else
    some { a with
      con := a.con.appendBody (a.response.ptr.take a.response.used)
      response := { a.response with used := 0 } }

def proxyDemuxResponse (a : ProxyAnswer) : ProxyIo → Option (ProxyAnswer × Int)
  | .ioctlFailed => some (a, -1)
  | .again b => some ({ a with response := proxyRoom a.response b }, 0)
  | .readFailed b => some ({ a with response := proxyRoom a.response b }, -1)
  | .data b s =>
    (proxyReadDone { a with response := proxyReadInto (proxyRoom a.response b) s }).map (·, 0)
  | .closed => some ({ a with con := { a.con with fileFinished := true }.appendBody [] }, 1)

end Model

/-! ## Runs -/

/-- `proxy_demux_response` is called, or the connection gets its turn, which leaves another
queue. -/
inductive ProxyEvent where
  | io (io : ProxyIo)
  | jobs (writeQueue : Chunkqueue) (tmpChunkLen : Buffer)

def BackendConnection.withQueue (con : BackendConnection) (writeQueue : Chunkqueue)
    (tmpChunkLen : Buffer) : BackendConnection :=
  { con with writeQueue := writeQueue, tmpChunkLen := tmpChunkLen }

section Runs

variable [Malloc] (fs : Files)

def proxyEvent (a : ProxyAnswer) : ProxyEvent → Option (ProxyAnswer × Bytes)
  | .io io => (proxyDemuxResponse a io).map fun (a', _) =>
      (a', (a'.con.writeQueue.content fs).drop (a.con.writeQueue.content fs).length)
  | .jobs writeQueue tmpChunkLen =>
    some ({ a with con := a.con.withQueue writeQueue tmpChunkLen }, [])

def proxyRun : ProxyAnswer → List ProxyEvent → Option (ProxyAnswer × Bytes)
  | a, [] => some (a, [])
  | a, ev :: evs => do
    let (a, s) ← proxyEvent fs a ev
    let (a, t) ← proxyRun a evs
    some (a, s ++ t)

end Runs

/-- Something is read, or there is nothing yet; the number of bytes is an `int`. -/
def ProxyEvent.Reads : ProxyEvent → Prop
  | .io (.data b s) => s ≠ [] ∧ s.length ≤ b ∧ b < 2 ^ 31
  | .io (.again _) => True
  | .io _ => False
  | .jobs _ _ => True

def ProxyEvent.text : ProxyEvent → Bytes
  | .io (.data _ s) => s
  | _ => []

/-- The backend sends these bytes, and closes the connection. -/
def SendsResponse (out : Bytes) (evs : List ProxyEvent) : Prop :=
  ∃ reads, evs = reads ++ [.io .closed] ∧ (∀ ev ∈ reads, ev.Reads) ∧
    (reads.map ProxyEvent.text).flatten = out

/-- Nothing was read, and the header fields are in a well-formed array. -/
structure ProxyFresh (a : ProxyAnswer) : Prop where
  started : a.con.fileStarted = false
  response : a.response.used = 0
  header : a.responseHeader.used = 0
  tidy : a.con.response.headers.Tidy

def responseBody (out : Bytes) : Bytes :=
  match firstOccurrence crlfCrlf out with
  | some c => out.drop (c + 4)
  | none => []

def CarriesBody (con : BackendConnection) (text body : Bytes) : Prop :=
  if con.httpChunk.chunked then ChunkedBody text body else text = body

/-- Status and fields are those of the header; without one they are as before. -/
def HasHeaderOf [Malloc] (a : ProxyAnswer) (out : Bytes) (con : BackendConnection) : Prop :=
  match firstOccurrence crlfCrlf out with
  | some c => ∃ head parseResponse,
      proxyResponseParse a.con a.parseResponse (textBuffer (out.take (c + 4))) =
        some (head, parseResponse) ∧ con.httpStatus = head.httpStatus ∧ con.response = head.response
  | none => con.httpStatus = a.con.httpStatus ∧ con.response = a.con.response

/-! ## The collected bytes -/

/-- The bytes are collected; the terminator is counted, and may not be there yet. -/
structure Buffer.Gathers (b : Buffer) (t : Bytes) : Prop where
  wf : b.WF
  bytes : b.used = 0 ∧ t = [] ∨ b.used = t.length + 1 ∧ b.ptr.take t.length = t

section Collected

variable [Malloc] {response : Buffer} {t s : Bytes} {b : Nat}

omit [Malloc] in
theorem Buffer.Text.gathers (h : response.Text t) : response.Gathers t := by
  obtain ⟨behind, hptr⟩ := h.ptr_eq
  refine ⟨h.wf, Or.inr ⟨h.used, ?_⟩⟩
  rw [hptr, List.take_left']
  rfl

omit [Malloc] in
theorem gathers_of_unused (h : response.used = 0) : response.Gathers [] :=
  ⟨wf_of_used_zero h, Or.inl ⟨h, rfl⟩⟩

theorem gathers_proxyRoom (h : response.Gathers t) (b : Nat) :
    (proxyRoom response b).Gathers t ∧ (proxyRoom response b).used = t.length + 1 ∧
      t.length + 1 + b ≤ (proxyRoom response b).size := by
  unfold proxyRoom
  rcases h.bytes with ⟨hused, rfl⟩ | ⟨hused, htake⟩
  · rw [if_pos hused]
    obtain ⟨-, hsize, -⟩ := bufferPrepareAppend_spec h.wf (b + 1)
    rw [hused] at hsize
    simp only [Buffer.size] at hsize
    refine ⟨⟨?_, Or.inr ⟨rfl, rfl⟩⟩, rfl, ?_⟩
    · show 1 ≤ (bufferPrepareAppend response (b + 1)).ptr.length
      omega
    · show 0 + 1 + b ≤ (bufferPrepareAppend response (b + 1)).ptr.length
      omega
  · rw [if_neg (by omega)]
    obtain ⟨hused', hsize, hbytes⟩ := bufferPrepareAppend_spec h.wf b
    rw [hused] at hused' hsize
    refine ⟨⟨?_, Or.inr ⟨hused', ?_⟩⟩, hused', hsize⟩
    · simp only [Buffer.WF]
      omega
    · have hfront := congrArg (List.take t.length) hbytes
      rwa [Buffer.bytes, List.take_take, List.take_take, hused, Nat.min_eq_left (Nat.le_succ _),
        htake] at hfront

theorem text_proxyReadInto (h : response.Gathers t) (hb : s.length ≤ b) :
    (proxyReadInto (proxyRoom response b) s).Text (t ++ s) := by
  obtain ⟨hroom, hused, hsize⟩ := gathers_proxyRoom h b
  have htake : (proxyRoom response b).ptr.take t.length = t := by
    rcases hroom.bytes with ⟨h0, rfl⟩ | ⟨-, htake⟩
    · rfl
    · exact htake
  generalize proxyRoom response b = p at hused hsize htake
  simp only [Buffer.size] at hsize
  unfold proxyReadInto
  dsimp only
  rw [hused, Nat.add_sub_cancel, show t.length + 1 + s.length - 1 = t.length + s.length by omega]
  refine ⟨?_, ?_⟩
  · show List.take (t.length + 1 + s.length) _ = _
    rw [show t.length + 1 + s.length = t.length + s.length + 1 by omega,
      take_set_memcpy (by omega), htake]
  · show t.length + 1 + s.length = _
    rw [List.length_append]
    omega

end Collected

section Header

variable [Malloc] {con con' : BackendConnection} {t : Bytes}

theorem proxyResponseParse_text (con : BackendConnection) (parseResponse : Buffer) {input : Buffer}
    (h : input.Text t) : proxyResponseParse con parseResponse input =
      (proxyResponseLines con (crlfLines ((cstr t).length + 1) (cstr t))).map fun con =>
        (con, bufferCopyStringBuffer parseResponse input) := by
  have hused : input.used ≠ 0 := by
    rw [h.used]
    exact Nat.succ_ne_zero _
  unfold proxyResponseParse
  dsimp only
  rw [str_bufferCopyStringBuffer _ hused, take_of_holds h.holds h.used]

theorem insertResponseField_withQueue (con : BackendConnection) (q : Chunkqueue) (tmp : Buffer)
    (key value : Bytes) : insertResponseField (con.withQueue q tmp) key value =
      (insertResponseField con key value).map (·.withQueue q tmp) := by
  have hinsert : ∀ insert : Option (Arr DataString),
      (insert.bind fun headers =>
        some ((con.withQueue q tmp).mapResponse fun r => { r with headers := headers })) =
      (insert.bind fun headers =>
        some (con.mapResponse fun r => { r with headers := headers })).map (·.withQueue q tmp) := by
    intro insert
    cases insert <;> rfl
  exact hinsert _

omit [Malloc] in
theorem proxyKnownField_withQueue (con : BackendConnection) (q : Chunkqueue) (tmp : Buffer)
    (key value : Bytes) : proxyKnownField (con.withQueue q tmp) key value =
      (proxyKnownField con key value).withQueue q tmp := by
  unfold proxyKnownField
  split_ifs <;> rfl

theorem proxyResponseLine_withQueue (con : BackendConnection) (q : Chunkqueue) (tmp : Buffer)
    (s : Bytes) : proxyResponseLine (con.withQueue q tmp) s =
      (proxyResponseLine con s).map (·.withQueue q tmp) := by
  unfold proxyResponseLine
  cases strchr s 58 with
  | none => rfl
  | some keyLen =>
    dsimp only
    rw [proxyKnownField_withQueue]
    split
    · rfl
    · exact insertResponseField_withQueue _ q tmp _ _

theorem proxyResponseLines_withQueue (con : BackendConnection) (q : Chunkqueue) (tmp : Buffer)
    (lines : List Bytes) : proxyResponseLines (con.withQueue q tmp) lines =
      (proxyResponseLines con lines).map (·.withQueue q tmp) := by
  have hfields : ∀ (ss : List Bytes) (con : BackendConnection),
      ss.foldlM proxyResponseLine (con.withQueue q tmp) =
        (ss.foldlM proxyResponseLine con).map (·.withQueue q tmp) := by
    intro ss
    induction ss with
    | nil => exact fun _ => rfl
    | cons s ss ih =>
      intro con
      rw [List.foldlM_cons, List.foldlM_cons, proxyResponseLine_withQueue]
      cases proxyResponseLine con s with
      | none => rfl
      | some con' => exact ih con'
  cases lines with
  | nil => rfl
  | cons s ss => exact hfields ss (proxyStatusLine con s)

theorem proxyResponseLines_total (h : con.response.headers.Tidy) (lines : List Bytes) :
    ∃ con', proxyResponseLines con lines = some con' := by
  have hfields : ∀ (ss : List Bytes) (con : BackendConnection), con.response.headers.Tidy →
      ∃ con', ss.foldlM proxyResponseLine con = some con' := by
    intro ss
    induction ss with
    | nil => exact fun con _ => ⟨con, rfl⟩
    | cons s ss ih =>
      intro con htidy
      obtain ⟨con', hrun, htidy'⟩ : ∃ con', proxyResponseLine con s = some con' ∧
          con'.response.headers.Tidy := by
        unfold proxyResponseLine
        cases strchr s 58 with
        | none => exact ⟨con, rfl, htidy⟩
        | some keyLen =>
          dsimp only
          generalize (s.drop (keyLen + 1)).dropWhile _ = value
          have hknown : (proxyKnownField con (s.take keyLen) value).response.headers.Tidy := by
            unfold proxyKnownField
            split_ifs <;> exact htidy
          split
          · exact ⟨_, rfl, hknown⟩
          · obtain ⟨headers, hinsert, htidy', -⟩ :=
              insertResponseField_spec hknown (s.take keyLen) value
            exact ⟨_, hinsert, htidy'⟩
      obtain ⟨con'', hrest⟩ := ih con' htidy'
      refine ⟨con'', ?_⟩
      rw [List.foldlM_cons, hrun]
      exact hrest
  cases lines with
  | nil => exact ⟨con, rfl⟩
  | cons s ss => exact hfields ss (proxyStatusLine con s) h

end Header

section Body

variable [Malloc] (fs : Files) {con : BackendConnection}

def bodyPiece (con : BackendConnection) (s : Bytes) : Bytes :=
  if con.httpChunk.chunked then (PayloadCall.mem (s ++ [0])).block fs else s

def bodyEnd (con : BackendConnection) : Bytes :=
  if con.httpChunk.chunked then PayloadCall.ending else []

omit [Malloc] in
theorem payload_mem (s : Bytes) : (PayloadCall.mem (s ++ [0])).payload fs = s := by
  unfold PayloadCall.payload
  dsimp only
  rw [List.length_append, List.length_singleton, Nat.add_sub_cancel]
  exact List.take_left' rfl

theorem content_appendBody (con : BackendConnection) (s : Bytes) :
    (con.appendBody (s ++ [0])).writeQueue.content fs =
      con.writeQueue.content fs ++ bodyPiece fs con s := by
  have hqueue : (con.appendBody (s ++ [0])).writeQueue =
      (httpChunkAppendMem con.httpChunk (s ++ [0])).writeQueue := rfl
  rw [hqueue]
  unfold bodyPiece
  by_cases hcon : con.httpChunk.chunked
  · rw [if_pos hcon]
    have hvalid : (PayloadCall.mem (s ++ [0])).Valid fs := trivial
    exact (content_run fs hcon hvalid).2
  · rw [if_neg hcon, (content_httpChunkAppendMem_plain fs hcon (s ++ [0])).2, List.length_append,
      List.length_singleton, Nat.add_sub_cancel, List.take_left' rfl]
    rfl

theorem content_appendBody_end (con : BackendConnection) :
    (con.appendBody []).writeQueue.content fs = con.writeQueue.content fs ++ bodyEnd con := by
  have hqueue : (con.appendBody []).writeQueue =
      (httpChunkAppendMem con.httpChunk []).writeQueue := rfl
  rw [hqueue]
  unfold bodyEnd
  by_cases hcon : con.httpChunk.chunked
  · rw [if_pos hcon]
    exact (content_httpChunkAppendMem fs hcon []).2
  · rw [if_neg hcon, (content_httpChunkAppendMem_plain fs hcon []).2]
    rfl

omit [Malloc] in
theorem carriesBody_pieces {pieces : List Bytes}
    (hpieces : ∀ p ∈ pieces, p ≠ [] ∧ p.length < 2 ^ 32) :
    CarriesBody con ((pieces.map (bodyPiece fs con)).flatten ++ bodyEnd con) pieces.flatten := by
  unfold CarriesBody bodyPiece bodyEnd
  by_cases hcon : con.httpChunk.chunked
  · simp only [if_pos hcon]
    have hvalid : ∀ call ∈ pieces.map fun s => PayloadCall.mem (s ++ [0]), call.Valid fs := by
      intro call hcall
      obtain ⟨s, -, rfl⟩ := List.mem_map.mp hcall
      trivial
    have hshort : ∀ call ∈ pieces.map fun s => PayloadCall.mem (s ++ [0]), call.Short fs := by
      intro call hcall
      obtain ⟨s, hs, rfl⟩ := List.mem_map.mp hcall
      unfold PayloadCall.Short
      rw [payload_mem]
      exact ⟨List.length_pos_of_ne_nil (hpieces s hs).1, (hpieces s hs).2⟩
    have hblocks := (chunkedBody_blocks hvalid hshort).mpr chunkedBody_end
    rw [List.map_map, List.map_map, List.append_nil] at hblocks
    have hpayloads :
        pieces.map ((·.payload fs) ∘ fun s => PayloadCall.mem (s ++ [0])) = pieces := by
      conv_rhs => rw [← List.map_id pieces]
      exact List.map_congr_left fun s _ => payload_mem fs s
    rw [hpayloads] at hblocks
    exact hblocks
  · simp only [if_neg hcon, List.append_nil, List.map_id']

end Body

/-! ## The run -/

/-- The connection when the header is parsed, and nothing of the body is queued. -/
def proxyStarted [Malloc] (con : BackendConnection) (header : Bytes) : Option BackendConnection :=
  (proxyResponseParse con bufferInit (textBuffer header)).map fun (con, _) => con.startBody

section Run

variable [Malloc] {fs : Files} {a₀ a : ProxyAnswer} {seen sent s : Bytes}

/-- The bytes that were read are collected, or the header is parsed and what follows is queued. -/
structure ProxyProgress (fs : Files) (a₀ : ProxyAnswer) (seen : Bytes) (a : ProxyAnswer)
    (sent : Bytes) : Prop where
  collected : firstOccurrence crlfCrlf seen = none →
    a.con = a₀.con.withQueue a.con.writeQueue a.con.tmpChunkLen ∧ a.response.Gathers seen ∧
      a.responseHeader.used = 0 ∧ sent = []
  started : ∀ c, firstOccurrence crlfCrlf seen = some c →
    ∃ (con : BackendConnection) (pieces : List Bytes),
    proxyStarted a₀.con (seen.take (c + 4)) = some con ∧
      a.con = con.withQueue a.con.writeQueue a.con.tmpChunkLen ∧ a.response.Gathers [] ∧
      (∀ p ∈ pieces, p ≠ [] ∧ p.length < 2 ^ 32) ∧ pieces.flatten = seen.drop (c + 4) ∧
      sent = (pieces.map (bodyPiece fs con)).flatten

omit [Malloc] in
theorem startBody_withQueue (con : BackendConnection) (q : Chunkqueue) (tmp : Buffer) :
    (con.withQueue q tmp).startBody = con.startBody.withQueue q tmp := by
  have hiff : (con.withQueue q tmp).Chunks ↔ con.Chunks := Iff.rfl
  unfold BackendConnection.startBody
  by_cases hchunks : con.Chunks
  · rw [if_pos hchunks, if_pos (hiff.mpr hchunks)]
    rfl
  · rw [if_neg hchunks, if_neg fun h => hchunks (hiff.mp h)]
    rfl

omit [Malloc] in
theorem startBody_header (con : BackendConnection) :
    con.startBody.httpStatus = con.httpStatus ∧ con.startBody.response = con.response := by
  unfold BackendConnection.startBody
  dsimp only
  split_ifs
  · exact ⟨rfl, rfl⟩
  · exact ⟨rfl, rfl⟩

theorem proxyStarted_parse {con con' : BackendConnection} {q : Chunkqueue} {tmp : Buffer}
    {header : Bytes} (h : con' = con.withQueue q tmp) (htidy : con.response.headers.Tidy)
    (parseResponse : Buffer) {input : Buffer} (hinput : input.Text header) :
    ∃ head : BackendConnection, proxyStarted con header = some head.startBody ∧
      proxyResponseParse con' parseResponse input =
        some (head.withQueue q tmp, bufferCopyStringBuffer parseResponse input) := by
  obtain ⟨head, hlines⟩ := proxyResponseLines_total htidy
    (crlfLines ((cstr header).length + 1) (cstr header))
  refine ⟨head, ?_, ?_⟩
  · unfold proxyStarted
    rw [proxyResponseParse_text con bufferInit (text_textBuffer header), hlines]
    rfl
  · rw [proxyResponseParse_text con' parseResponse hinput, h, proxyResponseLines_withQueue, hlines]
    rfl

theorem proxyStarted_fileStarted {con con' : BackendConnection} {header : Bytes}
    (h : proxyStarted con header = some con') : con'.fileStarted = true := by
  unfold proxyStarted at h
  obtain ⟨⟨head, parseResponse⟩, -, rfl⟩ := Option.map_eq_some_iff.mp h
  rfl

theorem proxyHeaderFound_progress (hfresh : ProxyFresh a₀) {c : Nat}
    (hcon : a.con = a₀.con.withQueue a.con.writeQueue a.con.tmpChunkLen)
    (hresponse : a.response.Text seen) (hheader : a.responseHeader.used = 0)
    (hfound : firstOccurrence crlfCrlf seen = some c) (hshort : seen.length < c + 4 + 2 ^ 32) :
    ∃ a', proxyHeaderFound a c = some a' ∧
      ProxyProgress fs a₀ seen a'
        ((a'.con.writeQueue.content fs).drop (a.con.writeQueue.content fs).length) := by
  have hle : c + 4 ≤ seen.length :=
    ((firstOccurrence_eq_some (by decide)).mp hfound).1.le (by decide)
  obtain ⟨behind, hptr⟩ := hresponse.ptr_eq
  have hhead : a.response.ptr.take (c + 4) = seen.take (c + 4) := by
    rw [hptr, List.take_append_of_le_length hle]
  have hblen : a.response.used - (c + 4) - 1 = (seen.drop (c + 4)).length := by
    rw [hresponse.used, List.length_drop]
    omega
  have hbody : (a.response.ptr.drop (c + 4)).take ((seen.drop (c + 4)).length + 1) =
      seen.drop (c + 4) ++ [0] := by
    rw [hptr, List.drop_append_of_le_length hle, List.take_length_add_append]
    rfl
  have hne : seen.take (c + 4) ≠ [] := by
    refine List.ne_nil_of_length_pos ?_
    rw [List.length_take]
    omega
  obtain ⟨head, hstarted, hparse⟩ := proxyStarted_parse hcon hfresh.tidy a.parseResponse
    (text_bufferAppendStringLen_unused hheader hne)
  unfold proxyHeaderFound
  dsimp only
  rw [hhead, hparse, hblen, hbody]
  refine ⟨_, rfl, (fun hnone => nomatch hfound.symm.trans hnone), fun c' hc' => ?_⟩
  obtain rfl := Option.some.inj (hfound.symm.trans hc')
  dsimp only
  rw [startBody_withQueue]
  by_cases hnil : (seen.drop (c + 4)).length ≠ 0
  · rw [if_pos hnil, content_appendBody]
    refine ⟨_, [seen.drop (c + 4)], hstarted, rfl, gathers_of_unused rfl, ?_,
      List.flatten_singleton, ?_⟩
    · intro p hp
      obtain rfl := List.mem_singleton.mp hp
      refine ⟨fun h => hnil (congrArg List.length h), ?_⟩
      rw [List.length_drop]
      omega
    · rw [List.map_singleton, List.flatten_singleton]
      exact List.drop_left
  · rw [if_neg hnil]
    refine ⟨_, [], hstarted, rfl, gathers_of_unused rfl, (fun p hp => nomatch hp), ?_, ?_⟩
    · exact (List.length_eq_zero_iff.mp (not_not.mp hnil)).symm
    · exact List.drop_length

theorem proxyGotResponse_spec (a : ProxyAnswer) : (proxyGotResponse a).con = a.con ∧
    (proxyGotResponse a).response = a.response ∧
    (a.responseHeader.used = 0 → (proxyGotResponse a).responseHeader.used = 0) := by
  unfold proxyGotResponse
  split
  · exact ⟨rfl, rfl, id⟩
  · exact ⟨rfl, rfl, fun _ => bufferPrepareCopy_used _ _⟩

theorem proxyReadDone_collecting (hfresh : ProxyFresh a₀) (h : ProxyProgress fs a₀ seen a sent)
    (hnone : firstOccurrence crlfCrlf seen = none) {b : Nat} (hb : s.length ≤ b)
    (hlt : s.length < 2 ^ 31) : ∃ a',
      proxyReadDone { a with response := proxyReadInto (proxyRoom a.response b) s } = some a' ∧
      ProxyProgress fs a₀ (seen ++ s) a'
        (sent ++ (a'.con.writeQueue.content fs).drop (a.con.writeQueue.content fs).length) := by
  obtain ⟨hcon, hgathers, hheader, rfl⟩ := h.collected hnone
  have htext := text_proxyReadInto hgathers hb
  generalize proxyReadInto (proxyRoom a.response b) s = response at htext
  obtain ⟨hcon₁, hresponse₁, hheader₁⟩ := proxyGotResponse_spec { a with response := response }
  replace hheader₁ := hheader₁ hheader
  generalize ha₁ : proxyGotResponse { a with response := response } = a₁
    at hcon₁ hresponse₁ hheader₁
  dsimp only at hcon₁ hresponse₁
  have hstarted : a₁.con.fileStarted = false := by
    rw [hcon₁, hcon]
    exact hfresh.started
  have hneedle : ascii "\r\n\r\n" = crlfCrlf := by decide
  unfold proxyReadDone
  dsimp only
  rw [ha₁, if_pos hstarted, hresponse₁, hneedle, bufferSearchStringLen_text htext (by decide)]
  simp only [List.nil_append]
  cases hfound : firstOccurrence crlfCrlf (seen ++ s) with
  | none =>
    refine ⟨a₁, rfl, fun _ => ?_, fun c hc => nomatch hfound.symm.trans hc⟩
    refine ⟨hcon₁ ▸ hcon, hresponse₁ ▸ htext.gathers, hheader₁, ?_⟩
    rw [hcon₁]
    exact List.drop_length
  | some c =>
    have hbehind := firstOccurrence_behind (by decide) hnone hfound
    have hshort : (seen ++ s).length < c + 4 + 2 ^ 32 := by
      rw [List.length_append]
      have hfour : crlfCrlf.length = 4 := rfl
      omega
    obtain ⟨a', hrun, hprogress⟩ := @proxyHeaderFound_progress _ fs a₀ a₁ _ hfresh c
      (hcon₁ ▸ hcon) (hresponse₁ ▸ htext) hheader₁ hfound hshort
    rw [hcon₁] at hprogress
    exact ⟨a', hrun, hprogress⟩

theorem proxyReadDone_started (h : ProxyProgress fs a₀ seen a sent) {c : Nat}
    (hfound : firstOccurrence crlfCrlf seen = some c) {b : Nat} (hne : s ≠ []) (hb : s.length ≤ b)
    (hlt : s.length < 2 ^ 31) : ∃ a',
      proxyReadDone { a with response := proxyReadInto (proxyRoom a.response b) s } = some a' ∧
      ProxyProgress fs a₀ (seen ++ s) a'
        (sent ++ (a'.con.writeQueue.content fs).drop (a.con.writeQueue.content fs).length) := by
  obtain ⟨con, pieces, hstart, hcon, hempty, hpieces, hflat, rfl⟩ := h.started c hfound
  have hle : c + 4 ≤ seen.length :=
    ((firstOccurrence_eq_some (by decide)).mp hfound).1.le (by decide)
  have htext := text_proxyReadInto hempty hb
  generalize proxyReadInto (proxyRoom a.response b) s = response at htext
  have hbytes : response.ptr.take response.used = s ++ [0] := htext.holds
  have hstarted : a.con.fileStarted = true := by
    rw [hcon]
    exact @proxyStarted_fileStarted _ a₀.con con _ hstart
  have hfound' := firstOccurrence_append (by decide) hfound s
  obtain ⟨hcon₁, hresponse₁, -⟩ := proxyGotResponse_spec { a with response := response }
  generalize ha₁ : proxyGotResponse { a with response := response } = a₁ at hcon₁ hresponse₁
  dsimp only at hcon₁ hresponse₁
  unfold proxyReadDone
  dsimp only
  rw [ha₁, hcon₁, hresponse₁, if_neg (by rw [hstarted]; decide), hbytes]
  refine ⟨_, rfl, (fun hnone => nomatch hfound'.symm.trans hnone), fun c' hc' => ?_⟩
  obtain rfl := Option.some.inj (hfound'.symm.trans hc')
  dsimp only
  have hsame : bodyPiece fs a.con s = bodyPiece fs con s := by
    rw [hcon]
    rfl
  rw [content_appendBody, List.drop_left, hsame]
  refine ⟨con, pieces ++ [s], ?_, ?_, gathers_of_unused rfl, ?_, ?_, ?_⟩
  · rw [List.take_append_of_le_length hle]
    exact hstart
  · rw [hcon]
    rfl
  · intro p hp
    rcases List.mem_append.mp hp with hp | hp
    · exact hpieces p hp
    · obtain rfl := List.mem_singleton.mp hp
      exact ⟨hne, by omega⟩
  · rw [List.flatten_append, hflat, List.flatten_singleton, List.drop_append_of_le_length hle]
  · rw [List.map_append, List.flatten_append, List.map_singleton, List.flatten_singleton]

/-- **One event.** -/
theorem proxyEvent_progress (hfresh : ProxyFresh a₀) (h : ProxyProgress fs a₀ seen a sent)
    {ev : ProxyEvent} (hev : ev.Reads) : ∃ a' more, proxyEvent fs a ev = some (a', more) ∧
      ProxyProgress fs a₀ (seen ++ ev.text) a' (sent ++ more) := by
  have hsame : ev.text = [] → seen ++ ev.text = seen := fun hnil => by rw [hnil, List.append_nil]
  cases ev with
  | jobs q tmp =>
    refine ⟨_, [], rfl, ?_⟩
    rw [hsame rfl, List.append_nil]
    refine ⟨fun hnone => ?_, fun c hc => ?_⟩
    · obtain ⟨hcon, hrest⟩ := h.collected hnone
      refine ⟨?_, hrest⟩
      rw [hcon]
      rfl
    · obtain ⟨con, pieces, hstart, hcon, hrest⟩ := h.started c hc
      refine ⟨con, pieces, hstart, ?_, hrest⟩
      rw [hcon]
      rfl
  | io io =>
    cases io with
    | ioctlFailed => exact hev.elim
    | readFailed b => exact hev.elim
    | closed => exact hev.elim
    | again b =>
      refine ⟨_, _, rfl, ?_⟩
      rw [hsame rfl]
      dsimp only
      rw [List.drop_length, List.append_nil]
      refine ⟨fun hnone => ?_, fun c hc => ?_⟩
      · obtain ⟨hcon, hgathers, hrest⟩ := h.collected hnone
        exact ⟨hcon, (gathers_proxyRoom hgathers b).1, hrest⟩
      · obtain ⟨con, pieces, hstart, hcon, hempty, hrest⟩ := h.started c hc
        exact ⟨con, pieces, hstart, hcon, (gathers_proxyRoom hempty b).1, hrest⟩
    | data b s =>
      obtain ⟨hne, hb, hlt⟩ := hev
      have hdone : ∃ a',
          proxyReadDone { a with response := proxyReadInto (proxyRoom a.response b) s } = some a' ∧
          ProxyProgress fs a₀ (seen ++ s) a'
            (sent ++ (a'.con.writeQueue.content fs).drop (a.con.writeQueue.content fs).length) := by
        cases hfound : firstOccurrence crlfCrlf seen with
        | none => exact proxyReadDone_collecting hfresh h hfound hb (by omega)
        | some c => exact proxyReadDone_started h hfound hne hb (by omega)
      obtain ⟨a', hrun, hprogress⟩ := hdone
      refine ⟨a', _, ?_, hprogress⟩
      simp only [proxyEvent, proxyDemuxResponse, hrun, Option.map_some]

theorem ProxyFresh.progress (fs : Files) (h : ProxyFresh a) : ProxyProgress fs a [] a [] where
  collected := fun _ => ⟨rfl, gathers_of_unused h.response, h.header, rfl⟩
  started := fun c hc => nomatch (show firstOccurrence crlfCrlf [] = none by decide).symm.trans hc

/-- **All that is read.** -/
theorem proxyRun_progress (hfresh : ProxyFresh a₀) {reads : List ProxyEvent}
    (hreads : ∀ ev ∈ reads, ev.Reads) (h : ProxyProgress fs a₀ seen a sent) :
    ∃ a' more, proxyRun fs a reads = some (a', more) ∧
      ProxyProgress fs a₀ (seen ++ (reads.map ProxyEvent.text).flatten) a' (sent ++ more) := by
  induction reads generalizing a seen sent with
  | nil =>
    refine ⟨a, [], rfl, ?_⟩
    simpa using h
  | cons ev reads ih =>
    obtain ⟨a₁, s₁, hev, h₁⟩ := proxyEvent_progress hfresh h (hreads ev List.mem_cons_self)
    obtain ⟨a₂, s₂, hrun, h₂⟩ := ih (fun e he => hreads e (List.mem_cons_of_mem _ he)) h₁
    refine ⟨a₂, s₁ ++ s₂, ?_, ?_⟩
    · simp only [proxyRun, hev, hrun, Option.bind_eq_bind, Option.bind_some]
    · simpa [List.append_assoc] using h₂

theorem proxyRun_append (a : ProxyAnswer) (evs evs' : List ProxyEvent) :
    proxyRun fs a (evs ++ evs') = (proxyRun fs a evs).bind fun (a, s) =>
      (proxyRun fs a evs').map fun (a, t) => (a, s ++ t) := by
  induction evs generalizing a with
  | nil =>
    rw [List.nil_append, proxyRun, Option.bind_some]
    dsimp only
    cases proxyRun fs a evs' <;> rfl
  | cons ev evs ih =>
    rw [List.cons_append, proxyRun, proxyRun]
    cases proxyEvent fs a ev with
    | none => rfl
    | some first =>
      obtain ⟨a₁, s₁⟩ := first
      simp only [Option.bind_eq_bind, Option.bind_some, ih]
      cases proxyRun fs a₁ evs with
      | none => rfl
      | some rest =>
        obtain ⟨a₂, s₂⟩ := rest
        simp only [Option.bind_some]
        cases proxyRun fs a₂ evs' with
        | none => rfl
        | some last => simp only [Option.map_some, Option.bind_some, List.append_assoc]

theorem proxyEvent_closed (fs : Files) (a : ProxyAnswer) : ∃ a',
    proxyEvent fs a (.io .closed) = some (a', bodyEnd a.con) ∧
    a'.con = ({ a.con with fileFinished := true }).withQueue a'.con.writeQueue
      a'.con.tmpChunkLen := by
  refine ⟨{ a with con := { a.con with fileFinished := true }.appendBody [] }, ?_, rfl⟩
  have hcontent := content_appendBody_end fs { a.con with fileFinished := true }
  simp only [proxyEvent, proxyDemuxResponse, Option.map_some, hcontent, List.drop_left]
  rfl

/-- The response to the bytes that were sent: which it is, and the body in the queue. -/
structure Delivers (a : ProxyAnswer) (out : Bytes) (con : BackendConnection) (text : Bytes) :
    Prop where
  finished : con.fileFinished = true
  header : HasHeaderOf a out con
  body : CarriesBody con text (responseBody out)

def proxyFinished (a : ProxyAnswer) (out : Bytes) : Option BackendConnection :=
  match firstOccurrence crlfCrlf out with
  | some c => proxyStarted a.con (out.take (c + 4))
  | none => some a.con

/-- **One way of cutting.** -/
theorem proxyRun_delivers (fs : Files) (hfresh : ProxyFresh a) {out : Bytes} {evs : List ProxyEvent}
    (h : SendsResponse out evs) : ∃ a' text con, proxyRun fs a evs = some (a', text) ∧
      proxyFinished a out = some con ∧
      a'.con = ({ con with fileFinished := true }).withQueue a'.con.writeQueue a'.con.tmpChunkLen ∧
      Delivers a out a'.con text := by
  obtain ⟨reads, rfl, hreads, rfl⟩ := h
  obtain ⟨a₁, sent, hrun, hprogress⟩ := proxyRun_progress hfresh hreads (hfresh.progress fs)
  rw [List.nil_append, List.nil_append] at hprogress
  obtain ⟨a', hclosed, hcon'⟩ := proxyEvent_closed fs a₁
  have hall : proxyRun fs a (reads ++ [.io .closed]) = some (a', sent ++ bodyEnd a₁.con) := by
    rw [proxyRun_append, hrun]
    simp only [Option.bind_some, proxyRun, hclosed, Option.bind_eq_bind, Option.map_some,
      List.append_nil]
  generalize (reads.map ProxyEvent.text).flatten = out at hprogress ⊢
  cases hfound : firstOccurrence crlfCrlf out with
  | none =>
    obtain ⟨hcon, -, -, rfl⟩ := hprogress.collected hfound
    rw [hcon] at hcon'
    refine ⟨a', _, a.con, hall, ?_, hcon', ?_, ?_, ?_⟩
    · unfold proxyFinished
      rw [hfound]
    · rw [hcon']
      rfl
    · unfold HasHeaderOf
      rw [hfound, hcon']
      exact ⟨rfl, rfl⟩
    · have hcarries := @carriesBody_pieces fs a₁.con [] (fun p hp => nomatch hp)
      unfold responseBody
      rw [hfound, hcon']
      rw [hcon] at hcarries ⊢
      exact hcarries
  | some c =>
    obtain ⟨con, pieces, hstart, hcon, -, hpieces, hflat, rfl⟩ := hprogress.started c hfound
    rw [hcon] at hcon'
    refine ⟨a', _, con, hall, ?_, hcon', ?_, ?_, ?_⟩
    · unfold proxyFinished
      rw [hfound]
      exact hstart
    · rw [hcon']
      rfl
    · unfold HasHeaderOf
      rw [hfound]
      obtain ⟨head, hstart', hparse⟩ := @proxyStarted_parse _ a.con a.con _ _ _ rfl
        hfresh.tidy a.parseResponse _ (text_textBuffer (out.take (c + 4)))
      obtain rfl := Option.some.inj (hstart.symm.trans hstart')
      refine ⟨_, _, hparse, ?_, ?_⟩
      · rw [hcon']
        exact (startBody_header head).1
      · rw [hcon']
        exact (startBody_header head).2
    · have hcarries := @carriesBody_pieces fs con _ hpieces
      unfold responseBody
      rw [hfound, hcon', hcon]
      rw [hflat] at hcarries
      exact hcarries

/-- A response does not depend on the way it is cut: status and fields are those of the header, and
the body is what follows it. -/
theorem proxyDemuxResponse_segments (hfresh : ProxyFresh a) {out : Bytes}
    {evs evs' : List ProxyEvent} (h : SendsResponse out evs) (h' : SendsResponse out evs') :
    ∃ b b' text text',
    proxyRun fs a evs = some (b, text) ∧ proxyRun fs a evs' = some (b', text') ∧
      b'.con = b.con.withQueue b'.con.writeQueue b'.con.tmpChunkLen ∧
      Delivers a out b.con text ∧ Delivers a out b'.con text' := by
  obtain ⟨b, text, con, hrun, hcon, hb, hdelivers⟩ := proxyRun_delivers fs hfresh h
  obtain ⟨b', text', con', hrun', hcon', hb', hdelivers'⟩ := proxyRun_delivers fs hfresh h'
  obtain rfl := Option.some.inj (hcon.symm.trans hcon')
  refine ⟨b, b', text, text', hrun, hrun', ?_, hdelivers, hdelivers'⟩
  rw [hb', hb]
  rfl

end Run

section Examples

def proxyHead : Bytes := ascii "HTTP/1.0 200 OK\r\nA: b\r\n\r"

def proxyTail : Bytes := ascii "\nhi"

def waitingProxy : ProxyAnswer :=
  ⟨waitingAnswer.hctx.remoteConn, false, bufferInit, bufferInit, bufferInit⟩

theorem proxyFresh_waitingProxy : ProxyFresh waitingProxy := ⟨rfl, rfl, rfl, tidy_arrayInit⟩

theorem sendsResponse_whole {out : Bytes} (hne : out ≠ []) (hlt : out.length < 2 ^ 31) :
    SendsResponse out [.io (.data out.length out), .io .closed] := by
  refine ⟨[.io (.data out.length out)], rfl, ?_, ?_⟩
  · intro ev hev
    obtain rfl := List.mem_singleton.mp hev
    exact ⟨hne, le_refl _, hlt⟩
  · exact List.flatten_singleton

/-- All at once, and with a cut in the blank line. -/
theorem proxyDemuxResponse_segments_cut : ∃ b b' text text',
    @proxyRun zeroMalloc ⟨[], []⟩ waitingProxy
        [.io (.data 27 (proxyHead ++ proxyTail)), .io .closed] = some (b, text) ∧
    @proxyRun zeroMalloc ⟨[], []⟩ waitingProxy
        [.io (.data 40 proxyHead), .io (.again 3), .io (.data 3 proxyTail), .io .closed] =
      some (b', text') ∧
    b'.con = b.con.withQueue b'.con.writeQueue b'.con.tmpChunkLen ∧
    @Delivers zeroMalloc waitingProxy (proxyHead ++ proxyTail) b.con text ∧
    @Delivers zeroMalloc waitingProxy (proxyHead ++ proxyTail) b'.con text' := by
  refine @proxyDemuxResponse_segments zeroMalloc _ _ proxyFresh_waitingProxy _ _ _
    (sendsResponse_whole (by decide) (by decide)) ?_
  refine ⟨[.io (.data 40 proxyHead), .io (.again 3), .io (.data 3 proxyTail)], rfl, ?_, by decide⟩
  intro ev hev
  simp only [List.mem_cons, List.not_mem_nil, or_false] at hev
  rcases hev with rfl | rfl | rfl
  · exact ⟨by decide, by decide, by decide⟩
  · trivial
  · exact ⟨by decide, by decide, by decide⟩

end Examples

end Lighttpd
