import Lighttpd.HttpChunk
import Lighttpd.Lib.Outlet
import Lighttpd.NetworkWritev
import Lighttpd.QueueContent

/-!
# `network.c` and `network_linux_sendfile.c`: a queue is written

The writer goes through the queue in rounds: the memory chunks at the front go to `writev` together,
a file chunk to `sendfile`. Behind each round the socket has a prefix of what was queued, the queue
has the rest, and `bytes_out` counts what was sent. A call returns 0 if and only if nothing is left,
but for one that finds the global traffic limit reached (`networkWriteChunkqueue_streams`). So a
chunked body arrives as it was meant (`chunkedBody_arrives`).

The files stay as they are, and an open descriptor of a chunk is one of its file. `TCP_CORK` changes
nothing here, and a connection with SSL has another writer.
-/

namespace Lighttpd

open CLib

/-! ## The rounds -/

def UIO_MAXIOV : Nat := 1024

/-- What the system answers in a round: `open`, then `writev` or `sendfile`, which says `again` for
`EAGAIN` and `EINTR`, and the size in the status of the file. -/
structure WriterAnswers where
  openFd : Option Nat
  reply : WriteReply
  stSize : Option Int

/-- The queue, the number of the chunk `c`, which is `chunks_written`, and what the socket has
accepted. -/
structure WriterState where
  cq : Chunkqueue
  chunksWritten : Nat
  out : Bytes

/-- The chunks from `c` on. -/
def WriterState.rest (st : WriterState) : List Chunk := st.cq.first.drop st.chunksWritten

inductive RoundEnd where
  | error (code : Int)
  | unfinished
  | finished
  deriving DecidableEq, Repr

/-- The memory chunks that go to `writev`. -/
def memGroup (cs : List Chunk) : List Chunk := (cs.takeWhile (·.type == .mem)).take UIO_MAXIOV

/-- The list for `writev`, behind `numBytes` bytes. -/
def writevList : List Chunk → Nat → List Bytes
  | [], _ => []
  | c :: cs, numBytes =>
    if c.mem.used = 0 then [] :: writevList cs numBytes
    else
      -- `size_t`; the sum of two numbers up to `SSIZE_MAX` is one, too
      let toSend := (((c.mem.used : Int) - 1 - c.offset) % 2 ^ 32).toNat
      let offset := c.mem.ptr.drop c.offset.toNat
      if toSend > SSIZE_MAX ∨ numBytes + toSend > SSIZE_MAX then
        [offset.take (SSIZE_MAX - numBytes)]
      else offset.take toSend :: writevList cs (numBytes + toSend)

/-- "check which chunks have been written": the chunks, `chunk_finished`, and `chunks_written`,
which moves with `c`. -/
def countWritten : List Bytes → List Chunk → Nat → Bool → Nat → List Chunk × Bool × Nat
  | iov :: iovs, c :: cs, r, finished, written =>
    if iov.length ≤ r then
      let (cs, finished, written) := countWritten iovs cs (r - iov.length) true
        (if finished then written + 1 else written)
      ({ c with offset := c.offset + iov.length } :: cs, finished, written)
    else ({ c with offset := c.offset + r } :: cs, false, written)
  | _, cs, _, finished, written => (cs, finished, written)

def Chunk.withFd (c : Chunk) (fd : Option Nat) : Chunk :=
  { c with file := { c.file with fd := fd } }

namespace WriterState

/-- Other chunks from `c` on. -/
def setRest (st : WriterState) (cs : List Chunk) : WriterState :=
  { st with cq := { st.cq with first := st.cq.first.take st.chunksWritten ++ cs } }

/-- The socket has accepted `r` bytes of these. -/
def accept (st : WriterState) (s : Bytes) (r : Nat) : WriterState :=
  { st with cq := { st.cq with bytesOut := st.cq.bytesOut + r }, out := st.out ++ s.take r }

def writtenMem (st : WriterState) (iovs : List Bytes) (r : Nat) : RoundEnd × WriterState :=
  let (cs, finished, written) := countWritten iovs st.rest r false st.chunksWritten
  (if finished then .finished else .unfinished,
    { (st.accept iovs.flatten r).setRest cs with chunksWritten := written })

/-- The case `MEM_CHUNK`. -/
def memRound (st : WriterState) (ans : WriterAnswers) : RoundEnd × WriterState :=
  let iovs := writevList (memGroup st.rest) 0
  match ans.reply with
  | .wrote r => st.writtenMem iovs r
  | .again => st.writtenMem iovs 0
  | .closed => (.error (-2), st)
  | .failed => (.error (-1), st)

def writtenFile (st : WriterState) (c : Chunk) (cs : List Chunk) (s : Bytes) (r : Nat) :
    RoundEnd × WriterState :=
  let c := { c with offset := c.offset + r }
  if c.offset = c.file.length then
    (.finished, (st.accept s r).setRest (c.withFd none :: cs))
  else (.unfinished, (st.accept s r).setRest (c :: cs))

/-- What `sendfile` is asked for. -/
def fileToSend (c : Chunk) : Int :=
  if c.file.length - c.offset > 2 ^ 30 - 1 then 2 ^ 30 - 1 else c.file.length - c.offset

/-- The case `FILE_CHUNK`. -/
def fileRound (fs : Files) (st : WriterState) (c : Chunk) (cs : List Chunk) (ans : WriterAnswers) :
    RoundEnd × WriterState :=
  let offset := c.file.start + c.offset
  match c.file.fd <|> ans.openFd with
  | none => (.error (-1), st)
  | some fd =>
    let c := c.withFd (some fd)
    let st := st.setRest (c :: cs)
    let part := fs.part c.file.name.str offset (fileToSend c)
    match ans.reply with
    | .wrote 0 =>
      match ans.stSize with
      | none => (.error (-1), st)
      | some stSize => if offset > stSize then (.error (-1), st) else (.error (-2), st)
    | .wrote r => st.writtenFile c cs part r
    | .again => st.writtenFile c cs part 0
    | .closed => (.error (-2), st)
    | .failed => (.error (-1), st)

def round (fs : Files) (st : WriterState) (c : Chunk) (cs : List Chunk) (ans : WriterAnswers) :
    RoundEnd × WriterState :=
  match c.type with
  | .mem => st.memRound ans
  | .file => st.fileRound fs c cs ans
  | .unused => (.error (-1), st)

end WriterState

/-- `network_write_chunkqueue_linuxsendfile`. There is an answer for each round; as long as the
system has not answered, nothing is returned. -/
def networkWriteChunkqueueLinuxsendfile (fs : Files) :
    List WriterAnswers → WriterState → Option Int × WriterState
  | [], st =>
    match st.rest with
    | [] => (some st.chunksWritten, st)
    | _ :: _ => (none, st)
  | ans :: answers, st =>
    match st.rest with
    | [] => (some st.chunksWritten, st)
    | c :: cs =>
      match st.round fs c cs ans with
      | (.error code, st) => (some code, st)
      | (.unfinished, st) => (some st.chunksWritten, st)
      | (.finished, st) =>
        networkWriteChunkqueueLinuxsendfile fs answers
          { st with chunksWritten := st.chunksWritten + 1 }

/-! ## The call -/

structure Traffic where
  kbytesPerSecond : Nat
  globalKbytesPerSecond : Nat
  globalBytesPerSecondCnt : Int
  bytesWrittenCurSecond : Int
  trafficLimitReached : Bool
  deriving DecidableEq, Repr

/-- What `network_write_chunkqueue` uses of the connection, and what its socket has accepted. -/
structure WritingConnection where
  writeQueue : Chunkqueue
  bytesWritten : Int
  traffic : Traffic
  out : Bytes
  deriving DecidableEq, Repr

def Traffic.GlobalLimit (t : Traffic) : Prop :=
  t.globalKbytesPerSecond ≠ 0 ∧ t.globalBytesPerSecondCnt > (t.globalKbytesPerSecond : Int) * 1024

instance (t : Traffic) : Decidable t.GlobalLimit := inferInstanceAs (Decidable (_ ∧ _))

def Traffic.count (t : Traffic) (written : Int) : Traffic :=
  let t := { t with
    bytesWrittenCurSecond := t.bytesWrittenCurSecond + written
    globalBytesPerSecondCnt := t.globalBytesPerSecondCnt + written }
  if t.kbytesPerSecond ≠ 0 ∧ t.bytesWrittenCurSecond > (t.kbytesPerSecond : Int) * 1024 then
    { t with trafficLimitReached := true }
  else t

/-- `network_write_chunkqueue`, with the writer for `sendfile` of Linux. -/
def networkWriteChunkqueue (fs : Files) (con : WritingConnection) (answers : List WriterAnswers) :
    Option Int × WritingConnection :=
  if con.traffic.GlobalLimit then
    (some 1, { con with traffic := { con.traffic with trafficLimitReached := true } })
  else
    match networkWriteChunkqueueLinuxsendfile fs answers ⟨con.writeQueue, 0, con.out⟩ with
    | (none, st) => (none, { con with writeQueue := st.cq, out := st.out })
    | (some ret, st) =>
      let cq := if 0 ≤ ret then (chunkqueueRemoveFinishedChunks st.cq).1 else st.cq
      let ret := if 0 ≤ ret then if cq.first = [] then 0 else 1 else ret
      let written := cq.bytesOut - con.writeQueue.bytesOut
      (some ret,
        { con with
          writeQueue := cq
          bytesWritten := con.bytesWritten + written
          traffic := con.traffic.count written
          out := st.out })

/-! ## Runs -/

def WriterState.offered (fs : Files) (st : WriterState) : Bytes :=
  match st.rest with
  | [] => []
  | c :: _ =>
    match c.type with
    | .mem => (writevList (memGroup st.rest) 0).flatten
    | .file => fs.part c.file.name.str (c.file.start + c.offset) (WriterState.fileToSend c)
    | .unused => []

/-- A part of it is accepted, or nothing for now; of a file that is there `sendfile` never sends 0
bytes. -/
def WriterAnswers.Accepts (fs : Files) (st : WriterState) (ans : WriterAnswers) : Prop :=
  ans.openFd.isSome ∧
    (ans.reply = .again ∨ ∃ r, ans.reply = .wrote r ∧ r ≤ (st.offered fs).length ∧
      ((st.rest.head?.map (·.type)) = some .file → 0 < r))

def AcceptsAll (fs : Files) : List WriterAnswers → WriterState → Prop
  | [], _ => True
  | ans :: answers, st => ∀ c cs, st.rest = c :: cs → ans.Accepts fs st ∧
      ∀ st', st.round fs c cs ans = (.finished, st') →
        AcceptsAll fs answers { st' with chunksWritten := st'.chunksWritten + 1 }

def WritingConnection.AcceptsAll (fs : Files) (con : WritingConnection)
    (answers : List WriterAnswers) : Prop :=
  Lighttpd.AcceptsAll fs answers ⟨con.writeQueue, 0, con.out⟩

/-- Calls that have returned; between two of them the limits and the counters of the traffic may
change. -/
inductive WriterRun (fs : Files) (con₀ : WritingConnection) : WritingConnection → Prop
  | start : WriterRun fs con₀ con₀
  | call {con con' : WritingConnection} {answers : List WriterAnswers} {ret : Int}
      (before : WriterRun fs con₀ con) (accepts : con.AcceptsAll fs answers)
      (run : networkWriteChunkqueue fs con answers = (some ret, con')) : WriterRun fs con₀ con'
  | traffic {con : WritingConnection} (before : WriterRun fs con₀ con) (traffic : Traffic) :
      WriterRun fs con₀ { con with traffic := traffic }

structure Chunk.MemQueued (c : Chunk) : Prop where
  type : c.type = .mem
  wf : c.mem.WF
  offset : 0 ≤ c.offset
  inText : c.mem.used ≠ 0 → c.offset ≤ (c.mem.used : Int) - 1

structure Chunk.FileQueued (fs : Files) (c : Chunk) : Prop where
  type : c.type = .file
  offset : 0 ≤ c.offset
  left : c.offset < c.file.length
  file : fs.Has c.file.name.str c.file.start c.file.length

def Chunk.Queued (fs : Files) (c : Chunk) : Prop := c.MemQueued ∨ c.FileQueued fs

def memTotal (cs : List Chunk) : Nat :=
  (cs.map fun c => if c.type = .mem then c.unread.length else 0).sum

structure Chunkqueue.Writable (fs : Files) (cq : Chunkqueue) : Prop where
  queued : ∀ c ∈ cq.first, c.Queued fs
  total : memTotal cq.first ≤ SSIZE_MAX

def WriterState.outlet (fs : Files) (st : WriterState) : Outlet UInt8 :=
  ⟨st.out, st.cq.content fs, st.cq.bytesOut⟩

def WritingConnection.outlet (fs : Files) (con : WritingConnection) : Outlet UInt8 :=
  ⟨con.out, con.writeQueue.content fs, con.writeQueue.bytesOut⟩

/-- At each moment of each call of a run the bytes are streamed, and 0 is returned if and only if
nothing is left. -/
def FaithfulWriter (fs : Files) (con₀ : WritingConnection) : Prop :=
  ∀ con answers res con', WriterRun fs con₀ con → con.AcceptsAll fs answers →
    networkWriteChunkqueue fs con answers = (res, con') →
      (con₀.outlet fs).Streams (con'.outlet fs) ∧
        ∀ ret, res = some ret → (ret = 0 ↔ con'.writeQueue.content fs = [])

/-- What a call does at the global limit, and what it returns below it. There it returns if there is
an answer for each chunk. -/
structure WriterReturns (fs : Files) (con : WritingConnection) (answers : List WriterAnswers)
    (res : Option Int) (con' : WritingConnection) : Prop where
  limited : con.traffic.GlobalLimit →
    res = some 1 ∧ con'.writeQueue = con.writeQueue ∧ con'.out = con.out
  zero : ¬ con.traffic.GlobalLimit → ∀ ret, res = some ret →
    (ret = 0 ↔ con'.writeQueue.content fs = []) ∧ (ret = 0 ∨ ret = 1)
  returns : con.writeQueue.first.length ≤ answers.length → res.isSome

section Chunks

variable {fs : Files} {c : Chunk} {cs : List Chunk}

theorem Chunk.MemQueued.content (h : c.MemQueued) : c.content fs = c.unread := by
  unfold Chunk.content
  rw [h.type]

theorem Chunk.FileQueued.content (h : c.FileQueued fs) : c.content fs =
    fs.part c.file.name.str (c.file.start + c.offset) (c.file.length - c.offset) := by
  unfold Chunk.content
  rw [h.type]
  rfl

theorem Chunk.MemQueued.length_unread (h : c.MemQueued) : (c.unread.length : Int) =
    if c.mem.used = 0 then 0 else (c.mem.used : Int) - 1 - c.offset := by
  have hwf : c.mem.used ≤ c.mem.ptr.length := h.wf
  have hoffset := h.offset
  rw [Chunk.unread, List.length_take, List.length_drop]
  split
  · omega
  · next hused =>
    have hin := h.inText hused
    omega

theorem Chunk.MemQueued.advance (h : c.MemQueued) {r : Nat} (hr : r ≤ c.unread.length) :
    { c with offset := c.offset + r : Chunk }.MemQueued ∧
      { c with offset := c.offset + r : Chunk }.unread = c.unread.drop r := by
  have hoffset := h.offset
  have hlength := h.length_unread
  refine ⟨⟨h.type, h.wf, ?_, ?_⟩, ?_⟩
  · show 0 ≤ c.offset + r
    omega
  · intro hused
    rw [if_neg hused] at hlength
    show c.offset + r ≤ (c.mem.used : Int) - 1
    omega
  · have hplace : (c.offset + r).toNat = c.offset.toNat + r := by omega
    rw [Chunk.unread_eq, Chunk.unread_eq, List.drop_drop]
    dsimp only
    rw [hplace]

theorem Chunk.MemQueued.finished_iff (h : c.MemQueued) :
    chunkIsFinished c = true ↔ c.unread = [] := by
  have hlength := h.length_unread
  unfold chunkIsFinished
  rw [h.type]
  simp only [Bool.or_eq_true, beq_iff_eq]
  rw [← List.length_eq_zero_iff]
  split at hlength
  · omega
  · omega

theorem Chunk.FileQueued.length_content (h : c.FileQueued fs) :
    ((c.content fs).length : Int) = c.file.length - c.offset := by
  obtain ⟨hstart, hlen, s, hs, hle⟩ := h.file
  have hoffset := h.offset
  have hleft := h.left
  rw [h.content]
  exact fs.length_part ⟨by omega, by omega, s, hs, by omega⟩

theorem Chunk.FileQueued.not_finished (h : c.FileQueued fs) : chunkIsFinished c = false := by
  have hleft := h.left
  unfold chunkIsFinished
  rw [h.type]
  exact beq_eq_false_iff_ne.mpr (by omega)

theorem Chunk.Queued.finished_iff (h : c.Queued fs) :
    chunkIsFinished c = true ↔ c.content fs = [] := by
  rcases h with h | h
  · rw [h.content]
    exact h.finished_iff
  · have hlength := h.length_content
    have hleft := h.left
    rw [h.not_finished, ← List.length_eq_zero_iff]
    constructor
    · intro hfalse
      nomatch hfalse
    · omega

theorem memTotal_append (cs ds : List Chunk) : memTotal (cs ++ ds) = memTotal cs + memTotal ds := by
  unfold memTotal
  rw [List.map_append, List.sum_append]

theorem memTotal_mem (h : ∀ c ∈ cs, c.MemQueued) :
    memTotal cs = (cs.map Chunk.unread).flatten.length := by
  induction cs with
  | nil => rfl
  | cons c cs ih =>
    obtain ⟨hc, hcs⟩ := List.forall_mem_cons.mp h
    have hcons : memTotal (c :: cs) = c.unread.length + memTotal cs := by
      unfold memTotal
      rw [List.map_cons, List.sum_cons, if_pos hc.type]
    rw [hcons, ih hcs, List.map_cons, List.flatten_cons, List.length_append]

end Chunks

section Mem

variable {cs : List Chunk} {r n : Nat}

theorem writevList_eq (h : ∀ c ∈ cs, c.MemQueued) {numBytes : Nat}
    (htotal : numBytes + (cs.map Chunk.unread).flatten.length ≤ SSIZE_MAX) :
    writevList cs numBytes = cs.map Chunk.unread := by
  induction cs generalizing numBytes with
  | nil => rfl
  | cons c cs ih =>
    obtain ⟨hc, hcs⟩ := List.forall_mem_cons.mp h
    have hlength := hc.length_unread
    rw [List.map_cons, List.flatten_cons, List.length_append] at htotal
    unfold writevList
    rw [List.map_cons]
    by_cases hused : c.mem.used = 0
    · rw [if_pos hused] at hlength
      have hnil : c.unread = [] := List.length_eq_zero_iff.mp (by omega)
      rw [if_pos hused, hnil, ih hcs (by omega)]
    · rw [if_neg hused] at hlength
      have hmax : SSIZE_MAX = 2147483647 := rfl
      have hsend : (((c.mem.used : Int) - 1 - c.offset) % 2 ^ 32).toNat = c.unread.length := by
        omega
      have hrest : c.mem.used - c.offset.toNat - 1 = c.unread.length := by
        have hoffset := hc.offset
        omega
      dsimp only
      rw [if_neg hused, hsend, if_neg (by omega), ih hcs (by omega)]
      congr 1
      conv_rhs => rw [Chunk.unread, hrest]

/-- The chunks of the list are `r` bytes further on, and none else. If the last one is finished `c`
is the last one. -/
theorem countWritten_spec (h : ∀ c ∈ cs, c.MemQueued)
    (hr : r ≤ (cs.map Chunk.unread).flatten.length) (tail : List Chunk) (finished : Bool)
    (written : Nat) : ∃ cs' finished' written',
      countWritten (cs.map Chunk.unread) (cs ++ tail) r finished written =
        (cs' ++ tail, finished', written') ∧
      cs'.length = cs.length ∧ (∀ c ∈ cs', c.MemQueued) ∧
      cs'.map Chunk.unread = Gathered.advance (cs.map Chunk.unread) r ∧
      (finished' = true → r = (cs.map Chunk.unread).flatten.length ∧
        written' + 1 = written + finished.toNat + cs.length) := by
  induction cs generalizing r finished written with
  | nil =>
    refine ⟨[], finished, written, ?_, rfl, by simp, rfl, ?_⟩
    · unfold countWritten
      rfl
    · rintro rfl
      rw [List.map_nil, List.flatten_nil, List.length_nil] at hr
      exact ⟨Nat.le_zero.mp hr, rfl⟩
  | cons c cs ih =>
    obtain ⟨hc, hcs⟩ := List.forall_mem_cons.mp h
    rw [List.map_cons, List.flatten_cons, List.length_append] at hr ⊢
    rw [List.cons_append]
    unfold countWritten Gathered.advance
    by_cases hle : c.unread.length ≤ r
    · obtain ⟨hmem, hunread⟩ := hc.advance (Nat.le_refl _)
      obtain ⟨cs', finished', written', hrun, hlength, hmems, hunreads, hlast⟩ :=
        ih hcs (r := r - c.unread.length) (by omega) true
          (if finished then written + 1 else written)
      rw [if_pos hle, hrun]
      refine ⟨_ :: cs', finished', written', rfl, congrArg (· + 1) hlength,
        List.forall_mem_cons.mpr ⟨hmem, hmems⟩, ?_, ?_⟩
      · rw [List.map_cons, hunread, hunreads, List.drop_length, List.drop_eq_nil_of_le hle]
      · intro hfinished
        obtain ⟨hall, hwritten⟩ := hlast hfinished
        refine ⟨by omega, ?_⟩
        rw [List.length_cons]
        cases finished with
        | false =>
          simp only [Bool.false_eq_true, if_false, Bool.toNat_true, Bool.toNat_false] at hwritten ⊢
          omega
        | true =>
          simp only [if_true, Bool.toNat_true] at hwritten ⊢
          omega
    · obtain ⟨hmem, hunread⟩ := hc.advance (r := r) (by omega)
      rw [if_neg hle]
      refine ⟨_ :: cs, false, written, rfl, rfl, List.forall_mem_cons.mpr ⟨hmem, hcs⟩, ?_,
        fun hfalse => by cases hfalse⟩
      rw [List.map_cons, hunread, Nat.sub_eq_zero_of_le (by omega), Gathered.advance_zero]

theorem memGroup_spec {fs : Files} (h : ∀ c ∈ cs, c.Queued fs) :
    (∀ c ∈ memGroup cs, c.MemQueued) ∧ ∃ tail, cs = memGroup cs ++ tail := by
  constructor
  · intro c hc
    have hwhile := List.mem_of_mem_take hc
    have htype : c.type = .mem := by
      have hmem := List.mem_takeWhile_imp hwhile
      exact beq_iff_eq.mp hmem
    rcases h c ((List.takeWhile_sublist _).subset hwhile) with hmem | hfile
    · exact hmem
    · nomatch htype.symm.trans hfile.type
  · obtain ⟨tail, htail⟩ := (List.take_prefix UIO_MAXIOV _).trans (List.takeWhile_prefix
      (fun c : Chunk => c.type == .mem) (l := cs))
    exact ⟨tail, htail.symm⟩

end Mem

/-! ## A round -/

/-- The chunks in front are finished, and the others are as they may be queued. -/
structure Chunkqueue.Split (fs : Files) (cq : Chunkqueue) (front rest : List Chunk) : Prop where
  first : cq.first = front ++ rest
  finished : ∀ c ∈ front, chunkIsFinished c = true ∧ c.content fs = []
  queued : ∀ c ∈ rest, c.Queued fs
  total : memTotal rest ≤ SSIZE_MAX

/-- What a round has done: it has ended, or `c` is the last of the chunks that are finished. -/
structure RoundDone (fs : Files) (st : WriterState) (e : RoundEnd) (st' : WriterState) : Prop where
  streams : (st.outlet fs).Streams (st'.outlet fs)
  split : ∃ front rest, st'.cq.Split fs front rest ∧ (e = .unfinished ∨
    e = .finished ∧ front.length = st'.chunksWritten + 1 ∧ rest.length < st.rest.length)

section Rounds

variable {fs : Files} {st : WriterState} {cq : Chunkqueue} {front rest cs : List Chunk} {c : Chunk}
  {ans : WriterAnswers} {r : Nat}

theorem flatten_content_nil (h : ∀ c ∈ cs, c.content fs = []) :
    (cs.map (Chunk.content fs)).flatten = [] := by
  refine List.flatten_eq_nil_iff.mpr fun s hs => ?_
  obtain ⟨c, hc, rfl⟩ := List.mem_map.mp hs
  exact h c hc

theorem Chunkqueue.Split.content (h : cq.Split fs front rest) :
    cq.content fs = (rest.map (Chunk.content fs)).flatten := by
  unfold Chunkqueue.content
  rw [h.first, List.map_append, List.flatten_append,
    flatten_content_nil fun c hc => (h.finished c hc).2, List.nil_append]

theorem Chunkqueue.Split.rest_eq (h : st.cq.Split fs front rest)
    (hn : front.length = st.chunksWritten) : st.rest = rest := by
  unfold WriterState.rest
  rw [h.first, ← hn, List.drop_left]

theorem first_setRest (h : st.cq.first = front ++ rest) (hn : front.length = st.chunksWritten)
    (cs : List Chunk) : (st.setRest cs).cq.first = front ++ cs := by
  unfold WriterState.setRest
  dsimp only
  rw [h, ← hn, List.take_left]

theorem flatten_content_mem (h : ∀ c ∈ cs, c.MemQueued) :
    (cs.map (Chunk.content fs)).flatten = (cs.map Chunk.unread).flatten := by
  rw [List.map_congr_left fun c hc => (h c hc).content]

theorem accept_streams (hsplit : st.cq.Split fs front rest) (hn : front.length = st.chunksWritten)
    {s : Bytes} (hs : s <+: st.cq.content fs) (hr : r ≤ s.length)
    (hleft : (cs.map (Chunk.content fs)).flatten = (st.cq.content fs).drop r) :
    ((st.accept s r).setRest cs).cq.first = front ++ cs ∧
      (st.outlet fs).Streams (((st.accept s r).setRest cs).outlet fs) := by
  have hfirst : ((st.accept s r).setRest cs).cq.first = front ++ cs :=
    first_setRest hsplit.first hn cs
  have hprefix := hs.length_le
  refine ⟨hfirst, Outlet.streams_take (n := r) (hr.trans hprefix) ?_ ?_ rfl⟩
  · show st.out ++ s.take r = st.out ++ (st.cq.content fs).take r
    conv_lhs => rw [List.prefix_iff_eq_take.mp hs, List.take_take, Nat.min_eq_left hr]
  · show Chunkqueue.content fs _ = (st.cq.content fs).drop r
    unfold Chunkqueue.content at hleft ⊢
    rw [hfirst, List.map_append, List.flatten_append,
      flatten_content_nil fun c hc => (hsplit.finished c hc).2, List.nil_append, hleft]

theorem writtenMem_done (hsplit : st.cq.Split fs front (cs ++ rest))
    (hn : front.length = st.chunksWritten) (hmem : ∀ c ∈ cs, c.MemQueued) (hne : cs ≠ [])
    (hr : r ≤ (cs.map Chunk.unread).flatten.length) :
    ∃ e st', st.writtenMem (cs.map Chunk.unread) r = (e, st') ∧ RoundDone fs st e st' := by
  have hrest := hsplit.rest_eq hn
  obtain ⟨cs', finished, written, hcount, hlength, hmem', hunread, hlast⟩ :=
    countWritten_spec hmem hr rest false st.chunksWritten
  have hflat : (cs'.map Chunk.unread).flatten = (cs.map Chunk.unread).flatten.drop r := by
    rw [hunread, Gathered.flatten_advance]
  have hold : st.cq.content fs =
      (cs.map Chunk.unread).flatten ++ (rest.map (Chunk.content fs)).flatten := by
    rw [hsplit.content, List.map_append, List.flatten_append, flatten_content_mem hmem]
  have hleft : ((cs' ++ rest).map (Chunk.content fs)).flatten = (st.cq.content fs).drop r := by
    rw [hold, List.map_append, List.flatten_append, flatten_content_mem hmem', hflat,
      List.drop_append_of_le_length hr]
  obtain ⟨hfirst, hstreams⟩ := accept_streams hsplit hn ⟨_, hold.symm⟩ hr hleft
  have hqueued : ∀ c ∈ rest, c.Queued fs := fun c hc =>
    hsplit.queued c (List.mem_append_right _ hc)
  have htotal := hsplit.total
  rw [memTotal_append, memTotal_mem hmem] at htotal
  unfold WriterState.writtenMem
  rw [hrest, hcount]
  refine ⟨_, _, rfl, hstreams, ?_⟩
  cases finished with
  | false =>
    refine ⟨front, cs' ++ rest, ⟨hfirst, hsplit.finished, ?_, ?_⟩, Or.inl rfl⟩
    · intro c hc
      rcases List.mem_append.mp hc with hc | hc
      · exact Or.inl (hmem' c hc)
      · exact hqueued c hc
    · rw [memTotal_append, memTotal_mem hmem', hflat, List.length_drop]
      omega
  | true =>
    obtain ⟨hall, hwritten⟩ := hlast rfl
    refine ⟨front ++ cs', rest, ⟨?_, ?_, hqueued, by omega⟩, Or.inr ⟨rfl, ?_, ?_⟩⟩
    · rw [List.append_assoc]
      exact hfirst
    · intro c hc
      rcases List.mem_append.mp hc with hc | hc
      · exact hsplit.finished c hc
      · have hnil : c.unread = [] := Gathered.eq_nil_of_mem_advance (le_of_eq hall.symm)
          (hunread ▸ List.mem_map_of_mem hc)
        exact ⟨(hmem' c hc).finished_iff.mpr hnil, (hmem' c hc).content.trans hnil⟩
    · rw [List.length_append, hlength]
      simp only [Bool.toNat_false] at hwritten
      show front.length + cs.length = written + 1
      omega
    · have hpos := List.length_pos_of_ne_nil hne
      rw [hrest, List.length_append]
      omega

theorem memRound_done (hsplit : st.cq.Split fs front rest) (hn : front.length = st.chunksWritten)
    (hrest : rest = c :: cs) (htype : c.type = .mem) (hans : ans.Accepts fs st) :
    ∃ e st', st.memRound ans = (e, st') ∧ RoundDone fs st e st' := by
  obtain ⟨hmem, tail, htail⟩ := memGroup_spec hsplit.queued
  have hstate := hsplit.rest_eq hn
  have hne : memGroup rest ≠ [] := by
    have hwhile : (c :: cs).takeWhile (fun c => c.type == .mem) =
        c :: cs.takeWhile (fun c => c.type == .mem) :=
      List.takeWhile_cons_of_pos (beq_iff_eq.mpr htype)
    unfold memGroup
    rw [hrest, hwhile]
    exact List.cons_ne_nil _ _
  have htotal := hsplit.total
  rw [htail, memTotal_append, memTotal_mem hmem] at htotal
  have hlist : writevList (memGroup st.rest) 0 = (memGroup rest).map Chunk.unread := by
    rw [hstate]
    exact writevList_eq hmem (by omega)
  have hoffered : st.offered fs = ((memGroup rest).map Chunk.unread).flatten := by
    unfold WriterState.offered
    rw [hlist]
    simp only [hstate.trans hrest, htype]
  have hdone : ∀ r, r ≤ ((memGroup rest).map Chunk.unread).flatten.length →
      ∃ e st', st.writtenMem ((memGroup rest).map Chunk.unread) r = (e, st') ∧
        RoundDone fs st e st' :=
    fun r hr => writtenMem_done (htail ▸ hsplit) hn hmem hne hr
  unfold WriterState.memRound
  dsimp only
  rw [hlist]
  rcases hans.2 with hagain | ⟨r, hreply, hr, -⟩
  · rw [hagain]
    exact hdone 0 (Nat.zero_le _)
  · rw [hreply]
    rw [hoffered] at hr
    exact hdone r hr

theorem Chunk.FileQueued.advance (h : c.FileQueued fs) (hr : c.offset + r < c.file.length) :
    { c with offset := c.offset + r : Chunk }.FileQueued fs ∧
      { c with offset := c.offset + r : Chunk }.content fs = (c.content fs).drop r := by
  have hoffset := h.offset
  have hfile := h.file
  have hnext : { c with offset := c.offset + r : Chunk }.FileQueued fs := by
    refine ⟨h.type, ?_, hr, hfile⟩
    show 0 ≤ c.offset + r
    omega
  refine ⟨hnext, ?_⟩
  obtain ⟨hstart, -⟩ := hfile
  have hplace : (c.file.start + (c.offset + r)).toNat =
      (c.file.start + c.offset).toNat + r := by omega
  have hlength : (c.file.length - (c.offset + r)).toNat =
      (c.file.length - c.offset).toNat - r := by omega
  rw [hnext.content, h.content]
  unfold Files.part
  rw [List.drop_take, List.drop_drop, ← hplace, ← hlength]

theorem Chunk.FileQueued.part_prefix (h : c.FileQueued fs) :
    fs.part c.file.name.str (c.file.start + c.offset) (WriterState.fileToSend c) <+:
      c.content fs := by
  have hle : (WriterState.fileToSend c).toNat ≤ (c.file.length - c.offset).toNat := by
    unfold WriterState.fileToSend
    split
    · omega
    · exact Nat.le_refl _
  rw [h.content]
  exact List.take_prefix_take_left hle

theorem writtenFile_done (hsplit : st.cq.Split fs front (c :: cs))
    (hn : front.length = st.chunksWritten) (hfile : c.FileQueued fs) {part : Bytes}
    (hpart : part <+: c.content fs) (hr : r ≤ part.length) :
    ∃ e st', st.writtenFile c cs part r = (e, st') ∧ RoundDone fs st e st' := by
  have hlength := hfile.length_content
  have hprefix := hpart.length_le
  have hold : st.cq.content fs = c.content fs ++ (cs.map (Chunk.content fs)).flatten := by
    rw [hsplit.content, List.map_cons, List.flatten_cons]
  have hqueued : ∀ d ∈ cs, d.Queued fs := fun d hd => hsplit.queued d (List.mem_cons_of_mem c hd)
  have htotal := hsplit.total
  rw [← List.singleton_append, memTotal_append] at htotal
  have hstreams : ∀ c' : Chunk, c'.content fs = (c.content fs).drop r →
      ((st.accept part r).setRest (c' :: cs)).cq.first = front ++ c' :: cs ∧
        (st.outlet fs).Streams (((st.accept part r).setRest (c' :: cs)).outlet fs) := by
    intro c' hc'
    refine accept_streams hsplit hn (hpart.trans ⟨_, hold.symm⟩) hr ?_
    rw [hold, List.map_cons, List.flatten_cons, hc', List.drop_append_of_le_length (by omega)]
  unfold WriterState.writtenFile
  dsimp only
  by_cases hend : c.offset + r = c.file.length
  · have hdone : ({ c with offset := c.offset + r : Chunk }.withFd none).content fs = [] := by
      unfold Chunk.withFd Chunk.content
      dsimp only
      rw [hfile.type, hend, Int.sub_self]
      rfl
    have hfinished : chunkIsFinished ({ c with offset := c.offset + r : Chunk }.withFd none) := by
      unfold Chunk.withFd chunkIsFinished
      dsimp only
      rw [hfile.type]
      exact beq_iff_eq.mpr hend
    rw [if_pos hend]
    generalize { c with offset := c.offset + r : Chunk }.withFd none = c' at hdone hfinished ⊢
    have hnil : (c.content fs).drop r = [] := List.drop_eq_nil_of_le (by omega)
    obtain ⟨hfirst, hsend⟩ := hstreams c' (hdone.trans hnil.symm)
    refine ⟨_, _, rfl, hsend, front ++ [c'], cs, ⟨?_, ?_, hqueued, by omega⟩,
      Or.inr ⟨rfl, ?_, ?_⟩⟩
    · rw [List.append_assoc]
      exact hfirst
    · intro d hd
      rcases List.mem_append.mp hd with hd | hd
      · exact hsplit.finished d hd
      · obtain rfl := List.mem_singleton.mp hd
        exact ⟨hfinished, hdone⟩
    · rw [List.length_append]
      exact congrArg (· + 1) hn
    · rw [hsplit.rest_eq hn]
      exact Nat.lt_succ_self _
  · obtain ⟨hnext, hleft⟩ := hfile.advance (r := r) (by omega)
    obtain ⟨hfirst, hsend⟩ := hstreams _ hleft
    rw [if_neg hend]
    refine ⟨_, _, rfl, hsend, front, _ :: cs, ⟨hfirst, hsplit.finished, ?_, ?_⟩, Or.inl rfl⟩
    · exact List.forall_mem_cons.mpr ⟨Or.inr hnext, hqueued⟩
    · have hzero : memTotal [{ c with offset := c.offset + r : Chunk }] = 0 := by
        unfold memTotal
        rw [List.map_singleton, List.sum_singleton, if_neg]
        rw [hnext.type]
        exact fun h => nomatch h
      rw [← List.singleton_append, memTotal_append, hzero]
      omega

theorem withFd_split (hsplit : st.cq.Split fs front (c :: cs))
    (hn : front.length = st.chunksWritten) (hfile : c.FileQueued fs) (fd : Option Nat) :
    (c.withFd fd).FileQueued fs ∧
      (st.setRest (c.withFd fd :: cs)).cq.Split fs front (c.withFd fd :: cs) ∧
      (st.setRest (c.withFd fd :: cs)).outlet fs = st.outlet fs := by
  have hfile' : (c.withFd fd).FileQueued fs :=
    ⟨hfile.type, hfile.offset, hfile.left, hfile.file⟩
  have hmemory : memTotal (c.withFd fd :: cs) = memTotal (c :: cs) := rfl
  have hsplit' : (st.setRest (c.withFd fd :: cs)).cq.Split fs front (c.withFd fd :: cs) := by
    refine ⟨first_setRest hsplit.first hn _, hsplit.finished, ?_, hmemory ▸ hsplit.total⟩
    exact List.forall_mem_cons.mpr
      ⟨Or.inr hfile', fun d hd => hsplit.queued d (List.mem_cons_of_mem c hd)⟩
  refine ⟨hfile', hsplit', ?_⟩
  unfold WriterState.outlet
  rw [hsplit'.content, hsplit.content]
  rfl

theorem fileRound_done (hsplit : st.cq.Split fs front (c :: cs))
    (hn : front.length = st.chunksWritten) (hfile : c.FileQueued fs) (hans : ans.Accepts fs st) :
    ∃ e st', st.fileRound fs c cs ans = (e, st') ∧ RoundDone fs st e st' := by
  have hstate := hsplit.rest_eq hn
  have hoffered : st.offered fs =
      fs.part c.file.name.str (c.file.start + c.offset) (WriterState.fileToSend c) := by
    unfold WriterState.offered
    rw [hstate]
    simp only [hfile.type]
  have hhead : st.rest.head?.map (·.type) = some .file := by
    rw [hstate]
    exact congrArg some hfile.type
  obtain ⟨hopen, hreply⟩ := hans
  obtain ⟨fd, hfd⟩ : ∃ fd, (c.file.fd <|> ans.openFd) = some fd := by
    obtain ⟨fd, hfd⟩ := Option.isSome_iff_exists.mp hopen
    cases hold : c.file.fd with
    | none => exact ⟨fd, hfd⟩
    | some fd' => exact ⟨fd', rfl⟩
  obtain ⟨hfile', hsplit', houtlet⟩ := withFd_split hsplit hn hfile (some fd)
  have hdone : ∀ r, r ≤ (st.offered fs).length → ∃ e st',
      (st.setRest (c.withFd (some fd) :: cs)).writtenFile (c.withFd (some fd)) cs (st.offered fs)
        r = (e, st') ∧ RoundDone fs st e st' := by
    intro r hr
    have hpart : st.offered fs <+: (c.withFd (some fd)).content fs := by
      rw [hoffered]
      exact hfile'.part_prefix
    obtain ⟨e, st', hrun, hstreams, hrest⟩ := writtenFile_done hsplit' hn hfile' hpart hr
    rw [houtlet] at hstreams
    rw [hsplit'.rest_eq hn] at hrest
    refine ⟨e, st', hrun, hstreams, ?_⟩
    rw [hstate]
    exact hrest
  rw [hoffered] at hdone hreply
  unfold WriterState.fileRound
  rw [hfd]
  dsimp only
  rcases hreply with hagain | ⟨r, hwrote, hr, hpos⟩
  · rw [hagain]
    exact hdone 0 (Nat.zero_le _)
  · obtain ⟨n, rfl⟩ := Nat.exists_eq_succ_of_ne_zero (Nat.pos_iff_ne_zero.mp (hpos hhead))
    rw [hwrote]
    exact hdone (n + 1) hr

/-- **A round.** -/
theorem round_done (hsplit : st.cq.Split fs front (c :: cs)) (hn : front.length = st.chunksWritten)
    (hans : ans.Accepts fs st) :
    ∃ e st', st.round fs c cs ans = (e, st') ∧ RoundDone fs st e st' := by
  unfold WriterState.round
  rcases hsplit.queued c List.mem_cons_self with hmem | hfile
  · rw [hmem.type]
    exact memRound_done hsplit hn rfl hmem.type hans
  · rw [hfile.type]
    exact fileRound_done hsplit hn hfile hans

end Rounds

section Calls

variable {fs : Files} {cq : Chunkqueue} {front rest : List Chunk}

theorem networkWriteChunkqueueLinuxsendfile_streams {answers : List WriterAnswers}
    {st : WriterState} (hsplit : st.cq.Split fs front rest) (hn : front.length = st.chunksWritten)
    (haccepts : AcceptsAll fs answers st) :
    ∃ res st', networkWriteChunkqueueLinuxsendfile fs answers st = (res, st') ∧
      (st.outlet fs).Streams (st'.outlet fs) ∧ (∃ front' rest', st'.cq.Split fs front' rest') ∧
      (∀ ret, res = some ret → 0 ≤ ret) ∧ (rest.length ≤ answers.length → res.isSome) := by
  induction answers generalizing st front rest with
  | nil =>
    unfold networkWriteChunkqueueLinuxsendfile
    rw [hsplit.rest_eq hn]
    cases rest with
    | nil =>
      refine ⟨_, st, rfl, Outlet.Streams.refl _, ⟨_, _, hsplit⟩, fun ret hret => ?_, fun _ => rfl⟩
      obtain rfl := Option.some.inj hret
      exact Int.natCast_nonneg _
    | cons c cs =>
      exact ⟨none, st, rfl, Outlet.Streams.refl _, ⟨_, _, hsplit⟩, (fun ret hret => nomatch hret),
        fun hle => absurd hle (Nat.not_succ_le_zero _)⟩
  | cons ans answers ih =>
    have hrest := hsplit.rest_eq hn
    unfold networkWriteChunkqueueLinuxsendfile
    cases rest with
    | nil =>
      rw [hrest]
      refine ⟨_, st, rfl, Outlet.Streams.refl _, ⟨_, _, hsplit⟩, fun ret hret => ?_, fun _ => rfl⟩
      obtain rfl := Option.some.inj hret
      exact Int.natCast_nonneg _
    | cons c cs =>
      obtain ⟨hans, hnext⟩ := haccepts c cs hrest
      obtain ⟨e, st', hrun, hstreams, front', rest', hsplit', hend⟩ := round_done hsplit hn hans
      rw [hrest]
      dsimp only
      rw [hrun]
      rcases hend with rfl | ⟨rfl, hn', hlt⟩
      · refine ⟨_, st', rfl, hstreams, ⟨_, _, hsplit'⟩, fun ret hret => ?_, fun _ => rfl⟩
        obtain rfl := Option.some.inj hret
        exact Int.natCast_nonneg _
      · obtain ⟨res, st'', hloop, hstreams', hsettled, hnonneg, hreturns⟩ :=
          @ih front' rest' { st' with chunksWritten := st'.chunksWritten + 1 } hsplit' hn'
            (hnext st' hrun)
        refine ⟨res, st'', hloop, hstreams.trans hstreams', hsettled, hnonneg, fun hle => ?_⟩
        rw [hrest] at hlt
        rw [List.length_cons] at hlt
        rw [List.length_cons, List.length_cons] at hle
        exact hreturns (by omega)

theorem removeFinished_eq (cs unused : List Chunk) (n : Nat) :
    (removeFinished cs unused n).1 = cs.dropWhile chunkIsFinished := by
  induction cs generalizing unused n with
  | nil => rfl
  | cons c cs ih =>
    unfold removeFinished
    by_cases hfinished : chunkIsFinished c = true
    · rw [if_pos hfinished, List.dropWhile_cons_of_pos hfinished]
      exact ih _ _
    · rw [if_neg hfinished, List.dropWhile_cons_of_neg hfinished]

theorem Chunkqueue.Split.removeFinished (h : cq.Split fs front rest) :
    (chunkqueueRemoveFinishedChunks cq).1.Writable fs ∧
      (chunkqueueRemoveFinishedChunks cq).1.content fs = cq.content fs ∧
      ((chunkqueueRemoveFinishedChunks cq).1.first = [] ↔ cq.content fs = []) := by
  have hfirst : (chunkqueueRemoveFinishedChunks cq).1.first = rest.dropWhile chunkIsFinished := by
    have hall : ∀ c ∈ front, chunkIsFinished c = true := fun c hc => (h.finished c hc).1
    show (Lighttpd.removeFinished cq.first cq.unused cq.unusedChunks).1 = _
    rw [removeFinished_eq, h.first, List.dropWhile_append_of_pos hall]
  have hwhile : rest = rest.takeWhile chunkIsFinished ++ rest.dropWhile chunkIsFinished :=
    List.takeWhile_append_dropWhile.symm
  have hqueued : ∀ c ∈ rest.dropWhile chunkIsFinished, c.Queued fs := fun c hc =>
    h.queued c ((List.dropWhile_sublist _).subset hc)
  have hdone : ∀ c ∈ rest.takeWhile chunkIsFinished, c.content fs = [] := fun c hc =>
    (h.queued c ((List.takeWhile_sublist _).subset hc)).finished_iff.mp (List.mem_takeWhile_imp hc)
  have hcontent : cq.content fs =
      ((rest.dropWhile chunkIsFinished).map (Chunk.content fs)).flatten := by
    rw [h.content]
    conv_lhs => rw [hwhile]
    rw [List.map_append, List.flatten_append, flatten_content_nil hdone, List.nil_append]
  refine ⟨⟨?_, ?_⟩, ?_, ?_⟩
  · rw [hfirst]
    exact hqueued
  · have htotal := h.total
    rw [hwhile, memTotal_append] at htotal
    rw [hfirst]
    omega
  · rw [hcontent]
    unfold Chunkqueue.content
    rw [hfirst]
  · rw [hfirst]
    constructor
    · intro hnil
      rw [hcontent, hnil]
      rfl
    · intro hnil
      rw [hcontent] at hnil
      cases hdrop : rest.dropWhile chunkIsFinished with
      | nil => rfl
      | cons c cs =>
        rw [hdrop] at hnil hqueued
        have hc : c.content fs = [] :=
          List.flatten_eq_nil_iff.mp hnil _ (List.mem_map_of_mem List.mem_cons_self)
        have hfinished := (hqueued c List.mem_cons_self).finished_iff.mpr hc
        have hhead := List.head?_dropWhile_not chunkIsFinished rest
        rw [hdrop] at hhead
        exact absurd hfinished (Bool.eq_false_iff.mp hhead)

variable {con₀ con con' : WritingConnection} {answers : List WriterAnswers} {res : Option Int}

/-- **A call.** -/
theorem networkWriteChunkqueue_done (hqueue : con.writeQueue.Writable fs)
    (haccepts : con.AcceptsAll fs answers)
    (hcall : networkWriteChunkqueue fs con answers = (res, con')) :
    (con.outlet fs).Streams (con'.outlet fs) ∧ (res.isSome → con'.writeQueue.Writable fs) ∧
      WriterReturns fs con answers res con' := by
  unfold networkWriteChunkqueue at hcall
  by_cases hlimit : con.traffic.GlobalLimit
  · rw [if_pos hlimit] at hcall
    obtain ⟨rfl, rfl⟩ := Prod.mk.inj hcall
    exact ⟨Outlet.Streams.refl _, fun _ => hqueue, fun _ => ⟨rfl, rfl, rfl⟩,
      fun hbelow => absurd hlimit hbelow, fun _ => rfl⟩
  · have hsplit : con.writeQueue.Split fs [] con.writeQueue.first :=
      ⟨rfl, (fun c hc => nomatch hc), hqueue.queued, hqueue.total⟩
    obtain ⟨res₁, st, hrun, hstreams, ⟨front, rest, hend⟩, hnonneg, hreturns⟩ :=
      @networkWriteChunkqueueLinuxsendfile_streams fs [] _ _ ⟨con.writeQueue, 0, con.out⟩ hsplit rfl
        haccepts
    rw [if_neg hlimit, hrun] at hcall
    cases res₁ with
    | none =>
      obtain ⟨rfl, rfl⟩ := Prod.mk.inj hcall
      exact ⟨hstreams, (fun hnone => nomatch hnone), fun h => absurd h hlimit,
        (fun _ ret hret => nomatch hret), hreturns⟩
    | some ret =>
      obtain ⟨hwritable, hcontent, hempty⟩ := hend.removeFinished
      dsimp only at hcall
      rw [if_pos (hnonneg ret rfl), if_pos (hnonneg ret rfl)] at hcall
      obtain ⟨rfl, rfl⟩ := Prod.mk.inj hcall
      refine ⟨?_, fun _ => hwritable, fun h => absurd h hlimit, fun _ ret' hret' => ?_,
        fun _ => rfl⟩
      · unfold WriterState.outlet at hstreams
        rw [← hcontent] at hstreams
        exact hstreams
      · obtain rfl := Option.some.inj hret'
        rw [← hcontent] at hempty
        refine ⟨Iff.trans ?_ hempty, ?_⟩
        · split
          · next hnil => exact iff_of_true rfl hnil
          · next hnil => exact iff_of_false (by decide) hnil
        · split
          · exact Or.inl rfl
          · exact Or.inr rfl

/-- **All calls.** -/
theorem WriterRun.streams (h : WriterRun fs con₀ con) (hqueue : con₀.writeQueue.Writable fs) :
    (con₀.outlet fs).Streams (con.outlet fs) ∧ con.writeQueue.Writable fs := by
  induction h with
  | start => exact ⟨Outlet.Streams.refl _, hqueue⟩
  | call before accepts run ih =>
    obtain ⟨hstreams, hwritable⟩ := ih
    obtain ⟨hcall, hwritable', -⟩ := networkWriteChunkqueue_done hwritable accepts run
    exact ⟨hstreams.trans hcall, hwritable' rfl⟩
  | traffic before traffic ih => exact ih

/-- At each moment of each call the socket has the front of what was queued, the queue has the rest,
and `bytes_out` has grown by what was sent. A call below the global limit returns 0 if and only if
nothing is left, and 1 otherwise; one at the limit returns 1 and writes nothing. -/
theorem networkWriteChunkqueue_streams (hqueue : con₀.writeQueue.Writable fs)
    (hrun : WriterRun fs con₀ con) (haccepts : con.AcceptsAll fs answers)
    (hcall : networkWriteChunkqueue fs con answers = (res, con')) :
    (con₀.outlet fs).Streams (con'.outlet fs) ∧ WriterReturns fs con answers res con' := by
  obtain ⟨hbefore, hwritable⟩ := hrun.streams hqueue
  obtain ⟨hstreams, -, hreturns⟩ := networkWriteChunkqueue_done hwritable haccepts hcall
  exact ⟨hbefore.trans hstreams, hreturns⟩

end Calls

section Chunked

variable [Malloc] {fs : Files} {con₀ con con' : WritingConnection} {answers : List WriterAnswers}
  {body : HttpChunk} {calls : List PayloadCall} {header : Bytes}

/-- **A chunked body arrives.** When the queue is reported to be empty, the socket has the header
and a text that is read back as the payloads, however many calls it took. -/
theorem chunkedBody_arrives (hchunked : body.chunked) (hempty : body.writeQueue.first = [])
    (hvalid : ∀ call ∈ calls, call.Valid fs) (hshort : ∀ call ∈ calls, call.Short fs)
    (hqueued : con₀.writeQueue.content fs =
      header ++ (writeBody body calls).writeQueue.content fs)
    (hqueue : con₀.writeQueue.Writable fs) (hrun : WriterRun fs con₀ con)
    (haccepts : con.AcceptsAll fs answers)
    (hcall : networkWriteChunkqueue fs con answers = (some 0, con')) :
    ∃ text, ChunkedBody text (calls.map (·.payload fs)).flatten ∧
      con'.out = con₀.out ++ header ++ text := by
  obtain ⟨hbefore, hwritable⟩ := hrun.streams hqueue
  obtain ⟨hstreams, -, hreturns⟩ := networkWriteChunkqueue_done hwritable haccepts hcall
  have hleft : con'.writeQueue.content fs = [] := by
    by_cases hlimit : con.traffic.GlobalLimit
    · exact absurd (hreturns.limited hlimit).1 (by simp)
    · exact (hreturns.zero hlimit 0 rfl).1.mp rfl
  obtain ⟨s, hsends⟩ := hbefore.trans hstreams
  have hall : con₀.writeQueue.content fs = s := by
    have hsplit : con₀.writeQueue.content fs = s ++ con'.writeQueue.content fs := hsends.left
    rwa [hleft, List.append_nil] at hsplit
  refine ⟨(writeBody body calls).writeQueue.content fs, ?_, ?_⟩
  · have hbody := (chunkedBody_blocks hvalid hshort).mpr chunkedBody_end
    rw [List.append_nil] at hbody
    rwa [content_writeBody hchunked hempty hvalid]
  · rw [List.append_assoc, ← hqueued, hall]
    exact hsends.sent

end Chunked

section Examples

def memChunk (s : Bytes) : Chunk := { chunkInit with type := .mem, mem := textBuffer s }

def fileChunk (name : Bytes) (start length : Int) : Chunk :=
  { chunkInit with
    type := .file
    file := { chunkInit.file with name := textBuffer name, start := start, length := length } }

def writing (cs : List Chunk) (globalKbytesPerSecond : Nat) (cnt : Int) : WritingConnection :=
  ⟨{ chunkqueueInit with first := cs }, 0, ⟨0, globalKbytesPerSecond, cnt, 0, false⟩, []⟩

def oneFile : Files := ⟨[(ascii "f", ascii "xyz")], []⟩

def threeChunks : WritingConnection :=
  writing [memChunk (ascii "abc"), { chunkInit with type := .mem }, fileChunk (ascii "f") 1 2] 0 0

def accepted (r : Nat) : WriterAnswers := ⟨some 5, .wrote r, none⟩

theorem writable_threeChunks : threeChunks.writeQueue.Writable oneFile := by
  refine ⟨?_, by decide⟩
  intro c hc
  have hcases : c = memChunk (ascii "abc") ∨ c = { chunkInit with type := .mem } ∨
      c = fileChunk (ascii "f") 1 2 := by
    simpa [threeChunks, writing] using hc
  rcases hcases with rfl | rfl | rfl
  · exact Or.inl ⟨rfl, by decide, by decide, by decide⟩
  · exact Or.inl ⟨rfl, by decide, by decide, by decide⟩
  · exact Or.inr
      ⟨rfl, by decide, by decide, by decide, by decide, ascii "xyz", by decide, by decide⟩

/-- Two calls: two bytes, then the third one and the part of the file. -/
theorem networkWriteChunkqueue_streams_file : ∃ con con' : WritingConnection,
    networkWriteChunkqueue oneFile threeChunks [accepted 2] = (some 1, con) ∧
    networkWriteChunkqueue oneFile con [accepted 1, accepted 2] = (some 0, con') ∧
    (threeChunks.outlet oneFile).Streams (con'.outlet oneFile) ∧
    WriterReturns oneFile con [accepted 1, accepted 2] (some 0) con' := by
  have hfirst : (networkWriteChunkqueue oneFile threeChunks [accepted 2]).1 = some 1 := by decide
  have haccepts : threeChunks.AcceptsAll oneFile [accepted 2] := by
    intro c cs hrest
    exact ⟨⟨rfl, Or.inr ⟨2, rfl, by decide, by decide⟩⟩, fun st' _ => trivial⟩
  generalize hcon : (networkWriteChunkqueue oneFile threeChunks [accepted 2]).2 = con
  have hsecond : (networkWriteChunkqueue oneFile con [accepted 1, accepted 2]).1 = some 0 := by
    rw [← hcon]
    decide
  have haccepts' : con.AcceptsAll oneFile [accepted 1, accepted 2] := by
    rw [← hcon]
    intro c cs hrest
    refine ⟨⟨rfl, Or.inr ⟨1, rfl, by decide, by decide⟩⟩, fun st' hround c' cs' _ => ?_⟩
    obtain ⟨rfl, rfl⟩ := List.cons.inj hrest
    obtain rfl := congrArg Prod.snd hround
    exact ⟨⟨rfl, Or.inr ⟨2, rfl, by decide, by decide⟩⟩, fun st' _ => trivial⟩
  have hcall : networkWriteChunkqueue oneFile threeChunks [accepted 2] = (some 1, con) :=
    Prod.ext hfirst hcon
  exact ⟨con, _, hcall, Prod.ext hsecond rfl, networkWriteChunkqueue_streams writable_threeChunks
    (.call .start haccepts hcall) haccepts' (Prod.ext hsecond rfl)⟩

/-- A header `H`, and one payload. -/
def chunkedResponse : WritingConnection :=
  writing (memChunk (ascii "H") ::
    (@writeBody zeroMalloc startBody [.mem (ascii "ab\x00")]).writeQueue.first) 0 0

theorem chunkedBody_arrives_ab : ∃ con' text,
    networkWriteChunkqueue oneFile chunkedResponse [accepted 13] = (some 0, con') ∧
      ChunkedBody text (ascii "ab") ∧ con'.out = ascii "H" ++ text := by
  have hret : (networkWriteChunkqueue oneFile chunkedResponse [accepted 13]).1 = some 0 := by
    decide +kernel
  have hqueue : chunkedResponse.writeQueue.Writable oneFile := by
    have hall : ∀ c ∈ chunkedResponse.writeQueue.first, c.type = .mem ∧ c.mem.WF ∧
        0 ≤ c.offset ∧ (c.mem.used ≠ 0 → c.offset ≤ (c.mem.used : Int) - 1) := by decide +kernel
    refine ⟨fun c hc => Or.inl ?_, by decide +kernel⟩
    obtain ⟨htype, hwf, hoffset, htext⟩ := hall c hc
    exact ⟨htype, hwf, hoffset, htext⟩
  have haccepts : chunkedResponse.AcceptsAll oneFile [accepted 13] := by
    intro c cs hrest
    exact ⟨⟨rfl, Or.inr ⟨13, rfl, by decide, by decide +kernel⟩⟩, fun st' _ => trivial⟩
  obtain ⟨text, hbody, hout⟩ := @chunkedBody_arrives zeroMalloc oneFile chunkedResponse _ _ _
    startBody [.mem (ascii "ab\x00")] (ascii "H") (by decide) rfl
    (by simp [PayloadCall.Valid]) (by simp [PayloadCall.Short, PayloadCall.payload, ascii])
    (by decide +kernel) hqueue .start haccepts (Prod.ext hret rfl)
  exact ⟨_, text, Prod.ext hret rfl, hbody, hout⟩

/-- An empty chunk, as it is queued at the end of a response, and the limit is reached. -/
def limitedWriter : WritingConnection := writing [memChunk []] 1 2048

theorem not_faithfulWriter_limited : limitedWriter.writeQueue.Writable oneFile ∧
    ¬ FaithfulWriter oneFile limitedWriter := by
  constructor
  · refine ⟨?_, by decide⟩
    intro c hc
    obtain rfl := List.mem_singleton.mp hc
    exact Or.inl ⟨rfl, by decide, by decide, by decide⟩
  · intro h
    have hcall : networkWriteChunkqueue oneFile limitedWriter [] = (some 1, _) :=
      if_pos (by decide)
    have hzero := (h limitedWriter [] _ _ .start trivial hcall).2 1 rfl
    exact absurd (hzero.mpr (by decide)) (by decide)

end Examples

end Lighttpd
