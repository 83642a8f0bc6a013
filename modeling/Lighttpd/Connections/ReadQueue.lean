import Lighttpd.Connections.ReadState

/-!
# The queue of received bytes

The bytes of `read_queue` that are not read yet are those of its chunks behind their offsets
(`Chunkqueue.unread`). Receiving appends to them, whichever chunk the bytes go to, and giving up
finished chunks changes nothing.
-/

namespace Lighttpd

open CLib

/-- A chunk of received bytes: its terminator is in place, behind all that was read of it. -/
structure Chunk.Readable (c : Chunk) : Prop where
  type : c.type = .mem
  nonneg : 0 ≤ c.offset
  lt : c.offset + 1 ≤ c.mem.used
  wf : c.mem.WF

def Chunkqueue.unread (cq : Chunkqueue) : Bytes := (cq.first.map Chunk.unread).flatten

def Chunkqueue.consumed (cq : Chunkqueue) : Int := (cq.first.map (·.offset)).sum

def Chunkqueue.Readable (cq : Chunkqueue) : Prop := ∀ c ∈ cq.first, c.Readable

/-! ## Chunks -/

theorem Chunk.Readable.length {c : Chunk} (h : c.Readable) :
    (c.unread.length : Int) = c.mem.used - c.offset - 1 := by
  have h0 := h.nonneg
  have h1 := h.lt
  have hwf := h.wf
  simp only [Buffer.WF, Buffer.size] at hwf
  simp only [Chunk.unread, List.length_take, List.length_drop]
  omega

theorem Chunk.Readable.used_ne_zero {c : Chunk} (h : c.Readable) : c.mem.used ≠ 0 := by
  have h0 := h.nonneg
  have h1 := h.lt
  omega

theorem chunkqueueLength_readable {cq : Chunkqueue} (h : cq.Readable) :
    chunkqueueLength cq = cq.consumed + cq.unread.length := by
  have key : ∀ cs : List Chunk, (∀ c ∈ cs, c.Readable) →
      chunkqueueLength { cq with first := cs } =
      (cs.map (·.offset)).sum + ((cs.map Chunk.unread).flatten.length : Nat) := by
    intro cs hcs
    induction cs with
    | nil => rfl
    | cons c cs ih =>
      have hc := hcs c (by simp)
      have hlen := hc.length
      have hih := ih fun d hd => hcs d (List.mem_cons_of_mem _ hd)
      unfold chunkqueueLength at hih ⊢
      simp only [List.map_cons, List.sum_cons, List.flatten_cons, List.length_append, hih,
        hc.type, if_pos hc.used_ne_zero]
      omega
  exact key cq.first h

theorem Chunk.Readable.advance {c : Chunk} (h : c.Readable) {n : Nat} (hn : n ≤ c.unread.length) :
    ({ c with offset := c.offset + n } : Chunk).Readable ∧
      ({ c with offset := c.offset + n } : Chunk).unread = c.unread.drop n := by
  have hlen := h.length
  have h0 := h.nonneg
  refine ⟨⟨h.type, by simp only; omega, by simp only; omega, h.wf⟩, ?_⟩
  rw [Chunk.unread_eq, Chunk.unread_eq, List.drop_drop]
  congr 1
  simp only
  omega

theorem Chunk.Readable.finish {c : Chunk} (h : c.Readable) :
    ({ c with offset := c.mem.used - 1 } : Chunk).Readable ∧
      ({ c with offset := c.mem.used - 1 } : Chunk).unread = [] := by
  have h0 := h.nonneg
  have h1 := h.lt
  have hwf := h.wf
  refine ⟨⟨h.type, by simp only; omega, by simp only; omega, hwf⟩, ?_⟩
  apply List.length_eq_zero_iff.mp
  simp only [Chunk.unread, List.length_take]
  omega

/-! ## Finished chunks -/

theorem removeFinished_suffix : ∀ (cs unused : List Chunk) (n : Nat),
    (removeFinished cs unused n).1 <:+ cs
  | [], _, _ => List.suffix_rfl
  | c :: cs, unused, n => by
    unfold removeFinished
    split
    · exact (removeFinished_suffix cs _ _).trans (List.suffix_cons c cs)
    · exact List.suffix_rfl

theorem removeFinished_unread : ∀ (cs unused : List Chunk) (n : Nat), (∀ c ∈ cs, c.Readable) →
    ((removeFinished cs unused n).1.map Chunk.unread).flatten = (cs.map Chunk.unread).flatten
  | [], _, _, _ => rfl
  | c :: cs, unused, n, h => by
    have hc := h c (by simp)
    unfold removeFinished
    split
    · next hfin =>
      have hnil : c.unread = [] := by
        have hlen := hc.length
        have h0 := hc.nonneg
        have h1 := hc.lt
        simp only [chunkIsFinished, hc.type, Bool.or_eq_true, beq_iff_eq] at hfin
        apply List.length_eq_zero_iff.mp
        omega
      rw [List.map_cons, List.flatten_cons, hnil, List.nil_append]
      exact removeFinished_unread cs _ _ fun d hd => h d (List.mem_cons_of_mem _ hd)
    · rfl

theorem chunkqueueRemoveFinishedChunks_spec {cq : Chunkqueue} (h : cq.Readable) :
    (chunkqueueRemoveFinishedChunks cq).1.Readable ∧
      (chunkqueueRemoveFinishedChunks cq).1.unread = cq.unread :=
  ⟨fun c hc => h c ((removeFinished_suffix cq.first cq.unused cq.unusedChunks).subset hc),
    removeFinished_unread cq.first cq.unused cq.unusedChunks h⟩

/-! ## Empty chunks -/

theorem dropEmptyBehind_append {e : List Chunk} (he : ∀ c ∈ e, c.mem.used = 0)
    (hlen : e.length ≤ 1) : ∀ (cs unused : List Chunk), cs ≠ [] → (∀ c ∈ cs, c.mem.used ≠ 0) →
      (dropEmptyBehind (cs ++ e) unused).1 = cs
  | [], _, hne, _ => absurd rfl hne
  | [c], unused, _, _ => by
    cases e with
    | nil => rfl
    | cons d e =>
      obtain rfl : e = [] := List.length_eq_zero_iff.mp (by simpa using hlen)
      have hd : d.mem.used = 0 := he d (by simp)
      simp [dropEmptyBehind, hd]
  | c :: d :: cs, unused, _, h => by
    have hd : d.mem.used ≠ 0 := h d (by simp)
    have ih := dropEmptyBehind_append he hlen (d :: cs) unused (by simp)
      fun x hx => h x (List.mem_cons_of_mem _ hx)
    simp only [List.cons_append, dropEmptyBehind, if_neg hd] at ih ⊢
    rw [ih]

theorem dropEmpty_append {e : List Chunk} (he : ∀ c ∈ e, c.mem.used = 0) (hlen : e.length ≤ 1)
    {cs : List Chunk} (unused : List Chunk) (h : ∀ c ∈ cs, c.mem.used ≠ 0) :
    (dropEmpty (cs ++ e) unused).1 = cs := by
  cases cs with
  | nil =>
    cases e with
    | nil => rfl
    | cons d e =>
      obtain rfl : e = [] := List.length_eq_zero_iff.mp (by simpa using hlen)
      have hd : d.mem.used = 0 := he d (by simp)
      simp [dropEmpty, hd]
  | cons c cs =>
    have hc : c.mem.used ≠ 0 := h c (by simp)
    rw [List.cons_append, dropEmpty, if_neg hc, ← List.cons_append]
    exact dropEmptyBehind_append he hlen (c :: cs) unused (by simp) h

section Receive

variable [Malloc]

theorem newReadBuffer_first (cq : Chunkqueue) (size : Nat) :
    ∃ e, (newReadBuffer cq size).first = cq.first ++ [e] ∧ e.mem.used = 0 ∧ e.type = .mem ∧
      e.offset = 0 := by
  unfold newReadBuffer chunkqueueGetAppendBuffer
  have happend : ∀ (cq' : Chunkqueue) (c : Chunk), cq'.first = cq.first →
      ∃ e, ((chunkqueueAppendChunk cq' { c with
        type := .mem, offset := 0, mem := bufferReset c.mem }).mapLastMem
          (bufferPrepareCopy · size)).first = cq.first ++ [e] ∧ e.mem.used = 0 ∧ e.type = .mem ∧
            e.offset = 0 := by
    intro cq' c hf
    refine ⟨_, first_mapLastMem (by rw [chunkqueueAppendChunk, hf]) _, by simp, rfl, rfl⟩
  unfold chunkqueueGetUnusedChunk
  split
  next cq' c he =>
    split at he
    · obtain ⟨rfl, rfl⟩ := Prod.mk.inj he
      exact happend _ _ rfl
    · obtain ⟨rfl, rfl⟩ := Prod.mk.inj he
      exact happend _ _ rfl

theorem selectReadBuffer_first (cq : Chunkqueue) (toread : Option Nat) :
    (selectReadBuffer cq toread = cq ∧ ∃ cs c, cq.first = cs ++ [c]) ∨
      ∃ e, (selectReadBuffer cq toread).first = cq.first ++ [e] ∧ e.mem.used = 0 ∧
        e.type = .mem ∧ e.offset = 0 := by
  unfold selectReadBuffer
  dsimp only
  split
  · split
    · next c hc =>
      split
      · exact Or.inr (newReadBuffer_first _ _)
      · obtain ⟨cs, hcs⟩ := List.getLast?_eq_some_iff.mp hc
        exact Or.inl ⟨rfl, cs, c, hcs⟩
    · exact Or.inr (newReadBuffer_first _ _)
  · exact Or.inr (newReadBuffer_first _ _)

theorem selectReadBuffer_count (cq : Chunkqueue) (toread : Option Nat) :
    (selectReadBuffer cq toread).first.length ≤ cq.first.length + 1 := by
  rcases selectReadBuffer_first cq toread with ⟨he, -⟩ | ⟨e, hf, -⟩
  · rw [he]
    exact Nat.le_succ _
  · rw [hf, List.length_append, List.length_singleton]

omit [Malloc] in
theorem storeRead_spec {b : Buffer} {s : Bytes} (hs : s ≠ []) (hlen : s.length ≤ readSize b) :
    (storeRead b s).used = readOffset b + s.length + 1 ∧ (storeRead b s).WF ∧
      (storeRead b s).ptr.take (readOffset b + s.length) = b.ptr.take (readOffset b) ++ s := by
  have hpos : 0 < s.length := List.length_pos_of_ne_nil hs
  have hroom : readOffset b + s.length < b.ptr.length := by
    simp only [readSize, Buffer.size] at hlen
    omega
  have htake := take_set_memcpy hroom
  refine ⟨rfl, ?_, ?_⟩
  · simp only [Buffer.WF, Buffer.size, storeRead, List.length_set]
    rw [length_memcpy (by omega)]
    omega
  · simp only [storeRead]
    rw [List.take_set_of_le (Nat.le_refl _), take_memcpy (by omega)]

omit [Malloc] in
theorem readable_storeRead {c : Chunk} (htype : c.type = .mem) (h0 : 0 ≤ c.offset)
    (hoff : c.offset.toNat ≤ readOffset c.mem) {s : Bytes} (hs : s ≠ [])
    (hlen : s.length ≤ readSize c.mem) :
    ({ c with mem := storeRead c.mem s } : Chunk).Readable ∧
      ({ c with mem := storeRead c.mem s } : Chunk).unread =
        (c.mem.ptr.take (readOffset c.mem)).drop c.offset.toNat ++ s := by
  obtain ⟨hused, hwf, htake⟩ := storeRead_spec hs hlen
  have hpos : 0 < s.length := List.length_pos_of_ne_nil hs
  have hroom : readOffset c.mem ≤ c.mem.ptr.length := by
    simp only [readSize, Buffer.size] at hlen
    omega
  refine ⟨⟨htype, h0, ?_, hwf⟩, ?_⟩
  · simp only [hused]
    omega
  · rw [Chunk.unread_eq]
    simp only [hused, Nat.add_sub_cancel, htake]
    rw [List.drop_append_of_le_length]
    rw [List.length_take]
    omega

def ReadFails (con : ReadingConnection) (answer : ReadAnswer) : Prop :=
  con.isReadable = true ∧ answer.result = .failed

def received (con : ReadingConnection) (answer : ReadAnswer) : Bytes :=
  if con.isReadable then
    bytesRead (selectReadBuffer con.readQueue answer.toread).lastMem answer.result
  else []

structure Received (con : ReadingConnection) (s : Bytes) (con' : ReadingConnection) : Prop where
  connection : con'.toConnection = con.toConnection
  state : con'.state = con.state
  contentQueue : con'.requestContentQueue = con.requestContentQueue
  readable : con'.readQueue.Readable
  unread : con'.readQueue.unread = con.readQueue.unread ++ s
  consumed : con'.readQueue.consumed = con.readQueue.consumed
  count : con'.readQueue.first.length ≤ con.readQueue.first.length + 1

omit [Malloc] in
theorem dropEmptyChunks_readable {cq : Chunkqueue} (h : cq.Readable) :
    (dropEmptyChunks cq).first = cq.first := by
  have hused : ∀ c ∈ cq.first, c.mem.used ≠ 0 := fun c hc => (h c hc).used_ne_zero
  have he := dropEmpty_append (e := []) (by simp) (by simp) cq.unused hused
  rwa [List.append_nil] at he

theorem storeInLast {cq : Chunkqueue} (h : cq.Readable) (toread : Option Nat) {s : Bytes}
    (hs : s ≠ []) (hlen : s.length ≤ readSize (selectReadBuffer cq toread).lastMem) :
    (dropEmptyChunks ((selectReadBuffer cq toread).mapLastMem (storeRead · s))).Readable ∧
      (dropEmptyChunks ((selectReadBuffer cq toread).mapLastMem (storeRead · s))).unread =
        cq.unread ++ s ∧
      (dropEmptyChunks ((selectReadBuffer cq toread).mapLastMem (storeRead · s))).consumed =
        cq.consumed ∧
      (dropEmptyChunks ((selectReadBuffer cq toread).mapLastMem (storeRead · s))).first.length ≤
        cq.first.length + 1 := by
  have hcount := selectReadBuffer_count cq toread
  -- the chunk `c` the bytes go to, behind the chunks `cs`
  have key : ∀ {cs : List Chunk} {c : Chunk}, (selectReadBuffer cq toread).first = cs ++ [c] →
      (∀ d ∈ cs, d.Readable) → c.type = .mem → 0 ≤ c.offset →
      c.offset.toNat ≤ readOffset c.mem →
      cq.unread = (cs.map Chunk.unread).flatten ++
        (c.mem.ptr.take (readOffset c.mem)).drop c.offset.toNat →
      cq.consumed = (cs.map (·.offset)).sum + c.offset →
      (dropEmptyChunks ((selectReadBuffer cq toread).mapLastMem (storeRead · s))).Readable ∧
        (dropEmptyChunks ((selectReadBuffer cq toread).mapLastMem (storeRead · s))).unread =
          cq.unread ++ s ∧
        (dropEmptyChunks ((selectReadBuffer cq toread).mapLastMem (storeRead · s))).consumed =
          cq.consumed ∧
        (dropEmptyChunks ((selectReadBuffer cq toread).mapLastMem (storeRead · s))).first.length ≤
          cq.first.length + 1 := by
    intro cs c hf hcs htype h0 hoff hunread hconsumed
    have hlast : (selectReadBuffer cq toread).lastMem = c.mem := by simp [Chunkqueue.lastMem, hf]
    rw [hlast] at hlen
    obtain ⟨hread, hbytes⟩ := readable_storeRead htype h0 hoff hs hlen
    have hfirst := first_mapLastMem hf (storeRead · s)
    have hall : ((selectReadBuffer cq toread).mapLastMem (storeRead · s)).Readable := by
      intro d hd
      rw [hfirst, List.mem_append, List.mem_singleton] at hd
      rcases hd with hd | rfl
      · exact hcs d hd
      · exact hread
    have hdrop := dropEmptyChunks_readable hall
    refine ⟨fun d hd => hall d (hdrop ▸ hd), ?_, ?_, ?_⟩
    · rw [Chunkqueue.unread, hdrop, hfirst, List.map_append, List.flatten_append,
        List.map_singleton, List.flatten_singleton, hbytes, hunread, List.append_assoc]
    · rw [Chunkqueue.consumed, hdrop, hfirst, List.map_append, List.sum_append,
        List.map_singleton, List.sum_singleton, hconsumed]
    · rw [hdrop, hfirst]
      simpa [hf] using hcount
  rcases selectReadBuffer_first cq toread with ⟨he, cs, c, hf⟩ | ⟨e, hf, he0, htype, hoff⟩
  · have hc := h c (by simp [hf])
    have h0 := hc.nonneg
    have h1 := hc.lt
    have hro : readOffset c.mem = c.mem.used - 1 := if_neg (by omega)
    refine key (by rw [he, hf]) (fun d hd => h d (by simp [hf, hd])) hc.type h0
      (by rw [hro]; omega) ?_ ?_
    · rw [hro, ← Chunk.unread_eq, Chunkqueue.unread, hf, List.map_append, List.flatten_append,
        List.map_singleton, List.flatten_singleton]
    · rw [Chunkqueue.consumed, hf, List.map_append, List.sum_append, List.map_singleton,
        List.sum_singleton]
  · have hro : readOffset e.mem = 0 := if_pos he0
    refine key hf h htype (by omega) (by rw [hoff]; omega) ?_ ?_
    · rw [hro, List.take_zero, List.drop_nil, List.append_nil]
      rfl
    · rw [hoff, Int.add_zero]
      rfl

theorem connectionHandleRead_spec {con : ReadingConnection} (h : con.readQueue.Readable)
    (answer : ReadAnswer) (hok : answer.result ≠ .failed) :
    (connectionHandleRead con answer).1 ≠ -1 ∧
    Received con (bytesRead (selectReadBuffer con.readQueue answer.toread).lastMem answer.result)
      { (connectionHandleRead con answer).2 with
        readQueue := dropEmptyChunks (connectionHandleRead con answer).2.readQueue } := by
  have hused : ∀ c ∈ con.readQueue.first, c.mem.used ≠ 0 := fun c hc => (h c hc).used_ne_zero
  -- where nothing is received, an empty chunk that was made for it goes again
  have nothing : (dropEmptyChunks (selectReadBuffer con.readQueue answer.toread)).first =
      con.readQueue.first := by
    rcases selectReadBuffer_first con.readQueue answer.toread with ⟨he, -⟩ | ⟨e, he, he0, -, -⟩
    · rw [he]
      exact dropEmptyChunks_readable h
    · simp only [dropEmptyChunks, he]
      exact dropEmpty_append (by simpa using he0) (by simp) _ hused
  have quiet : ∀ {con' : ReadingConnection}, con'.toConnection = con.toConnection →
      con'.state = con.state → con'.requestContentQueue = con.requestContentQueue →
      con'.readQueue = dropEmptyChunks (selectReadBuffer con.readQueue answer.toread) →
      Received con [] con' := by
    intro con' h1 h2 h3 h4
    refine ⟨h1, h2, h3, ?_, ?_, ?_, ?_⟩
    · intro c hc
      rw [h4, nothing] at hc
      exact h c hc
    · rw [List.append_nil, Chunkqueue.unread, h4, nothing]
      rfl
    · rw [Chunkqueue.consumed, h4, nothing]
      rfl
    · rw [h4, nothing]
      exact Nat.le_succ _
  have hzero : (0 : Int) ≠ -1 := by decide
  have htwo : (-2 : Int) ≠ -1 := by decide
  unfold connectionHandleRead
  cases hres : answer.result with
  | failed => exact absurd hres hok
  | again => exact ⟨hzero, quiet rfl rfl rfl rfl⟩
  | interrupted => exact ⟨hzero, quiet rfl rfl rfl rfl⟩
  | data s =>
    dsimp only
    split
    · next hs =>
      rw [List.length_eq_zero_iff.mp hs]
      exact ⟨htwo, quiet rfl rfl rfl rfl⟩
    · next hs =>
      obtain ⟨hreadable, hunread, hconsumed, hcount⟩ := storeInLast h answer.toread
        (List.ne_nil_of_length_pos (Nat.pos_of_ne_zero hs))
        (by simp only [bytesRead, List.length_take]; omega)
      refine ⟨hzero, ?_⟩
      split <;> exact ⟨rfl, rfl, rfl, hreadable, hunread, hconsumed, hcount⟩

/-- **Receiving**, before the `switch` is reached. -/
theorem receive_spec {con : ReadingConnection} (h : con.readQueue.Readable) {answer : ReadAnswer}
    (hok : ¬ ReadFails con answer) :
    (receive con answer).1 ≠ -1 ∧ Received con (received con answer) (receive con answer).2 := by
  unfold receive received
  by_cases hr : con.isReadable = true
  · have hres : answer.result ≠ .failed := fun he => hok ⟨hr, he⟩
    obtain ⟨hne, hreceived⟩ := connectionHandleRead_spec h answer hres
    simp only [hr, if_true]
    rw [if_neg hne]
    exact ⟨hne, hreceived⟩
  · have hzero : (0 : Int) ≠ -1 := by decide
    simp only [hr, Bool.false_eq_true, if_false]
    rw [if_neg hzero]
    have hdrop := dropEmptyChunks_readable h
    refine ⟨hzero, rfl, rfl, rfl, fun c hc => h c (hdrop ▸ hc), ?_, ?_, ?_⟩
    · rw [List.append_nil, Chunkqueue.unread, hdrop]
      rfl
    · rw [Chunkqueue.consumed, hdrop]
      rfl
    · rw [hdrop]
      exact Nat.le_succ _

theorem selectReadBuffer_unread (cq : Chunkqueue) (toread : Option Nat) :
    (selectReadBuffer cq toread).unread = cq.unread := by
  rcases selectReadBuffer_first cq toread with ⟨he, -⟩ | ⟨e, hf, he0, -, -⟩
  · rw [he]
  · have hnil : e.unread = [] := by
      rw [Chunk.unread, he0, Nat.zero_sub, Nat.zero_sub, List.take_zero]
    rw [Chunkqueue.unread, hf, List.map_append, List.flatten_append, List.map_singleton,
      List.flatten_singleton, hnil, List.append_nil]
    rfl

theorem receive_fails {con : ReadingConnection} {answer : ReadAnswer} (h : ReadFails con answer) :
    receive con answer = (-1, { con with
      readQueue := selectReadBuffer con.readQueue answer.toread, isReadable := false
      state := .error }) := by
  have he : connectionHandleRead con answer = (-1, { con with
      readQueue := selectReadBuffer con.readQueue answer.toread, isReadable := false,
      state := .error }) := by
    unfold connectionHandleRead
    rw [h.2]
  unfold receive
  rw [h.1, if_pos rfl, he]
  rfl

theorem handleReadState_fails {con : ReadingConnection} {answer : ReadAnswer}
    (h : ReadFails con answer) (fs : Files) (answers : Nat → PostAnswer) :
    connectionHandleReadState con fs answer answers = some ({ con with
      readQueue := selectReadBuffer con.readQueue answer.toread, isReadable := false
      state := .error }, fs) := by
  unfold connectionHandleReadState
  rw [receive_fails h]
  rfl

end Receive

end Lighttpd
