import Lighttpd.Connections.BodyQueue

/-!
# The history of a connection

`read_queue` outlives a request: what a client sends ahead stays in it, in a chunk with bytes that
are read already. `chunkqueue_length` counts them, so in `CON_STATE_READ` a header that is not
complete is refused with 414 because of bytes that belong to earlier requests
(`refusesOnlyLarge_iff`).
-/

namespace Lighttpd

open CLib

/-- The states a connection does not come back from before it is reset in `CON_STATE_CONNECT`. -/
def Leaving (state : ConnectionState) : Prop :=
  state = .error ∨ state = .close ∨ state = .connect

/-- What the server does to a connection between two calls, as far as these depend on it: nothing
else touches `read_queue`, and a body starts with an empty queue. -/
structure Elsewhere (con con' : ReadingConnection) : Prop where
  readQueue : con'.readQueue = con.readQueue
  leaving : Leaving con.state → Leaving con'.state
  post : con'.state = .readPost → con'.requestContentQueue.bytesIn = 0 ∨
    con.state = .readPost ∧
      con'.requestContentQueue.bytesIn = con.requestContentQueue.bytesIn ∧
      con'.request.contentLength = con.request.contentLength

section History

variable [Malloc]

inductive History : ReadingConnection → Prop
  | init {con : ReadingConnection} :
      con.readQueue = chunkqueueInit → con.state = .connect → History con
  | call {con con' : ReadingConnection} {fs fs' : Files} {answer : ReadAnswer}
      {answers : Nat → PostAnswer} :
      History con → con.state = .read ∨ con.state = .readPost →
        connectionHandleReadState con fs answer answers = some (con', fs') → History con'
  | elsewhere {con con' : ReadingConnection} : History con → Elsewhere con con' → History con'
  /-- In `CON_STATE_CONNECT` the queue is reset, and the connection may be taken for another
  client; `used` is a `size_t`. -/
  | connect {con con' : ReadingConnection} :
      History con → con.state = .connect → (∀ c ∈ con.readQueue.first, c.mem.used < 2 ^ 32) →
        con'.readQueue = (chunkqueueReset con.readQueue).1 →
        con'.state = .connect ∨ con'.state = .requestStart → History con'

structure QueueOk (con : ReadingConnection) : Prop where
  type : ∀ c ∈ con.readQueue.first, c.type = .mem
  readable : ¬ Leaving con.state → con.readQueue.Readable
  post : con.state = .readPost → 0 ≤ con.requestContentQueue.bytesIn ∧
    con.requestContentQueue.bytesIn ≤ con.request.contentLength

/-! ## Calls for a body -/

theorem newTempfile_bytesIn {answer : PostAnswer} {dst dst' : Chunkqueue} {fs fs' : Files}
    (h : newTempfile answer dst fs = some (dst', fs')) : dst'.bytesIn = dst.bytesIn := by
  have happend : (chunkqueueGetAppendTempfile dst answer.mkstemp).1.bytesIn = dst.bytesIn := by
    unfold chunkqueueGetAppendTempfile chunkqueueGetUnusedChunk
    split
    next cq c he => split at he <;> obtain ⟨rfl, rfl⟩ := Prod.mk.inj he <;> rfl
  unfold newTempfile at h
  dsimp only at h
  split at h
  · obtain ⟨rfl, rfl⟩ := Prod.mk.inj (Option.some.inj h)
    exact happend
  · obtain ⟨_, -, heq⟩ := Option.map_eq_some_iff.mp h
    obtain ⟨rfl, rfl⟩ := Prod.mk.inj heq
    exact happend

theorem selectTempfile_bytesIn {answer : PostAnswer} {dst dst' : Chunkqueue} {fs fs' : Files}
    (h : selectTempfile answer dst fs = some (dst', fs')) : dst'.bytesIn = dst.bytesIn := by
  unfold selectTempfile at h
  split at h
  · exact newTempfile_bytesIn h
  · split at h
    · split at h
      · split at h
        · split at h
          · obtain ⟨rfl, rfl⟩ := Prod.mk.inj (Option.some.inj h)
            rfl
          · obtain ⟨_, -, heq⟩ := Option.map_eq_some_iff.mp h
            obtain ⟨rfl, rfl⟩ := Prod.mk.inj heq
            rfl
        · obtain ⟨rfl, rfl⟩ := Prod.mk.inj (Option.some.inj h)
          rfl
      · exact @newTempfile_bytesIn _ _ (closeLast dst fs).1 _ _ _ h
    · exact newTempfile_bytesIn h

theorem storeBody_bytesIn {contentLength : Nat} {answer : PostAnswer} {dst : Chunkqueue}
    {fs : Files} {t : Bytes} {st : Stored}
    (h : storeBody contentLength answer dst fs t = some st) : st.dst.bytesIn = dst.bytesIn := by
  unfold storeBody at h
  split at h
  · unfold storeInTempfile at h
    split at h
    · cases h
    · next dst₁ fs₁ hsel =>
      rw [← selectTempfile_bytesIn hsel]
      dsimp only at h
      split at h
      · obtain rfl := Option.some.inj h
        rfl
      · split at h
        · obtain rfl := Option.some.inj h
          rfl
        · split at h <;> obtain rfl := Option.some.inj h <;> rfl
  · obtain rfl := Option.some.inj h
    have hnew : (newReadBuffer dst (contentLength - dst.bytesIn + 1).toNat).bytesIn =
        dst.bytesIn := by
      unfold newReadBuffer chunkqueueGetAppendBuffer chunkqueueGetUnusedChunk
      split
      next cq c he => split at he <;> obtain ⟨rfl, rfl⟩ := Prod.mk.inj he <;> rfl
    show (storeInMemory contentLength dst t).bytesIn = dst.bytesIn
    unfold storeInMemory
    dsimp only
    split
    · split
      · rfl
      · exact hnew
    · exact hnew

theorem postLoop_readable {contentLength : Nat} {answers : Nat → PostAnswer} :
    ∀ (cs : List Chunk) {i n : Nat} {dst : Chunkqueue} {fs : Files} {cs' : List Chunk} {st : Stored},
      (∀ c ∈ cs, c.Readable) → dst.bytesIn = n → n ≤ contentLength →
        postLoop contentLength answers i cs dst fs = some (cs', st) →
        (∀ c ∈ cs', c.Readable) ∧ 0 ≤ st.dst.bytesIn ∧ st.dst.bytesIn ≤ contentLength
  | [], i, n, dst, fs, cs', st, _, hin, hle, h => by
    obtain ⟨rfl, rfl⟩ := Prod.mk.inj (Option.some.inj h)
    exact ⟨by simp, by simp only; omega, by simp only; omega⟩
  | c :: cs, i, n, dst, fs, cs', st, hcs, hin, hle, h => by
    have hc := hcs c (by simp)
    have hrest : ∀ d ∈ cs, d.Readable := fun d hd => hcs d (List.mem_cons_of_mem _ hd)
    by_cases hfull : n = contentLength
    · unfold postLoop at h
      rw [if_pos (by omega)] at h
      obtain ⟨rfl, rfl⟩ := Prod.mk.inj (Option.some.inj h)
      exact ⟨hcs, by simp only; omega, by simp only; omega⟩
    · rw [postLoop_cons hc hin (by omega) rfl] at h
      generalize ht : c.unread.take (contentLength - n) = t at h
      have htlen : t.length = min (contentLength - n) c.unread.length := by
        rw [← ht, List.length_take]
      split at h
      · cases h
      · next dst₁ fs₁ hstore =>
        have hkeep : dst₁.bytesIn = dst.bytesIn := storeBody_bytesIn hstore
        obtain ⟨rfl, rfl⟩ := Prod.mk.inj (Option.some.inj h)
        exact ⟨hcs, by simp only; omega, by simp only; omega⟩
      · next dst₁ fs₁ hstore =>
        have hkeep : dst₁.bytesIn = dst.bytesIn := storeBody_bytesIn hstore
        split at h
        · cases h
        · next cs₁ st₁ hloop =>
          obtain ⟨rfl, rfl⟩ := Prod.mk.inj (Option.some.inj h)
          obtain ⟨hread, hbounds⟩ := postLoop_readable cs (n := n + t.length) hrest
            (by simp only; omega) (by omega) hloop
          refine ⟨fun d hd => ?_, hbounds⟩
          rcases List.mem_cons.mp hd with rfl | hd
          · exact (hc.advance (by omega)).1
          · exact hread d hd

/-! ## Steps -/

omit [Malloc] in
theorem QueueOk.connect {con con' : ReadingConnection} (h : QueueOk con)
    (hused : ∀ c ∈ con.readQueue.first, c.mem.used < 2 ^ 32)
    (hreset : con'.readQueue = (chunkqueueReset con.readQueue).1)
    (hstate : con'.state = .connect ∨ con'.state = .requestStart) : QueueOk con' := by
  have hnil : con'.readQueue.first = [] := by
    rw [hreset]
    exact first_chunkqueueReset fun c hc => ⟨by simp [h.type c hc], hused c hc⟩
  refine ⟨by simp [hnil], fun _ c hc => ?_, fun hpost => ?_⟩
  · rw [hnil] at hc
    cases hc
  · rw [hpost] at hstate
    rcases hstate with hstate | hstate <;> cases hstate

omit [Malloc] in
theorem QueueOk.elsewhere {con con' : ReadingConnection} (h : QueueOk con)
    (he : Elsewhere con con') : QueueOk con' := by
  refine ⟨?_, ?_, ?_⟩
  · rw [he.readQueue]
    exact h.type
  · intro hleft
    rw [he.readQueue]
    exact h.readable fun hl => hleft (he.leaving hl)
  · intro hpost
    rcases he.post hpost with hzero | ⟨hstate, hin, hlen⟩
    · omega
    · rw [hin, hlen]
      exact h.post hstate

theorem readHeader_keeps {con : ReadingConnection} (h : con.readQueue.Readable)
    (hstate : con.state = .read) :
    (readHeader con).readQueue.Readable ∧ (readHeader con).state ≠ .readPost := by
  by_cases hfound : headerEnd <:+: con.readQueue.unread
  · obtain ⟨hend, hread, -⟩ := readHeader_found h hfound
    exact ⟨hread, by simp [hend]⟩
  · rw [readHeader_missing hfound]
    split
    · exact ⟨h, by simp⟩
    · exact ⟨h, by simp [hstate]⟩

theorem QueueOk.call {con con' : ReadingConnection} {fs fs' : Files} {answer : ReadAnswer}
    {answers : Nat → PostAnswer} (h : QueueOk con)
    (hstate : con.state = .read ∨ con.state = .readPost)
    (hcall : connectionHandleReadState con fs answer answers = some (con', fs')) :
    QueueOk con' := by
  have hstay : ¬ Leaving con.state := by
    rintro (hl | hl | hl) <;> rcases hstate with hs | hs <;> rw [hs] at hl <;> cases hl
  have hq := h.readable hstay
  by_cases hok : ReadFails con answer
  · rw [handleReadState_fails hok] at hcall
    obtain ⟨rfl, rfl⟩ := Prod.mk.inj (Option.some.inj hcall)
    refine ⟨?_, fun hleft => absurd (Or.inl rfl) hleft, fun he => by cases he⟩
    rcases selectReadBuffer_first con.readQueue answer.toread with ⟨he, -⟩ | ⟨e, he, -, htype, -⟩
    · show ∀ c ∈ (selectReadBuffer con.readQueue answer.toread).first, c.type = .mem
      rw [he]
      exact h.type
    · intro c hc
      rw [he, List.mem_append, List.mem_singleton] at hc
      rcases hc with hc | rfl
      · exact h.type c hc
      · exact htype
  · -- the queue can be read on; where the state is left it is not for `CON_STATE_READ_POST`
    have of_readable : con'.readQueue.Readable →
        (con'.state = .readPost → 0 ≤ con'.requestContentQueue.bytesIn ∧
          con'.requestContentQueue.bytesIn ≤ con'.request.contentLength) → QueueOk con' :=
      fun hr hpost => ⟨fun c hc => (hr c hc).type, fun _ => hr, hpost⟩
    obtain ⟨hne, hrec⟩ := receive_spec hq hok
    rcases hstate with hs | hs
    · rw [handleReadState_read hs hq hok] at hcall
      obtain ⟨rfl, rfl⟩ := Prod.mk.inj (Option.some.inj hcall)
      obtain ⟨hread, hnot⟩ := readHeader_keeps hrec.readable (hrec.state.trans hs)
      obtain ⟨hr, -, -, -, hleft⟩ := leaveRead_spec ((receive con answer).1 == -2) .read hread
      refine of_readable hr fun hpost => ?_
      rcases hleft with hleft | ⟨hleft, -⟩
      · exact absurd (hleft.symm.trans hpost) hnot
      · rw [hleft] at hpost
        cases hpost
    · unfold connectionHandleReadState at hcall
      dsimp only at hcall
      rw [if_neg hne, hs] at hcall
      obtain ⟨⟨con₂, fs₂⟩, hpostcall, heq⟩ := Option.map_eq_some_iff.mp hcall
      obtain ⟨rfl, rfl⟩ := Prod.mk.inj heq
      obtain ⟨hpos, hle⟩ := h.post hs
      have hin : (receive con answer).2.requestContentQueue.bytesIn =
          con.requestContentQueue.bytesIn.toNat := by
        rw [hrec.contentQueue]
        omega
      have hlen : (receive con answer).2.request.contentLength = con.request.contentLength :=
        congrArg (·.request.contentLength) hrec.connection
      unfold readPost at hpostcall
      split at hpostcall
      · cases hpostcall
      · next first st hloop =>
        obtain ⟨hfirst, hbounds⟩ := postLoop_readable _ hrec.readable hin (by omega) hloop
        have key : con₂.readQueue.first = first ∧ con₂.requestContentQueue = st.dst ∧
            con₂.request.contentLength = (receive con answer).2.request.contentLength := by
          obtain ⟨rfl, -⟩ := Prod.mk.inj (Option.some.inj hpostcall)
          split <;> split <;> exact ⟨rfl, rfl, rfl⟩
        obtain ⟨hf, hq₂, hlen₂⟩ := key
        have hread : con₂.readQueue.Readable := fun c hc => hfirst c (hf ▸ hc)
        obtain ⟨hr, -, hqueue, hreq, -⟩ :=
          leaveRead_spec ((receive con answer).1 == -2) .readPost hread
        refine of_readable hr fun _ => ?_
        rw [hqueue, hreq, hq₂, hlen₂]
        exact hbounds

theorem History.queueOk {con : ReadingConnection} (h : History con) : QueueOk con := by
  induction h with
  | @init con hqueue hstate =>
    refine ⟨by simp [hqueue, chunkqueueInit], fun hleft => ?_, fun hpost => ?_⟩
    · exact absurd (Or.inr (Or.inr hstate)) hleft
    · rw [hstate] at hpost
      cases hpost
  | call _ hstate hcall ih => exact ih.call hstate hcall
  | elsewhere _ he ih => exact ih.elsewhere he
  | connect _ _ hused hreset hstate ih => exact ih.connect hused hreset hstate

/-! ## Headers that are refused -/

def Refuses (con' : ReadingConnection) : Prop :=
  con'.state = .handleRequest ∧ con'.httpStatus = 414

theorem handleReadState_refuses {con : ReadingConnection} (hstate : con.state = .read)
    (hq : con.readQueue.Readable) {answer : ReadAnswer} (hok : ¬ ReadFails con answer) (fs : Files)
    (answers : Nat → PostAnswer)
    (hno : ¬ headerEnd <:+: con.readQueue.unread ++ received con answer)
    (hlarge : 64 * 1024 <
      con.readQueue.consumed + (con.readQueue.unread ++ received con answer).length) :
    ∃ con', connectionHandleReadState con fs answer answers = some (con', fs) ∧ Refuses con' := by
  obtain ⟨-, hrec⟩ := receive_spec hq hok
  have hlen := chunkqueueLength_readable hrec.readable
  rw [hrec.consumed, hrec.unread] at hlen
  rw [← hrec.unread] at hno
  refine ⟨_, handleReadState_read hstate hq hok fs answers, ?_⟩
  rw [readHeader_missing hno, if_pos (by omega)]
  unfold leaveRead
  rw [if_neg (by rintro ⟨-, he⟩; cases he)]
  exact ⟨rfl, rfl⟩

/-- The call refuses a header only where what is unread of it exceeds the limit. -/
def RefusesOnlyLarge (con : ReadingConnection) (fs : Files) (answer : ReadAnswer)
    (answers : Nat → PostAnswer) : Prop :=
  ∃ con', connectionHandleReadState con fs answer answers = some (con', fs) ∧
    (Refuses con' → 64 * 1024 < (con.readQueue.unread ++ received con answer).length)

/-- **When only large headers are refused.** The length that is tested is that of the unread bytes
together with the bytes of their chunks that are read already. -/
theorem refusesOnlyLarge_iff {con : ReadingConnection} (h : History con) (hstate : con.state = .read)
    (fs : Files) (answer : ReadAnswer) (answers : Nat → PostAnswer) :
    RefusesOnlyLarge con fs answer answers ↔
      ReadFails con answer ∨
        headerEnd <:+: con.readQueue.unread ++ received con answer ∨
        64 * 1024 < (con.readQueue.unread ++ received con answer).length ∨
        con.readQueue.consumed + (con.readQueue.unread ++ received con answer).length
          ≤ 64 * 1024 := by
  have hstay : ¬ Leaving con.state := by
    rintro (hl | hl | hl) <;> rw [hstate] at hl <;> cases hl
  have hq := h.queueOk.readable hstay
  unfold RefusesOnlyLarge Refuses
  by_cases hok : ReadFails con answer
  · refine ⟨fun _ => Or.inl hok, fun _ => ⟨_, handleReadState_fails hok fs answers, ?_⟩⟩
    rintro ⟨hend, -⟩
    cases hend
  · obtain ⟨-, hrec⟩ := receive_spec hq hok
    have hconState : (receive con answer).2.state = .read := hrec.state.trans hstate
    by_cases hfound : headerEnd <:+: con.readQueue.unread ++ received con answer
    · refine ⟨fun _ => Or.inr (Or.inl hfound), fun _ =>
        ⟨_, handleReadState_read hstate hq hok fs answers, ?_⟩⟩
      rw [← hrec.unread] at hfound
      obtain ⟨hend, hread, -⟩ := readHeader_found hrec.readable hfound
      rintro ⟨hleft, -⟩
      rcases (leaveRead_spec ((receive con answer).1 == -2) .read hread).2.2.2.2 with hl | ⟨hl, -⟩
      · rw [hl, hend] at hleft
        cases hleft
      · rw [hl] at hleft
        cases hleft
    · by_cases hlarge : 64 * 1024 <
        con.readQueue.consumed + (con.readQueue.unread ++ received con answer).length
      · obtain ⟨con', hcall, href⟩ :=
          handleReadState_refuses hstate hq hok fs answers hfound hlarge
        constructor
        · rintro ⟨con'', hcall', himp⟩
          rw [hcall] at hcall'
          obtain ⟨rfl, -⟩ := Prod.mk.inj (Option.some.inj hcall')
          exact Or.inr (Or.inr (Or.inl (himp href)))
        · rintro (hf | hf | hf | hf)
          · exact absurd hf hok
          · exact absurd hf hfound
          · exact ⟨con', hcall, fun _ => hf⟩
          · omega
      · refine ⟨fun _ => Or.inr (Or.inr (Or.inr (by omega))), fun _ =>
          ⟨_, handleReadState_read hstate hq hok fs answers, ?_⟩⟩
        have hlen := chunkqueueLength_readable hrec.readable
        rw [hrec.consumed, hrec.unread] at hlen
        rw [← hrec.unread] at hfound
        rw [readHeader_missing hfound, if_neg (by omega)]
        rintro ⟨hleft, -⟩
        rcases (leaveRead_spec ((receive con answer).1 == -2) .read hrec.readable).2.2.2.2
          with hl | ⟨hl, -⟩
        · rw [hl, hconState] at hleft
          cases hleft
        · rw [hl] at hleft
          cases hleft

omit [Malloc] in
theorem chunkqueueLength_mem {cq : Chunkqueue} (h : cq.Readable) :
    chunkqueueLength cq = ((cq.first.map (·.mem)).map fun b => (b.used : Int) - 1).sum := by
  unfold chunkqueueLength
  rw [List.map_map]
  congr 1
  refine List.map_congr_left fun c hc => ?_
  simp only [(h c hc).type, if_pos (h c hc).used_ne_zero, Function.comp]

theorem handleReadState_found {con : ReadingConnection} (hstate : con.state = .read)
    (hq : con.readQueue.Readable) {answer : ReadAnswer} (hok : ¬ ReadFails con answer) (fs : Files)
    (answers : Nat → PostAnswer)
    (hfound : headerEnd <:+: con.readQueue.unread ++ received con answer) :
    ∃ con', connectionHandleReadState con fs answer answers = some (con', fs) ∧
      con'.state = .requestEnd ∧ ∃ head, FirstEnd headerEnd
        (con.readQueue.unread ++ received con answer) head con'.readQueue.unread := by
  obtain ⟨-, hrec⟩ := receive_spec hq hok
  rw [← hrec.unread] at hfound ⊢
  obtain ⟨hend, hread, head, hfirst, -⟩ := readHeader_found hrec.readable hfound
  obtain ⟨-, hleft, -, -, hleave⟩ := leaveRead_spec ((receive con answer).1 == -2) .read hread
  refine ⟨_, handleReadState_read hstate hq hok fs answers, ?_, head, hleft ▸ hfirst⟩
  rcases hleave with hsame | ⟨-, hsame⟩
  · rw [hsame, hend]
  · rw [hend] at hsame
    cases hsame

theorem consumed_of_first {con con' : ReadingConnection} {fs fs' : Files} {answer : ReadAnswer}
    {answers : Nat → PostAnswer} (hstate : con.state = .read) (hempty : con.readQueue.first = [])
    (hok : ¬ ReadFails con answer)
    (hcall : connectionHandleReadState con fs answer answers = some (con', fs'))
    (hfound : headerEnd <:+: received con answer) (hrest : con'.readQueue.unread ≠ []) :
    con'.readQueue.consumed + con'.readQueue.unread.length = (received con answer).length := by
  have hq : con.readQueue.Readable := by simp [Chunkqueue.Readable, hempty]
  obtain ⟨-, hrec⟩ := receive_spec hq hok
  have hzero : con.readQueue.unread = [] ∧ con.readQueue.consumed = 0 := by
    simp [Chunkqueue.unread, Chunkqueue.consumed, hempty]
  rw [handleReadState_read hstate hq hok] at hcall
  obtain ⟨rfl, rfl⟩ := Prod.mk.inj (Option.some.inj hcall)
  have hunread := hrec.unread
  have hcount := hrec.count
  rw [hzero.1, List.nil_append] at hunread
  rw [hempty, List.length_nil, Nat.zero_add] at hcount
  rw [← hunread] at hfound
  obtain ⟨-, hread, -⟩ := readHeader_found hrec.readable hfound
  have hmem : (readHeader (receive con answer).2).readQueue.first.map (·.mem) =
      (receive con answer).2.readQueue.first.map (·.mem) := by
    unfold readHeader
    split
    · exact copyHeader_mem _ _ _ _
    · split <;> rfl
  -- the only chunk is not finished
  have hfirst : (leaveRead ((receive con answer).1 == -2) .read
      (readHeader (receive con answer).2)).readQueue.first =
        (readHeader (receive con answer).2).readQueue.first := by
    have hlen := congrArg List.length hmem
    rw [List.length_map, List.length_map] at hlen
    have hsuf : (leaveRead ((receive con answer).1 == -2) .read
        (readHeader (receive con answer).2)).readQueue.first <:+
          (readHeader (receive con answer).2).readQueue.first := by
      unfold leaveRead
      split <;> exact removeFinished_suffix _ _ _
    refine hsuf.eq_of_length_le ?_
    have hpos : 0 < (leaveRead ((receive con answer).1 == -2) .read
        (readHeader (receive con answer).2)).readQueue.first.length := by
      refine List.length_pos_of_ne_nil fun hnil => hrest ?_
      rw [Chunkqueue.unread, hnil]
      rfl
    omega
  have hr := (leaveRead_spec ((receive con answer).1 == -2) .read hread).1
  rw [← chunkqueueLength_readable hr, chunkqueueLength_mem hr, hfirst, hmem,
    ← chunkqueueLength_mem hrec.readable, chunkqueueLength_readable hrec.readable, hrec.consumed,
    hzero.2, hunread, Int.zero_add]

end History

/-! ## A header refused for the one before -/

/-- A request line of more than 64k, and the first byte of the next request. -/
def longLine : Bytes := List.replicate (64 * 1024) 97 ++ headerEnd ++ [71]

def firstPacket : ReadingConnection := { readingConnection [] with isReadable := true }

theorem history_firstPacket : @History zeroMalloc firstPacket := by
  have h₀ : @History zeroMalloc { firstPacket with state := .connect } :=
    @History.init zeroMalloc _ rfl rfl
  have h₁ : @History zeroMalloc { firstPacket with state := .requestStart } :=
    @History.connect zeroMalloc _ _ h₀ rfl (fun c hc => by cases hc) rfl (Or.inr rfl)
  refine @History.elsewhere zeroMalloc _ _ h₁ ⟨rfl, ?_, fun h => by cases h⟩
  rintro (h | h | h) <;> cases h

theorem length_longLine : longLine.length = 64 * 1024 + 5 := by
  simp only [longLine, List.length_append, List.length_replicate]
  rfl

def longAnswer : ReadAnswer := ⟨some (64 * 1024 + 5), .data longLine⟩

theorem received_longAnswer : @received zeroMalloc firstPacket longAnswer = longLine := by
  have hmem : (@selectReadBuffer zeroMalloc firstPacket.readQueue longAnswer.toread).lastMem =
      @bufferPrepareCopy zeroMalloc (bufferReset bufferInit) (64 * 1024 + 6) := rfl
  have hroom := @le_size_bufferPrepareCopy zeroMalloc (bufferReset bufferInit) (64 * 1024 + 6)
  have hused := @bufferPrepareCopy_used zeroMalloc (bufferReset bufferInit) (64 * 1024 + 6)
  have hlen := length_longLine
  unfold received
  rw [if_pos (show firstPacket.isReadable = true from rfl), hmem]
  refine List.take_of_length_le ?_
  rw [readSize, readOffset, if_pos hused]
  omega

theorem history_secondRequest : ∃ con, @History zeroMalloc con ∧ con.state = .read ∧
    con.isReadable = false ∧ con.readQueue.unread = [71] ∧
      con.readQueue.consumed = 64 * 1024 + 4 := by
  have hq : firstPacket.readQueue.Readable := fun c hc => by cases hc
  have hok : ¬ ReadFails firstPacket longAnswer := by
    rintro ⟨-, h⟩
    cases h
  have hend : FirstEnd headerEnd longLine (List.replicate (64 * 1024) 97 ++ headerEnd) [71] :=
    firstEnd_of_notMem (fun h => by cases List.eq_of_mem_replicate h) [71]
  have hall : firstPacket.readQueue.unread ++ @received zeroMalloc firstPacket longAnswer =
      longLine := by
    rw [received_longAnswer]
    rfl
  obtain ⟨con, hcall, hstate, head, hfirst⟩ := @handleReadState_found zeroMalloc firstPacket rfl hq
    longAnswer hok ⟨[], []⟩ (fun _ => ⟨fun _ => none, none, some⟩)
    (by rw [hall]; exact hend.isInfix)
  rw [hall] at hfirst
  have hunread : con.readQueue.unread = [71] := (hfirst.unique hend).2
  have hconsumed := @consumed_of_first zeroMalloc _ _ _ _ _ _ rfl rfl hok hcall
    (by rw [received_longAnswer]; exact hend.isInfix) (by simp [hunread])
  rw [received_longAnswer, length_longLine, hunread] at hconsumed
  have hhist := @History.call zeroMalloc _ _ _ _ _ _ history_firstPacket (Or.inl rfl) hcall
  refine ⟨{ con with state := .read, isReadable := false }, ?_, rfl, rfl, hunread, ?_⟩
  · refine @History.elsewhere zeroMalloc _ _ hhist ⟨rfl, ?_, fun h => by cases h⟩
    rw [hstate]
    rintro (h | h | h) <;> cases h
  · show con.readQueue.consumed = 64 * 1024 + 4
    simp only [List.length_singleton] at hconsumed
    omega

theorem refusesOnlyLarge_iff_secondRequest : ∃ con, @History zeroMalloc con ∧ con.state = .read ∧
    ∃ answer answers, @RefusesOnlyLarge zeroMalloc con ⟨[], []⟩ answer answers ↔
      ReadFails con answer ∨
        headerEnd <:+: con.readQueue.unread ++ @received zeroMalloc con answer ∨
        64 * 1024 < (con.readQueue.unread ++ @received zeroMalloc con answer).length ∨
        con.readQueue.consumed + (con.readQueue.unread ++ @received zeroMalloc con answer).length
          ≤ 64 * 1024 := by
  obtain ⟨con, h, hstate, -⟩ := history_secondRequest
  exact ⟨con, h, hstate, ⟨none, .again⟩, fun _ => ⟨fun _ => none, none, some⟩,
    @refusesOnlyLarge_iff zeroMalloc con h hstate _ _ _⟩

theorem not_refusesOnlyLarge_secondRequest : ¬ ∀ (mal : Malloc) (con : ReadingConnection),
    @History mal con → con.state = .read → ∀ fs answer answers,
      @RefusesOnlyLarge mal con fs answer answers := by
  intro h
  obtain ⟨con, hhist, hstate, hr, hunread, hconsumed⟩ := history_secondRequest
  have hnone : @received zeroMalloc con ⟨none, .again⟩ = [] := by simp [received, hr]
  have hno : ¬ headerEnd <:+: [71] := by decide
  have hstay : ¬ Leaving con.state := by
    rintro (hl | hl | hl) <;> rw [hstate] at hl <;> cases hl
  let answers : Nat → PostAnswer := fun _ => ⟨fun _ => none, none, some⟩
  obtain ⟨con', hcall, href⟩ := @handleReadState_refuses zeroMalloc con hstate
    ((@History.queueOk zeroMalloc con hhist).readable hstay) ⟨none, .again⟩
    (by rintro ⟨-, h⟩; cases h) ⟨[], []⟩ answers
    (by rw [hunread, hnone]; exact hno) (by rw [hunread, hnone, hconsumed]; decide)
  obtain ⟨con'', hcall', himp⟩ := h zeroMalloc con hhist hstate ⟨[], []⟩ ⟨none, .again⟩ answers
  rw [hcall] at hcall'
  obtain ⟨rfl, -⟩ := Prod.mk.inj (Option.some.inj hcall')
  have hlarge := himp href
  rw [hunread, hnone] at hlarge
  exact absurd hlarge (by decide)

end Lighttpd
