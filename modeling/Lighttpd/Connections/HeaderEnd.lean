import Lighttpd.Connections.ReadQueue

/-!
# The end of the header

The header is what comes first in the unread bytes, up to the first empty line. It is found and
taken out of the queue whatever the chunks are (`headerDetection`).
-/

namespace Lighttpd

open CLib

section Header

variable [Malloc]

/-! ## Copying the header -/

def Buffer.Grown (b : Buffer) (s : Bytes) : Prop := (b.used = 0 ∧ s = []) ∨ b.Text s

theorem grown_append {b : Buffer} {s : Bytes} (h : b.Grown s) (t : Bytes) :
    (bufferAppendStringLen b (some t)).Grown (s ++ t) := by
  rcases h with ⟨hu, rfl⟩ | h
  · by_cases ht : t = []
    · subst ht
      exact Or.inl ⟨hu, rfl⟩
    · have hlen : t.length ≠ 0 := by simpa using ht
      have hwf : b.WF := wf_of_used_zero hu
      have hbytes := (bufferAppendStringLen_bytes hwf ht).1
      obtain ⟨hused, -, -⟩ := bufferPrepareAppend_spec hwf (t.length + 1)
      refine Or.inr ⟨?_, ?_⟩
      · rw [Buffer.Holds, hbytes]
        simp [Buffer.bytes, hu]
      · simp only [bufferAppendStringLen, if_neg hlen, bufferStart, hused, hu, if_true,
          List.nil_append]
        omega
  · exact Or.inr (text_bufferAppendStringLen h t)

theorem grown_appendPart {b : Buffer} {s : Bytes} (h : b.Grown s) (ptr : Bytes) (used : Nat) :
    (bufferAppendStringBuffer b ⟨ptr, used, 0⟩).Grown (s ++ ptr.take (used - 1)) := by
  unfold bufferAppendStringBuffer
  split
  · next hu =>
    have hu : used = 0 := hu
    rw [hu, Nat.zero_sub, List.take_zero, List.append_nil]
    exact h
  · exact grown_append h _

theorem copyHeader_spec : ∀ (cs : List Chunk) {n lastOffset : Nat} {c : Chunk} {request : Buffer}
    {s : Bytes}, (∀ d ∈ cs, d.Readable) → cs[n]? = some c → lastOffset ≤ c.unread.length →
      request.Grown s →
      (copyHeader request n lastOffset cs).1.Grown
        (s ++ (((cs.take n).map Chunk.unread).flatten ++ c.unread.take lastOffset)) ∧
      (∀ d ∈ (copyHeader request n lastOffset cs).2, d.Readable) ∧
      ((copyHeader request n lastOffset cs).2.map Chunk.unread).flatten =
        c.unread.drop lastOffset ++ ((cs.drop (n + 1)).map Chunk.unread).flatten
  | [], _, _, _, _, _, _, hc, _, _ => by cases hc
  | c :: cs, 0, lastOffset, d, request, s, h, hc, hoff, hreq => by
    obtain rfl : c = d := by simpa using hc
    obtain ⟨hread, hunread⟩ := (h c (by simp)).advance hoff
    unfold copyHeader
    refine ⟨?_, ?_, ?_⟩
    · have hgrown := grown_appendPart hreq (c.mem.ptr.drop c.offset.toNat) (lastOffset + 1)
      have htake : c.unread.take lastOffset = (c.mem.ptr.drop c.offset.toNat).take lastOffset := by
        rw [Chunk.unread, List.take_take, Nat.min_eq_left]
        exact hoff.trans (List.length_take_le _ _)
      simpa [htake] using hgrown
    · intro x hx
      rcases List.mem_cons.mp hx with rfl | hx
      · exact hread
      · exact h x (List.mem_cons_of_mem _ hx)
    · rw [List.map_cons, List.flatten_cons, hunread]
      rfl
  | c :: cs, n + 1, lastOffset, d, request, s, h, hc, hoff, hreq => by
    have hgrown := grown_appendPart hreq (c.mem.ptr.drop c.offset.toNat)
      (c.mem.used - c.offset.toNat)
    obtain ⟨hread, hunread⟩ := (h c (by simp)).finish
    have hrest : ∀ x ∈ cs, x.Readable := fun x hx => h x (List.mem_cons_of_mem _ hx)
    obtain ⟨h1, h2, h3⟩ := copyHeader_spec cs hrest (by simpa using hc) hoff hgrown
    unfold copyHeader
    refine ⟨?_, ?_, ?_⟩
    · simpa [Chunk.unread] using h1
    · intro x hx
      rcases List.mem_cons.mp hx with rfl | hx
      · exact hread
      · exact h2 x hx
    · rw [List.map_cons, List.flatten_cons, hunread, List.nil_append, h3]
      rfl

theorem copyHeader_mem : ∀ (cs : List Chunk) (request : Buffer) (n lastOffset : Nat),
    (copyHeader request n lastOffset cs).2.map (·.mem) = cs.map (·.mem)
  | [], _, _, _ => by simp [copyHeader]
  | _ :: _, _, 0, _ => rfl
  | c :: cs, request, n + 1, lastOffset => by
    have ih := copyHeader_mem cs (bufferAppendStringBuffer request
      ⟨c.mem.ptr.drop c.offset.toNat, c.mem.used - c.offset.toNat, 0⟩) n lastOffset
    unfold copyHeader
    rw [List.map_cons, List.map_cons, ih]

/-! ## Finding it -/

theorem readHeader_found {con : ReadingConnection} (h : con.readQueue.Readable)
    (hfound : headerEnd <:+: con.readQueue.unread) :
    (readHeader con).state = .requestEnd ∧ (readHeader con).readQueue.Readable ∧
      ∃ head, FirstEnd headerEnd con.readQueue.unread head (readHeader con).readQueue.unread ∧
        (readHeader con).request.request.Text head := by
  have hsearch := Pieces.search_spec (show 1 < headerEnd.length by decide)
    (con.readQueue.first.map Chunk.unread) 0
  rcases hsearch with ⟨n, off, s, hs, hplace, hfirst⟩ | ⟨-, hno⟩
  · rw [Nat.zero_add] at hs
    have hfirst := hfirst.firstEnd
    obtain ⟨w, hw, hoff, htake, hdrop⟩ := hplace.split
    rw [List.getElem?_map] at hw
    obtain ⟨c, hc, rfl⟩ := Option.map_eq_some_iff.mp hw
    obtain ⟨hgrown, hread, hrest⟩ := copyHeader_spec con.readQueue.first h hc hoff
      (show (bufferReset con.request.request).Grown [] from Or.inl ⟨by simp, rfl⟩)
    have hfind : findHeaderEnd con.readQueue = some (n, off) := hs
    unfold readHeader
    rw [hfind]
    rw [← List.map_drop] at hdrop
    refine ⟨rfl, hread, _, (hdrop.trans hrest.symm) ▸ hfirst, ?_⟩
    · rw [htake, ← List.map_take]
      rcases hgrown with ⟨-, hnil⟩ | htext
      · -- the header holds at least its end
        have hlen := hfirst.ends.length_le
        rw [htake, ← List.map_take, ← List.nil_append (_ ++ _), hnil] at hlen
        cases hlen
      · exact htext
  · exact absurd hfound hno

theorem readHeader_missing {con : ReadingConnection}
    (hno : ¬ headerEnd <:+: con.readQueue.unread) :
    readHeader con = if chunkqueueLength con.readQueue > 64 * 1024 then
      { con with httpStatus := 414, keepAlive := false, state := .handleRequest } else con := by
  have hfind : findHeaderEnd con.readQueue = none := by
    rcases Pieces.search_spec (show 1 < headerEnd.length by decide)
      (con.readQueue.first.map Chunk.unread) 0 with ⟨_, _, s, -, -, -, hpre, -⟩ | ⟨hs, -⟩
    · exact absurd (hpre.isInfix.trans (List.drop_suffix _ _).isInfix) hno
    · exact hs
  unfold readHeader
  rw [hfind]

theorem handleReadState_read {con : ReadingConnection} (hstate : con.state = .read)
    (hq : con.readQueue.Readable) {answer : ReadAnswer} (hok : ¬ ReadFails con answer) (fs : Files)
    (answers : Nat → PostAnswer) :
    connectionHandleReadState con fs answer answers = some (leaveRead
      ((receive con answer).1 == -2) .read (readHeader (receive con answer).2), fs) := by
  unfold connectionHandleReadState
  dsimp only
  rw [if_neg (receive_spec hq hok).1, hstate]

/-- **Header detection.** Whatever the chunks are, the state is left for `CON_STATE_REQUEST_END`
exactly when the unread bytes hold the end of a header; then the bytes up to the first such end are
the request, and the others stay unread. -/
theorem headerDetection {con : ReadingConnection} (hstate : con.state = .read)
    (hq : con.readQueue.Readable) {answer : ReadAnswer} (hok : ¬ ReadFails con answer) (fs : Files)
    (answers : Nat → PostAnswer) :
    ∃ con', connectionHandleReadState con fs answer answers = some (con', fs) ∧
      (con'.state = .requestEnd ↔ headerEnd <:+: con.readQueue.unread ++ received con answer) ∧
      (con'.state = .requestEnd → ∃ head,
        FirstEnd headerEnd (con.readQueue.unread ++ received con answer) head
          con'.readQueue.unread ∧ con'.request.request.Text head) := by
  obtain ⟨-, hrec⟩ := receive_spec hq hok
  refine ⟨_, handleReadState_read hstate hq hok fs answers, ?_⟩
  rw [← hrec.unread]
  have hconState : (receive con answer).2.state = .read := hrec.state.trans hstate
  by_cases hfound : headerEnd <:+: (receive con answer).2.readQueue.unread
  · obtain ⟨hend, hread, head, hfirst, htext⟩ := readHeader_found hrec.readable hfound
    have hleave : ¬ (((receive con answer).1 == -2) = true ∧
        ConnectionState.read = (readHeader (receive con answer).2).state) := by
      rw [hend]
      rintro ⟨-, h⟩
      cases h
    unfold leaveRead
    rw [if_neg hleave]
    have hrest := (chunkqueueRemoveFinishedChunks_spec hread).2
    exact ⟨⟨fun _ => hfound, fun _ => hend⟩, fun _ => ⟨head, hrest ▸ hfirst, htext⟩⟩
  · have hne : (leaveRead ((receive con answer).1 == -2) .read
        (readHeader (receive con answer).2)).state ≠ .requestEnd := by
      rw [readHeader_missing hfound]
      unfold leaveRead
      split <;> split <;> simp [hconState]
    exact ⟨⟨fun h => absurd h hne, fun h => absurd h hfound⟩, fun h => absurd h hne⟩

end Header

/-- A chunk with the bytes, of which the first `offset` ones are read. -/
def receivedChunk (s : Bytes) (offset : Nat) : Chunk :=
  { chunkInit with type := .mem, mem := ⟨s ++ [0], s.length + 1, 0⟩, offset := offset }

theorem readable_receivedChunk {s : Bytes} {offset : Nat} (h : offset ≤ s.length) :
    (receivedChunk s offset).Readable where
  type := rfl
  nonneg := Int.natCast_nonneg offset
  lt := by
    show (offset : Int) + 1 ≤ (s.length + 1 : Nat)
    omega
  wf := by simp [receivedChunk, Buffer.WF, Buffer.size]

def readingConnection (chunks : List Chunk) : ReadingConnection :=
  { connectionInit { mimetypes := arrayInit, allowHttp11 := true } with
    state := .read, isReadable := false
    readQueue := { chunkqueueInit with first := chunks }
    requestContentQueue := chunkqueueInit }

/-- The end of a header in three chunks, behind bytes that are read and in front of others. -/
def slowHeader : List Chunk :=
  [receivedChunk (ascii "xGET / HTTP/1.0\r") 1, receivedChunk (ascii "\n\r") 0,
    receivedChunk (ascii "\nGET") 0]

theorem headerDetection_slowHeader : ∃ con',
    @connectionHandleReadState zeroMalloc (readingConnection slowHeader) ⟨[], []⟩ ⟨none, .again⟩
        (fun _ => ⟨fun _ => none, none, some⟩) = some (con', ⟨[], []⟩) ∧
      con'.state = .requestEnd ∧ ∃ head, con'.request.request.Text head ∧
        FirstEnd headerEnd (ascii "GET / HTTP/1.0\r\n\r\nGET") head con'.readQueue.unread := by
  have hq : (readingConnection slowHeader).readQueue.Readable := by
    intro c hc
    simp only [readingConnection, slowHeader, List.mem_cons, List.not_mem_nil, or_false] at hc
    rcases hc with rfl | rfl | rfl
    · exact readable_receivedChunk (by decide)
    · exact readable_receivedChunk (by decide)
    · exact readable_receivedChunk (by decide)
  have hall : (readingConnection slowHeader).readQueue.unread ++
      @received zeroMalloc (readingConnection slowHeader) ⟨none, .again⟩ =
        ascii "GET / HTTP/1.0\r\n\r\nGET" := by decide +kernel
  obtain ⟨con', hcall, hiff, hend⟩ := @headerDetection zeroMalloc (readingConnection slowHeader)
    rfl hq ⟨none, .again⟩ (by rintro ⟨h, -⟩; cases h) ⟨[], []⟩ (fun _ => ⟨fun _ => none, none, some⟩)
  rw [hall] at hiff hend
  have hstate : con'.state = .requestEnd :=
    hiff.mpr ⟨ascii "GET / HTTP/1.0", ascii "GET", by decide +kernel⟩
  obtain ⟨head, hfirst, htext⟩ := hend hstate
  exact ⟨con', hcall, hstate, head, htext, hfirst⟩

end Lighttpd
