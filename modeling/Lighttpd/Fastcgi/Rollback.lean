import Lighttpd.ChunkHistory
import Lighttpd.Fastcgi.Packets

/-!
# `mod_fastcgi.c`: the chunk that is taken back

`fcgi_demux_response` appends a chunk to `hctx->rb` before it reads from the backend. If there is
nothing to read it frees the chunk and puts the old `first` and `last` back by hand; the chunk that
was the last one before still points to the freed one. So the queue is what it was if and only if it
was empty (`rollsBack_iff`). On the pointers `fastcgi_get_packet` is the function on lists
(`getPacket_spec`).
-/

namespace Lighttpd

open CLib

namespace LinkedQueue

/-! ## `fastcgi_get_packet` on the pointers

A loop has no value if it follows a pointer to a chunk that was freed, or if `fuel` turns are not
enough. -/

section Code

variable [Malloc]

def peekHeader (heap : Heap (Cell Chunk)) :
    Nat → Option Nat → Buffer → Nat → Nat → Option (Option Nat × Buffer × Nat)
  | 0, _, _, _, _ => none
  | _ + 1, none, b, _, offset => some (none, b, offset)
  | fuel + 1, some a, b, toread, _ => do
    let c ← heap.get a
    let n := min (weHave c.value 0) toread
    let b :=
      if b.used = 0 then bufferCopyStringLen b (some (c.value.bytesAt 0 n))
      else bufferAppendStringLen b (some (c.value.bytesAt 0 n))
    if toread - n = 0 then some (some a, b, n) else peekHeader heap fuel c.next b (toread - n) n

def copyContent (heap : Heap (Cell Chunk)) (len : Nat) :
    Nat → Option Nat → Buffer → Nat → Option Buffer
  | 0, _, _, _ => none
  | _ + 1, none, b, _ => some b
  | fuel + 1, some a, b, offset =>
    if b.used < len + 1 then do
      let c ← heap.get a
      let n := min (weHave c.value offset) (len - (b.used - 1))
      copyContent heap len fuel c.next (bufferAppendStringLen b (some (c.value.bytesAt offset n))) 0
    else some b

def tagAsRead : Nat → Option Nat → Int → LinkedQueue → Option LinkedQueue
  | 0, _, _, _ => none
  | _ + 1, none, _, cq => some cq
  | fuel + 1, some a, toread, cq =>
    if toread = 0 then some cq
    else do
      let c ← cq.heap.get a
      let n := (c.value.mem.used : Int) - c.value.offset - 1
      if n ≤ toread then
        let value := { c.value with offset := (c.value.mem.used : Int) - 1 }
        tagAsRead fuel c.next (toread - n) { cq with heap := cq.heap.put a ⟨value, c.next⟩ }
      else
        let value := { c.value with offset := c.value.offset + toread }
        some { cq with heap := cq.heap.put a ⟨value, c.next⟩ }

/-- `fastcgi_get_packet` -/
def getPacket (rb : LinkedQueue) :
    Option (Option FastcgiResponsePacket × LinkedQueue × List Syscall) :=
  let fuel := rb.heap.length + 1
  if rb.first = none then some (none, rb, [])
  else do
    let (c, b, offset) ← peekHeader rb.heap fuel rb.first bufferInit 8 0
    if b.used = 0 ∨ b.used - 1 < Record.headerLength then some (none, rb, [])
    else
      let header (i : Nat) : UInt8 := (b.ptr[i]?).getD 0
      let padding := (header 6).toNat
      let len := ((header 5).toNat ||| ((header 4).toNat <<< 8)) + padding
      let requestId := (header 3).toNat ||| ((header 2).toNat <<< 8)
      let type := (header 1).toNat
      let b := bufferCopyStringLen b (some [])
      let b ← (if len ≠ 0 then copyContent rb.heap len fuel c b offset else some b)
      if len ≠ 0 ∧ b.used < len + 1 then some (none, rb, [])
      else
        let b :=
          if len ≠ 0 then
            { b with used := b.used - padding, ptr := b.ptr.set (b.used - padding - 1) 0 }
          else b
        let rb ← tagAsRead fuel rb.first (len + Record.headerLength) rb
        let (rb, calls) ← removeFinishedChunks fuel rb
        some (some ⟨b, len, type, padding, requestId⟩, rb, calls)

end Code

section Passes

variable [Malloc] {cq : LinkedQueue} {xs us : List (Nat × Chunk)}

theorem peekHeader_spec {heap : Heap (Cell Chunk)} : ∀ {fuel : Nat} {p : Option Nat}
    {xs : List (Nat × Chunk)} (b : Buffer) (toread offset : Nat),
    Chain heap p xs none → xs.length < fuel → ∃ ys p' b' offset', ys <:+ xs ∧
      Chain heap p' ys none ∧
      peekHeader heap fuel p b toread offset = some (p', b', offset') ∧
      Lighttpd.peekHeader (xs.map Prod.snd) b toread offset = (ys.map Prod.snd, b', offset')
  | 0, _, _, _, _, _, _, hfuel => by omega
  | fuel + 1, p, [], b, toread, offset, hchain, _ => by
    obtain rfl : p = none := hchain
    exact ⟨[], none, b, offset, List.suffix_rfl, rfl, rfl, rfl⟩
  | fuel + 1, p, (a, v) :: xs, b, toread, offset, hchain, hfuel => by
    have hall := hchain
    obtain ⟨rfl, next, hget, hrest⟩ := hchain
    simp only [peekHeader, hget, Option.bind_eq_bind, Option.bind_some, List.map_cons,
      Lighttpd.peekHeader]
    by_cases hdone : toread - min (weHave v 0) toread = 0
    · rw [if_pos hdone, if_pos hdone]
      exact ⟨(a, v) :: xs, _, _, _, List.suffix_rfl, hall, rfl, rfl⟩
    · rw [if_neg hdone, if_neg hdone]
      rw [List.length_cons] at hfuel
      obtain ⟨ys, p', b', offset', hsuffix, hys, hrun, hlist⟩ :=
        peekHeader_spec _ (toread - min (weHave v 0) toread) (min (weHave v 0) toread) hrest
          (Nat.lt_of_succ_lt_succ hfuel)
      exact ⟨ys, p', b', offset', hsuffix.trans (List.suffix_cons _ _), hys, hrun, hlist⟩

theorem copyContent_spec {heap : Heap (Cell Chunk)} {len : Nat} : ∀ {fuel : Nat} {p : Option Nat}
    {xs : List (Nat × Chunk)} (b : Buffer) (offset : Nat), Chain heap p xs none →
    xs.length < fuel → copyContent heap len fuel p b offset =
      some (Lighttpd.copyContent len (xs.map Prod.snd) b offset)
  | 0, _, _, _, _, _, hfuel => by omega
  | fuel + 1, p, [], b, offset, hchain, _ => by
    obtain rfl : p = none := hchain
    rfl
  | fuel + 1, p, (a, v) :: xs, b, offset, hchain, hfuel => by
    obtain ⟨rfl, next, hget, hrest⟩ := hchain
    simp only [copyContent, List.map_cons, Lighttpd.copyContent]
    by_cases hmore : b.used < len + 1
    · rw [if_pos hmore, if_pos hmore]
      simp only [hget, Option.bind_eq_bind, Option.bind_some]
      exact copyContent_spec _ 0 hrest (Nat.lt_of_succ_lt_succ hfuel)
    · rw [if_neg hmore, if_neg hmore]

theorem copied_spec {heap : Heap (Cell Chunk)} {fuel len : Nat} {p : Option Nat} {b : Buffer}
    {offset : Nat} (hchain : Chain heap p xs none) (hfuel : xs.length < fuel) :
    (if len ≠ 0 then copyContent heap len fuel p b offset else some b) =
      some (if len ≠ 0 then Lighttpd.copyContent len (xs.map Prod.snd) b offset else b) := by
  by_cases hlen : len ≠ 0
  · rw [if_pos hlen, if_pos hlen]
    exact copyContent_spec b offset hchain hfuel
  · rw [if_neg hlen, if_neg hlen]

omit [Malloc] in
theorem tagAsRead_spec (zs : List (Nat × Chunk)) {ys : List (Nat × Chunk)} :
    ∀ (fuel : Nat) (toread : Int) {cq : LinkedQueue}, cq.Links (zs ++ ys) us → ys.length < fuel →
      ∃ cq' ys', tagAsRead fuel (ys.head?.map Prod.fst) toread cq = some cq' ∧
        cq'.Links (zs ++ ys') us ∧ cq.SameCounters cq' ∧ cq'.unusedChunks = cq.unusedChunks ∧
        ys'.length = ys.length ∧ ys'.map Prod.snd = Lighttpd.tagAsRead (ys.map Prod.snd) toread := by
  induction ys generalizing zs with
  | nil =>
    intro fuel toread cq h hfuel
    obtain ⟨fuel, rfl⟩ : ∃ n, fuel = n + 1 := ⟨fuel - 1, by rw [List.length_nil] at hfuel; omega⟩
    exact ⟨cq, [], rfl, h, ⟨rfl, rfl, rfl⟩, rfl, rfl, rfl⟩
  | cons y ys ih =>
    intro fuel toread cq h hfuel
    obtain ⟨a, v⟩ := y
    rw [List.length_cons] at hfuel
    obtain ⟨fuel, rfl⟩ : ∃ n, fuel = n + 1 := ⟨fuel - 1, by omega⟩
    obtain ⟨next, hget, hnext, hset⟩ := h.setValue
    simp only [List.head?_cons, Option.map_some, tagAsRead, List.map_cons, Lighttpd.tagAsRead]
    by_cases hzero : toread = 0
    · rw [if_pos hzero, if_pos hzero]
      exact ⟨cq, (a, v) :: ys, rfl, h, ⟨rfl, rfl, rfl⟩, rfl, rfl, rfl⟩
    · rw [if_neg hzero, if_neg hzero]
      simp only [hget, Option.bind_eq_bind, Option.bind_some]
      by_cases hwhole : (v.mem.used : Int) - v.offset - 1 ≤ toread
      · rw [if_pos hwhole, if_pos hwhole]
        have htagged := hset { v with offset := (v.mem.used : Int) - 1 }
        rw [List.append_cons] at htagged
        obtain ⟨cq', ys', hrun, hlinks, hsame, hcount, hlength, hlist⟩ :=
          ih _ fuel (toread - ((v.mem.used : Int) - v.offset - 1)) htagged (by omega)
        refine ⟨cq', (a, { v with offset := (v.mem.used : Int) - 1 }) :: ys', ?_, ?_,
          ⟨hsame.tempdirs, hsame.bytesIn, hsame.bytesOut⟩, hcount, by simp [hlength], ?_⟩
        · rw [hnext] at hrun ⊢
          exact hrun
        · rw [← List.append_cons] at hlinks
          exact hlinks
        · rw [List.map_cons, hlist]
      · rw [if_neg hwhole, if_neg hwhole]
        exact ⟨_, _, rfl, hset _, ⟨rfl, rfl, rfl⟩, rfl, rfl, rfl⟩

/-- **The pointers give the packets of the lists.** -/
theorem getPacket_spec (h : cq.Links xs us) : ∃ packet cq' xs' us' calls,
    cq.getPacket = some (packet, cq', calls) ∧ cq'.Links xs' us' ∧
      fastcgiGetPacket (cq.contents xs us) = (packet, cq'.contents xs' us', calls) := by
  have hfuel : xs.length < cq.heap.length + 1 := Nat.lt_succ_of_le h.length_le
  have hstart := h.first.start_eq
  unfold getPacket fastcgiGetPacket
  have hempty : (cq.contents xs us).first = [] ↔ cq.first = none := by
    rw [hstart]
    simp [contents]
  by_cases hfirst : cq.first = none
  · rw [if_pos hfirst, if_pos (hempty.mpr hfirst)]
    exact ⟨_, _, xs, us, _, rfl, h, rfl⟩
  · rw [if_neg hfirst, if_neg (mt hempty.mp hfirst)]
    obtain ⟨ys, p, b, offset, hsuffix, hys, hpeek, hlist⟩ :=
      peekHeader_spec bufferInit 8 0 h.first hfuel
    have hcontents : (cq.contents xs us).first = xs.map Prod.snd := rfl
    have hysfuel : ys.length < cq.heap.length + 1 := Nat.lt_of_le_of_lt hsuffix.length_le hfuel
    simp only [hpeek, hcontents, hlist, Option.bind_eq_bind, Option.bind_some]
    by_cases hshort : b.used = 0 ∨ b.used - 1 < Record.headerLength
    · rw [if_pos hshort, if_pos hshort]
      exact ⟨_, _, xs, us, _, rfl, h, rfl⟩
    · rw [if_neg hshort, if_neg hshort]
      generalize ((b.ptr[6]?).getD 0).toNat = padding
      generalize (((b.ptr[5]?).getD 0).toNat ||| ((b.ptr[4]?).getD 0).toNat <<< 8) + padding = len
      rw [copied_spec hys hysfuel]
      simp only [Option.bind_some]
      generalize (if len ≠ 0 then Lighttpd.copyContent len (ys.map Prod.snd)
        (bufferCopyStringLen b (some [])) offset else bufferCopyStringLen b (some [])) = text
      by_cases hmissing : len ≠ 0 ∧ text.used < len + 1
      · rw [if_pos hmissing, if_pos hmissing]
        exact ⟨_, _, xs, us, _, rfl, h, rfl⟩
      · rw [if_neg hmissing, if_neg hmissing]
        obtain ⟨cq₁, xs₁, htag, hlinks, hsame, hcount, hlength, htagged⟩ :=
          tagAsRead_spec [] (cq.heap.length + 1) (len + Record.headerLength : Int) h hfuel
        rw [← hstart] at htag
        rw [List.nil_append] at hlinks
        obtain ⟨cq₂, us₂, calls, hrun, hlinks₂, hremoved⟩ :=
          contents_removeFinishedChunks hlinks (hlength.trans_lt hfuel)
        have hcontents₁ : cq₁.contents xs₁ us =
            { cq.contents xs us with
              first := Lighttpd.tagAsRead (xs.map Prod.snd) (len + Record.headerLength : Int) } := by
          simp only [contents, hsame.tempdirs, hsame.bytesIn, hsame.bytesOut, hcount, htagged]
        rw [← hcontents₁, hremoved]
        simp only [htag, hrun, Option.bind_some]
        exact ⟨_, _, _, us₂, _, rfl, hlinks₂, rfl⟩

end Passes

/-! ## Reading from the backend -/

/-- What `ioctl(fd, FIONREAD, &toread)` gives. -/
inductive FionreadReply where
  | toread (n : Int)
  | again
  | failed
  deriving DecidableEq, Repr

/-- What `read` gives. -/
inductive SocketReply where
  | got (data : Bytes)
  | again
  | failed
  deriving DecidableEq, Repr

/-- The bytes are read to the start of the buffer, with a NUL behind them. -/
def Chunk.filled (data : Bytes) (c : Chunk) : Chunk :=
  { c with mem := { c.mem with ptr := memcpy c.mem.ptr 0 (data ++ [0]), used := data.length + 1 } }

section Code

variable [Malloc]

/-- `fcgi_demux_response` up to the first packet: the value that it returns before, and the queue. -/
def demuxRead (ioctl : FionreadReply) (reply : SocketReply) (rb : LinkedQueue) :
    Option (Option Int × LinkedQueue) :=
  match ioctl with
  | .again => some (some 0, rb)
  | .failed => some (some (-1), rb)
  | .toread toread =>
    if toread > 0 then do
      let cqFirst := rb.first
      let cqLast := rb.last
      let rb ← rb.getAppendBuffer
      let a ← rb.last
      let rb ← rb.write (fun c => { c with mem := bufferPrepareCopy c.mem (toread.toNat + 1) }) a
      match reply with
      | .failed => some (some (-1), rb)
      | .again => do
        let heap ← rb.heap.release a
        some (some 0, { rb with heap := heap, first := cqFirst, last := cqLast })
      | .got data => do
        let rb ← rb.write (Chunk.filled data) a
        some (none, rb)
    else some (some (-1), rb)

/-- What is done to the queue later: bytes arrive, or a packet is asked for. -/
inductive LaterCall where
  | read (toread : Int) (data : Bytes)
  | getPacket
  deriving DecidableEq, Repr

/-- `read` gives at least one byte and no more than there is room for; `toread` is an `int`. -/
def LaterCall.Possible : LaterCall → Prop
  | .read toread data => data ≠ [] ∧ data.length ≤ toread ∧ toread < 2 ^ 31
  | .getPacket => True

/-- The answers of `fastcgi_get_packet`. -/
def answers (rb : LinkedQueue) : List LaterCall → Option (List (Option FastcgiResponsePacket))
  | [] => some []
  | .read toread data :: calls => do
    let (_, rb) ← rb.demuxRead (.toread toread) (.got data)
    answers rb calls
  | .getPacket :: calls => do
    let (packet, rb, _) ← rb.getPacket
    let packets ← answers rb calls
    some (packet :: packets)

def SameRecord (p q : FastcgiResponsePacket) : Prop := ∃ r, p.Carries r ∧ q.Carries r

/-- With nothing to read the call leaves the chunks and the pointers as they were, and what comes
later gives the same packets. -/
def RollsBack (rb : LinkedQueue) (toread : Int) : Prop :=
  ∃ rb', rb.demuxRead (.toread toread) .again = some (some 0, rb') ∧
    (∀ xs us, rb.Links xs us → ∃ us', rb'.Links xs us') ∧
    ∀ calls : List LaterCall, (∀ c ∈ calls, c.Possible) → ∃ ps qs, rb.answers calls = some ps ∧
      rb'.answers calls = some qs ∧ List.Forall₂ (Option.Rel SameRecord) ps qs

end Code

/-! ## The stream behind the pointers -/

/-- The records that the calls give if `s` has arrived before. -/
def recordsOf : Bytes → List LaterCall → List (Option Record)
  | _, [] => []
  | s, .read _ data :: calls => recordsOf (s ++ data) calls
  | s, .getPacket :: calls =>
    match Record.parse s with
    | none => none :: recordsOf s calls
    | some (r, rest) => some r :: recordsOf rest calls

/-- The pointers are right, and `s` has arrived but is not taken yet. -/
def Streams (rb : LinkedQueue) (s : Bytes) : Prop :=
  ∃ xs us, rb.Links xs us ∧ (∀ x ∈ xs, x.2.Received) ∧ unreadOf (xs.map Prod.snd) = s

section Stream

variable [Malloc] {rb : LinkedQueue} {xs us : List (Nat × Chunk)} {s : Bytes}

theorem appended_spec (h : rb.Links xs us) (n : Nat) : ∃ a v us' cq cq',
    rb.getAppendBuffer = some cq ∧ cq.last = some a ∧
      cq.write (fun c => { c with mem := bufferPrepareCopy c.mem n }) a = some cq' ∧
      cq'.Links (xs ++ [(a, v)]) us' ∧ v.type = .mem ∧ v.offset = 0 ∧ n ≤ v.mem.size := by
  obtain ⟨a, cq₁, us', v, hget, htaken, -⟩ := getUnusedChunk_spec h
  obtain ⟨cq₂, hwrite, htaken', -⟩ :=
    htaken.write fun c => { c with type := .mem, offset := 0, mem := bufferReset c.mem }
  obtain ⟨cq₃, happend, hlinks, -⟩ := htaken'.appendChunk
  obtain ⟨next, hcell, -, hset⟩ := hlinks.setValue
  refine ⟨a, { v with
    type := .mem, offset := 0, mem := bufferPrepareCopy (bufferReset v.mem) n }, us', cq₃, _, ?_, ?_,
    ?_, hset _, rfl, rfl, le_size_bufferPrepareCopy _ _⟩
  · simp only [getAppendBuffer, appendNew, hget, hwrite, happend, Option.bind_eq_bind,
      Option.bind_some]
  · rw [hlinks.last]
    simp
  · simp only [LinkedQueue.write, hcell, Option.bind_eq_bind, Option.bind_some]

omit [Malloc] in
theorem received_filled (data : Bytes) {v : Chunk} (htype : v.type = .mem) (hoffset : v.offset = 0)
    (hroom : data.length + 1 ≤ v.mem.size) (hlt : data.length + 1 < 2 ^ 32) :
    (Chunk.filled data v).Received ∧ (Chunk.filled data v).unread = data := by
  have htake := take_memcpy (m := v.mem.ptr) (s := data ++ [0]) (Nat.zero_le _)
  rw [List.take_zero, List.nil_append, Nat.zero_add, List.length_append,
    List.length_singleton] at htake
  have hlen : (memcpy v.mem.ptr 0 (data ++ [0])).length = v.mem.ptr.length := by
    apply length_memcpy
    rw [Nat.zero_add, List.length_append, List.length_singleton]
    exact hroom
  refine ⟨⟨⟨htype, ?_, ?_, ?_⟩, hlt⟩, ?_⟩
  · show 0 ≤ v.offset
    omega
  · show v.offset + 1 ≤ ((data.length + 1 : Nat) : Int)
    omega
  · show data.length + 1 ≤ (memcpy v.mem.ptr 0 (data ++ [0])).length
    rw [hlen]
    exact hroom
  · rw [Chunk.unread_eq]
    show List.drop v.offset.toNat ((memcpy v.mem.ptr 0 (data ++ [0])).take data.length) = data
    rw [hoffset, Int.toNat_zero, List.drop_zero]
    have hcut := congrArg (List.take data.length) htake
    rwa [List.take_take, Nat.min_eq_left (Nat.le_succ _), List.take_left] at hcut

theorem demuxRead_got (h : rb.Streams s) {toread : Int} {data : Bytes}
    (hcall : (LaterCall.read toread data).Possible) : ∃ rb',
      rb.demuxRead (.toread toread) (.got data) = some (none, rb') ∧ rb'.Streams (s ++ data) := by
  obtain ⟨xs, us, hlinks, hreceived, rfl⟩ := h
  obtain ⟨hdata, hle, hlt⟩ := hcall
  have hpos : 0 < data.length := List.length_pos_of_ne_nil hdata
  obtain ⟨a, v, us', cq, cq', happend, hlast, hwrite, hlinks', htype, hoffset, hroom⟩ :=
    appended_spec hlinks (toread.toNat + 1)
  obtain ⟨next, hcell, -, hset⟩ := hlinks'.setValue
  obtain ⟨hfilled, hunread⟩ := received_filled data htype hoffset (by omega) (by omega)
  have hwritten : cq'.write (Chunk.filled data) a =
      some { cq' with heap := cq'.heap.put a ⟨Chunk.filled data v, next⟩ } := by
    simp only [LinkedQueue.write, hcell, Option.bind_eq_bind, Option.bind_some]
  refine ⟨_, ?_, _, us', hset (Chunk.filled data v), ?_, ?_⟩
  · simp only [demuxRead, if_pos (by omega : toread > 0), happend, hlast, hwrite, hwritten,
      Option.bind_eq_bind, Option.bind_some]
  · intro x hx
    rcases List.mem_append.mp hx with hx | hx
    · exact hreceived x hx
    · obtain rfl := List.mem_singleton.mp hx
      exact hfilled
  · simp only [unreadOf, List.map_append, List.map_cons, List.map_nil, List.flatten_append,
      List.flatten_cons, List.flatten_nil, List.append_nil, hunread]

theorem getPacket_streams (h : rb.Streams s) : ∃ packet rb' calls,
    rb.getPacket = some (packet, rb', calls) ∧
      match Record.parse s with
      | none => packet = none ∧ rb'.Streams s
      | some (r, rest) => (∃ p, packet = some p ∧ p.Carries r) ∧ rb'.Streams rest := by
  obtain ⟨xs, us, hlinks, hreceived, rfl⟩ := h
  obtain ⟨packet, rb', xs', us', calls, hrun, hlinks', hlist⟩ := getPacket_spec hlinks
  have hall : ∀ c ∈ (rb.contents xs us).first, c.Received := by
    intro c hc
    obtain ⟨x, hx, rfl⟩ := List.mem_map.mp hc
    exact hreceived x hx
  have hspec := fastcgiGetPacket_spec hall
  have hunread : (rb.contents xs us).unread = unreadOf (xs.map Prod.snd) := rfl
  refine ⟨packet, rb', calls, hrun, ?_⟩
  rw [hunread] at hspec
  cases hparse : Record.parse (unreadOf (xs.map Prod.snd)) with
  | none =>
    rw [hparse] at hspec
    obtain ⟨rfl, hsame, -⟩ : packet = none ∧ rb'.contents xs' us' = rb.contents xs us ∧ calls = [] := by
      simpa using hlist.symm.trans hspec
    have hfirst : xs'.map Prod.snd = xs.map Prod.snd := congrArg Chunkqueue.first hsame
    refine ⟨rfl, xs', us', hlinks', ?_, congrArg unreadOf hfirst⟩
    intro x hx
    apply hall
    rw [show (rb.contents xs us).first = xs.map Prod.snd from rfl, ← hfirst]
    exact List.mem_map_of_mem hx
  | some p =>
    obtain ⟨r, rest⟩ := p
    rw [hparse] at hspec
    obtain ⟨p, l, calls', hget, hcarries, hreceived', hrest⟩ := hspec
    obtain ⟨rfl, rfl, rfl⟩ : packet = some p ∧ rb'.contents xs' us' = l ∧ calls = calls' := by
      simpa using hlist.symm.trans hget
    exact ⟨⟨p, rfl, hcarries⟩, xs', us', hlinks', fun x hx => hreceived' _ (List.mem_map_of_mem hx),
      hrest⟩

theorem answers_spec (calls : List LaterCall) : ∀ {rb : LinkedQueue} {s : Bytes}, rb.Streams s →
    (∀ c ∈ calls, c.Possible) → ∃ packets, rb.answers calls = some packets ∧
      List.Forall₂ (Option.Rel FastcgiResponsePacket.Carries) packets (recordsOf s calls) := by
  induction calls with
  | nil =>
    intro rb s _ _
    exact ⟨[], rfl, List.Forall₂.nil⟩
  | cons c calls ih =>
    intro rb s h hcalls
    have hrest : ∀ d ∈ calls, d.Possible := fun d hd => hcalls d (List.mem_cons_of_mem c hd)
    cases c with
    | read toread data =>
      obtain ⟨rb', hread, hstreams⟩ := demuxRead_got h (hcalls _ List.mem_cons_self)
      obtain ⟨packets, hrun, hall⟩ := ih hstreams hrest
      refine ⟨packets, ?_, hall⟩
      simp only [answers, hread, hrun, Option.bind_eq_bind, Option.bind_some]
    | getPacket =>
      obtain ⟨packet, rb', calls', hget, hspec⟩ := getPacket_streams h
      cases hparse : Record.parse s with
      | none =>
        rw [hparse] at hspec
        obtain ⟨rfl, hstreams⟩ := hspec
        obtain ⟨packets, hrun, hall⟩ := ih hstreams hrest
        refine ⟨none :: packets, ?_, ?_⟩
        · simp only [answers, hget, hrun, Option.bind_eq_bind, Option.bind_some]
        · rw [recordsOf, hparse]
          exact List.Forall₂.cons .none hall
      | some p =>
        obtain ⟨r, rest⟩ := p
        rw [hparse] at hspec
        obtain ⟨⟨p, rfl, hcarries⟩, hstreams⟩ := hspec
        obtain ⟨packets, hrun, hall⟩ := ih hstreams hrest
        refine ⟨some p :: packets, ?_, ?_⟩
        · simp only [answers, hget, hrun, Option.bind_eq_bind, Option.bind_some]
        · rw [recordsOf, hparse]
          exact List.Forall₂.cons (.some hcarries) hall

omit [Malloc] in
theorem sameRecords {ps qs : List (Option FastcgiResponsePacket)} {rs : List (Option Record)}
    (hp : List.Forall₂ (Option.Rel FastcgiResponsePacket.Carries) ps rs)
    (hq : List.Forall₂ (Option.Rel FastcgiResponsePacket.Carries) qs rs) :
    List.Forall₂ (Option.Rel SameRecord) ps qs := by
  induction hp generalizing qs with
  | nil =>
    cases hq
    exact List.Forall₂.nil
  | cons hhead _ ih =>
    cases hq with
    | cons hhead' hrest =>
      apply List.Forall₂.cons _ (ih hrest)
      cases hhead with
      | none =>
        cases hhead'
        exact .none
      | some hcarries =>
        cases hhead' with
        | some hcarries' => exact .some ⟨_, hcarries, hcarries'⟩

/-! ## Nothing to read -/

theorem demuxRead_again (h : rb.Links xs us) {toread : Int} (htoread : 0 < toread) :
    ∃ a us' rb', rb.demuxRead (.toread toread) .again = some (some 0, rb') ∧
      rb'.heap.get a = none ∧ (xs = [] → rb'.Links [] us') ∧
        (xs ≠ [] → Chain rb'.heap rb'.first xs (some a)) := by
  obtain ⟨a, v, us', cq, cq', happend, hlast, hwrite, hlinks, -⟩ :=
    appended_spec h (toread.toNat + 1)
  obtain ⟨next, hcell, -, -⟩ := hlinks.setValue
  obtain ⟨haxs, -, hnodup⟩ := nodup_middle hlinks.first_nodup
  have haus : a ∉ us'.map Prod.fst := hlinks.disjoint (by simp)
  refine ⟨a, us', { cq' with heap := cq'.heap.free a, first := rb.first, last := rb.last }, ?_,
    Heap.get_free_self, ?_, ?_⟩
  · simp only [demuxRead, if_pos htoread, happend, hlast, hwrite, Heap.release_of_get hcell,
      Option.bind_eq_bind, Option.bind_some]
  · rintro rfl
    refine ⟨h.first, hlinks.unused.free haus, h.last, ?_, hlinks.count⟩
    exact hlinks.unused_nodup
  · intro hne
    obtain ⟨x, xs, rfl⟩ := List.exists_cons_of_ne_nil hne
    have hstart : cq'.first = rb.first := by
      rw [hlinks.first.start_eq, h.first.start_eq]
      rfl
    obtain ⟨q, hfront, hq, -⟩ := Chain.append_iff.mp hlinks.first
    rw [hstart, hq] at hfront
    exact hfront.free haxs

theorem not_rollsBack (h : rb.Links xs us) (hne : xs ≠ []) {toread : Int} (htoread : 0 < toread) :
    ¬ rb.RollsBack toread := by
  rintro ⟨rb', hrun, hlinks, -⟩
  obtain ⟨a, us', cq, hrun', hfree, -, hchain⟩ := demuxRead_again h htoread
  obtain rfl : rb' = cq := by
    rw [hrun'] at hrun
    exact (Prod.mk.inj (Option.some.inj hrun)).2.symm
  obtain ⟨us'', hended⟩ := hlinks xs us h
  exact (hchain hne).not_ended hfree hended.first

/-- **The call is undone if and only if there was no chunk before.** -/
theorem rollsBack_iff (h : rb.Links xs us) (hreceived : ∀ x ∈ xs, x.2.Received) {toread : Int}
    (htoread : 0 < toread) : rb.RollsBack toread ↔ rb.first = none := by
  have hempty : rb.first = none ↔ xs = [] := by
    rw [h.first.start_eq]
    simp
  rw [hempty]
  constructor
  · intro hback
    by_contra hne
    exact not_rollsBack h hne htoread hback
  · rintro rfl
    obtain ⟨a, us', rb', hrun, -, hlinks, -⟩ := demuxRead_again h htoread
    have hlinks' := hlinks rfl
    refine ⟨rb', hrun, ?_, ?_⟩
    · intro ys vs hys
      have hstart := hys.first.start_eq
      rw [hempty.mpr rfl] at hstart
      obtain rfl : ys = [] := by simpa using hstart.symm
      exact ⟨us', hlinks'⟩
    · intro calls hcalls
      obtain ⟨ps, hps, hpall⟩ := answers_spec calls ⟨[], us, h, hreceived, rfl⟩ hcalls
      obtain ⟨qs, hqs, hqall⟩ := answers_spec calls ⟨[], us', hlinks', hreceived, rfl⟩ hcalls
      exact ⟨ps, qs, hps, hqs, sameRecords hpall hqall⟩

end Stream

theorem rollsBack_init : letI : Malloc := zeroMalloc
    RollsBack (init []) 8 ∧ (init []).first = none := by
  let _ : Malloc := zeroMalloc
  have hlinks : (init []).Links [] [] := ⟨rfl, rfl, rfl, List.nodup_nil, rfl⟩
  exact ⟨(rollsBack_iff hlinks (by simp) (by decide)).mpr rfl, rfl⟩

def oneByte : LinkedQueue :=
  { init [some ⟨{ chunkInit with type := .mem, mem := ⟨[1, 0], 2, 1⟩ }, none⟩] with
    first := some 0, last := some 0 }

theorem links_oneByte :
    oneByte.Links [(0, { chunkInit with type := .mem, mem := ⟨[1, 0], 2, 1⟩ })] [] :=
  ⟨⟨rfl, none, rfl, rfl⟩, rfl, rfl, by decide, rfl⟩

/-- The packet is asked for in the next call, and the freed chunk is read. -/
theorem not_rollsBack_oneByte : letI : Malloc := zeroMalloc
    ¬ oneByte.RollsBack 8 ∧ (oneByte.getPacket).isSome ∧
      (oneByte.demuxRead (.toread 8) .again).map (fun x => (x.1, x.2.getPacket)) =
        some (some 0, none) := by
  let _ : Malloc := zeroMalloc
  exact ⟨not_rollsBack links_oneByte (by simp) (by decide), by decide +kernel, by decide +kernel⟩

end LinkedQueue

end Lighttpd
