import Lighttpd.Connections.ReadQueue
import Lighttpd.Lib.Record

/-!
# `mod_fastcgi.c`: packets from the backend

`fastcgi_get_packet` takes the first packet off the read queue, if all of it has arrived. Three
passes over the chunks look at the header, copy the content and mark the bytes as read. However the
stream is cut into chunks, they take the records off it that `Record.parse` does (`packetOrNone`,
`segmentationFree`).
-/

namespace Lighttpd

open CLib

/-- `fastcgi_response_packet` -/
structure FastcgiResponsePacket where
  b : Buffer
  len : Nat
  type : Nat
  padding : Nat
  requestId : Nat
  deriving DecidableEq, Repr

/-- `c->mem->used - c->offset - skip - 1` in a `size_t`, which has 32 bits. -/
def weHave (c : Chunk) (skip : Nat) : Nat :=
  (((c.mem.used : Int) - c.offset - skip - 1) % 2 ^ 32).toNat

/-- The `len` bytes at `c->mem->ptr + c->offset + skip`. -/
def Chunk.bytesAt (c : Chunk) (skip len : Nat) : Bytes :=
  (c.mem.ptr.drop (c.offset.toNat + skip)).take len

section Code

variable [Malloc]

/-- The loop that gets the header: `c` and the chunks behind it, the bytes so far, and the bytes to
skip in `c`. -/
def peekHeader : List Chunk → Buffer → Nat → Nat → List Chunk × Buffer × Nat
  | [], b, _, offset => ([], b, offset)
  | c :: cs, b, toread, _ =>
    let n := min (weHave c 0) toread
    let b :=
      if b.used = 0 then bufferCopyStringLen b (some (c.bytesAt 0 n))
      else bufferAppendStringLen b (some (c.bytesAt 0 n))
    if toread - n = 0 then (c :: cs, b, n) else peekHeader cs b (toread - n) n

def copyContent (len : Nat) : List Chunk → Buffer → Nat → Buffer
  | [], b, _ => b
  | c :: cs, b, offset =>
    if b.used < len + 1 then
      let n := min (weHave c offset) (len - (b.used - 1))
      copyContent len cs (bufferAppendStringLen b (some (c.bytesAt offset n))) 0
    else b

def tagAsRead : List Chunk → Int → List Chunk
  | [], _ => []
  | c :: cs, toread =>
    if toread = 0 then c :: cs
    else if (c.mem.used : Int) - c.offset - 1 ≤ toread then
      { c with offset := (c.mem.used : Int) - 1 } ::
        tagAsRead cs (toread - ((c.mem.used : Int) - c.offset - 1))
    else { c with offset := c.offset + toread } :: cs

/-- `none` is the result -1; the queue is `hctx->rb`. -/
def fastcgiGetPacket (rb : Chunkqueue) : Option FastcgiResponsePacket × Chunkqueue × List Syscall :=
  if rb.first = [] then (none, rb, [])
  else
    let (c, b, offset) := peekHeader rb.first bufferInit 8 0
    if b.used = 0 ∨ b.used - 1 < Record.headerLength then (none, rb, [])
    else
      let header (i : Nat) : UInt8 := (b.ptr[i]?).getD 0
      let padding := (header 6).toNat
      let len := ((header 5).toNat ||| ((header 4).toNat <<< 8)) + padding
      let requestId := (header 3).toNat ||| ((header 2).toNat <<< 8)
      let type := (header 1).toNat
      let b := bufferCopyStringLen b (some [])
      let b := if len ≠ 0 then copyContent len c b offset else b
      if len ≠ 0 ∧ b.used < len + 1 then (none, rb, [])
      else
        let b :=
          if len ≠ 0 then
            { b with used := b.used - padding, ptr := b.ptr.set (b.used - padding - 1) 0 }
          else b
        let (rb, calls) := chunkqueueRemoveFinishedChunks
          { rb with first := tagAsRead rb.first (len + Record.headerLength) }
        (some ⟨b, len, type, padding, requestId⟩, rb, calls)

/-- The packets of the calls until one returns -1, and the queue it leaves; `none` if `fuel` calls
are not enough. -/
def fastcgiGetPackets : Nat → Chunkqueue → Option (List FastcgiResponsePacket × Chunkqueue)
  | 0, _ => none
  | fuel + 1, rb =>
    match fastcgiGetPacket rb with
    | (none, rb, _) => some ([], rb)
    | (some packet, rb, _) =>
      (fastcgiGetPackets fuel rb).map fun (packets, rb) => (packet :: packets, rb)

end Code

/-! ## The passes over the chunks -/

def unreadOf (cs : List Chunk) : Bytes := (cs.map Chunk.unread).flatten

/-- The unread bytes behind those that are skipped in the first chunk. -/
def unreadFrom (cs : List Chunk) (skip : Nat) : Bytes :=
  match cs with
  | [] => []
  | c :: cs => c.unread.drop skip ++ unreadOf cs

theorem unreadFrom_zero (cs : List Chunk) : unreadFrom cs 0 = unreadOf cs := by
  cases cs <;> rfl

/-- A chunk of received bytes whose number fits a `size_t`. -/
structure Chunk.Received (c : Chunk) : Prop where
  readable : c.Readable
  lt : c.mem.used < 2 ^ 32

namespace Chunk.Received

variable {c : Chunk} {skip : Nat}

theorem weHave (h : c.Received) (hskip : skip ≤ c.unread.length) :
    weHave c skip = c.unread.length - skip := by
  have hlen := h.readable.length
  have h0 := h.readable.nonneg
  have hlt := h.lt
  unfold Lighttpd.weHave
  omega

theorem bytesAt (h : c.Received) {n : Nat} (hn : n ≤ c.unread.length - skip) :
    c.bytesAt skip n = (c.unread.drop skip).take n := by
  have hlen := h.readable.length
  have h0 := h.readable.nonneg
  unfold Chunk.bytesAt
  rw [Chunk.unread, List.drop_take, List.drop_drop, List.take_take, Nat.min_eq_left (by omega)]

end Chunk.Received

/-- A position in the chunks: behind `skip` bytes of the first one. -/
structure At (cs : List Chunk) (skip : Nat) : Prop where
  received : ∀ c ∈ cs, c.Received
  le : ∀ c ∈ cs.head?, skip ≤ c.unread.length

section Passes

variable [Malloc]

theorem shows_copyOrAppend {b : Buffer} {t : Bytes} (hb : b.Shows t) (s : Bytes) :
    (if b.used = 0 then bufferCopyStringLen b (some s)
      else bufferAppendStringLen b (some s)).Text (t ++ s) := by
  rcases hb with hb | ⟨hu, rfl⟩
  · rw [if_neg (by rw [hb.used]; omega)]
    exact text_bufferAppendStringLen hb s
  · rw [if_pos hu]
    exact text_bufferCopyStringLen b s

theorem peekHeader_spec : ∀ (cs : List Chunk) {b : Buffer} {t : Bytes} {k : Nat} (offset : Nat),
    (∀ c ∈ cs, c.Received) → b.Shows t → 0 < k →
      (peekHeader cs b k offset).2.1.Shows (t ++ (unreadOf cs).take k) ∧
        unreadFrom (peekHeader cs b k offset).1 (peekHeader cs b k offset).2.2 =
          (unreadOf cs).drop k ∧
        At (peekHeader cs b k offset).1 (peekHeader cs b k offset).2.2
  | [], b, t, k, offset, _, hb, _ => by
    refine ⟨?_, ?_, ⟨?_, ?_⟩⟩ <;> simp [peekHeader, unreadOf, unreadFrom, hb]
  | c :: cs, b, t, k, _, hcs, hb, hk => by
    have hc := hcs c (by simp)
    have hrest : ∀ d ∈ cs, d.Received := fun d hd => hcs d (List.mem_cons_of_mem _ hd)
    have hhave : weHave c 0 = c.unread.length := hc.weHave (Nat.zero_le _)
    have hbytes : c.bytesAt 0 (min c.unread.length k) = c.unread.take k := by
      rw [hc.bytesAt (by omega), List.drop_zero, ← List.take_take, List.take_take,
        Nat.min_comm, ← List.take_take, List.take_length]
    have htext := shows_copyOrAppend hb (c.unread.take k)
    have hcons : unreadOf (c :: cs) = c.unread ++ unreadOf cs := rfl
    unfold peekHeader
    simp only [hhave, hbytes]
    split
    · next hdone =>
      -- the header ends in this chunk
      have hle : k ≤ c.unread.length := by omega
      refine ⟨?_, ?_, ⟨hcs, ?_⟩⟩
      · rw [hcons, List.take_append_of_le_length hle]
        exact Or.inl htext
      · rw [hcons, List.drop_append_of_le_length hle, Nat.min_eq_right hle, unreadFrom]
      · intro d hd
        obtain rfl : c = d := by simpa using hd
        exact Nat.min_le_left _ _
    · next hmore =>
      have hlt : c.unread.length < k := by omega
      have hmin : min c.unread.length k = c.unread.length := by omega
      obtain ⟨h1, h2, h3⟩ := peekHeader_spec cs (k := k - min c.unread.length k)
        (min c.unread.length k) hrest (Or.inl htext) (by omega)
      refine ⟨?_, ?_, h3⟩
      · rw [hcons, List.take_append]
        rw [hmin, List.append_assoc] at h1
        rw [hmin]
        exact h1
      · rw [hcons, List.drop_append, List.drop_of_length_le (by omega), List.nil_append]
        rw [hmin] at h2
        rw [hmin]
        exact h2

theorem copyContent_spec {len : Nat} : ∀ (cs : List Chunk) {b : Buffer} {t : Bytes} {offset : Nat},
    At cs offset → b.Text t → t.length ≤ len →
      (copyContent len cs b offset).Text (t ++ (unreadFrom cs offset).take (len - t.length))
  | [], b, t, offset, _, hb, _ => by
    simpa [copyContent, unreadFrom] using hb
  | c :: cs, b, t, offset, hat, hb, hle => by
    have hc := hat.received c (by simp)
    have hskip : offset ≤ c.unread.length := hat.le c (by simp)
    have hused := hb.used
    unfold copyContent
    split
    · have hhave := hc.weHave hskip
      have hbytes : c.bytesAt offset (min (c.unread.length - offset) (len - t.length)) =
          (c.unread.drop offset).take (len - t.length) := by
        rw [hc.bytesAt (by omega), ← List.length_drop, Nat.min_comm, ← List.take_take,
          List.take_length]
      have hwant : len - (b.used - 1) = len - t.length := by omega
      simp only [hhave, hwant, hbytes]
      have htext := text_bufferAppendStringLen hb ((c.unread.drop offset).take (len - t.length))
      have hlen : ((c.unread.drop offset).take (len - t.length)).length =
          min (len - t.length) (c.unread.length - offset) := by
        rw [List.length_take, List.length_drop]
      have hrest : At cs 0 :=
        ⟨fun d hd => hat.received d (List.mem_cons_of_mem _ hd), fun _ _ => Nat.zero_le _⟩
      have hfits : (t ++ (c.unread.drop offset).take (len - t.length)).length ≤ len := by
        rw [List.length_append, hlen]
        omega
      have ih := copyContent_spec cs hrest htext hfits
      rw [unreadFrom_zero, List.append_assoc] at ih
      have hleft : len - (t ++ (c.unread.drop offset).take (len - t.length)).length =
          len - t.length - (c.unread.drop offset).length := by
        rw [List.length_append, hlen, List.length_drop]
        omega
      rw [hleft, ← List.take_append] at ih
      exact ih
    · have hfull : len - t.length = 0 := by omega
      rw [hfull, List.take_zero, List.append_nil]
      exact hb

end Passes

theorem tagAsRead_spec : ∀ (cs : List Chunk) (n : Nat), (∀ c ∈ cs, c.Received) →
    (∀ c ∈ tagAsRead cs n, c.Received) ∧ unreadOf (tagAsRead cs n) = (unreadOf cs).drop n
  | [], n, _ => by
    refine ⟨?_, ?_⟩ <;> simp [tagAsRead, unreadOf]
  | c :: cs, n, hcs => by
    have hc := hcs c (by simp)
    have hrest : ∀ d ∈ cs, d.Received := fun d hd => hcs d (List.mem_cons_of_mem _ hd)
    have hlen := hc.readable.length
    have hcons : unreadOf (c :: cs) = c.unread ++ unreadOf cs := rfl
    unfold tagAsRead
    split
    · next h0 =>
      obtain rfl : n = 0 := by omega
      exact ⟨hcs, rfl⟩
    · split
      · next hle =>
        have hn : (n : Int) - ((c.mem.used : Int) - c.offset - 1) =
            ((n - c.unread.length : Nat) : Int) := by omega
        obtain ⟨hread, hnil⟩ := hc.readable.finish
        obtain ⟨h1, h2⟩ := tagAsRead_spec cs (n - c.unread.length) hrest
        rw [hn]
        refine ⟨?_, ?_⟩
        · intro d hd
          rcases List.mem_cons.mp hd with rfl | hd
          · exact ⟨hread, hc.lt⟩
          · exact h1 d hd
        · rw [hcons, List.drop_append, List.drop_of_length_le (by omega), List.nil_append, ← h2]
          show Chunk.unread _ ++ unreadOf _ = _
          rw [hnil, List.nil_append]
      · next hlt =>
        obtain ⟨hread, hdrop⟩ := hc.readable.advance (n := n) (by omega)
        refine ⟨?_, ?_⟩
        · intro d hd
          rcases List.mem_cons.mp hd with rfl | hd
          · exact ⟨hread, hc.lt⟩
          · exact hrest d hd
        · rw [hcons, List.drop_append_of_le_length (by omega), ← hdrop]
          rfl


/-! ## One packet -/

structure FastcgiResponsePacket.Carries (packet : FastcgiResponsePacket) (r : Record) : Prop where
  type : packet.type = r.type
  requestId : packet.requestId = r.requestId
  padding : packet.padding = r.padding
  len : packet.len = r.content.length + r.padding
  content : packet.b.Text r.content

theorem or_shiftLeft_eq_word (high low : UInt8) :
    low.toNat ||| (high.toNat <<< 8) = Record.word high low := by
  have hlow : low.toNat < 2 ^ 8 := low.toNat_lt
  rw [Nat.or_comm, ← Nat.shiftLeft_add_eq_or_of_lt hlow, Nat.shiftLeft_eq]
  rfl

theorem exists_header {s : Bytes} (h : 8 ≤ s.length) :
    ∃ version type id1 id0 len1 len0 padding reserved rest,
      s = version :: type :: id1 :: id0 :: len1 :: len0 :: padding :: reserved :: rest := by
  match s, h with
  | version :: type :: id1 :: id0 :: len1 :: len0 :: padding :: reserved :: rest, _ =>
    exact ⟨version, type, id1, id0, len1, len0, padding, reserved, rest, rfl⟩

theorem Buffer.Text.cut {b : Buffer} {t : Bytes} (h : b.Text t) {n : Nat} (hn : n ≤ t.length) :
    ({ b with used := b.used - n, ptr := b.ptr.set (b.used - n - 1) 0 } : Buffer).Text
      (t.take (t.length - n)) := by
  have hu := h.used
  have hwf := h.wf
  simp only [Buffer.WF, Buffer.size] at hwf
  have htake := congrArg (List.take (t.length - n)) (take_of_holds h.holds h.used)
  rw [List.take_take, Nat.min_eq_left (by omega)] at htake
  have hlast : b.used - n - 1 = t.length - n := by omega
  refine ⟨?_, ?_⟩
  · show List.take (b.used - n) (b.ptr.set (b.used - n - 1) 0) = _
    have hused : b.used - n = t.length - n + 1 := by omega
    rw [hlast, hused, List.take_add_one, List.take_set_of_le (Nat.le_refl _),
      List.getElem?_set_self (by omega), htake]
    rfl
  · show b.used - n = _
    rw [List.length_take]
    omega


section OnePacket

variable [Malloc]

theorem content_spec {cs : List Chunk} {offset len padding : Nat} (hat : At cs offset)
    (b : Buffer) (hpad : padding ≤ len) :
    let text := bufferCopyStringLen b (some [])
    let copied := if len ≠ 0 then copyContent len cs text offset else text
    (len ≠ 0 ∧ copied.used < len + 1 ↔ (unreadFrom cs offset).length < len) ∧
      (len ≤ (unreadFrom cs offset).length →
        (if len ≠ 0 then
          { copied with
            used := copied.used - padding, ptr := copied.ptr.set (copied.used - padding - 1) 0 }
        else copied).Text ((unreadFrom cs offset).take (len - padding))) := by
  intro text copied
  have htext : text.Text [] := text_bufferCopyStringLen b []
  by_cases hlen : len = 0
  · have hcopied : copied = text := if_neg (by simpa using hlen)
    rw [hcopied]
    subst hlen
    refine ⟨by simp, fun _ => ?_⟩
    rw [if_neg (by simp), Nat.zero_sub, List.take_zero]
    exact htext
  · have hcopied : copied = copyContent len cs text offset := if_pos hlen
    have hspec := copyContent_spec cs hat htext (Nat.zero_le len)
    rw [List.nil_append, List.length_nil, Nat.sub_zero, ← hcopied] at hspec
    have hused := hspec.used
    rw [List.length_take] at hused
    refine ⟨by omega, fun hle => ?_⟩
    have hfull : ((unreadFrom cs offset).take len).length = len := by
      rw [List.length_take]
      omega
    have hcut := hspec.cut (n := padding) (by omega)
    rw [hfull, List.take_take, Nat.min_eq_left (Nat.sub_le _ _)] at hcut
    rw [if_pos hlen]
    exact hcut

theorem fastcgiGetPacket_spec {rb : Chunkqueue} (h : ∀ c ∈ rb.first, c.Received) :
    match Record.parse rb.unread with
    | none => fastcgiGetPacket rb = (none, rb, [])
    | some (r, rest) =>
      ∃ packet rb' calls, fastcgiGetPacket rb = (some packet, rb', calls) ∧ packet.Carries r ∧
        (∀ c ∈ rb'.first, c.Received) ∧ rb'.unread = rest := by
  have hunread : rb.unread = unreadOf rb.first := rfl
  by_cases hempty : rb.first = []
  · have hnil : rb.unread = [] := by
      rw [hunread, hempty]
      rfl
    rw [hnil]
    unfold fastcgiGetPacket
    rw [if_pos hempty]
    rfl
  obtain ⟨hshows, hbehind, hat⟩ :=
    peekHeader_spec rb.first (k := 8) 0 h (Or.inr ⟨rfl, rfl⟩ : bufferInit.Shows []) (by omega)
  rw [List.nil_append] at hshows
  rcases hpeek : peekHeader rb.first bufferInit 8 0 with ⟨cs, b, offset⟩
  rw [hpeek] at hshows hbehind hat
  simp only at hshows hbehind hat
  have hlt : (b.used = 0 ∨ b.used - 1 < Record.headerLength) ↔ rb.unread.length < 8 := by
    rcases hshows with htext | ⟨hu, hnil⟩
    · have hused := htext.used
      rw [List.length_take, ← hunread] at hused
      simp only [Record.headerLength]
      omega
    · have := congrArg List.length hnil
      rw [List.length_take, ← hunread, List.length_nil] at this
      simp only [hu, true_or, true_iff]
      omega
  unfold fastcgiGetPacket
  rw [if_neg hempty]
  simp only [hpeek]
  by_cases hshort : rb.unread.length < 8
  · rw [Record.parse_eq_none_of_length hshort]
    simp only
    rw [if_pos (hlt.mpr hshort)]
  rw [if_neg (fun hc => hshort (hlt.mp hc))]
  obtain ⟨version, type, id1, id0, len1, len0, pad, reserved, rest, hs⟩ :=
    exists_header (s := rb.unread) (by omega)
  rw [← hunread, hs] at hshows hbehind
  have htext : b.Text [version, type, id1, id0, len1, len0, pad, reserved] := by
    rcases hshows with htext | ⟨-, hnil⟩
    · exact htext
    · cases hnil
  have hptr := take_of_holds htext.holds htext.used
  have hbyte : ∀ i, i < 8 → (b.ptr[i]?).getD 0 =
      ([version, type, id1, id0, len1, len0, pad, reserved][i]?).getD 0 := by
    intro i hi
    rw [← hptr, List.getElem?_take_of_lt (by have := htext.used; simp at this; omega)]
  simp only [hbyte _ (by omega : 1 < 8), hbyte _ (by omega : 2 < 8), hbyte _ (by omega : 3 < 8),
    hbyte _ (by omega : 4 < 8), hbyte _ (by omega : 5 < 8), hbyte _ (by omega : 6 < 8),
    List.getElem?_cons_zero, List.getElem?_cons_succ, Option.getD_some, or_shiftLeft_eq_word]
  obtain ⟨hall, hcontent⟩ := content_spec hat b (Nat.le_add_left pad.toNat (Record.word len1 len0))
  have hrest : unreadFrom cs offset = rest := hbehind
  rw [hrest] at hall hcontent
  rw [hs]
  unfold Record.parse
  simp only
  by_cases hmissing : rest.length < Record.word len1 len0 + pad.toNat
  · simp only [if_pos hmissing]
    exact if_pos (hall.mpr hmissing)
  · simp only [if_neg hmissing]
    rw [if_neg (fun hc => hmissing (hall.mp hc))]
    have hlen : (rest.take (Record.word len1 len0)).length = Record.word len1 len0 := by
      rw [List.length_take]
      omega
    have htaken := hcontent (by omega)
    rw [Nat.add_sub_cancel] at htaken
    obtain ⟨htagged, hdropped⟩ := tagAsRead_spec rb.first
      (Record.word len1 len0 + pad.toNat + Record.headerLength) h
    refine ⟨_, _, _, rfl, ⟨rfl, rfl, rfl, by rw [hlen], htaken⟩, ?_, ?_⟩
    · intro c hc
      exact htagged c ((removeFinished_suffix _ _ _).subset hc)
    · have hread : Chunkqueue.Readable { rb with
          first := tagAsRead rb.first
            (Record.word len1 len0 + pad.toNat + Record.headerLength : Nat) } :=
        fun c hc => (htagged c hc).readable
      have hkept := (chunkqueueRemoveFinishedChunks_spec hread).2
      refine hkept.trans (hdropped.trans ?_)
      rw [← hunread, hs, Nat.add_comm _ Record.headerLength, ← List.drop_drop]
      rfl

end OnePacket

section AllPackets

variable [Malloc]

theorem fastcgiGetPackets_spec (fuel : Nat) : ∀ {rb : Chunkqueue}, (∀ c ∈ rb.first, c.Received) →
    rb.unread.length < fuel →
      ∃ packets rb', fastcgiGetPackets fuel rb = some (packets, rb') ∧
        List.Forall₂ FastcgiResponsePacket.Carries packets (Record.parseAll rb.unread).1 ∧
        rb'.unread = (Record.parseAll rb.unread).2 := by
  induction fuel with
  | zero =>
    intro rb _ hlt
    omega
  | succ fuel ih =>
    intro rb h hlt
    have hcall := fastcgiGetPacket_spec h
    cases hparse : Record.parse rb.unread with
    | none =>
      rw [hparse] at hcall
      simp only at hcall
      rw [Record.parseAll_of_none hparse]
      refine ⟨[], rb, ?_, List.Forall₂.nil, rfl⟩
      rw [fastcgiGetPackets, hcall]
    | some found =>
      obtain ⟨r, rest⟩ := found
      rw [hparse] at hcall
      obtain ⟨packet, rb', calls, hrun, hcarries, hreceived, hrest⟩ := hcall
      have hlen := (Record.parse_eq_some hparse).1
      have hpos : Record.headerLength = 8 := rfl
      obtain ⟨packets, rb'', hruns, hall, hleft⟩ := ih hreceived (by rw [hrest]; omega)
      rw [hrest] at hall hleft
      rw [Record.parseAll_of_some hparse]
      refine ⟨packet :: packets, rb'', ?_, List.Forall₂.cons hcarries hall, hleft⟩
      rw [fastcgiGetPackets, hrun]
      simp only [hruns, Option.map_some]

/-- The packets are the records of the joined stream, whatever the chunks are. A call takes one
record off it, header and padding included, or leaves the queue as it is. -/
theorem segmentationFree (rb : Chunkqueue) (h : ∀ c ∈ rb.first, c.Received) :
    (∀ fuel, rb.unread.length < fuel →
      ∃ packets rb', fastcgiGetPackets fuel rb = some (packets, rb') ∧
        List.Forall₂ FastcgiResponsePacket.Carries packets (Record.parseAll rb.unread).1 ∧
        rb'.unread = (Record.parseAll rb.unread).2) ∧
      (∀ rb' calls, fastcgiGetPacket rb = (none, rb', calls) →
        Record.parse rb.unread = none ∧ rb' = rb) ∧
      ∀ packet rb' calls, fastcgiGetPacket rb = (some packet, rb', calls) →
        (∀ c ∈ rb'.first, c.Received) ∧ ∃ r, packet.Carries r ∧
          Record.parse rb.unread = some (r, rb'.unread) ∧
          Record.headerLength + r.content.length + r.padding + rb'.unread.length =
            rb.unread.length ∧
          rb'.unread = rb.unread.drop (Record.headerLength + r.content.length + r.padding) := by
  refine ⟨fun fuel hfuel => fastcgiGetPackets_spec fuel h hfuel, ?_, ?_⟩
  · intro rb' calls hrun
    have hcall := fastcgiGetPacket_spec h
    cases hparse : Record.parse rb.unread with
    | none =>
      rw [hparse, hrun] at hcall
      obtain ⟨-, hrb⟩ := Prod.mk.inj hcall
      exact ⟨rfl, (Prod.mk.inj hrb).1⟩
    | some found =>
      rw [hparse] at hcall
      obtain ⟨packet, rb'', calls', hsome, -⟩ := hcall
      rw [hrun] at hsome
      cases hsome
  · intro packet rb' calls hrun
    have hcall := fastcgiGetPacket_spec h
    cases hparse : Record.parse rb.unread with
    | none =>
      rw [hparse, hrun] at hcall
      cases hcall
    | some found =>
      rw [hparse] at hcall
      obtain ⟨packet', rb'', calls', hsome, hcarries, hreceived, hrest⟩ := hcall
      rw [hrun] at hsome
      cases hsome
      obtain ⟨hlen, hdrop⟩ := Record.parse_eq_some hparse
      refine ⟨hreceived, _, hcarries, ?_, ?_, ?_⟩
      · rw [hrest]
      · rw [hrest, hlen]
      · rw [hrest, ← hdrop]

end AllPackets

section Straddling

/-- A record with two bytes of content and one of padding. Its header begins behind a byte that was
read, and goes on in the second chunk. -/
def straddling : Chunkqueue :=
  { chunkqueueInit with first :=
    [{ chunkInit with type := .mem, offset := 1, mem := ⟨[88, 1, 6, 0, 1, 0, 0], 7, 1⟩ },
     { chunkInit with type := .mem, mem := ⟨[2, 1, 0, 104, 105, 0, 0], 7, 1⟩ }] }

theorem received_straddling : ∀ c ∈ straddling.first, c.Received := by
  intro c hc
  simp only [straddling, List.mem_cons, List.not_mem_nil, or_false] at hc
  rcases hc with rfl | rfl
  · exact ⟨⟨rfl, by decide, by decide, by decide⟩, by decide⟩
  · exact ⟨⟨rfl, by decide, by decide, by decide⟩, by decide⟩

/-- It is found in one call, and a second one finds nothing. -/
theorem segmentationFree_straddling :
    letI : Malloc := zeroMalloc
    ∃ packets rb', fastcgiGetPackets 12 straddling = some (packets, rb') ∧
      List.Forall₂ FastcgiResponsePacket.Carries packets [⟨6, 1, ascii "hi", 1⟩] ∧
      rb'.unread = [] := by
  let _ : Malloc := zeroMalloc
  have hone : Record.parse straddling.unread = some (⟨6, 1, ascii "hi", 1⟩, []) := by decide
  have hall : Record.parseAll straddling.unread = ([⟨6, 1, ascii "hi", 1⟩], []) := by
    rw [Record.parseAll_of_some hone, Record.parseAll_of_none rfl]
  have hrun := (segmentationFree straddling received_straddling).1 12 (by decide)
  rw [hall] at hrun
  exact hrun

end Straddling

end Lighttpd
