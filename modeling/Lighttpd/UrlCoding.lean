import Lighttpd.Buffer

/-!
# `buffer.c`: encoding and decoding of URLs

`buffer_append_string_encoded` escapes the characters of a table, and `buffer_urldecode_path` takes
the escapes back in place; control characters become `_` on the way (`urldecode_encoded`). The
decoder reads each byte up to the terminator and writes only where it has read (`Careful`).
-/

namespace Lighttpd

open CLib

/-! ## Encoding -/

inductive BufferEncoding where
  | relUri
  | relUriPart
  | html
  | minimalXml
  | hex
  | httpHeader
  deriving DecidableEq, Repr

/-- `encoded_chars_rel_uri_part`: the sixteen rows of the table. -/
def encodedCharsRelUriPart : List Nat := [
  0b1111111111111111, 0b1111111111111111, 0b1011111100011001, 0b0000000000111111,
  0b1000000000000000, 0b0000000000011110, 0b1000000000000000, 0b0000000000011111,
  0b1111111111111111, 0b1111111111111111, 0b1111111111111111, 0b1111111111111111,
  0b1111111111111111, 0b1111111111111111, 0b1111111111111111, 0b1111111111111111]

def encodedCharsRelUri : List Nat := [
  0b1111111111111111, 0b1111111111111111, 0b1011111100011000, 0b0000000000111111,
  0b1000000000000000, 0b0000000000011110, 0b1000000000000000, 0b0000000000011111,
  0b1111111111111111, 0b1111111111111111, 0b1111111111111111, 0b1111111111111111,
  0b1111111111111111, 0b1111111111111111, 0b1111111111111111, 0b1111111111111111]

def encodedCharsHtml : List Nat := [
  0b1111111111111111, 0b1111111111111111, 0b0000001000000000, 0b0000000000001010,
  0b0000000000000000, 0b0000000000000000, 0b0000000000000000, 0b0000000000000001,
  0b1111111111111111, 0b1111111111111111, 0b1111111111111111, 0b1111111111111111,
  0b1111111111111111, 0b1111111111111111, 0b1111111111111111, 0b1111111111111111]

def encodedCharsMinimalXml : List Nat := [
  0b1111111111111111, 0b1111111111111111, 0b0000001000000000, 0b0000000000001010,
  0b0000000000000000, 0b0000000000000000, 0b0000000000000000, 0b0000000000000001]

def encodedCharsHex : List Nat := List.replicate 16 0b1111111111111111

def encodedCharsHttpHeader : List Nat := [0b0000000000100000]

def BufferEncoding.table : BufferEncoding → List Nat
  | .relUri => encodedCharsRelUri
  | .relUriPart => encodedCharsRelUriPart
  | .html => encodedCharsHtml
  | .minimalXml => encodedCharsMinimalXml
  | .hex => encodedCharsHex
  | .httpHeader => encodedCharsHttpHeader

/-- `map[*ds]`; rows that are left out are zero. -/
def BufferEncoding.map (encoding : BufferEncoding) (c : UInt8) : Bool :=
  (encoding.table.getD (c.toNat / 16) 0).testBit (15 - c.toNat % 16)

def hexChars : Bytes := ascii "0123456789abcdef"

def hexPair (c : UInt8) : Bytes :=
  [hexChars.getD (c.toNat / 16) 0, hexChars.getD (c.toNat % 16) 0]

def encodeByte (encoding : BufferEncoding) (c : UInt8) : Bytes :=
  if encoding.map c then
    match encoding with
    | .relUri | .relUriPart => 37 :: hexPair c
    | .html | .minimalXml => ascii "&#x" ++ hexPair c ++ ascii ";"
    | .hex => hexPair c
    | .httpHeader => [c, 9]
  else [c]

def encodeText (encoding : BufferEncoding) (s : Bytes) : Bytes := s.flatMap (encodeByte encoding)

section Encode

variable [Malloc]

def bufferAppendStringEncoded (b : Buffer) (s : Bytes) (encoding : BufferEncoding) :
    Option Buffer :=
  if b.used = 0 ∨ b.ptr[b.used - 1]? ≠ some 0 then none
  else if s = [] then some b
  else
    let text := encodeText encoding s
    let b := bufferPrepareAppend b text.length
    some { b with ptr := memcpy b.ptr (b.used - 1) (text ++ [0]), used := b.used + text.length }

end Encode

/-! ## Decoding -/

/-- `hex2int`, with the arithmetic of `unsigned char`. -/
def hex2int (hex : UInt8) : UInt8 :=
  let hex := hex - 48
  let hex := if hex > 9 then ((hex + 48 - 1) ||| 32) - 97 + 11 else hex
  if hex > 15 then 255 else hex

def printable (c : UInt8) : UInt8 := if c < 32 ∨ c = 127 then 95 else c

/-- What the decoder does to the memory at `url->ptr`. -/
inductive Access where
  | read (i : Nat)
  | write (i : Nat)
  deriving DecidableEq, Repr

structure Decoding where
  ptr : Bytes
  src : Nat
  dst : Nat
  accesses : List Access

/-- `*(src + k)` -/
def Decoding.read (st : Decoding) (k : Nat) : Option (UInt8 × Decoding) :=
  (st.ptr[st.src + k]?).map fun c =>
    (c, { st with accesses := st.accesses ++ [.read (st.src + k)] })

/-- `*dst = c` -/
def Decoding.write (st : Decoding) (c : UInt8) : Option Decoding :=
  if st.dst < st.ptr.length then
    some { st with ptr := st.ptr.set st.dst c, accesses := st.accesses ++ [.write st.dst] }
  else none

/-- `dst++; src += n` -/
def Decoding.advance (st : Decoding) (n : Nat) : Decoding :=
  { st with src := st.src + n, dst := st.dst + 1 }

/-- The byte at `src` is a `'%'`; `src` stands behind what was taken. -/
def decodeEscape (st : Decoding) : Option Decoding := do
  let st ← st.write 37
  let (h, st) ← st.read 1
  let high := hex2int h
  if high ≠ 255 then
    let (l, st) ← st.read 2
    let low := hex2int l
    if low ≠ 255 then
      let st ← st.write (printable (high <<< 4 ||| low))
      some (st.advance 3)
    else some (st.advance 1)
  else some (st.advance 1)

/-- The loop; `fuel` bounds the number of rounds. -/
def urldecodeLoop (isQuery : Bool) : Nat → Decoding → Option Decoding
  | 0, _ => none
  | fuel + 1, st => do
    let (c, st) ← st.read 0
    if c = 0 then some st
    else if isQuery ∧ c = 43 then urldecodeLoop isQuery fuel ((← st.write 32).advance 1)
    else if c = 37 then urldecodeLoop isQuery fuel (← decodeEscape st)
    else urldecodeLoop isQuery fuel ((← st.write c).advance 1)

/-- The buffer afterwards, and the accesses; an empty block stands for `NULL`. -/
def bufferUrldecodeInternal (url : Buffer) (isQuery : Bool) : Option (Buffer × List Access) :=
  if url.ptr = [] then some (url, [])
  else do
    let st ← urldecodeLoop isQuery (url.ptr.length + 1) ⟨url.ptr, 0, 0, []⟩
    let st ← st.write 0
    some ({ url with ptr := st.ptr, used := st.dst + 1 }, st.accesses)

def bufferUrldecodePath (url : Buffer) : Option (Buffer × List Access) :=
  bufferUrldecodeInternal url false

def bufferUrldecodeQuery (url : Buffer) : Option (Buffer × List Access) :=
  bufferUrldecodeInternal url true

/-! ## What is decoded -/

def urldecoded (isQuery : Bool) : Bytes → Bytes
  | [] => []
  | c :: t =>
    if isQuery ∧ c = 43 then 32 :: urldecoded isQuery t
    else if c = 37 then
      match t with
      | h :: l :: rest =>
        if hex2int h ≠ 255 ∧ hex2int l ≠ 255 then
          printable (hex2int h <<< 4 ||| hex2int l) :: urldecoded isQuery rest
        else 37 :: urldecoded isQuery (h :: l :: rest)
      | t => 37 :: urldecoded isQuery t
    else c :: urldecoded isQuery t

theorem urldecoded_plus (t : Bytes) : urldecoded true (43 :: t) = 32 :: urldecoded true t := by
  rw [urldecoded.eq_def]
  exact if_pos ⟨rfl, rfl⟩

theorem urldecoded_char {isQuery : Bool} {c : UInt8} (hplus : ¬ (isQuery = true ∧ c = 43))
    (hc : c ≠ 37) (t : Bytes) : urldecoded isQuery (c :: t) = c :: urldecoded isQuery t := by
  rw [urldecoded.eq_def]
  dsimp only
  rw [if_neg hplus, if_neg hc]

theorem urldecoded_escape {isQuery : Bool} {h l : UInt8} (hh : hex2int h ≠ 255)
    (hl : hex2int l ≠ 255) (t : Bytes) : urldecoded isQuery (37 :: h :: l :: t) =
      printable (hex2int h <<< 4 ||| hex2int l) :: urldecoded isQuery t := by
  rw [urldecoded.eq_def]
  dsimp only
  rw [if_neg (fun h => absurd h.2 (by decide)), if_pos rfl, if_pos ⟨hh, hl⟩]

theorem urldecoded_percent {isQuery : Bool} {t : Bytes}
    (h : ∀ a b rest, t = a :: b :: rest → ¬ (hex2int a ≠ 255 ∧ hex2int b ≠ 255)) :
    urldecoded isQuery (37 :: t) = 37 :: urldecoded isQuery t := by
  rw [urldecoded.eq_def]
  dsimp only
  rw [if_neg (fun h => absurd h.2 (by decide)), if_pos rfl]
  split
  · next a b rest => exact if_neg (h a b rest rfl)
  · rfl

/-! ## What is read and written -/

/-- Every read is within `limit`, and every write is where there was a read, or in front of it. -/
structure Careful (limit : Nat) (accesses : List Access) : Prop where
  reads : ∀ i, .read i ∈ accesses → i ≤ limit
  writes : ∀ before i after, accesses = before ++ .write i :: after →
    ∃ j, .read j ∈ before ∧ i ≤ j

theorem Careful.nil (limit : Nat) : Careful limit [] where
  reads _ h := nomatch h
  writes before _ _ h := by cases before <;> exact nomatch h

theorem concat_eq_split {α : Type} {l before after : List α} {x y : α}
    (h : l ++ [x] = before ++ y :: after) :
    (l = before ∧ x = y) ∨ ∃ after', l = before ++ y :: after' := by
  rcases List.eq_nil_or_concat after with rfl | ⟨after', z, rfl⟩
  · obtain ⟨hl, hx⟩ := List.append_inj' h rfl
    exact .inl ⟨hl, (List.cons.inj hx).1⟩
  · rw [List.concat_eq_append, ← List.cons_append, ← List.append_assoc] at h
    exact .inr ⟨after', (List.append_inj' h rfl).1⟩

theorem Careful.read {limit i : Nat} {accesses : List Access} (h : Careful limit accesses)
    (hi : i ≤ limit) : Careful limit (accesses ++ [.read i]) where
  reads k hk := by
    rcases List.mem_append.mp hk with hk | hk
    · exact h.reads k hk
    · cases List.mem_singleton.mp hk
      exact hi
  writes before k after heq := by
    rcases concat_eq_split heq with ⟨-, hlast⟩ | ⟨after', hbefore⟩
    · exact nomatch hlast
    · exact h.writes before k after' hbefore

theorem Careful.write {limit i j : Nat} {accesses : List Access} (h : Careful limit accesses)
    (hj : .read j ∈ accesses) (hi : i ≤ j) : Careful limit (accesses ++ [.write i]) where
  reads k hk := by
    rcases List.mem_append.mp hk with hk | hk
    · exact h.reads k hk
    · exact nomatch List.mem_singleton.mp hk
  writes before k after heq := by
    rcases concat_eq_split heq with ⟨rfl, hlast⟩ | ⟨after', hbefore⟩
    · cases hlast
      exact ⟨j, hj, hi⟩
    · exact h.writes before k after' hbefore

/-- `rest` is still to be read, up to the terminator at `limit`. -/
structure Decoding.At (st : Decoding) (limit : Nat) (rest junk : Bytes) : Prop where
  unread : st.ptr.drop st.src = rest ++ 0 :: junk
  length : st.src + rest.length = limit
  behind : st.dst ≤ st.src
  careful : Careful limit st.accesses

section Decode

variable {st : Decoding} {limit : Nat} {rest junk t : Bytes} {c : UInt8} {isQuery : Bool}

theorem Decoding.At.lt (h : st.At limit rest junk) : limit < st.ptr.length := by
  have hlen := congrArg List.length h.unread
  have hlimit := h.length
  simp only [List.length_drop, List.length_append, List.length_cons] at hlen
  omega

theorem Decoding.At.read (h : st.At limit rest junk) {k : Nat} (hk : (rest ++ [0])[k]? = some c) :
    st.read k = some (c, { st with accesses := st.accesses ++ [.read (st.src + k)] }) ∧
      Careful limit (st.accesses ++ [.read (st.src + k)]) := by
  have hlen : k < (rest ++ [0]).length := (List.getElem?_eq_some_iff.mp hk).1
  have hget : st.ptr[st.src + k]? = some c := by
    rw [← List.getElem?_drop, h.unread, ← List.singleton_append, ← List.append_assoc,
      List.getElem?_append_left hlen]
    exact hk
  unfold Decoding.read
  rw [hget]
  refine ⟨rfl, h.careful.read ?_⟩
  have hlimit := h.length
  rw [List.length_append, List.length_singleton] at hlen
  omega

theorem Decoding.At.write (h : st.At limit rest junk) (x : UInt8) :
    st.dst < st.ptr.length ∧ st.write x = some
      { st with ptr := st.ptr.set st.dst x, accesses := st.accesses ++ [.write st.dst] } := by
  have hlt := h.lt
  have hlimit := h.length
  have hbehind := h.behind
  have hdst : st.dst < st.ptr.length := by omega
  exact ⟨hdst, if_pos hdst⟩

theorem take_set_self {l : Bytes} {n : Nat} (hn : n < l.length) (x : UInt8) :
    (l.set n x).take (n + 1) = l.take n ++ [x] := by
  rw [List.take_add_one, List.take_set_of_le (Nat.le_refl _), List.getElem?_set_self hn]
  rfl

theorem Decoding.At.put {n : Nat} {taken : Bytes} (h : st.At limit (taken ++ rest) junk)
    (hn : taken.length = n) (hpos : 0 < n) (hread : .read st.src ∈ st.accesses) (x : UInt8) :
    ∃ st', st.write x = some st' ∧ (st'.advance n).At limit rest junk ∧
      (st'.advance n).dst = st.dst + 1 ∧
      (st'.advance n).ptr.take (st.dst + 1) = st.ptr.take st.dst ++ [x] := by
  have hlimit := h.length
  have hbehind := h.behind
  obtain ⟨hdst, hwrite⟩ := h.write x
  rw [List.length_append] at hlimit
  refine ⟨_, hwrite, ⟨?_, ?_, ?_, h.careful.write hread hbehind⟩, rfl, take_set_self hdst x⟩
  · show (st.ptr.set st.dst x).drop (st.src + n) = rest ++ 0 :: junk
    rw [List.drop_set_of_lt (by omega), ← List.drop_drop, h.unread, ← hn, List.append_assoc,
      List.drop_left]
  · show st.src + n + rest.length = limit
    omega
  · show st.dst + 1 ≤ st.src + n
    omega

theorem Decoding.At.more (h : st.At limit rest junk) {accesses : List Access}
    (hcareful : Careful limit accesses) : ({ st with accesses := accesses }).At limit rest junk :=
  ⟨h.unread, h.length, h.behind, hcareful⟩

theorem Decoding.At.percent (h : st.At limit (37 :: t) junk)
    (hread : .read st.src ∈ st.accesses) :
    ({ st with ptr := st.ptr.set st.dst 37, accesses := st.accesses ++ [.write st.dst] } :
      Decoding).At limit (37 :: t) junk := by
  refine ⟨?_, h.length, h.behind, h.careful.write hread h.behind⟩
  show (st.ptr.set st.dst 37).drop st.src = 37 :: t ++ 0 :: junk
  have hbehind := h.behind
  rw [List.drop_set, h.unread]
  split
  · rfl
  · rw [show st.dst - st.src = 0 by omega]
    rfl

theorem Decoding.At.skip (h : st.At limit (c :: t) junk) : (st.advance 1).At limit t junk := by
  have hlimit := h.length
  have hbehind := h.behind
  refine ⟨?_, ?_, ?_, h.careful⟩
  · show st.ptr.drop (st.src + 1) = t ++ 0 :: junk
    rw [← List.drop_drop, h.unread]
    rfl
  · show st.src + 1 + t.length = limit
    rw [List.length_cons] at hlimit
    omega
  · show st.dst + 1 ≤ st.src + 1
    omega

structure Round (isQuery : Bool) (st : Decoding) (limit : Nat) (t junk : Bytes)
    (st' : Decoding) (rest : Bytes) : Prop where
  at_rest : st'.At limit rest junk
  dst : st'.dst = st.dst + 1
  decoded : st'.ptr.take st'.dst ++ urldecoded isQuery rest =
    st.ptr.take st.dst ++ urldecoded isQuery t
  taken : ∃ front, front ≠ [] ∧ t = front ++ rest

theorem decodeEscape_spec (h : st.At limit (37 :: t) junk) (hread : .read st.src ∈ st.accesses) :
    ∃ st' rest, decodeEscape st = some st' ∧ Round isQuery st limit (37 :: t) junk st' rest := by
  obtain ⟨hdst, hwrite⟩ := h.write 37
  have hpercent := h.percent hread
  have htake := take_set_self hdst 37
  -- without an escape
  have hskip : ∀ accesses, Careful limit accesses →
      (∀ a b rest, t = a :: b :: rest → ¬ (hex2int a ≠ 255 ∧ hex2int b ≠ 255)) →
      Round isQuery st limit (37 :: t) junk
        (({ st with ptr := st.ptr.set st.dst 37, accesses := accesses } : Decoding).advance 1) t := by
    intro accesses hcareful hbad
    refine ⟨(hpercent.more hcareful).skip, rfl, ?_, [37], List.cons_ne_nil _ _, rfl⟩
    rw [urldecoded_percent hbad]
    show (st.ptr.set st.dst 37).take (st.dst + 1) ++ _ = _
    rw [htake, List.append_assoc]
    rfl
  unfold decodeEscape
  simp only [hwrite, Option.bind_eq_bind, Option.bind_some]
  cases t with
  | nil =>
    obtain ⟨hget, hcareful⟩ := @Decoding.At.read _ _ _ _ 0 hpercent 1 rfl
    simp only [hget, Option.bind_some]
    rw [if_neg (by decide)]
    exact ⟨_, [], rfl, hskip _ hcareful nofun⟩
  | cons high t =>
    obtain ⟨hget, hcareful⟩ := @Decoding.At.read _ _ _ _ high hpercent 1 rfl
    simp only [hget, Option.bind_some]
    by_cases hhigh : hex2int high ≠ 255
    swap
    · rw [if_neg hhigh]
      refine ⟨_, high :: t, rfl, hskip _ hcareful ?_⟩
      rintro a b rest heq ⟨ha, -⟩
      obtain ⟨rfl, -⟩ := List.cons.inj heq
      exact hhigh ha
    rw [if_pos hhigh]
    have hmore := hpercent.more hcareful
    cases t with
    | nil =>
      obtain ⟨hget₂, hcareful₂⟩ := @Decoding.At.read _ _ _ _ 0 hmore 2 rfl
      simp only [hget₂, Option.bind_some]
      rw [if_neg (by decide)]
      exact ⟨_, [high], rfl, hskip _ hcareful₂ nofun⟩
    | cons low t =>
      obtain ⟨hget₂, hcareful₂⟩ := @Decoding.At.read _ _ _ _ low hmore 2 rfl
      simp only [hget₂, Option.bind_some]
      by_cases hlow : hex2int low ≠ 255
      swap
      · rw [if_neg hlow]
        refine ⟨_, high :: low :: t, rfl, hskip _ hcareful₂ ?_⟩
        rintro a b rest heq ⟨-, hb⟩
        obtain ⟨-, heq⟩ := List.cons.inj heq
        obtain ⟨rfl, -⟩ := List.cons.inj heq
        exact hlow hb
      rw [if_pos hlow]
      obtain ⟨st', hput, hat, hnext, htaken⟩ := @Decoding.At.put _ _ _ _ 3 [37, high, low]
        (hpercent.more hcareful₂) rfl (by omega)
        (List.mem_append_left _ (List.mem_append_left _ (List.mem_append_left _ hread)))
        (printable (hex2int high <<< 4 ||| hex2int low))
      rw [hput]
      refine ⟨_, t, rfl, hat, hnext, ?_, [37, high, low], List.cons_ne_nil _ _, rfl⟩
      rw [urldecoded_escape hhigh hlow, hnext, htaken]
      show (st.ptr.set st.dst 37).take st.dst ++ _ ++ _ = _
      rw [List.take_set_of_le (Nat.le_refl _), List.append_assoc]
      rfl

theorem urldecodeLoop_spec (fuel : Nat) (h : st.At limit t junk) (ht : IsCStr t)
    (hfuel : t.length < fuel) : ∃ st', urldecodeLoop isQuery fuel st = some st' ∧
      st'.At limit [] junk ∧ .read st'.src ∈ st'.accesses ∧
      st'.ptr.take st'.dst = st.ptr.take st.dst ++ urldecoded isQuery t := by
  induction fuel generalizing st t with
  | zero => omega
  | succ fuel ih =>
    unfold urldecodeLoop
    cases t with
    | nil =>
      obtain ⟨hget, hcareful⟩ := @Decoding.At.read _ _ _ _ 0 h 0 rfl
      simp only [hget, Option.bind_eq_bind, Option.bind_some, if_true]
      exact ⟨_, rfl, h.more hcareful, List.mem_append_right _ (List.mem_singleton.mpr rfl),
        (List.append_nil _).symm⟩
    | cons c t =>
      obtain ⟨hget, hcareful⟩ := @Decoding.At.read _ _ _ _ c h 0 rfl
      have hc : c ≠ 0 := fun h0 => ht (h0 ▸ List.mem_cons_self)
      simp only [hget, Option.bind_eq_bind, Option.bind_some, if_neg hc]
      have hmore := h.more hcareful
      have hread : Access.read st.src ∈ st.accesses ++ [.read (st.src + 0)] :=
        List.mem_append_right _ (List.mem_singleton.mpr rfl)
      generalize st.accesses ++ [.read (st.src + 0)] = accesses at hmore hread
      -- the rest is decoded behind what a round puts
      have hround : ∀ st' rest,
          Round isQuery { st with accesses := accesses } limit (c :: t) junk st' rest →
          ∃ st'', urldecodeLoop isQuery fuel st' = some st'' ∧ st''.At limit [] junk ∧
            .read st''.src ∈ st''.accesses ∧
            st''.ptr.take st''.dst = st.ptr.take st.dst ++ urldecoded isQuery (c :: t) := by
        intro st' rest hr
        obtain ⟨front, hne, hsplit⟩ := hr.taken
        have hpos := List.length_pos_iff.mpr hne
        have hlen := congrArg List.length hsplit
        rw [List.length_append] at hlen
        have hrest : IsCStr rest := fun h0 => ht (hsplit ▸ List.mem_append_right front h0)
        obtain ⟨st'', hloop, hat, hend, htaken⟩ := ih hr.at_rest hrest (by omega)
        exact ⟨st'', hloop, hat, hend, htaken.trans hr.decoded⟩
      have hput : ∀ x, urldecoded isQuery (c :: t) = x :: urldecoded isQuery t →
          ∃ st', Decoding.write { st with accesses := accesses } x = some st' ∧
            Round isQuery { st with accesses := accesses } limit (c :: t) junk (st'.advance 1) t := by
        intro x hx
        obtain ⟨st', hwrite, hat, hnext, htaken⟩ := @Decoding.At.put _ _ _ _ 1 [c] hmore rfl
          (by omega) hread x
        refine ⟨st', hwrite, hat, hnext, ?_, [c], List.cons_ne_nil _ _, rfl⟩
        rw [hx, hnext, htaken, List.append_assoc]
        rfl
      by_cases hplus : isQuery = true ∧ c = 43
      · rw [if_pos hplus]
        obtain ⟨rfl, rfl⟩ := hplus
        obtain ⟨st', hwrite, hr⟩ := hput 32 (urldecoded_plus t)
        rw [hwrite]
        exact hround _ _ hr
      rw [if_neg hplus]
      by_cases hpercent : c = 37
      · subst hpercent
        obtain ⟨st', rest, hescape, hr⟩ := @decodeEscape_spec _ _ _ _ isQuery hmore hread
        rw [if_pos rfl, hescape]
        exact hround _ _ hr
      · rw [if_neg hpercent]
        obtain ⟨st', hwrite, hr⟩ := hput c (urldecoded_char hplus hpercent t)
        rw [hwrite]
        exact hround _ _ hr

/-- **A string is decoded in place**: the memory is handled with care, and the buffer has the text
that the string stands for. -/
theorem bufferUrldecodeInternal_spec (isQuery : Bool) {url : Buffer} {s : Bytes}
    (hurl : url.ptr = s ++ 0 :: junk) (hs : IsCStr s) :
    ∃ url' accesses, bufferUrldecodeInternal url isQuery = some (url', accesses) ∧
      Careful s.length accesses ∧ url'.Text (urldecoded isQuery s) := by
  have hne : url.ptr ≠ [] := by
    rw [hurl]
    exact List.append_ne_nil_of_right_ne_nil _ (List.cons_ne_nil _ _)
  have hstart : (⟨url.ptr, 0, 0, []⟩ : Decoding).At s.length s junk :=
    ⟨hurl, Nat.zero_add _, Nat.le_refl _, .nil _⟩
  have hfuel : s.length < url.ptr.length + 1 := by
    rw [hurl, List.length_append]
    omega
  obtain ⟨st, hloop, hat, hread, htaken⟩ :=
    @urldecodeLoop_spec _ _ _ _ isQuery _ hstart hs hfuel
  obtain ⟨hdst, hwrite⟩ := hat.write 0
  unfold bufferUrldecodeInternal
  rw [if_neg hne]
  simp only [hloop, hwrite, Option.bind_eq_bind, Option.bind_some]
  have hholds : (st.ptr.set st.dst 0).take (st.dst + 1) = urldecoded isQuery s ++ [0] := by
    rw [take_set_self hdst, htaken]
    rfl
  refine ⟨_, _, rfl, hat.careful.write hread hat.behind, hholds, ?_⟩
  have hlen := congrArg List.length htaken
  show st.dst + 1 = _
  rw [List.length_take, Nat.min_eq_left (Nat.le_of_lt hdst)] at hlen
  rw [hlen]
  rfl

end Decode

/-! ## Decoding what was encoded -/

def BufferEncoding.OfUrl (encoding : BufferEncoding) : Prop :=
  encoding = .relUri ∨ encoding = .relUriPart

theorem printable_ne_zero (c : UInt8) : printable c ≠ 0 := by
  unfold printable
  split
  · decide
  · next h =>
    rintro rfl
    exact h (.inl (by decide))

theorem isCStr_urldecoded (isQuery : Bool) {s : Bytes} (hs : IsCStr s) :
    IsCStr (urldecoded isQuery s) := by
  have hcons : ∀ {c : UInt8} {t : Bytes}, c ≠ 0 → IsCStr t → IsCStr (c :: t) := by
    intro c t hc ht h0
    rcases List.mem_cons.mp h0 with h0 | h0
    · exact hc h0.symm
    · exact ht h0
  have htail : ∀ {c : UInt8} {t : Bytes}, IsCStr (c :: t) → c ≠ 0 ∧ IsCStr t := fun h =>
    ⟨fun h0 => h (h0 ▸ List.mem_cons_self), fun h0 => h (List.mem_cons_of_mem _ h0)⟩
  fun_induction urldecoded isQuery s with
  | case1 => exact hs
  | case2 c t hplus ih => exact hcons (by decide) (ih (htail hs).2)
  | case3 _ _ _ _ _ ih => exact hcons (printable_ne_zero _) (ih (htail (htail (htail hs).2).2).2)
  | case4 _ _ _ _ _ ih => exact hcons (by decide) (ih (htail hs).2)
  | case5 _ _ _ ih => exact hcons (by decide) (ih (htail hs).2)
  | case6 _ _ _ _ ih => exact hcons (htail hs).1 (ih (htail hs).2)

section Bytes

variable {encoding : BufferEncoding} (h : encoding.OfUrl)

theorem hexPair_decoded (c : UInt8) : ∃ a b, hexPair c = [a, b] ∧ a ≠ 0 ∧ b ≠ 0 ∧
    hex2int a ≠ 255 ∧ hex2int b ≠ 255 ∧ hex2int a <<< 4 ||| hex2int b = c := by
  have hall : ∀ n : Fin 256, ((hexPair (UInt8.ofNat n)).all fun x => x != 0 && hex2int x != 255) ∧
      hex2int ((hexPair (UInt8.ofNat n)).getD 0 0) <<< 4 |||
        hex2int ((hexPair (UInt8.ofNat n)).getD 1 0) = UInt8.ofNat n := by decide +kernel
  obtain ⟨n, rfl⟩ : ∃ n : Fin 256, c = UInt8.ofNat n := ⟨c.toFin, by simp⟩
  obtain ⟨hdigits, hvalue⟩ := hall n
  simp only [hexPair, List.all_cons, List.all_nil, Bool.and_true, Bool.and_eq_true, bne_iff_ne]
    at hdigits
  exact ⟨_, _, rfl, hdigits.1.1, hdigits.2.1, hdigits.1.2, hdigits.2.2, hvalue⟩

include h in
theorem plain_of_map {c : UInt8} (hmap : encoding.map c = false) :
    c ≠ 0 ∧ c ≠ 37 ∧ printable c = c := by
  have hall : ∀ n : Fin 256, (BufferEncoding.relUri.map (UInt8.ofNat n) = false ∨
      BufferEncoding.relUriPart.map (UInt8.ofNat n) = false) →
      UInt8.ofNat n ≠ 0 ∧ UInt8.ofNat n ≠ 37 ∧ printable (UInt8.ofNat n) = UInt8.ofNat n := by
    decide +kernel
  obtain ⟨n, rfl⟩ : ∃ n : Fin 256, c = UInt8.ofNat n := ⟨c.toFin, by simp⟩
  apply hall n
  rcases h with rfl | rfl
  · exact .inl hmap
  · exact .inr hmap

include h in
theorem encodeByte_url {c : UInt8} (hmap : encoding.map c = true) :
    encodeByte encoding c = 37 :: hexPair c := by
  unfold encodeByte
  rw [if_pos hmap]
  rcases h with rfl | rfl <;> rfl

include h in
theorem urldecoded_encodeByte (c : UInt8) (t : Bytes) :
    urldecoded false (encodeByte encoding c ++ t) = printable c :: urldecoded false t := by
  cases hmap : encoding.map c with
  | true =>
    obtain ⟨a, b, hpair, -, -, ha, hb, hvalue⟩ := hexPair_decoded c
    rw [encodeByte_url h hmap, hpair]
    exact (urldecoded_escape ha hb t).trans (by rw [hvalue])
  | false =>
    obtain ⟨-, hpercent, hprintable⟩ := plain_of_map h hmap
    unfold encodeByte
    rw [hmap, hprintable, if_neg Bool.false_ne_true]
    exact urldecoded_char (fun hq => absurd hq.1 Bool.false_ne_true) hpercent t

include h in
theorem isCStr_encodeText (s : Bytes) : IsCStr (encodeText encoding s) := by
  intro h0
  obtain ⟨c, -, hc⟩ := List.mem_flatMap.mp h0
  cases hmap : encoding.map c with
  | true =>
    obtain ⟨a, b, hpair, ha, hb, -, -, -⟩ := hexPair_decoded c
    rw [encodeByte_url h hmap, hpair] at hc
    rcases List.mem_cons.mp hc with hc | hc
    · exact absurd hc (by decide)
    rcases List.mem_cons.mp hc with hc | hc
    · exact ha hc.symm
    · exact hb (List.mem_singleton.mp hc).symm
  | false =>
    unfold encodeByte at hc
    rw [hmap] at hc
    exact (plain_of_map h hmap).1 (List.mem_singleton.mp hc).symm

include h in
theorem urldecoded_encodeText (s : Bytes) :
    urldecoded false (encodeText encoding s) = s.map printable := by
  induction s with
  | nil => rfl
  | cons c s ih =>
    unfold encodeText at ih ⊢
    rw [List.flatMap_cons, urldecoded_encodeByte h, ih, List.map_cons]

end Bytes

section RoundTrip

variable [Malloc]

theorem text_bufferAppendStringEncoded {b : Buffer} {t : Bytes} (h : b.Text t) (s : Bytes)
    (encoding : BufferEncoding) : ∃ b', bufferAppendStringEncoded b s encoding = some b' ∧
      b'.Text (t ++ encodeText encoding s) := by
  have hu : b.used = t.length + 1 := h.used
  have hterminated : b.ptr[b.used - 1]? = some 0 := by
    have hbytes : b.ptr.take b.used = t ++ [0] := h.holds
    rw [← List.getElem?_take_of_lt (show b.used - 1 < b.used by omega), hbytes, hu]
    exact List.getElem?_concat_length
  unfold bufferAppendStringEncoded
  rw [if_neg (by rw [hterminated, hu]; simp)]
  by_cases hs : s = []
  · subst hs
    rw [if_pos rfl]
    refine ⟨b, rfl, ?_⟩
    rwa [encodeText, List.flatMap_nil, List.append_nil]
  rw [if_neg hs]
  generalize encodeText encoding s = text
  obtain ⟨hused, hsize, htake⟩ := bufferPrepareAppend_spec h.wf text.length
  refine ⟨_, rfl, ?_⟩
  generalize bufferPrepareAppend b text.length = p at *
  have hfront : p.ptr.take (b.used - 1) = t := by
    have hcut : p.ptr.take (b.used - 1) = (p.ptr.take b.used).take (b.used - 1) := by
      rw [List.take_take, Nat.min_eq_left (Nat.sub_le _ _)]
    rw [hcut, htake, h.holds, hu]
    simp
  have hend : p.used + text.length = p.used - 1 + (text ++ [0]).length := by
    rw [List.length_append, List.length_singleton]
    omega
  constructor
  · show (memcpy p.ptr (p.used - 1) (text ++ [0])).take (p.used + text.length) =
      t ++ text ++ [0]
    rw [hend, take_memcpy (by simp only [Buffer.size] at hsize; omega), hused, hfront,
      List.append_assoc]
  · show p.used + text.length = (t ++ text).length + 1
    rw [hused, hu, List.length_append]
    omega

/-- **Decoding undoes encoding**, but for control characters; and it handles the memory with care,
whatever the string. -/
theorem urldecode_encoded :
    (∀ (b : Buffer) (s : Bytes) (encoding : BufferEncoding), b.Text [] → encoding.OfUrl →
      ∃ b₁ b₂ accesses, bufferAppendStringEncoded b s encoding = some b₁ ∧
        bufferUrldecodePath b₁ = some (b₂, accesses) ∧ b₂.Text (s.map printable)) ∧
    ∀ (url : Buffer) (isQuery : Bool) (s junk : Bytes), url.ptr = s ++ 0 :: junk → IsCStr s →
      ∃ url' accesses, bufferUrldecodeInternal url isQuery = some (url', accesses) ∧
        Careful s.length accesses ∧ url'.str = urldecoded isQuery s ∧
        url'.used = url'.str.length + 1 := by
  constructor
  · intro b s encoding hb hurl
    obtain ⟨b₁, hencode, htext⟩ := text_bufferAppendStringEncoded hb s encoding
    rw [List.nil_append] at htext
    obtain ⟨behind, hptr⟩ := htext.ptr_eq
    obtain ⟨b₂, accesses, hdecode, -, hdecoded⟩ :=
      bufferUrldecodeInternal_spec false hptr (isCStr_encodeText hurl s)
    rw [urldecoded_encodeText hurl] at hdecoded
    exact ⟨b₁, b₂, accesses, hencode, hdecode, hdecoded⟩
  · intro url isQuery s junk hptr hs
    obtain ⟨url', accesses, hdecode, hcareful, htext⟩ :=
      bufferUrldecodeInternal_spec isQuery hptr hs
    have hstr := htext.str (isCStr_urldecoded isQuery hs)
    exact ⟨url', accesses, hdecode, hcareful, hstr, by rw [hstr, htext.used]⟩

end RoundTrip

/-- An escape that is cut off, and one that is not. -/
theorem urldecode_encoded_cut : letI : Malloc := zeroMalloc
    (∃ b₁ b₂ accesses, bufferAppendStringEncoded ⟨[0], 1, 0⟩ [97, 9, 200] .relUri = some b₁ ∧
      bufferUrldecodePath b₁ = some (b₂, accesses) ∧ b₂.Text [97, 95, 200]) ∧
    ∃ url' accesses, bufferUrldecodeInternal ⟨ascii "a+%2" ++ [0], 5, 0⟩ true =
        some (url', accesses) ∧ Careful 4 accesses ∧ url'.str = ascii "a %2" ∧
      url'.used = url'.str.length + 1 := by
  let _ : Malloc := zeroMalloc
  exact ⟨urldecode_encoded.1 ⟨[0], 1, 0⟩ [97, 9, 200] .relUri ⟨rfl, rfl⟩ (.inl rfl),
    urldecode_encoded.2 ⟨ascii "a+%2" ++ [0], 5, 0⟩ true (ascii "a+%2") [] rfl (by decide)⟩

end Lighttpd
