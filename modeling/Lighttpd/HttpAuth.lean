import Lighttpd.Lib.Base64
import Lighttpd.Request.KeepAlive

/-!
# `http_auth.c`: the text of a Basic login

`base64_decode` puts the bytes together in the buffer, each in two steps. It ends with a look at the
last value of `ch`, which is a character if the loop met the padding, and a digit otherwise; the digit
`9` has the value that the padding has as a character. The table is read at a `char`, which is signed.
-/

namespace Lighttpd

open CLib

def base64Pad : Int := 61

def base64ReverseTable : List Int :=
  [-1, -1, -1, -1, -1, -1, -1, -1, -1, -1, -1, -1, -1, -1, -1, -1,
    -1, -1, -1, -1, -1, -1, -1, -1, -1, -1, -1, -1, -1, -1, -1, -1,
    -1, -1, -1, -1, -1, -1, -1, -1, -1, -1, -1, 62, -1, -1, -1, 63,
    52, 53, 54, 55, 56, 57, 58, 59, 60, 61, -1, -1, -1, -1, -1, -1,
    -1,  0,  1,  2,  3,  4,  5,  6,  7,  8,  9, 10, 11, 12, 13, 14,
    15, 16, 17, 18, 19, 20, 21, 22, 23, 24, 25, -1, -1, -1, -1, -1,
    -1, 26, 27, 28, 29, 30, 31, 32, 33, 34, 35, 36, 37, 38, 39, 40,
    41, 42, 43, 44, 45, 46, 47, 48, 49, 50, 51, -1, -1, -1, -1, -1,
    -1, -1, -1, -1, -1, -1, -1, -1, -1, -1, -1, -1, -1, -1, -1, -1,
    -1, -1, -1, -1, -1, -1, -1, -1, -1, -1, -1, -1, -1, -1, -1, -1,
    -1, -1, -1, -1, -1, -1, -1, -1, -1, -1, -1, -1, -1, -1, -1, -1,
    -1, -1, -1, -1, -1, -1, -1, -1, -1, -1, -1, -1, -1, -1, -1, -1,
    -1, -1, -1, -1, -1, -1, -1, -1, -1, -1, -1, -1, -1, -1, -1, -1,
    -1, -1, -1, -1, -1, -1, -1, -1, -1, -1, -1, -1, -1, -1, -1, -1,
    -1, -1, -1, -1, -1, -1, -1, -1, -1, -1, -1, -1, -1, -1, -1, -1,
    -1, -1, -1, -1, -1, -1, -1, -1, -1, -1, -1, -1, -1, -1, -1, -1]

/-- `base64_reverse_table[ch]`; an index outside has no value. -/
def base64Reverse (ch : Int) : Option Int :=
  if 0 ≤ ch then base64ReverseTable[ch.toNat]? else none

/-- An assignment to `result[j]`. -/
def updateByte (m : Bytes) (j : Nat) (f : UInt8 → UInt8) : Option Bytes :=
  if h : j < m.length then some (m.set j (f m[j])) else none

/-- The `switch` over the position of a digit, with `result` and `j`. -/
def base64Digit (position : Nat) (ch : Nat) (m : Bytes) (j : Nat) : Option (Bytes × Nat) :=
  match position with
  | 0 => do
    let m ← updateByte m j fun _ => UInt8.ofNat (ch <<< 2)
    some (m, j)
  | 1 => do
    let m ← updateByte m j fun b => b ||| UInt8.ofNat (ch >>> 4)
    let m ← updateByte m (j + 1) fun _ => UInt8.ofNat ((ch &&& 15) <<< 4)
    some (m, j + 1)
  | 2 => do
    let m ← updateByte m j fun b => b ||| UInt8.ofNat (ch >>> 2)
    let m ← updateByte m (j + 1) fun _ => UInt8.ofNat ((ch &&& 3) <<< 6)
    some (m, j + 1)
  | _ => do
    let m ← updateByte m j fun b => b ||| UInt8.ofNat ch
    some (m, j + 1)

/-- The loop from the character `i` on: `result`, `j`, `i` and `ch` at its end. -/
def base64Loop : Bytes → Nat → Bytes → Nat → Int → Option (Bytes × Nat × Nat × Int)
  | [], i, m, j, ch => some (m, j, i, ch)
  | c :: cs, i, m, j, _ =>
    if charVal c = 0 ∨ charVal c = base64Pad then some (m, j, i, charVal c)
    else do
      let ch ← base64Reverse (charVal c)
      if ch < 0 then base64Loop cs (i + 1) m j ch
      else
        let (m, j) ← base64Digit (i % 4) ch.toNat m j
        base64Loop cs (i + 1) m j ch

/-- The `switch` over the position where the text ended: `k`, unless the function returns `NULL`. -/
def base64Mop (i : Nat) (m : Bytes) (j : Nat) : Option (Bytes × Option Nat) :=
  match i % 4 with
  | 0 => some (m, none)
  | 1 => some (m, none)
  | 2 => do
    let m ← updateByte m (j + 1) fun _ => 0
    some (m, some (j + 2))
  | _ => do
    let m ← updateByte m j fun _ => 0
    some (m, some (j + 1))

/-- The function behind `buffer_prepare_copy`: the block at `result`, and `k` unless it returns
`NULL`. -/
def base64Into (m : Bytes) (text : Bytes) : Option (Bytes × Option Nat) := do
  let (m, j, i, ch) ← base64Loop text 0 m 0 (charVal (text.headD 0))
  let (m, k) ← if ch = base64Pad then base64Mop i m j else some (m, some j)
  match k with
  | none => some (m, none)
  | some k => do
    let m ← updateByte m k fun _ => 0
    some (m, some k)

/-- `base64_decode(out, text)`: whether the result is not `NULL`, and the buffer. -/
def base64Decode [Malloc] (out : Buffer) (text : Bytes) : Option (Bool × Buffer) := do
  let out := bufferPrepareCopy out text.length
  let (m, k) ← base64Into out.ptr text
  some (k.isSome, { out with ptr := m, used := k.getD out.used })

/-! ## What base64 text leaves -/

theorem updateByte_append (pre : Bytes) (x : UInt8) (post : Bytes) (f : UInt8 → UInt8) :
    updateByte (pre ++ x :: post) pre.length f = some (pre ++ f x :: post) := by
  have hlt : pre.length < (pre ++ x :: post).length := by simp
  unfold updateByte
  rw [dif_pos hlt, List.getElem_append_right (Nat.le_refl _), List.set_append_right _ _ (Nat.le_refl _)]
  simp only [Nat.sub_self, List.getElem_cons_zero, List.set_cons_zero]

theorem updateByte_second (pre : Bytes) (a x : UInt8) (post : Bytes) (f : UInt8 → UInt8) :
    updateByte (pre ++ a :: x :: post) (pre.length + 1) f = some (pre ++ a :: f x :: post) := by
  have h := updateByte_append (pre ++ [a]) x post f
  simpa using h

theorem base64Reverse_digit {v : Nat} (h : v < 64) :
    charVal (Base64.digit v) ≠ 0 ∧ charVal (Base64.digit v) ≠ base64Pad ∧
      base64Reverse (charVal (Base64.digit v)) = some (v : Int) := by
  revert v
  decide +kernel

theorem base64Loop_digit {v : Nat} (h : v < 64) (cs : Bytes) (i : Nat) (m : Bytes) (j : Nat)
    (ch : Int) : base64Loop (Base64.digit v :: cs) i m j ch =
      (base64Digit (i % 4) v m j).bind fun r => base64Loop cs (i + 1) r.1 r.2 v := by
  obtain ⟨hzero, hpad, hreverse⟩ := base64Reverse_digit h
  have hnat : ¬ (v : Int) < 0 := by omega
  rw [base64Loop, if_neg (not_or.mpr ⟨hzero, hpad⟩), hreverse, Option.bind_eq_bind, Option.bind_some,
    if_neg hnat]
  rfl

theorem base64Loop_pad (cs : Bytes) (i : Nat) (m : Bytes) (j : Nat) (ch : Int) :
    base64Loop (Base64.pad :: cs) i m j ch = some (m, j, i, base64Pad) := by
  unfold base64Loop
  rw [if_pos (Or.inr (by decide))]
  rfl

section Places

variable {i : Nat} (hi : i % 4 = 0)

include hi

theorem base64Loop_first {v : Nat} (h : v < 64) (cs pre : Bytes) (x : UInt8) (post : Bytes)
    (ch : Int) : base64Loop (Base64.digit v :: cs) i (pre ++ x :: post) pre.length ch =
      base64Loop cs (i + 1) (pre ++ UInt8.ofNat (v <<< 2) :: post) pre.length v := by
  rw [base64Loop_digit h, hi]
  simp only [base64Digit, updateByte_append, Option.bind_eq_bind, Option.bind_some]

theorem base64Loop_second {v : Nat} (h : v < 64) (cs pre : Bytes) (x y : UInt8) (post : Bytes)
    (ch : Int) : base64Loop (Base64.digit v :: cs) (i + 1) (pre ++ x :: y :: post) pre.length ch =
      base64Loop cs (i + 2) (pre ++ (x ||| UInt8.ofNat (v >>> 4)) ::
        UInt8.ofNat ((v &&& 15) <<< 4) :: post) (pre.length + 1) v := by
  have hplace : (i + 1) % 4 = 1 := by omega
  rw [base64Loop_digit h, hplace]
  simp only [base64Digit, updateByte_append, updateByte_second, Option.bind_eq_bind, Option.bind_some]

theorem base64Loop_third {v : Nat} (h : v < 64) (cs pre : Bytes) (x y : UInt8) (post : Bytes)
    (ch : Int) : base64Loop (Base64.digit v :: cs) (i + 2) (pre ++ x :: y :: post) pre.length ch =
      base64Loop cs (i + 3) (pre ++ (x ||| UInt8.ofNat (v >>> 2)) ::
        UInt8.ofNat ((v &&& 3) <<< 6) :: post) (pre.length + 1) v := by
  have hplace : (i + 2) % 4 = 2 := by omega
  rw [base64Loop_digit h, hplace]
  simp only [base64Digit, updateByte_append, updateByte_second, Option.bind_eq_bind, Option.bind_some]

theorem base64Loop_fourth {v : Nat} (h : v < 64) (cs pre : Bytes) (x : UInt8) (post : Bytes)
    (ch : Int) : base64Loop (Base64.digit v :: cs) (i + 3) (pre ++ x :: post) pre.length ch =
      base64Loop cs (i + 4) (pre ++ (x ||| UInt8.ofNat v) :: post) (pre.length + 1) v := by
  have hplace : (i + 3) % 4 = 3 := by omega
  rw [base64Loop_digit h, hplace]
  simp only [base64Digit, updateByte_append, Option.bind_eq_bind, Option.bind_some]

end Places

theorem base64Loop_group {i : Nat} (hi : i % 4 = 0) (a b c : UInt8) (cs pre : Bytes)
    (x y z : UInt8) (post : Bytes) (ch : Int) :
    base64Loop (Base64.digit (a.toNat / 4) :: Base64.digit (a.toNat % 4 * 16 + b.toNat / 16) ::
        Base64.digit (b.toNat % 16 * 4 + c.toNat / 64) :: Base64.digit (c.toNat % 64) :: cs) i
        (pre ++ x :: y :: z :: post) pre.length ch =
      base64Loop cs (i + 4) (pre ++ a :: b :: c :: post) (pre.length + 3) (c.toNat % 64 : Nat) := by
  have ha := a.toNat_lt
  have hb := b.toNat_lt
  have hc := c.toNat_lt
  rw [base64Loop_first hi (by omega), base64Loop_second hi (by omega), Base64.join_first a b]
  have hthird := base64Loop_third hi (v := b.toNat % 16 * 4 + c.toNat / 64) (by omega)
    (Base64.digit (c.toNat % 64) :: cs) (pre ++ [a])
    (UInt8.ofNat (((a.toNat % 4 * 16 + b.toNat / 16) &&& 15) <<< 4)) z post
    (a.toNat % 4 * 16 + b.toNat / 16 : Nat)
  rw [Base64.join_second a b c] at hthird
  have hfourth := base64Loop_fourth hi (v := c.toNat % 64) (by omega) cs (pre ++ [a, b])
    (UInt8.ofNat (((b.toNat % 16 * 4 + c.toNat / 64) &&& 3) <<< 6)) post
    (b.toNat % 16 * 4 + c.toNat / 64 : Nat)
  rw [Base64.join_third b c] at hfourth
  simp only [List.append_assoc, List.cons_append, List.nil_append, List.length_append,
    List.length_cons, List.length_nil] at hthird hfourth
  exact hthird.trans hfourth

/-- What the loop leaves behind the text of `s`: its bytes, and for padded text a NUL behind them. -/
structure Base64Left (s : Bytes) (rest : Bytes) (i : Nat) (ch : Int) : Prop where
  whole : s.length % 3 = 0 → i % 4 = 0 ∧ ∀ b, s.getLast? = some b → ch = (b.toNat % 64 : Nat)
  one : s.length % 3 = 1 → i % 4 = 2 ∧ ch = base64Pad ∧ ∃ t, rest = 0 :: t
  two : s.length % 3 = 2 → i % 4 = 3 ∧ ch = base64Pad ∧ ∃ t, rest = 0 :: t

theorem Base64Left.group {s rest : Bytes} {i : Nat} {ch : Int} (a b c : UInt8)
    (h : Base64Left s rest i ch) (hnil : s = [] → ch = (c.toNat % 64 : Nat)) :
    Base64Left (a :: b :: c :: s) rest i ch := by
  have hlen : (a :: b :: c :: s).length % 3 = s.length % 3 := by
    simp only [List.length_cons]
    omega
  refine ⟨fun hmod => ⟨(h.whole (hlen ▸ hmod)).1, fun l hl => ?_⟩, fun hmod => h.one (hlen ▸ hmod),
    fun hmod => h.two (hlen ▸ hmod)⟩
  cases s with
  | nil =>
    obtain rfl := Option.some.inj hl
    exact hnil rfl
  | cons d s =>
    rw [List.getLast?_cons_cons, List.getLast?_cons_cons, List.getLast?_cons_cons] at hl
    exact (h.whole (hlen ▸ hmod)).2 l hl

/-- The loop over base64 text. By induction on its groups. -/
theorem base64Loop_encode (s : Bytes) : ∀ {i : Nat} (_ : i % 4 = 0) (pre tail : Bytes) (ch : Int),
    (Base64.encode s).length ≤ tail.length →
      ∃ rest i' ch', base64Loop (Base64.encode s) i (pre ++ tail) pre.length ch =
          some (pre ++ s ++ rest, pre.length + s.length, i', ch') ∧
        s.length + rest.length = tail.length ∧ Base64Left s rest i' ch' ∧ (s = [] → ch' = ch) := by
  induction s using Base64.encode.induct with
  | case1 =>
    intro i hi pre tail ch _
    refine ⟨tail, i, ch, ?_, by simp, ⟨fun _ => ⟨hi, by simp⟩, by simp, by simp⟩,
      fun _ => rfl⟩
    simp [Base64.encode, base64Loop]
  | case2 a =>
    intro i hi pre tail ch hlen
    have ha := a.toNat_lt
    obtain ⟨x, y, post, rfl⟩ : ∃ x y post, tail = x :: y :: post := by
      rcases tail with _ | ⟨x, _ | ⟨y, post⟩⟩
      · simp [Base64.encode] at hlen
      · simp [Base64.encode] at hlen
      · exact ⟨x, y, post, rfl⟩
    have hjoin := Base64.join_first a 0
    have hlow : (a.toNat % 4 * 16 &&& 15) <<< 4 = 0 := by
      rw [Nat.and_two_pow_sub_one_eq_mod _ 4, Nat.mul_mod_left, Nat.zero_shiftLeft]
    refine ⟨0 :: post, i + 2, base64Pad, ?_, by simp; omega,
      ⟨by simp, fun _ => ⟨by omega, rfl, post, rfl⟩, by simp⟩, by simp⟩
    unfold Base64.encode
    rw [base64Loop_first hi (by omega), base64Loop_second hi (by omega), base64Loop_pad, hlow]
    simp only [UInt8.toNat_zero, Nat.zero_div, Nat.add_zero] at hjoin
    rw [hjoin]
    simp
  | case3 a b =>
    intro i hi pre tail ch hlen
    have ha := a.toNat_lt
    have hb := b.toNat_lt
    obtain ⟨x, y, z, post, rfl⟩ : ∃ x y z post, tail = x :: y :: z :: post := by
      rcases tail with _ | ⟨x, _ | ⟨y, _ | ⟨z, post⟩⟩⟩
      · simp [Base64.encode] at hlen
      · simp [Base64.encode] at hlen
      · simp [Base64.encode] at hlen
      · exact ⟨x, y, z, post, rfl⟩
    have hjoin := Base64.join_second a b 0
    have hlow : (b.toNat % 16 * 4 &&& 3) <<< 6 = 0 := by
      rw [Nat.and_two_pow_sub_one_eq_mod _ 2, Nat.mul_mod_left, Nat.zero_shiftLeft]
    refine ⟨0 :: post, i + 3, base64Pad, ?_, by simp; omega,
      ⟨by simp, by simp, fun _ => ⟨by omega, rfl, post, rfl⟩⟩, by simp⟩
    unfold Base64.encode
    rw [base64Loop_first hi (by omega), base64Loop_second hi (by omega), Base64.join_first a b]
    have hthird := base64Loop_third hi (v := b.toNat % 16 * 4) (by omega)
      [Base64.pad] (pre ++ [a])
      (UInt8.ofNat (((a.toNat % 4 * 16 + b.toNat / 16) &&& 15) <<< 4)) z post
      (a.toNat % 4 * 16 + b.toNat / 16 : Nat)
    simp only [UInt8.toNat_zero, Nat.zero_div, Nat.add_zero] at hjoin
    rw [hlow, hjoin, base64Loop_pad] at hthird
    simp only [List.append_assoc, List.cons_append, List.nil_append, List.length_append,
      List.length_cons, List.length_nil] at hthird ⊢
    exact hthird
  | case4 a b c s ih =>
    intro i hi pre tail ch hlen
    unfold Base64.encode at hlen ⊢
    simp only [List.length_cons] at hlen
    obtain ⟨x, y, z, post, rfl⟩ : ∃ x y z post, tail = x :: y :: z :: post := by
      rcases tail with _ | ⟨x, _ | ⟨y, _ | ⟨z, post⟩⟩⟩
      · simp at hlen
      · simp at hlen
      · simp at hlen
      · exact ⟨x, y, z, post, rfl⟩
    rw [base64Loop_group hi]
    obtain ⟨rest, i', ch', hrun, hrest, hleft, hnil⟩ := ih (i := i + 4) (by omega) (pre ++ [a, b, c])
      post (c.toNat % 64 : Nat) (by simp only [List.length_cons] at hlen; omega)
    refine ⟨rest, i', ch', ?_, ?_, hleft.group a b c hnil, by simp⟩
    · simpa [Nat.add_assoc, Nat.add_comm, Nat.add_left_comm] using hrun
    · simp only [List.length_cons]
      omega

/-- The base64 text of `s` ends with the digit `9`, and not with padding. -/
def EndsWithNine (s : Bytes) : Prop :=
  s.length % 3 = 0 ∧ ∃ b, s.getLast? = some b ∧ b.toNat % 64 = 61

/-- **The decoder on base64 text**: the bytes and a NUL, unless the text ends with the digit `9`. -/
theorem base64Into_encode {s : Bytes} (hs : s ≠ []) {m : Bytes}
    (hm : (Base64.encode s).length ≤ m.length) :
    ∃ m' k, base64Into m (Base64.encode s) = some (m', k) ∧
      (EndsWithNine s → k = none) ∧ (¬ EndsWithNine s → k.isSome ∧ s ++ [0] <+: m') := by
  obtain ⟨rest, i, ch, hloop, hrest, hleft, -⟩ :=
    base64Loop_encode s (i := 0) rfl [] m (charVal ((Base64.encode s).headD 0)) hm
  rw [List.nil_append, List.nil_append, List.length_nil, Nat.zero_add] at hloop
  have hlength := Base64.length_encode s
  have hpos := List.length_pos_of_ne_nil hs
  unfold base64Into
  rw [hloop, Option.bind_eq_bind, Option.bind_some]
  dsimp only
  by_cases hbad : EndsWithNine s
  · obtain ⟨hmod, b, hb, hnine⟩ := id hbad
    obtain ⟨hi, hch⟩ := hleft.whole hmod
    have hpad : ch = base64Pad := by
      rw [hch b hb, hnine]
      rfl
    rw [if_pos hpad]
    unfold base64Mop
    rw [hi]
    exact ⟨_, none, rfl, fun _ => rfl, fun hgood => absurd hbad hgood⟩
  · by_cases hmod : s.length % 3 = 0
    · obtain ⟨hi, hch⟩ := hleft.whole hmod
      have hpad : ch ≠ base64Pad := by
        intro heq
        refine hbad ⟨hmod, s.getLast hs, List.getLast?_eq_some_getLast hs, ?_⟩
        have hvalue := (hch _ (List.getLast?_eq_some_getLast hs)).symm.trans heq
        exact Int.ofNat.inj hvalue
      rw [if_neg hpad]
      cases rest with
      | nil =>
        simp only [List.length_nil] at hrest
        omega
      | cons x rest =>
        refine ⟨s ++ 0 :: rest, some s.length, ?_, fun h => absurd h hbad,
          fun _ => ⟨rfl, rest, by simp⟩⟩
        simp only [Option.bind_eq_bind, Option.bind_some, updateByte_append]
    · obtain hone | htwo : s.length % 3 = 1 ∨ s.length % 3 = 2 := by omega
      · obtain ⟨hi, hpad, t, rfl⟩ := hleft.one hone
        rw [if_pos hpad]
        unfold base64Mop
        rw [hi]
        simp only [List.length_cons] at hrest
        rcases t with _ | ⟨x, _ | ⟨y, t⟩⟩
        · simp only [List.length_nil] at hrest
          omega
        · simp only [List.length_cons, List.length_nil] at hrest
          omega
        · have hthird : updateByte (s ++ 0 :: 0 :: y :: t) (s.length + 2) (fun _ => 0) =
              some (s ++ 0 :: 0 :: 0 :: t) := by
            have h := updateByte_second (s ++ [0]) 0 y t fun _ => 0
            simpa using h
          refine ⟨s ++ 0 :: 0 :: 0 :: t, some (s.length + 2), ?_,
            fun h => absurd h hbad, fun _ => ⟨rfl, 0 :: 0 :: t, by simp⟩⟩
          simp only [Option.bind_eq_bind, Option.bind_some, updateByte_second, hthird]
      · obtain ⟨hi, hpad, t, rfl⟩ := hleft.two htwo
        rw [if_pos hpad]
        unfold base64Mop
        rw [hi]
        simp only [List.length_cons] at hrest
        cases t with
        | nil =>
          simp only [List.length_nil] at hrest
          omega
        | cons x t =>
          refine ⟨s ++ 0 :: 0 :: t, some (s.length + 1), ?_, fun h => absurd h hbad,
            fun _ => ⟨rfl, 0 :: t, by simp⟩⟩
          simp only [Option.bind_eq_bind, Option.bind_some, updateByte_append, updateByte_second]

/-- Decoding undoes the encoding of `s`: a block as long as the text is enough for all that is
written, and the result is the bytes of `s` and a NUL. -/
structure Undoes [Malloc] (out : Buffer) (s : Bytes) : Prop where
  inside : ∀ m, m.length = (Base64.encode s).length → (base64Into m (Base64.encode s)).isSome
  decoded : ∃ out', base64Decode out (Base64.encode s) = some (true, out') ∧ s ++ [0] <+: out'.ptr

/-- **Base64 text is decoded** unless it ends with the digit `9`: that is taken for padding, and the
result is `NULL`. -/
theorem base64Decode_undoes_iff [Malloc] (out : Buffer) {s : Bytes} (hs : s ≠ []) :
    Undoes out s ↔ ¬ EndsWithNine s := by
  obtain ⟨m, k, hinto, hnine, hgood⟩ := base64Into_encode hs
    (show _ ≤ (bufferPrepareCopy out (Base64.encode s).length).ptr.length from
      le_size_bufferPrepareCopy out _)
  have hdecode : base64Decode out (Base64.encode s) = some (k.isSome,
      { bufferPrepareCopy out (Base64.encode s).length with
        ptr := m, used := k.getD (bufferPrepareCopy out (Base64.encode s).length).used }) := by
    unfold base64Decode
    dsimp only
    rw [hinto]
    rfl
  constructor
  · rintro ⟨-, out', hrun, -⟩ hbad
    obtain ⟨hret, -⟩ := Prod.mk.inj (Option.some.inj (hdecode.symm.trans hrun))
    rw [hnine hbad] at hret
    cases hret
  · intro hbad
    obtain ⟨hsome, hprefix⟩ := hgood hbad
    rw [hsome] at hdecode
    refine ⟨fun m hm => ?_, _, hdecode, hprefix⟩
    obtain ⟨m', k', hrun, -⟩ := base64Into_encode hs (Nat.le_of_eq hm.symm)
    rw [hrun]
    rfl

theorem base64Decode_undoes_iff_user : letI : Malloc := zeroMalloc
    Undoes bufferInit (ascii "a:b") ↔ ¬ EndsWithNine (ascii "a:b") :=
  @base64Decode_undoes_iff zeroMalloc bufferInit (ascii "a:b") (by decide)

/-- A password that ends with a brace: `YTp9`. -/
theorem not_undoes_brace : letI : Malloc := zeroMalloc
    ¬ Undoes bufferInit (ascii "a:\x7d") := by
  let _ : Malloc := zeroMalloc
  intro h
  exact (base64Decode_undoes_iff bufferInit (by decide)).mp h
    ⟨rfl, 125, rfl, rfl⟩

/-! ## What other text does -/

theorem isSome_base64Reverse (c : UInt8) : (base64Reverse (charVal c)).isSome ↔ c < 128 := by
  have hall : ∀ n : Fin 256, (base64Reverse (charVal (UInt8.ofNat n))).isSome ↔
      UInt8.ofNat n < 128 := by decide +kernel
  have hc := hall ⟨c.toNat, c.toNat_lt⟩
  rwa [UInt8.ofNat_toNat] at hc

theorem charVal_stop (c : UInt8) : charVal c = 0 ∨ charVal c = base64Pad ↔ c = 0 ∨ c = 61 := by
  have hall : ∀ n : Fin 256, charVal (UInt8.ofNat n) = 0 ∨ charVal (UInt8.ofNat n) = base64Pad ↔
      UInt8.ofNat n = 0 ∨ UInt8.ofNat n = 61 := by decide +kernel
  have hc := hall ⟨c.toNat, c.toNat_lt⟩
  rwa [UInt8.ofNat_toNat] at hc

theorem exists_updateByte {m : Bytes} {j : Nat} (h : j < m.length) (f : UInt8 → UInt8) :
    ∃ m', updateByte m j f = some m' ∧ m'.length = m.length :=
  ⟨_, dif_pos h, List.length_set⟩

theorem exists_base64Digit {i j : Nat} {m : Bytes} (hj : j ≤ i - (i + 3) / 4) (hi : i < m.length)
    (ch : Nat) : ∃ m' j', base64Digit (i % 4) ch m j = some (m', j') ∧ m'.length = m.length ∧
      j' ≤ (i + 1) - (i + 4) / 4 := by
  have hplace : i % 4 = 0 ∨ i % 4 = 1 ∨ i % 4 = 2 ∨ i % 4 = 3 := by omega
  rcases hplace with h | h | h | h
  · obtain ⟨m₁, hrun, hlen⟩ := exists_updateByte (show j < m.length by omega)
      fun _ => UInt8.ofNat (ch <<< 2)
    refine ⟨m₁, j, ?_, hlen, by omega⟩
    rw [h]
    simp only [base64Digit, hrun, Option.bind_eq_bind, Option.bind_some]
  · obtain ⟨m₁, hrun₁, hlen₁⟩ := exists_updateByte (show j < m.length by omega)
      fun b => b ||| UInt8.ofNat (ch >>> 4)
    obtain ⟨m₂, hrun₂, hlen₂⟩ := exists_updateByte (show j + 1 < m₁.length by omega)
      fun _ => UInt8.ofNat ((ch &&& 15) <<< 4)
    refine ⟨m₂, j + 1, ?_, hlen₂.trans hlen₁, by omega⟩
    rw [h]
    simp only [base64Digit, hrun₁, hrun₂, Option.bind_eq_bind, Option.bind_some]
  · obtain ⟨m₁, hrun₁, hlen₁⟩ := exists_updateByte (show j < m.length by omega)
      fun b => b ||| UInt8.ofNat (ch >>> 2)
    obtain ⟨m₂, hrun₂, hlen₂⟩ := exists_updateByte (show j + 1 < m₁.length by omega)
      fun _ => UInt8.ofNat ((ch &&& 3) <<< 6)
    refine ⟨m₂, j + 1, ?_, hlen₂.trans hlen₁, by omega⟩
    rw [h]
    simp only [base64Digit, hrun₁, hrun₂, Option.bind_eq_bind, Option.bind_some]
  · obtain ⟨m₁, hrun, hlen⟩ := exists_updateByte (show j < m.length by omega)
      fun b => b ||| UInt8.ofNat ch
    refine ⟨m₁, j + 1, ?_, hlen, by omega⟩
    rw [h]
    simp only [base64Digit, hrun, Option.bind_eq_bind, Option.bind_some]

/-- What is read of a text: the characters in front of the padding. -/
def base64Read (text : Bytes) : Bytes := text.takeWhile fun c => c != 0 && c != 61

/-- The loop stays inside exactly on ASCII characters. By induction on the text: `j` is behind `i` by
the digits at the places 0. -/
theorem isSome_base64Loop (cs : Bytes) : ∀ {i j : Nat} {m : Bytes} (ch : Int),
    j ≤ i - (i + 3) / 4 → i + cs.length ≤ m.length →
      ((base64Loop cs i m j ch).isSome ↔ ∀ c ∈ base64Read cs, c < 128) ∧
      ∀ m' j' i' ch', base64Loop cs i m j ch = some (m', j', i', ch') →
        m'.length = m.length ∧ j' ≤ i' - (i' + 3) / 4 ∧ i' ≤ i + cs.length := by
  induction cs with
  | nil =>
    intro i j m ch hj hlen
    refine ⟨iff_of_true rfl fun c hc => (nomatch hc), fun m' j' i' ch' h => ?_⟩
    cases h
    exact ⟨rfl, hj, Nat.le_refl _⟩
  | cons c cs ih =>
    intro i j m ch hj hlen
    rw [List.length_cons] at hlen ⊢
    rw [base64Loop]
    by_cases hstop : c = 0 ∨ c = 61
    · rw [if_pos ((charVal_stop c).mpr hstop)]
      have hread : base64Read (c :: cs) = [] := by
        unfold base64Read
        rcases hstop with rfl | rfl <;> rfl
      rw [hread]
      refine ⟨iff_of_true rfl fun c hc => (nomatch hc), fun m' j' i' ch' h => ?_⟩
      cases h
      exact ⟨rfl, hj, Nat.le_add_right _ _⟩
    · rw [if_neg (fun h => hstop ((charVal_stop c).mp h))]
      have hread : base64Read (c :: cs) = c :: base64Read cs := by
        unfold base64Read
        rw [List.takeWhile_cons_of_pos]
        simpa using hstop
      rw [hread]
      by_cases hascii : c < 128
      · obtain ⟨v, hv⟩ := Option.isSome_iff_exists.mp ((isSome_base64Reverse c).mpr hascii)
        rw [hv, Option.bind_eq_bind, Option.bind_some]
        have hcons : (∀ d ∈ c :: base64Read cs, d < 128) ↔ ∀ d ∈ base64Read cs, d < 128 := by
          rw [List.forall_mem_cons]
          exact and_iff_right hascii
        rw [hcons]
        by_cases hneg : v < 0
        · rw [if_pos hneg]
          obtain ⟨hiff, hends⟩ := ih (i := i + 1) (j := j) (m := m) v (by omega) (by omega)
          refine ⟨hiff, fun m' j' i' ch' h => ?_⟩
          obtain ⟨h1, h2, h3⟩ := hends m' j' i' ch' h
          exact ⟨h1, h2, by omega⟩
        · rw [if_neg hneg]
          obtain ⟨m₁, j₁, hrun, hlen₁, hj₁⟩ :=
            exists_base64Digit hj (show i < m.length by omega) v.toNat
          rw [hrun, Option.bind_eq_bind, Option.bind_some]
          obtain ⟨hiff, hends⟩ := ih (i := i + 1) (j := j₁) (m := m₁) v (by omega) (by omega)
          refine ⟨hiff, fun m' j' i' ch' h => ?_⟩
          obtain ⟨h1, h2, h3⟩ := hends m' j' i' ch' h
          exact ⟨h1.trans hlen₁, h2, by omega⟩
      · have hnone : base64Reverse (charVal c) = none := by
          rw [← Option.not_isSome_iff_eq_none]
          exact fun h => hascii ((isSome_base64Reverse c).mp h)
        rw [hnone]
        exact ⟨iff_of_false nofun fun h => hascii (h c List.mem_cons_self), nofun⟩

theorem isSome_base64Into {m text : Bytes} (hlen : text.length < m.length) (hroom : 64 ≤ m.length) :
    (base64Into m text).isSome ↔ ∀ c ∈ base64Read text, c < 128 := by
  obtain ⟨hiff, hends⟩ := isSome_base64Loop text (i := 0) (j := 0) (m := m)
    (charVal (text.headD 0)) (by omega) (by omega)
  rw [← hiff]
  unfold base64Into
  cases hloop : base64Loop text 0 m 0 (charVal (text.headD 0)) with
  | none => exact Iff.rfl
  | some r =>
    obtain ⟨m', j, i, ch⟩ := r
    obtain ⟨hm', hj, hi⟩ := hends m' j i ch hloop
    refine iff_of_true ?_ rfl
    rw [Option.bind_eq_bind, Option.bind_some]
    dsimp only
    by_cases hpad : ch = base64Pad
    · rw [if_pos hpad]
      have hplace : i % 4 = 0 ∨ i % 4 = 1 ∨ i % 4 = 2 ∨ i % 4 = 3 := by omega
      unfold base64Mop
      rcases hplace with h | h | h | h
      · rw [h]
        rfl
      · rw [h]
        rfl
      · obtain ⟨m₁, hrun₁, hlen₁⟩ := exists_updateByte (show j + 1 < m'.length by omega) fun _ => 0
        obtain ⟨m₂, hrun₂, -⟩ := exists_updateByte (show j + 2 < m₁.length by omega) fun _ => 0
        rw [h]
        simp only [hrun₁, hrun₂, Option.bind_eq_bind, Option.bind_some, Option.isSome_some]
      · obtain ⟨m₁, hrun₁, hlen₁⟩ := exists_updateByte (show j < m'.length by omega) fun _ => 0
        obtain ⟨m₂, hrun₂, -⟩ := exists_updateByte (show j + 1 < m₁.length by omega) fun _ => 0
        rw [h]
        simp only [hrun₁, hrun₂, Option.bind_eq_bind, Option.bind_some, Option.isSome_some]
    · rw [if_neg hpad]
      obtain ⟨m₁, hrun₁, -⟩ := exists_updateByte (show j < m'.length by omega) fun _ => 0
      simp only [hrun₁, Option.bind_eq_bind, Option.bind_some, Option.isSome_some]

theorem isSome_base64Decode [Malloc] (text : Bytes) :
    (base64Decode bufferInit text).isSome ↔ ∀ c ∈ base64Read text, c < 128 := by
  have hsize : (bufferPrepareCopy bufferInit text.length).ptr.length = pieces text.length := by
    unfold bufferPrepareCopy
    rw [if_pos (Or.inl (show bufferInit.size = 0 from rfl))]
    exact length_malloc _
  have hlen := lt_pieces text.length
  have hroom : 64 ≤ pieces text.length := by
    unfold pieces BUFFER_PIECE_SIZE
    omega
  rw [← isSome_base64Into (hsize.symm ▸ hlen) (hsize.symm ▸ hroom)]
  unfold base64Decode
  dsimp only
  cases base64Into (bufferPrepareCopy bufferInit text.length).ptr text <;> exact Iff.rfl

/-! ## The header field -/

/-- `mod_auth_uri_handler`: the text that is decoded, for a value of `Authorization`. -/
def basicText (value : Bytes) : Option Bytes :=
  match strchr value 32 with
  | none => none
  | some n =>
    if n = 5 ∧ strncaseeq 5 value (ascii "Basic") then some (value.drop (n + 1)) else none

/-- Decoding the field stays inside the table and the buffer. -/
def DecodesInside [Malloc] (value : Bytes) : Prop :=
  ∀ text, basicText value = some text → (base64Decode bufferInit text).isSome

/-- **A login is decoded inside the table** exactly if it holds ASCII characters up to the padding. -/
theorem decodesInside_iff [Malloc] (value : Bytes) : DecodesInside value ↔
    ∀ text, basicText value = some text → ∀ c ∈ base64Read text, c < 128 :=
  forall₂_congr fun text _ => isSome_base64Decode text

def latinLogin : Connection :=
  keptConnection (ascii "GET / HTTP/1.0\r\nAuthorization: Basic " ++ [0xe4] ++ ascii "\r\n\r\n")

/-- The parser lets it through, and the table is read in front of its beginning. -/
theorem not_decodesInside_latin : ∃ con' srv',
    @httpRequestParse zeroMalloc (serverInit 0) latinLogin = some (0, con', srv') ∧
      con'.httpStatus = 0 ∧ ∃ ds ∈ con'.request.headers.elements,
        ds.key.str = ascii "Authorization" ∧ ¬ @DecodesInside zeroMalloc ds.value.str := by
  have hparse : (@httpRequestParse zeroMalloc (serverInit 0) latinLogin).map (fun r =>
      (r.1, r.2.1.httpStatus, r.2.1.request.headers.elements.any fun ds =>
        ds.key.str == ascii "Authorization" && ds.value.str == ascii "Basic " ++ [0xe4])) =
        some (0, 0, true) := by decide +kernel
  obtain ⟨⟨ret, con', srv'⟩, hp, he⟩ := Option.map_eq_some_iff.mp hparse
  obtain ⟨rfl, he⟩ := Prod.mk.inj he
  obtain ⟨hstatus, hany⟩ := Prod.mk.inj he
  obtain ⟨ds, hds, hfield⟩ := List.any_eq_true.mp hany
  simp only [Bool.and_eq_true, beq_iff_eq] at hfield
  refine ⟨con', srv', hp, hstatus, ds, hds, hfield.1, fun h => ?_⟩
  rw [hfield.2] at h
  have hsome := h [0xe4] (by decide)
  rw [@isSome_base64Decode zeroMalloc] at hsome
  exact absurd (hsome 0xe4 (by decide)) (by decide)

end Lighttpd
