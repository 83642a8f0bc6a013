import Lighttpd.Buffer

/-!
# Comparing names without case

`buffer_caseless_compare` is zero exactly for texts that agree up to case. Its sign follows the
order of the texts in lower case when both consist of letters and hyphens, as the names of header
fields do.
-/

namespace Lighttpd

open CLib

/-! ## Two bytes -/

def pairDiff (a b : UInt8) : Int := charVal (caselessPair a b).1 - charVal (caselessPair a b).2

theorem charVal_eq (c : UInt8) :
    charVal c = if c.toNat < 128 then (c.toNat : Int) else c.toNat - 256 := by
  have hall : ∀ n : Fin 256, charVal (UInt8.ofNat n) =
      if n.val < 128 then (n.val : Int) else n.val - 256 := by decide +kernel
  have hc := hall ⟨c.toNat, c.toNat_lt⟩
  rwa [UInt8.ofNat_toNat] at hc

theorem toNat_tolower (c : UInt8) : (tolower c).toNat =
    if 65 ≤ c.toNat ∧ c.toNat ≤ 90 then c.toNat + 32 else c.toNat := by
  have hall : ∀ n : Fin 256, (tolower (UInt8.ofNat n)).toNat =
      if 65 ≤ n.val ∧ n.val ≤ 90 then n.val + 32 else n.val := by decide +kernel
  have hc := hall ⟨c.toNat, c.toNat_lt⟩
  rwa [UInt8.ofNat_toNat] at hc

theorem caselessPair_toNat (a b : UInt8) :
    ((caselessPair a b).1.toNat, (caselessPair a b).2.toNat) =
      if (65 ≤ a.toNat ∧ a.toNat ≤ 90) ∧ 97 ≤ b.toNat ∧ b.toNat ≤ 122 then (a.toNat + 32, b.toNat)
      else if (97 ≤ a.toNat ∧ a.toNat ≤ 122) ∧ 65 ≤ b.toNat ∧ b.toNat ≤ 90 then
        (a.toNat, b.toNat + 32)
      else (a.toNat, b.toNat) := by
  have hor : ∀ c : UInt8, 65 ≤ c.toNat ∧ c.toNat ≤ 90 → (c ||| 32).toNat = c.toNat + 32 := by
    intro c
    have hall : ∀ n : Fin 256, 65 ≤ n.val ∧ n.val ≤ 90 →
        (UInt8.ofNat n ||| 32).toNat = n.val + 32 := by decide +kernel
    have hc := hall ⟨c.toNat, c.toNat_lt⟩
    rwa [UInt8.ofNat_toNat] at hc
  have hle : ∀ (c : UInt8) (k : Nat), k < 256 →
      ((UInt8.ofNat k ≤ c ↔ k ≤ c.toNat) ∧ (c ≤ UInt8.ofNat k ↔ c.toNat ≤ k)) := by
    intro c k hk
    have hk' : (UInt8.ofNat k).toNat = k := by
      rw [UInt8.toNat_ofNat']
      omega
    rw [UInt8.le_iff_toNat_le, UInt8.le_iff_toNat_le, hk']
    exact ⟨Iff.rfl, Iff.rfl⟩
  have hupper : ∀ c : UInt8, (65 ≤ c && c ≤ 90) = true ↔ 65 ≤ c.toNat ∧ c.toNat ≤ 90 := by
    intro c
    rw [Bool.and_eq_true, decide_eq_true_eq, decide_eq_true_eq]
    exact and_congr (hle c 65 (by decide)).1 (hle c 90 (by decide)).2
  have hlower : ∀ c : UInt8, (97 ≤ c && c ≤ 122) = true ↔ 97 ≤ c.toNat ∧ c.toNat ≤ 122 := by
    intro c
    rw [Bool.and_eq_true, decide_eq_true_eq, decide_eq_true_eq]
    exact and_congr (hle c 97 (by decide)).1 (hle c 122 (by decide)).2
  unfold caselessPair
  simp only [Bool.and_eq_true (_ && _) (_ && _), hupper, hlower]
  split
  · next h => rw [hor a h.1]
  · split
    · next h => rw [hor b h.2]
    · rfl

theorem pairDiff_eq_zero {a b : UInt8} : pairDiff a b = 0 ↔ tolower a = tolower b := by
  have hp := caselessPair_toNat a b
  have hla := a.toNat_lt
  have hlb := b.toNat_lt
  rw [← UInt8.toNat_inj, toNat_tolower, toNat_tolower, pairDiff, charVal_eq, charVal_eq]
  generalize (caselessPair a b).1.toNat = p at *
  generalize (caselessPair a b).2.toNat = q at *
  split at hp
  · obtain ⟨rfl, rfl⟩ := Prod.mk.inj hp
    split_ifs <;> omega
  · split at hp
    · obtain ⟨rfl, rfl⟩ := Prod.mk.inj hp
      split_ifs <;> omega
    · obtain ⟨rfl, rfl⟩ := Prod.mk.inj hp
      split_ifs <;> omega

def nameByte (c : UInt8) : Bool :=
  c == 45 || (97 ≤ tolower c && tolower c ≤ 122)

theorem nameByte_iff {c : UInt8} : nameByte c = true ↔
    c.toNat = 45 ∨ 97 ≤ (tolower c).toNat ∧ (tolower c).toNat ≤ 122 := by
  have h45 : c = 45 ↔ c.toNat = 45 := by rw [← UInt8.toNat_inj]; rfl
  simp only [nameByte, Bool.or_eq_true, beq_iff_eq, Bool.and_eq_true, decide_eq_true_eq, h45,
    UInt8.le_iff_toNat_le]
  rfl

theorem pairDiff_pos {a b : UInt8} (ha : nameByte a = true) (hb : nameByte b = true) :
    0 < pairDiff a b ↔ (tolower b).toNat < (tolower a).toNat := by
  have hp := caselessPair_toNat a b
  rw [nameByte_iff, toNat_tolower] at ha hb
  rw [toNat_tolower, toNat_tolower, pairDiff, charVal_eq, charVal_eq]
  generalize (caselessPair a b).1.toNat = p at *
  generalize (caselessPair a b).2.toNat = q at *
  split at hp
  · obtain ⟨rfl, rfl⟩ := Prod.mk.inj hp
    split_ifs at * <;> omega
  · split at hp
    · obtain ⟨rfl, rfl⟩ := Prod.mk.inj hp
      split_ifs at * <;> omega
    · obtain ⟨rfl, rfl⟩ := Prod.mk.inj hp
      split_ifs at * <;> omega

@[simp] theorem tolower_tolower (c : UInt8) : tolower (tolower c) = tolower c := by
  rw [← UInt8.toNat_inj, toNat_tolower, toNat_tolower]
  split_ifs <;> omega

theorem nameByte_of_tolower_eq {a b : UInt8} (h : tolower a = tolower b) (hb : nameByte b = true) :
    nameByte a = true := by
  rw [nameByte_iff] at hb ⊢
  rw [h]
  have h' := congrArg UInt8.toNat h
  rw [toNat_tolower, toNat_tolower] at h'
  rw [toNat_tolower] at hb ⊢
  split_ifs at * <;> omega

/-! ## Texts -/

theorem bufferCaselessCompare_cons (a b : UInt8) (s t : Bytes) :
    bufferCaselessCompare (a :: s) (b :: t) =
      if tolower a = tolower b then bufferCaselessCompare s t else pairDiff a b := by
  have hstep : bufferCaselessCompare (a :: s) (b :: t) =
      if a = b then bufferCaselessCompare s t
      else if pairDiff a b ≠ 0 then pairDiff a b else bufferCaselessCompare s t := rfl
  rw [hstep]
  by_cases hab : a = b
  · rw [if_pos hab, if_pos (congrArg tolower hab)]
  · rw [if_neg hab]
    by_cases h : tolower a = tolower b
    · rw [if_pos h, if_neg (not_not.mpr (pairDiff_eq_zero.mpr h))]
    · rw [if_neg h, if_pos fun h0 => h (pairDiff_eq_zero.mp h0)]

theorem bufferCaselessCompare_nil (t : Bytes) : bufferCaselessCompare [] t = -(t.length : Int) := by
  unfold bufferCaselessCompare
  rfl

theorem bufferCaselessCompare_nil_right (s : Bytes) : bufferCaselessCompare s [] = s.length := by
  cases s <;> simp [bufferCaselessCompare]

/-- **Equality without case.** -/
theorem bufferCaselessCompare_eq_zero {s t : Bytes} :
    bufferCaselessCompare s t = 0 ↔ s.map tolower = t.map tolower := by
  induction s generalizing t with
  | nil =>
    rw [bufferCaselessCompare_nil]
    cases t <;> simp
    omega
  | cons a s ih =>
    cases t with
    | nil =>
      rw [bufferCaselessCompare_nil_right]
      simp
      omega
    | cons b t =>
      rw [bufferCaselessCompare_cons, List.map_cons, List.map_cons, List.cons.injEq]
      by_cases h : tolower a = tolower b
      · rw [if_pos h, ih, and_iff_right h]
      · rw [if_neg h]
        exact ⟨fun h0 => absurd (pairDiff_eq_zero.mp h0) h, fun h' => absurd h'.1 h⟩

def foldName (name : Bytes) : Bytes := name.map tolower

/-- `strcasecmp` of two strings is 0. -/
def strcasecmpEq (a b : Bytes) : Bool := a.map tolower == b.map tolower

theorem bufferCaselessCompare_pos {s t : Bytes} (hs : s.all nameByte = true)
    (ht : t.all nameByte = true) : 0 < bufferCaselessCompare s t ↔
      0 < bufferCaselessCompare (s.map tolower) (t.map tolower) := by
  induction s generalizing t with
  | nil => simp [bufferCaselessCompare_nil]
  | cons a s ih =>
    cases t with
    | nil => simp [bufferCaselessCompare_nil_right]
    | cons b t =>
      rw [List.all_cons, Bool.and_eq_true] at hs ht
      have hla : nameByte (tolower a) = true := nameByte_of_tolower_eq (tolower_tolower a) hs.1
      have hlb : nameByte (tolower b) = true := nameByte_of_tolower_eq (tolower_tolower b) ht.1
      rw [List.map_cons, List.map_cons, bufferCaselessCompare_cons, bufferCaselessCompare_cons,
        tolower_tolower, tolower_tolower]
      by_cases h : tolower a = tolower b
      · rw [if_pos h, if_pos h, ih hs.2 ht.2]
      · rw [if_neg h, if_neg h, pairDiff_pos hs.1 ht.1, pairDiff_pos hla hlb, tolower_tolower,
          tolower_tolower]

end Lighttpd
