import Mathlib.Data.Nat.Bitwise

/-!
# Byte order and leading bits

`byteSwap` reverses the bytes of a word, which is what `htonl` and `ntohl` do on a little-endian
machine. `leading n` has its first `n` bits set; two words agree under it exactly when their first
`n` bits do.
-/

namespace Bits

variable {w : Nat}

/-! ## Leading bits -/

/-- The number with the last `k` bits set. -/
theorem getLsbD_shiftLeft_sub_one {k : Nat} (hk : k < w) (i : Nat) :
    ((1#w <<< k) - 1#w).getLsbD i = decide (i < k) := by
  have hpow : 2 ^ k < 2 ^ w := Nat.pow_lt_pow_right (by decide) hk
  have hpos := Nat.two_pow_pos k
  have hone : (1#w).toNat = 1 := by
    rw [BitVec.toNat_ofNat]
    exact Nat.mod_eq_of_lt (Nat.one_lt_two_pow (by omega))
  have hshift : (1#w <<< k).toNat = 2 ^ k := by
    rw [BitVec.toNat_shiftLeft, hone, Nat.shiftLeft_eq, Nat.one_mul, Nat.mod_eq_of_lt hpow]
  have hvalue : ((1#w <<< k) - 1#w).toNat = 2 ^ k - 1 := by
    rw [BitVec.toNat_sub_of_le, hshift, hone]
    rw [BitVec.le_def, hshift, hone]
    exact hpos
  rw [BitVec.getLsbD, hvalue, Nat.testBit_two_pow_sub_one]

/-- The first `n` bits, as a shift and a complement build them. -/
def leading (w n : Nat) : BitVec w := ~~~((1#w <<< (w - n)) - 1#w)

theorem getLsbD_leading {n : Nat} (hpos : 0 < n) (hle : n ≤ w) {i : Nat} (hi : i < w) :
    (leading w n).getLsbD i = decide (w - n ≤ i) := by
  unfold leading
  rw [BitVec.getLsbD_not, getLsbD_shiftLeft_sub_one (by omega)]
  simp only [hi, decide_true, Bool.true_and]
  by_cases h : i < w - n
  · rw [decide_eq_true h, decide_eq_false (Nat.not_le_of_lt h)]
    rfl
  · rw [decide_eq_false h, decide_eq_true (Nat.le_of_not_lt h)]
    rfl

theorem and_leading_eq_iff {n : Nat} (hpos : 0 < n) (hle : n ≤ w) (x y : BitVec w) :
    x &&& leading w n = y &&& leading w n ↔ ∀ i < n, x.getMsbD i = y.getMsbD i := by
  rw [BitVec.eq_of_getLsbD_eq_iff]
  constructor
  · intro h i hi
    have hbit := h (w - 1 - i) (by omega)
    rw [BitVec.getLsbD_and, BitVec.getLsbD_and, getLsbD_leading hpos hle (by omega),
      decide_eq_true (by omega), Bool.and_true, Bool.and_true] at hbit
    rw [BitVec.getMsbD_eq_getLsbD, BitVec.getMsbD_eq_getLsbD, hbit]
  · intro h i hi
    rw [BitVec.getLsbD_and, BitVec.getLsbD_and, getLsbD_leading hpos hle hi]
    by_cases hin : w - n ≤ i
    · have hbit := h (w - 1 - i) (by omega)
      rw [BitVec.getMsbD_eq_getLsbD, BitVec.getMsbD_eq_getLsbD,
        show w - 1 - (w - 1 - i) = i by omega] at hbit
      have hlt : w - 1 - i < w := by omega
      simp only [hlt, decide_true, Bool.true_and] at hbit
      rw [hbit]
    · rw [decide_eq_false hin, Bool.and_false, Bool.and_false]

/-! ## The order of bytes -/

/-- The place of bit `i` with the four bytes reversed. -/
def swapIndex (i : Nat) : Nat := (3 - i / 8) * 8 + i % 8

theorem swapIndex_lt {i : Nat} (hi : i < 32) : swapIndex i < 32 := by
  unfold swapIndex
  omega

theorem swapIndex_swapIndex {i : Nat} (hi : i < 32) : swapIndex (swapIndex i) = i := by
  unfold swapIndex
  omega

def byteSwap (x : BitVec 32) : BitVec 32 :=
  x.extractLsb' 0 8 ++ x.extractLsb' 8 8 ++ x.extractLsb' 16 8 ++ x.extractLsb' 24 8

theorem getLsbD_byteSwap (x : BitVec 32) {i : Nat} (hi : i < 32) :
    (byteSwap x).getLsbD i = x.getLsbD (swapIndex i) := by
  unfold byteSwap swapIndex
  have hindex : ∀ {a b : Nat}, a = b → x.getLsbD a = x.getLsbD b := fun h => congrArg _ h
  simp only [BitVec.getLsbD_append, BitVec.getLsbD_extractLsb']
  split
  · next h =>
    rw [decide_eq_true h, Bool.true_and]
    exact hindex (by omega)
  · split
    · next h =>
      rw [decide_eq_true h, Bool.true_and]
      exact hindex (by omega)
    · split
      · next h =>
        rw [decide_eq_true h, Bool.true_and]
        exact hindex (by omega)
      · rw [decide_eq_true (by omega), Bool.true_and]
        exact hindex (by omega)

@[simp] theorem byteSwap_byteSwap (x : BitVec 32) : byteSwap (byteSwap x) = x := by
  apply BitVec.eq_of_getLsbD_eq
  intro i hi
  rw [getLsbD_byteSwap _ hi, getLsbD_byteSwap _ (swapIndex_lt hi), swapIndex_swapIndex hi]

theorem byteSwap_and (x y : BitVec 32) : byteSwap (x &&& y) = byteSwap x &&& byteSwap y := by
  apply BitVec.eq_of_getLsbD_eq
  intro i hi
  rw [getLsbD_byteSwap _ hi, BitVec.getLsbD_and, BitVec.getLsbD_and, getLsbD_byteSwap _ hi,
    getLsbD_byteSwap _ hi]

theorem byteSwap_inj {x y : BitVec 32} : byteSwap x = byteSwap y ↔ x = y :=
  ⟨fun h => by rw [← byteSwap_byteSwap x, h, byteSwap_byteSwap], fun h => by rw [h]⟩

theorem and_byteSwap_leading {n : Nat} (hpos : 0 < n) (hle : n ≤ 32) (x y : BitVec 32) :
    x &&& byteSwap (leading 32 n) = y &&& byteSwap (leading 32 n) ↔
      ∀ i < n, (byteSwap x).getMsbD i = (byteSwap y).getMsbD i := by
  rw [← byteSwap_inj, byteSwap_and, byteSwap_and, byteSwap_byteSwap]
  exact and_leading_eq_iff hpos hle _ _

end Bits
