import Mathlib.Algebra.Order.Ring.Int
import Mathlib.Data.Int.Order.Basic

/-!
# Comparison functions

A function that compares by the sign of its result, in the manner of `strcmp`. It is a total
preorder on some of its arguments (`PreorderOn`) when the sign is that of an order there.
-/

namespace Compare

variable {α : Type} {cmp : α → α → Int} {K L : α → Prop} {a b c : α}

/-- The sign is that of a total preorder on the arguments in `K`. -/
structure PreorderOn (cmp : α → α → Int) (K : α → Prop) : Prop where
  antisymm : ∀ {a b}, K a → K b → (cmp a b < 0 ↔ 0 < cmp b a)
  trans : ∀ {a b c}, K a → K b → K c → cmp a b ≤ 0 → cmp b c ≤ 0 → cmp a c ≤ 0

namespace PreorderOn

theorem mono (h : PreorderOn cmp K) (hL : ∀ a, L a → K a) : PreorderOn cmp L where
  antisymm ha hb := h.antisymm (hL _ ha) (hL _ hb)
  trans ha hb hc := h.trans (hL _ ha) (hL _ hb) (hL _ hc)

theorem eq_zero_comm (h : PreorderOn cmp K) (ha : K a) (hb : K b) : cmp a b = 0 ↔ cmp b a = 0 := by
  have h1 := h.antisymm ha hb
  have h2 := h.antisymm hb ha
  constructor <;> intro h0
  · by_contra hne
    omega
  · by_contra hne
    omega

theorem refl (h : PreorderOn cmp K) (ha : K a) : cmp a a = 0 := by
  have := h.antisymm ha ha
  by_contra hne
  omega

theorem lt_of_lt_of_le (h : PreorderOn cmp K) (ha : K a) (hb : K b) (hc : K c) (hab : cmp a b < 0)
    (hbc : cmp b c ≤ 0) : cmp a c < 0 := by
  by_contra hac
  have hca : cmp c a ≤ 0 := by
    have := h.antisymm ha hc
    have := h.antisymm hc ha
    have := h.eq_zero_comm ha hc
    omega
  have hba := h.trans hb hc ha hbc hca
  have := h.antisymm ha hb
  omega

theorem lt_of_le_of_lt (h : PreorderOn cmp K) (ha : K a) (hb : K b) (hc : K c) (hab : cmp a b ≤ 0)
    (hbc : cmp b c < 0) : cmp a c < 0 := by
  by_contra hac
  have hca : cmp c a ≤ 0 := by
    have := h.antisymm ha hc
    have := h.antisymm hc ha
    have := h.eq_zero_comm ha hc
    omega
  have hcb := h.trans hc ha hb hca hab
  have := h.antisymm hb hc
  omega

theorem alike (h : PreorderOn cmp K) (ha : K a) (hb : K b) (hc : K c) (hab : cmp a b = 0) :
    (cmp a c).sign = (cmp b c).sign := by
  have hba := (h.eq_zero_comm ha hb).mp hab
  rcases Int.lt_trichotomy (cmp b c) 0 with hbc | hbc | hbc
  · have hac := h.lt_of_le_of_lt ha hb hc (by omega) hbc
    rw [Int.sign_eq_neg_one_of_neg hac, Int.sign_eq_neg_one_of_neg hbc]
  · have hac := h.trans ha hb hc (by omega) (by omega)
    have hca := h.trans hc hb ha (by have := (h.eq_zero_comm hb hc).mp hbc; omega) (by omega)
    have hzero : cmp a c = 0 := by
      have := h.antisymm ha hc
      omega
    rw [hzero, hbc]
  · have hcb := (h.antisymm hc hb).mpr hbc
    have hca := h.lt_of_lt_of_le hc hb ha hcb (by omega)
    have hac := (h.antisymm hc ha).mp hca
    rw [Int.sign_eq_one_of_pos hac, Int.sign_eq_one_of_pos hbc]

end PreorderOn

end Compare
