import Mathlib.Algebra.Order.Ring.Int
import Mathlib.Data.List.Basic

/-!
# Passes of compare and exchange

A pass goes once through a list, compares each element with the one at a fixed distance behind it,
and exchanges the two where the first is the greater one. Whatever is exchanged, the elements stay
the same (`exchangePass_perm`). A pass over neighbours that exchanges something leaves fewer pairs
in the wrong order (`exchangePass_inversions`), and one that exchanges nothing has met a sorted list
(`pairwise_of_exchangePass`).
-/

namespace Exchange

variable {α : Type} (gt : α → α → Bool)

/-- `n` comparisons from position `i` on: the list, and whether something was exchanged. A place
behind the end of the list has no value. -/
def exchangePass (gap : Nat) : Nat → Nat → List α → Bool → Option (List α × Bool)
  | 0, _, xs, swapped => some (xs, swapped)
  | n + 1, i, xs, swapped => do
    let a ← xs[i]?
    let b ← xs[i + gap]?
    if gt a b then exchangePass gap n (i + 1) ((xs.set i b).set (i + gap) a) true
    else exchangePass gap n (i + 1) xs swapped

def inversions : List α → Nat
  | [] => 0
  | a :: xs => xs.countP (gt a) + inversions xs

variable {gt} {gap n i : Nat} {xs ys : List α} {swapped swapped' : Bool}

/-! ## Any distance -/

theorem exchange_perm {a b : α} {j : Nat} (ha : xs[i]? = some a) (hb : xs[j]? = some b) :
    ((xs.set i b).set j a).Perm xs := by
  obtain ⟨hi, rfl⟩ := List.getElem?_eq_some_iff.mp ha
  obtain ⟨hj, rfl⟩ := List.getElem?_eq_some_iff.mp hb
  exact List.set_set_perm hi hj

theorem exchangePass_perm (h : n = 0 ∨ i + n + gap ≤ xs.length) :
    ∃ ys swapped', exchangePass gt gap n i xs swapped = some (ys, swapped') ∧ ys.Perm xs := by
  induction n generalizing i xs swapped with
  | zero => exact ⟨xs, swapped, rfl, List.Perm.refl xs⟩
  | succ n ih =>
    have hroom : i + (n + 1) + gap ≤ xs.length := h.resolve_left (Nat.succ_ne_zero n)
    have ha : xs[i]? = some xs[i] := List.getElem?_eq_getElem (by omega)
    have hb : xs[i + gap]? = some xs[i + gap] := List.getElem?_eq_getElem (by omega)
    rw [exchangePass, ha, hb, Option.bind_eq_bind, Option.bind_some, Option.bind_some]
    by_cases hgt : gt xs[i] xs[i + gap] = true
    · have hperm := exchange_perm ha hb
      have hlen := hperm.length_eq
      obtain ⟨ys, swapped', hrun, hys⟩ := @ih (i + 1) _ true (.inr (by rw [hlen]; omega))
      rw [if_pos hgt]
      exact ⟨ys, swapped', hrun, hys.trans hperm⟩
    · rw [if_neg hgt]
      exact ih (.inr (by omega))

theorem exchangePass_true (h : exchangePass gt gap n i xs true = some (ys, swapped')) :
    swapped' = true := by
  induction n generalizing i xs with
  | zero =>
    cases h
    rfl
  | succ n ih =>
    obtain ⟨a, -, h⟩ := Option.bind_eq_some_iff.mp h
    obtain ⟨b, -, h⟩ := Option.bind_eq_some_iff.mp h
    split at h
    · exact ih h
    · exact ih h

theorem exchangePass_false (h : exchangePass gt gap n i xs false = some (ys, false)) :
    ys = xs ∧ ∀ k, i ≤ k → k < i + n → ∃ a b, xs[k]? = some a ∧ xs[k + gap]? = some b ∧
      gt a b = false := by
  induction n generalizing i with
  | zero =>
    cases h
    exact ⟨rfl, fun k hik hk => absurd hk (by omega)⟩
  | succ n ih =>
    obtain ⟨a, ha, h⟩ := Option.bind_eq_some_iff.mp h
    obtain ⟨b, hb, h⟩ := Option.bind_eq_some_iff.mp h
    split at h
    · exact absurd (exchangePass_true h) Bool.false_ne_true
    · next hgt =>
      obtain ⟨hys, hrest⟩ := ih h
      refine ⟨hys, fun k hik hk => ?_⟩
      rcases Nat.eq_or_lt_of_le hik with rfl | hlt
      · exact ⟨a, b, ha, hb, Bool.eq_false_iff.mpr hgt⟩
      · exact hrest k hlt (by omega)

/-! ## Neighbours -/

theorem inversions_exchange (hasymm : ∀ a b, gt a b = true → gt b a = false) {a b : α}
    (hgt : gt a b = true) (pre post : List α) :
    inversions gt (pre ++ b :: a :: post) + 1 = inversions gt (pre ++ a :: b :: post) := by
  induction pre with
  | nil =>
    have hba : ¬ gt b a = true := by
      rw [hasymm a b hgt]
      exact Bool.false_ne_true
    simp only [List.nil_append, inversions, List.countP_cons_of_pos hgt,
      List.countP_cons_of_neg hba]
    omega
  | cons x pre ih =>
    have hcount : (pre ++ b :: a :: post).countP (gt x) = (pre ++ a :: b :: post).countP (gt x) :=
      ((List.Perm.swap a b post).append_left pre).countP_eq _
    simp only [List.cons_append, inversions, hcount]
    omega

theorem exchange_neighbours {a b : α} (ha : xs[i]? = some a) (hb : xs[i + 1]? = some b) :
    ∃ pre post, xs = pre ++ a :: b :: post ∧ (xs.set i b).set (i + 1) a = pre ++ b :: a :: post := by
  obtain ⟨hi, rfl⟩ := List.getElem?_eq_some_iff.mp ha
  obtain ⟨hj, rfl⟩ := List.getElem?_eq_some_iff.mp hb
  have hsplit : xs = xs.take i ++ xs[i] :: xs[i + 1] :: xs.drop (i + 2) := by
    rw [← List.drop_eq_getElem_cons hj, ← List.drop_eq_getElem_cons hi, List.take_append_drop]
  have hlen : (xs.take i).length = i := by
    rw [List.length_take]
    omega
  refine ⟨_, _, hsplit, ?_⟩
  generalize xs[i] = a at *
  generalize xs[i + 1] = b at *
  generalize xs.take i = pre at *
  generalize xs.drop (i + 2) = post at *
  rw [hsplit, List.set_append_right _ _ (by omega), List.set_append_right _ _ (by omega), hlen,
    Nat.sub_self, Nat.add_sub_cancel_left]
  rfl

theorem exchangePass_inversions (hasymm : ∀ a b, gt a b = true → gt b a = false)
    (h : exchangePass gt 1 n i xs swapped = some (ys, swapped')) :
    inversions gt ys ≤ inversions gt xs ∧
      (swapped = false → swapped' = true → inversions gt ys < inversions gt xs) := by
  induction n generalizing i xs swapped with
  | zero =>
    cases h
    exact ⟨Nat.le_refl _, fun hfalse htrue => absurd (hfalse.symm.trans htrue) Bool.false_ne_true⟩
  | succ n ih =>
    obtain ⟨a, ha, h⟩ := Option.bind_eq_some_iff.mp h
    obtain ⟨b, hb, h⟩ := Option.bind_eq_some_iff.mp h
    split at h
    · next hgt =>
      obtain ⟨pre, post, hxs, hset⟩ := exchange_neighbours ha hb
      have hless := inversions_exchange hasymm hgt pre post
      have hle := (ih h).1
      rw [hset] at hle
      rw [hxs]
      exact ⟨by omega, fun _ _ => by omega⟩
    · exact ih h

theorem pairwise_of_exchangePass (htrans : ∀ a b c, gt a b = false → gt b c = false → gt a c = false)
    (h : exchangePass gt 1 (xs.length - 1) 0 xs false = some (ys, false)) :
    ys = xs ∧ xs.Pairwise fun a b => gt a b = false := by
  obtain ⟨hys, hpairs⟩ := exchangePass_false h
  have htransitive : Trans (fun a b => gt a b = false) (fun a b => gt a b = false)
      (fun a b => gt a b = false) := ⟨fun hab hbc => htrans _ _ _ hab hbc⟩
  refine ⟨hys, List.isChain_iff_pairwise.mp (List.isChain_iff_getElem.mpr ?_)⟩
  intro k hk
  obtain ⟨a, b, ha, hb, hgt⟩ := hpairs k (Nat.zero_le k) (by omega)
  rw [List.getElem?_eq_getElem (by omega)] at ha hb
  obtain rfl := Option.some.inj ha
  obtain rfl := Option.some.inj hb
  exact hgt

end Exchange
