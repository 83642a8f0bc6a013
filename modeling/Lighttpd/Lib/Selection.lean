import Mathlib.Algebra.Order.Ring.Int
import Mathlib.Data.List.Basic
import Mathlib.Order.Basic

/-!
# Choosing from a list

Candidates with a key, some of them not eligible. The first one with the greatest key is unique
(`IsFirstMax.unique`) and stays the choice when others drop out (`IsFirstMax.of_dropped`). Whoever
takes turns goes on behind the last choice and wraps around: the order of the next choices is a
rotation of the eligible ones (`rotation_next`), so as many turns as there are of them choose each
one once (`takeTurns_perm`).
-/

namespace Selection

section FirstMax

variable {κ : Type} [LinearOrder κ] {keys keys' : List (Option κ)} {i j : Nat}

/-- The first position with the greatest key; `none` is not eligible. -/
structure IsFirstMax (keys : List (Option κ)) (i : Nat) (key : κ) : Prop where
  at_pos : keys[i]? = some (some key)
  le : ∀ (j : Nat) (c : κ), keys[j]? = some (some c) → c ≤ key
  lt : ∀ (j : Nat) (c : κ), j < i → keys[j]? = some (some c) → c < key

theorem IsFirstMax.unique {a b : κ} (h : IsFirstMax keys i a) (h' : IsFirstMax keys j b) :
    i = j ∧ a = b := by
  have hab : a = b := le_antisymm (h'.le i a h.at_pos) (h.le j b h'.at_pos)
  subst hab
  refine ⟨?_, rfl⟩
  rcases Nat.lt_trichotomy i j with hlt | heq | hgt
  · exact absurd (h'.lt i a hlt h.at_pos) (lt_irrefl a)
  · exact heq
  · exact absurd (h.lt j a hgt h'.at_pos) (lt_irrefl a)

theorem IsFirstMax.of_dropped {key : κ} (h : IsFirstMax keys i key)
    (hpos : keys'[i]? = some (some key))
    (hsub : ∀ (j : Nat) (c : κ), keys'[j]? = some (some c) → keys[j]? = some (some c)) :
    IsFirstMax keys' i key where
  at_pos := hpos
  le j c hc := h.le j c (hsub j c hc)
  lt j c hj hc := h.lt j c hj (hsub j c hc)

theorem isFirstMax_concat {key : κ} (h : ∀ (j : Nat) (c : κ), keys[j]? = some (some c) → c < key) :
    IsFirstMax (keys ++ [some key]) keys.length key where
  at_pos := List.getElem?_concat_length
  le j c hc := by
    rcases Nat.lt_trichotomy j keys.length with hj | rfl | hj
    · rw [List.getElem?_append_left hj] at hc
      exact le_of_lt (h j c hc)
    · rw [List.getElem?_concat_length] at hc
      exact le_of_eq (Option.some.inj (Option.some.inj hc)).symm
    · rw [List.getElem?_eq_none (by simp; omega)] at hc
      cases hc
  lt j c hj hc := by
    rw [List.getElem?_append_left hj] at hc
    exact h j c hc

theorem IsFirstMax.concat_of_le {a : κ} {c : Option κ} (h : IsFirstMax keys i a)
    (hle : ∀ key, c = some key → key ≤ a) : IsFirstMax (keys ++ [c]) i a := by
  have hi : i < keys.length := (List.getElem?_eq_some_iff.mp h.at_pos).1
  refine ⟨?_, fun j d hd => ?_, fun j d hj hd => ?_⟩
  · rw [List.getElem?_append_left hi]
    exact h.at_pos
  · rcases Nat.lt_trichotomy j keys.length with hj | rfl | hj
    · rw [List.getElem?_append_left hj] at hd
      exact h.le j d hd
    · rw [List.getElem?_concat_length] at hd
      exact hle d (Option.some.inj hd)
    · rw [List.getElem?_eq_none (by simp; omega)] at hd
      cases hd
  · rw [List.getElem?_append_left (Nat.lt_trans hj hi)] at hd
    exact h.lt j d hj hd

end FirstMax

section Turns

variable {eligible : List Nat} {i x : Nat} {rest : List Nat}

/-- The eligible ones from `i` on, and then those in front. -/
def rotation (eligible : List Nat) (i : Nat) : List Nat :=
  eligible.filter (i ≤ ·) ++ eligible.filter (· < i)

theorem rotation_perm (eligible : List Nat) (i : Nat) : (rotation eligible i).Perm eligible := by
  have hnot : (fun x => decide (x < i)) = fun x => !decide (i ≤ x) := by
    funext x
    rw [← decide_not]
    exact decide_eq_decide.mpr Nat.not_le.symm
  unfold rotation
  rw [hnot]
  exact List.filter_append_perm _ eligible

/-- A sorted list has what is less than `i` in front. -/
theorem filter_append_of_sorted (h : eligible.Pairwise (· < ·)) (i : Nat) :
    eligible.filter (· < i) ++ eligible.filter (i ≤ ·) = eligible := by
  induction eligible with
  | nil => rfl
  | cons y eligible ih =>
    obtain ⟨hy, hrest⟩ := List.pairwise_cons.mp h
    by_cases hlt : y < i
    · rw [List.filter_cons_of_pos (by simpa using hlt),
        List.filter_cons_of_neg (by simpa using hlt), List.cons_append, ih hrest]
    · have hnone : eligible.filter (· < i) = [] := List.filter_eq_nil_iff.mpr fun z hz => by
        have := hy z hz
        simp only [decide_eq_true_eq]
        omega
      have hall : eligible.filter (i ≤ ·) = eligible := List.filter_eq_self.mpr fun z hz => by
        have := hy z hz
        simp only [decide_eq_true_eq]
        omega
      rw [List.filter_cons_of_neg (by simpa using hlt),
        List.filter_cons_of_pos (by simpa using hlt), hnone, hall, List.nil_append]

theorem rotation_of_cut {front : List Nat} (h : (front ++ x :: rest).Pairwise (· < ·)) :
    rotation (front ++ x :: rest) (x + 1) = rest ++ (front ++ [x]) := by
  obtain ⟨-, hrest, hcross⟩ := List.pairwise_append.mp h
  obtain ⟨hx, -⟩ := List.pairwise_cons.mp hrest
  have hfront : ∀ y ∈ front, y < x := fun y hy => hcross y hy x List.mem_cons_self
  have hlow : (front ++ x :: rest).filter (· < x + 1) = front ++ [x] := by
    rw [List.filter_append, List.filter_cons_of_pos (by simp),
      List.filter_eq_self.mpr fun y hy =>
        decide_eq_true (Nat.lt_succ_of_lt (hfront y hy)),
      List.filter_eq_nil_iff.mpr fun y hy => by
        have := hx y hy
        simp only [decide_eq_true_eq]
        omega]
  have hhigh : (front ++ x :: rest).filter (x + 1 ≤ ·) = rest := by
    rw [List.filter_append, List.filter_cons_of_neg (by simp),
      List.filter_eq_nil_iff.mpr fun y hy => by
        have := hfront y hy
        simp only [decide_eq_true_eq]
        omega,
      List.filter_eq_self.mpr fun y hy => decide_eq_true (Nat.succ_le_of_lt (hx y hy)),
      List.nil_append]
  rw [rotation, hlow, hhigh]

theorem rotation_next (h : eligible.Pairwise (· < ·)) (hnext : rotation eligible i = x :: rest) :
    rotation eligible (x + 1) = rest ++ [x] := by
  have hsplit := filter_append_of_sorted h i
  unfold rotation at hnext
  cases hhigh : eligible.filter (i ≤ ·) with
  | nil =>
    rw [hhigh, List.nil_append] at hnext
    rw [hhigh, List.append_nil, hnext] at hsplit
    rw [← hsplit] at h ⊢
    exact @rotation_of_cut _ _ [] h
  | cons y high =>
    rw [hhigh, List.cons_append] at hnext
    obtain ⟨rfl, rfl⟩ := List.cons.inj hnext
    rw [hhigh] at hsplit
    have hcut := rotation_of_cut (hsplit.symm ▸ h)
    rw [hsplit] at hcut
    rw [hcut, List.append_assoc]

/-- The choices of `n` turns. -/
def takeTurns (eligible : List Nat) : Nat → Nat → List Nat
  | 0, _ => []
  | n + 1, i =>
    match rotation eligible i with
    | [] => []
    | x :: _ => x :: takeTurns eligible n (x + 1)

theorem takeTurns_eq (h : eligible.Pairwise (· < ·)) {n : Nat} (hn : n ≤ eligible.length)
    (i : Nat) : takeTurns eligible n i = (rotation eligible i).take n := by
  induction n generalizing i with
  | zero => rfl
  | succ n ih =>
    have hlen := (rotation_perm eligible i).length_eq
    unfold takeTurns
    cases hnext : rotation eligible i with
    | nil => rfl
    | cons x rest =>
      rw [hnext, List.length_cons] at hlen
      dsimp only
      rw [ih (by omega), rotation_next h hnext, List.take_append_of_le_length (by omega),
        List.take_succ_cons]

theorem takeTurns_perm (h : eligible.Pairwise (· < ·)) (i : Nat) :
    (takeTurns eligible eligible.length i).Perm eligible := by
  rw [takeTurns_eq h (Nat.le_refl _), List.take_of_length_le (Nat.le_of_eq
    (rotation_perm eligible i).length_eq)]
  exact rotation_perm eligible i

end Turns

end Selection
