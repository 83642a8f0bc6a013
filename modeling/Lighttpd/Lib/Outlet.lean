import Mathlib.Data.List.Basic

/-!
# Outlets

What was sent through an outlet, what is left for it, and a count. A writer streams if whatever it
sends comes from the front of what is left, and is counted (`Outlet.Streams`). A gathered write
takes a list of pieces; `Gathered.advance` is what is left of each of them.
-/

structure Outlet (α : Type) where
  sent : List α
  left : List α
  count : Int

namespace Outlet

variable {α : Type} {a b c : Outlet α}

/-- The elements `s` are sent. -/
structure Sends (a : Outlet α) (s : List α) (b : Outlet α) : Prop where
  sent : b.sent = a.sent ++ s
  left : a.left = s ++ b.left
  count : b.count = a.count + s.length

def Streams (a b : Outlet α) : Prop := ∃ s, a.Sends s b

theorem Streams.refl (a : Outlet α) : a.Streams a :=
  ⟨[], (List.append_nil _).symm, rfl, (Int.add_zero _).symm⟩

theorem Streams.trans (h : a.Streams b) (h' : b.Streams c) : a.Streams c := by
  obtain ⟨s, hs⟩ := h
  obtain ⟨t, ht⟩ := h'
  refine ⟨s ++ t, ?_, ?_, ?_⟩
  · rw [ht.sent, hs.sent, List.append_assoc]
  · rw [hs.left, ht.left, List.append_assoc]
  · rw [ht.count, hs.count, List.length_append]
    omega

/-- The first `n` elements are sent. -/
theorem streams_take {n : Nat} (hn : n ≤ a.left.length) (hsent : b.sent = a.sent ++ a.left.take n)
    (hleft : b.left = a.left.drop n) (hcount : b.count = a.count + n) : a.Streams b := by
  refine ⟨a.left.take n, hsent, ?_, ?_⟩
  · rw [hleft, List.take_append_drop]
  · rw [hcount, List.length_take, Nat.min_eq_left hn]

end Outlet

/-! ## Gathered writes -/

namespace Gathered

variable {α : Type}

/-- The pieces without the first `n` elements. -/
def advance : List (List α) → Nat → List (List α)
  | [], _ => []
  | p :: ps, n => p.drop n :: advance ps (n - p.length)

theorem advance_zero (ps : List (List α)) : advance ps 0 = ps := by
  induction ps with
  | nil => rfl
  | cons p ps ih => rw [advance, List.drop_zero, Nat.zero_sub, ih]

theorem flatten_advance (ps : List (List α)) (n : Nat) :
    (advance ps n).flatten = ps.flatten.drop n := by
  induction ps generalizing n with
  | nil => rw [advance, List.flatten_nil, List.drop_nil]
  | cons p ps ih => rw [advance, List.flatten_cons, List.flatten_cons, List.drop_append, ih]

theorem eq_nil_of_mem_advance {ps : List (List α)} {n : Nat} (hn : ps.flatten.length ≤ n)
    {p : List α} (hp : p ∈ advance ps n) : p = [] := by
  have hflat : (advance ps n).flatten = [] := by
    rw [flatten_advance]
    exact List.drop_eq_nil_of_le hn
  exact List.flatten_eq_nil_iff.mp hflat p hp

end Gathered
