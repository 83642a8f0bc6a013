import Lighttpd.Lib.Heap
import Mathlib.Data.List.Nodup

/-!
# Singly linked lists in a heap

A cell has a value and the address of the next one. `Chain` says which cells of a heap lie between
two pointers. A chain does not care about cells that are not in it, so each operation on a list is
described by the cells it writes.
-/

namespace CLib

structure Cell (α : Type) where
  value : α
  next : Option Nat
  deriving DecidableEq, Repr

variable {α : Type} {h h' : Heap (Cell α)} {p q r s : Option Nat} {a : Nat} {v : α}
  {xs ys zs : List (Nat × α)}

/-- From the pointer `p` on there are the cells `xs`, with their addresses, and the last of them
points to `q`. -/
def Chain (h : Heap (Cell α)) : Option Nat → List (Nat × α) → Option Nat → Prop
  | p, [], q => p = q
  | p, (a, v) :: xs, q => p = some a ∧ ∃ next, h.get a = some ⟨v, next⟩ ∧ Chain h next xs q

namespace Chain

theorem congr (hc : Chain h p xs q) (heq : ∀ x ∈ xs, h'.get x.1 = h.get x.1) :
    Chain h' p xs q := by
  induction xs generalizing p with
  | nil => exact hc
  | cons x xs ih =>
    obtain ⟨hp, next, hget, hrest⟩ := hc
    refine ⟨hp, next, ?_, ih hrest fun y hy => heq y (List.mem_cons_of_mem x hy)⟩
    rw [heq x List.mem_cons_self]
    exact hget

theorem get_eq (hc : Chain h p xs q) : ∀ x ∈ xs, ∃ next, h.get x.1 = some ⟨x.2, next⟩ := by
  induction xs generalizing p with
  | nil =>
    intro x hx
    cases hx
  | cons y xs ih =>
    obtain ⟨-, next, hget, hrest⟩ := hc
    intro x hx
    rcases List.mem_cons.mp hx with rfl | hx
    · exact ⟨next, hget⟩
    · exact ih hrest x hx

theorem put (hc : Chain h p xs q) (ha : a ∉ xs.map Prod.fst) (d : Cell α) :
    Chain (h.put a d) p xs q := by
  apply hc.congr
  intro x hx
  apply Heap.get_put_ne
  rintro rfl
  exact ha (List.mem_map_of_mem hx)

theorem free (hc : Chain h p xs q) (ha : a ∉ xs.map Prod.fst) : Chain (h.free a) p xs q := by
  apply hc.congr
  intro x hx
  apply Heap.get_free_ne
  rintro rfl
  exact ha (List.mem_map_of_mem hx)

theorem alloc (hc : Chain h p xs q) (d : Cell α) : Chain (h.alloc d).2 p xs q := by
  apply hc.congr
  intro x hx
  obtain ⟨next, hget⟩ := hc.get_eq x hx
  rw [Heap.get_alloc_of_get hget, hget]

theorem fresh (hc : Chain h p xs q) : h.length ∉ xs.map Prod.fst := by
  intro hmem
  obtain ⟨x, hx, heq⟩ := List.mem_map.mp hmem
  obtain ⟨next, hget⟩ := hc.get_eq x hx
  have hlt := Heap.lt_of_get hget
  omega

theorem append_iff : Chain h p (xs ++ ys) r ↔ ∃ q, Chain h p xs q ∧ Chain h q ys r := by
  induction xs generalizing p with
  | nil =>
    constructor
    · intro hc
      exact ⟨p, rfl, hc⟩
    · rintro ⟨q, rfl, hc⟩
      exact hc
  | cons x xs ih =>
    constructor
    · rintro ⟨hp, next, hget, hrest⟩
      obtain ⟨q, hxs, hys⟩ := ih.mp hrest
      exact ⟨q, ⟨hp, next, hget, hxs⟩, hys⟩
    · rintro ⟨q, ⟨hp, next, hget, hxs⟩, hys⟩
      exact ⟨hp, next, hget, ih.mpr ⟨q, hxs, hys⟩⟩

theorem start_eq (hc : Chain h p xs none) : p = xs.head?.map Prod.fst := by
  cases xs with
  | nil => exact hc
  | cons x xs => exact hc.1

theorem not_ended (hc : Chain h p xs (some a)) (ha : h.get a = none) : ¬ Chain h p ys none := by
  intro hend
  induction xs generalizing p ys with
  | nil =>
    obtain rfl : p = some a := hc
    cases ys with
    | nil => cases hend
    | cons y ys =>
      obtain ⟨hp, next, hget, -⟩ := hend
      rw [← Option.some.inj hp, ha] at hget
      cases hget
  | cons x xs ih =>
    obtain ⟨rfl, next, hget, hrest⟩ := hc
    cases ys with
    | nil => cases hend
    | cons y ys =>
      obtain ⟨hp, next', hget', hrest'⟩ := hend
      rw [← Option.some.inj hp, hget] at hget'
      obtain rfl : next = next' := congrArg Cell.next (Option.some.inj hget')
      exact ih hrest hrest'

theorem middle (hc : Chain h p (xs ++ (a, v) :: ys) q) :
    ∃ next, h.get a = some ⟨v, next⟩ ∧ Chain h next ys q := by
  obtain ⟨m, -, -, next, hget, hrest⟩ := append_iff.mp hc
  exact ⟨next, hget, hrest⟩

theorem relink (hc : Chain h p (xs ++ (a, v) :: ys) r) (hrest : Chain h q zs s)
    (hxs : a ∉ xs.map Prod.fst) (hzs : a ∉ zs.map Prod.fst) (w : α) :
    Chain (h.put a ⟨w, q⟩) p (xs ++ (a, w) :: zs) s := by
  obtain ⟨m, hfront, rfl, next, hget, -⟩ := append_iff.mp hc
  exact append_iff.mpr
    ⟨some a, hfront.put hxs _, rfl, q, Heap.get_put_self hget _, hrest.put hzs _⟩

end Chain

end CLib
