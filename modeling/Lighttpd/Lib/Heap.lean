import Mathlib.Data.List.Basic

/-!
# Heaps

A heap is a list of cells, known by their addresses; an address that was freed has no cell, and a
new cell has an address that was not used before. To free a cell that is not there has no value.
-/

namespace CLib

abbrev Heap (β : Type) := List (Option β)

namespace Heap

variable {β : Type} {h : Heap β} {a b : Nat} {c : β}

def get (h : Heap β) (a : Nat) : Option β := h[a]?.join

def put (h : Heap β) (a : Nat) (c : β) : Heap β := h.set a (some c)

def free (h : Heap β) (a : Nat) : Heap β := h.set a none

def release (h : Heap β) (a : Nat) : Option (Heap β) :=
  if (h.get a).isSome then some (h.free a) else none

def alloc (h : Heap β) (c : β) : Nat × Heap β := (h.length, h ++ [some c])

theorem lt_of_get (hc : h.get a = some c) : a < h.length := by
  by_contra hge
  rw [get, List.getElem?_eq_none (Nat.le_of_not_lt hge)] at hc
  cases hc

theorem get_put_self (hc : h.get a = some c) (d : β) : (h.put a d).get a = some d := by
  rw [get, put, List.getElem?_set_self (lt_of_get hc)]
  rfl

theorem get_put_ne (hab : b ≠ a) (d : β) : (h.put a d).get b = h.get b := by
  rw [get, put, List.getElem?_set_ne (Ne.symm hab), get]

theorem get_free_ne (hab : b ≠ a) : (h.free a).get b = h.get b := by
  rw [get, free, List.getElem?_set_ne (Ne.symm hab), get]

theorem get_free_self : (h.free a).get a = none := by
  rw [get, free]
  by_cases hlt : a < h.length
  · rw [List.getElem?_set_self hlt]
    rfl
  · rw [List.getElem?_eq_none (by rw [List.length_set]; omega)]
    rfl

theorem release_of_get (hc : h.get a = some c) : h.release a = some (h.free a) := by
  rw [release, hc]
  rfl

theorem get_alloc_self (c : β) : (h.alloc c).2.get (h.alloc c).1 = some c := by
  simp [get, alloc]

theorem get_alloc_of_get (hc : h.get a = some c) (d : β) : (h.alloc d).2.get a = some c := by
  rw [get, alloc, List.getElem?_append_left (lt_of_get hc)]
  exact hc

theorem get_alloc_ne (hab : b ≠ h.length) (c : β) : (h.alloc c).2.get b = h.get b := by
  rw [get, get, alloc]
  by_cases hlt : b < h.length
  · rw [List.getElem?_append_left hlt]
  · rw [List.getElem?_eq_none (Nat.le_of_not_lt hlt), List.getElem?_eq_none]
    rw [List.length_append, List.length_singleton]
    omega

theorem get_length (h : Heap β) : h.get h.length = none := by
  rw [get, List.getElem?_eq_none (Nat.le_refl _)]
  rfl

end Heap

end CLib
