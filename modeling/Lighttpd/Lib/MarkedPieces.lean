import Mathlib.Data.List.DropRight
import Mathlib.Data.List.SplitBy

/-!
# The pieces of a text with a mark

A text is cut at a separator. A scanner that goes on as long as a mark lies ahead sees the pieces up
to the last one with the mark (`markedPieces`); it takes them from the front
(`markedPieces_append`).
-/

namespace MarkedPieces

variable {α : Type} [DecidableEq α] {sep mark : α}

def markedPieces (sep mark : α) (s : List α) : List (List α) :=
  (s.splitOn sep).rdropWhile fun t => decide (mark ∉ t)

/-- What stands behind a piece. -/
def Tail (sep : α) (tail : List α) : Prop := tail = [] ∨ ∃ rest, tail = sep :: rest

theorem exists_tail (sep : α) (s : List α) : ∃ t tail, s = t ++ tail ∧ sep ∉ t ∧ Tail sep tail := by
  by_cases h : sep ∈ s
  · obtain ⟨t, rest, rfl, ht⟩ := List.eq_append_cons_of_mem h
    exact ⟨t, sep :: rest, rfl, ht, Or.inr ⟨rest, rfl⟩⟩
  · exact ⟨s, [], (List.append_nil s).symm, h, Or.inl rfl⟩

theorem exists_mem_splitOn (hne : mark ≠ sep) {s : List α} :
    (∃ t ∈ s.splitOn sep, mark ∈ t) ↔ mark ∈ s := by
  induction s with
  | nil => simp
  | cons x s ih =>
    obtain ⟨t, ts, hts⟩ := List.exists_cons_of_ne_nil (List.splitOn_ne_nil sep s)
    rw [hts, List.exists_mem_cons_iff] at ih
    rw [List.splitOn_cons_eq_if_modifyHead, hts, List.mem_cons, ← ih]
    split
    · next hx =>
      have hm : mark ≠ x := fun e => hne (e.trans (beq_iff_eq.mp hx))
      simp [hm]
    · simp [or_assoc]

theorem markedPieces_eq_nil (hne : mark ≠ sep) {s : List α} :
    markedPieces sep mark s = [] ↔ mark ∉ s := by
  rw [markedPieces, List.rdropWhile_eq_nil_iff, ← exists_mem_splitOn hne]
  simp

omit [DecidableEq α] in
theorem rdropWhile_cons (p : List α → Bool) (t : List α) (ts : List (List α)) :
    (t :: ts).rdropWhile p =
      if ts.rdropWhile p = [] then (if p t then [] else [t]) else t :: ts.rdropWhile p := by
  induction ts using List.reverseRecOn with
  | nil => simp [List.rdropWhile_singleton]
  | append_singleton ts u ih =>
    rw [← List.cons_append, List.rdropWhile_concat, List.rdropWhile_concat, ih]
    by_cases hu : p u <;> simp [hu]

theorem markedPieces_append (hne : mark ≠ sep) {t tail : List α} (ht : sep ∉ t)
    (htail : Tail sep tail) (hm : mark ∈ t ++ tail) :
    markedPieces sep mark (t ++ tail) = t :: markedPieces sep mark (tail.drop 1) := by
  rcases htail with rfl | ⟨rest, rfl⟩
  · rw [List.append_nil] at hm ⊢
    have hnil : markedPieces sep mark [] = [] := (markedPieces_eq_nil hne).mpr (by simp)
    rw [List.drop_nil, hnil, markedPieces, List.splitOn_eq_singleton ht]
    simp [List.rdropWhile_singleton, hm]
  · rw [List.drop_one, List.tail_cons]
    by_cases hr : mark ∈ rest
    · have hsome : markedPieces sep mark rest ≠ [] := fun h => (markedPieces_eq_nil hne).mp h hr
      unfold markedPieces at hsome ⊢
      rw [List.splitOn_append_cons_self_of_not_mem ht, rdropWhile_cons, if_neg hsome]
    · have hmt : mark ∈ t := by simpa [hr, hne] using hm
      have hnone := (markedPieces_eq_nil hne).mpr hr
      unfold markedPieces at hnone ⊢
      rw [List.splitOn_append_cons_self_of_not_mem ht, rdropWhile_cons, if_pos hnone, hnone]
      simp [hmt]

end MarkedPieces
