import Mathlib.Data.List.SplitBy
import Mathlib.Data.List.Basic
import Mathlib.Data.List.Infix

/-!
# Paths as lists of segments

The normal form of a path over any alphabet with a separator and a dot: split at the separator, drop
empty and `.` segments, let `..` take back the segment kept last, and join the rest
(`normalForm`). `IsNormal` describes its values: a path of ordinary segments, perhaps with a
separator at its end. No bad piece occurs in such a path, and normalising it again changes nothing.
`scan` computes the normal form in one pass over the characters, with the segments kept so far and
the segment being read as its state.
-/

namespace Segments

variable {α : Type} (sep dot : α)

/-- The segments that do not name anything of their own: empty, `.` and `..`. -/
def Special (seg : List α) : Prop := seg = [] ∨ seg = [dot] ∨ seg = [dot, dot]

def render (kept : List (List α)) : List α := kept.flatMap (sep :: ·)

/-- The text of a path whose last segment was special, or was not. -/
def close (kept : List (List α)) (special : Bool) : List α :=
  render sep kept ++ if special then [sep] else []

/-- The paths in normal form. -/
def IsNormal (s : List α) : Prop :=
  ∃ (kept : List (List α)) (special : Bool), (∀ k ∈ kept, sep ∉ k ∧ ¬ Special dot k) ∧
    (kept = [] → special = true) ∧ s = close sep kept special

variable {sep dot}

@[simp] theorem render_nil : render sep ([] : List (List α)) = [] := rfl

@[simp] theorem render_append (k l : List (List α)) :
    render sep (k ++ l) = render sep k ++ render sep l := by simp [render]

@[simp] theorem render_singleton (k : List α) : render sep [k] = sep :: k := by simp [render]

theorem cons_intercalate {kept : List (List α)} (h : kept ≠ []) :
    sep :: [sep].intercalate kept = render sep kept := by
  induction kept with
  | nil => exact absurd rfl h
  | cons k ks ih =>
    cases ks with
    | nil => simp
    | cons l ls =>
      have := ih (by simp)
      rw [List.intercalate_cons_cons]
      simp only [render, List.flatMap_cons, List.cons_append] at this ⊢
      simp [this]

theorem IsNormal.head {s : List α} (h : IsNormal sep dot s) : s.head? = some sep := by
  obtain ⟨kept, special, -, h0, rfl⟩ := h
  cases kept with
  | nil => simp [close, h0 rfl]
  | cons k ks => simp [close, render]

/-! ## The normal form -/

variable [DecidableEq α]

instance (seg : List α) : Decidable (Special dot seg) := inferInstanceAs (Decidable (_ ∨ _))

variable (sep dot)

def push (kept : List (List α)) (seg : List α) : List (List α) :=
  if seg = [] ∨ seg = [dot] then kept
  else if seg = [dot, dot] then kept.dropLast
  else kept ++ [seg]

def keep (segs : List (List α)) : List (List α) := segs.foldl (push dot) []

/-- The normal form: the kept segments joined behind a leading separator, with a separator at the
end when the last segment was a special one. -/
def normalForm (s : List α) : List α :=
  let segs := s.splitOn sep
  let kept := keep dot segs
  sep :: ([sep].intercalate kept ++
    if Special dot (segs.getLastD []) ∧ kept ≠ [] then [sep] else [])

/-- One pass over the characters: `kept` so far, and `cur` being read. -/
def scan (kept : List (List α)) (cur : List α) : List α → List α
  | [] => close sep (push dot kept cur) (decide (Special dot cur))
  | c :: rest =>
    if c = sep then scan (push dot kept cur) [] rest else scan kept (cur ++ [c]) rest

variable {sep dot}

@[simp] theorem push_empty (kept : List (List α)) : push dot kept [] = kept := by simp [push]

theorem push_of_not_special {kept : List (List α)} {seg : List α} (h : ¬ Special dot seg) :
    push dot kept seg = kept ++ [seg] := by
  unfold Special at h
  simp only [not_or] at h
  simp [push, h]

theorem mem_push {kept : List (List α)} {seg k : List α} (h : k ∈ push dot kept seg) :
    k ∈ kept ∨ k = seg := by
  unfold push at h
  split at h
  · exact Or.inl h
  · split at h
    · exact Or.inl (List.dropLast_subset _ h)
    · rcases List.mem_append.mp h with h | h
      · exact Or.inl h
      · exact Or.inr (List.mem_singleton.mp h)

theorem foldl_push_ordinary {segs : List (List α)} (h : ∀ k ∈ segs, ¬ Special dot k)
    (kept : List (List α)) : segs.foldl (push dot) kept = kept ++ segs := by
  induction segs generalizing kept with
  | nil => simp
  | cons k ks ih =>
    have hk := h k (by simp)
    rw [List.foldl_cons, push_of_not_special hk, ih (fun l hl => h l (by simp [hl]))]
    simp

theorem foldl_push_ok {segs : List (List α)} (hs : ∀ k ∈ segs, sep ∉ k) :
    ∀ {kept : List (List α)}, (∀ k ∈ kept, sep ∉ k ∧ ¬ Special dot k) →
      ∀ k ∈ segs.foldl (push dot) kept, sep ∉ k ∧ ¬ Special dot k := by
  induction segs with
  | nil => exact fun h => h
  | cons seg segs ih =>
    intro kept hk
    refine ih (fun l hl => hs l (by simp [hl])) ?_
    intro k hmem
    unfold push at hmem
    split at hmem
    · exact hk k hmem
    · next h1 =>
      split at hmem
      · exact hk k (List.dropLast_subset _ hmem)
      · next h2 =>
        rcases List.mem_append.mp hmem with h | h
        · exact hk k h
        · rw [List.mem_singleton] at h
          subst h
          exact ⟨hs k (by simp), by unfold Special; tauto⟩

theorem not_mem_of_mem_splitOn {s : List α} : ∀ k ∈ s.splitOn sep, sep ∉ k := by
  induction s with
  | nil => simp
  | cons x xs ih =>
    intro k hk
    rw [List.splitOn_cons_eq_if_modifyHead] at hk
    split at hk
    · rcases List.mem_cons.mp hk with rfl | hk
      · simp
      · exact ih k hk
    · next hx =>
      obtain ⟨r, rs, hr⟩ := List.exists_cons_of_ne_nil (List.splitOn_ne_nil sep xs)
      rw [hr, List.modifyHead_cons] at hk
      rcases List.mem_cons.mp hk with rfl | hk
      · have hr' := ih r (by simp [hr])
        simp only [List.mem_cons, not_or]
        exact ⟨fun e => hx (by simp [e]), hr'⟩
      · exact ih k (by rw [hr]; exact List.mem_cons_of_mem _ hk)

theorem special_of_keep_nil {segs : List (List α)} (hne : segs ≠ [])
    (h : keep dot segs = []) : Special dot (segs.getLastD []) := by
  obtain ⟨init, last, rfl⟩ : ∃ init last, segs = init ++ [last] :=
    ⟨segs.dropLast, segs.getLast hne, (List.dropLast_append_getLast hne).symm⟩
  by_contra hsp
  simp only [List.getLastD_concat] at hsp
  rw [keep, List.foldl_append, List.foldl_cons, List.foldl_nil, push_of_not_special hsp] at h
  simp at h

theorem normalForm_eq_close (s : List α) :
    normalForm sep dot s = close sep (keep dot (s.splitOn sep))
      (decide (Special dot ((s.splitOn sep).getLastD []))) := by
  unfold normalForm close
  by_cases hk : keep dot (s.splitOn sep) = []
  · have hsp := special_of_keep_nil (List.splitOn_ne_nil sep s) hk
    simp only [hk, hsp, List.intercalate_nil, render_nil]
    simp
  · rw [← cons_intercalate hk]
    by_cases hsp : Special dot ((s.splitOn sep).getLastD []) <;> simp [hk]

theorem isNormal_normalForm (s : List α) : IsNormal sep dot (normalForm sep dot s) := by
  refine ⟨_, _, ?_, ?_, normalForm_eq_close s⟩
  · exact foldl_push_ok not_mem_of_mem_splitOn (by simp)
  · intro h
    simpa using special_of_keep_nil (List.splitOn_ne_nil sep s) h

/-! ## The one-pass scan -/

/-- **The scan computes the normal form.** -/
theorem scan_eq (rest : List α) : ∀ (kept : List (List α)) (cur : List α), sep ∉ cur →
    scan sep dot kept cur rest = close sep (((cur ++ rest).splitOn sep).foldl (push dot) kept)
      (decide (Special dot (((cur ++ rest).splitOn sep).getLastD []))) := by
  induction rest with
  | nil =>
    intro kept cur hcur
    rw [List.append_nil, List.splitOn_eq_singleton hcur]
    simp [scan]
  | cons c rest ih =>
    intro kept cur hcur
    unfold scan
    split
    · next hc =>
      subst hc
      rw [ih _ [] (by simp), List.splitOn_append_cons_self_of_not_mem hcur, List.nil_append,
        List.foldl_cons]
      obtain ⟨r, rs, hr⟩ := List.exists_cons_of_ne_nil (List.splitOn_ne_nil c rest)
      simp [hr]
    · next hc =>
      have hcur' : sep ∉ cur ++ [c] := by simp [hcur, Ne.symm hc]
      rw [ih kept _ hcur', List.append_assoc, List.singleton_append]

theorem scan_eq_normalForm (s : List α) : scan sep dot [] [] s = normalForm sep dot s := by
  rw [scan_eq s [] [] (by simp), normalForm_eq_close, keep, List.nil_append]

theorem mem_scan {x : α} : ∀ (rest : List α) {kept : List (List α)} {cur : List α},
    x ∈ scan sep dot kept cur rest → x = sep ∨ (∃ k ∈ kept, x ∈ k) ∨ x ∈ cur ∨ x ∈ rest := by
  have push_sub : ∀ {kept : List (List α)} {cur : List α}, (∃ k ∈ push dot kept cur, x ∈ k) →
      (∃ k ∈ kept, x ∈ k) ∨ x ∈ cur := by
    rintro kept cur ⟨k, hk, hx⟩
    rcases mem_push hk with hk | rfl
    · exact Or.inl ⟨k, hk, hx⟩
    · exact Or.inr hx
  intro rest
  induction rest with
  | nil =>
    intro kept cur h
    unfold scan close at h
    rcases List.mem_append.mp h with h | h
    · obtain ⟨k, hk, hx⟩ := List.mem_flatMap.mp h
      rcases List.mem_cons.mp hx with hx | hx
      · exact Or.inl hx
      · rcases push_sub ⟨k, hk, hx⟩ with h | h
        · exact Or.inr (Or.inl h)
        · exact Or.inr (Or.inr (Or.inl h))
    · split at h
      · exact Or.inl (List.mem_singleton.mp h)
      · cases h
  | cons c rest ih =>
    intro kept cur h
    unfold scan at h
    split at h
    · rcases ih h with h | h | h | h
      · exact Or.inl h
      · rcases push_sub h with h | h
        · exact Or.inr (Or.inl h)
        · exact Or.inr (Or.inr (Or.inl h))
      · cases h
      · exact Or.inr (Or.inr (Or.inr (List.mem_cons_of_mem _ h)))
    · rcases ih h with h | h | h | h
      · exact Or.inl h
      · exact Or.inr (Or.inl h)
      · rcases List.mem_append.mp h with h | h
        · exact Or.inr (Or.inr (Or.inl h))
        · exact Or.inr (Or.inr (Or.inr (by simp_all)))
      · exact Or.inr (Or.inr (Or.inr (List.mem_cons_of_mem _ h)))

theorem mem_normalForm {s : List α} {x : α} (h : x ∈ normalForm sep dot s) : x = sep ∨ x ∈ s := by
  rw [← scan_eq_normalForm] at h
  have := mem_scan s h
  simp only [List.not_mem_nil, false_and, exists_false, false_or] at this
  exact this

/-! ## Paths in normal form -/

theorem splitOn_render {kept : List (List α)} (h : ∀ k ∈ kept, sep ∉ k) :
    (render sep kept).splitOn sep = [] :: kept := by
  cases kept with
  | nil => simp
  | cons k ks =>
    rw [← cons_intercalate (by simp)]
    have := List.splitOn_append_cons_self (a := sep) [] ([sep].intercalate (k :: ks))
    rw [List.nil_append] at this
    rw [this, List.splitOn_intercalate sep h (by simp)]
    rfl

theorem splitOn_close {kept : List (List α)} (special : Bool) (h : ∀ k ∈ kept, sep ∉ k) :
    (close sep kept special).splitOn sep = [] :: kept ++ if special then [[]] else [] := by
  unfold close
  cases special with
  | false => simp [splitOn_render h]
  | true =>
    simp only [if_true]
    rw [List.splitOn_append_cons_self, splitOn_render h]
    simp

namespace IsNormal

variable {s : List α}

theorem no_special_infix (h : IsNormal sep dot s) (seg : List α) (hseg : Special dot seg)
    (hsep : sep ∉ seg) : ¬ (sep :: seg ++ [sep]) <:+: s := by
  obtain ⟨kept, special, hk, -, rfl⟩ := h
  rintro ⟨a, b, hab⟩
  have hsplit := splitOn_close special fun k hm => (hk k hm).1
  have hab' : close sep kept special = a ++ sep :: (seg ++ sep :: b) := by simp [← hab]
  rw [hab', List.splitOn_append_cons_self, List.splitOn_append_cons_self_of_not_mem hsep] at hsplit
  obtain ⟨a0, as, ha⟩ := List.exists_cons_of_ne_nil (List.splitOn_ne_nil sep a)
  obtain ⟨b0, bs, hb⟩ := List.exists_cons_of_ne_nil (List.splitOn_ne_nil sep b)
  rw [ha, hb, List.cons_append, List.cons_append, List.cons.injEq] at hsplit
  have hinner : seg ∈ (as ++ seg :: b0 :: bs).dropLast := by simp
  have hmem : seg ∈ kept := by
    rw [hsplit.2] at hinner
    cases special with
    | false => exact List.dropLast_subset _ (by simpa using hinner)
    | true => simpa using hinner
  exact (hk seg hmem).2 hseg

theorem no_special_suffix (h : IsNormal sep dot s) (seg : List α) (hseg : Special dot seg)
    (hne : seg ≠ []) (hsep : sep ∉ seg) : ¬ (sep :: seg) <:+ s := by
  obtain ⟨kept, special, hk, -, rfl⟩ := h
  rintro ⟨a, hab⟩
  have hsplit := splitOn_close special fun k hm => (hk k hm).1
  rw [← hab, List.splitOn_append_cons_self, List.splitOn_eq_singleton hsep] at hsplit
  obtain ⟨a0, as, ha⟩ := List.exists_cons_of_ne_nil (List.splitOn_ne_nil sep a)
  rw [ha, List.cons_append, List.cons_append, List.cons.injEq] at hsplit
  have hlast := congrArg List.getLast? hsplit.2
  cases special with
  | true =>
    simp only [if_true, List.getLast?_concat, Option.some.injEq] at hlast
    exact hne hlast
  | false =>
    have hmem : seg ∈ kept := by
      have hin : seg ∈ as ++ [seg] := by simp
      rw [hsplit.2] at hin
      simpa using hin
    exact (hk seg hmem).2 hseg

theorem normalForm_eq (h : IsNormal sep dot s) : normalForm sep dot s = s := by
  obtain ⟨kept, special, hk, h0, rfl⟩ := h
  have hsplit := splitOn_close special fun k hm => (hk k hm).1
  have hkeep : keep dot ([] :: kept) = kept := by
    rw [keep, List.foldl_cons, push_empty, foldl_push_ordinary fun k hm => (hk k hm).2]
    rfl
  rw [normalForm_eq_close, hsplit]
  cases special with
  | true =>
    have hall : keep dot ([] :: kept ++ [[]]) = kept := by
      rw [keep, List.foldl_append, ← keep, hkeep]
      simp
    have hlast : ([] :: kept ++ [[]]).getLastD [] = ([] : List α) := List.getLastD_concat
    rw [if_pos rfl, hall, hlast]
    simp [Special]
  | false =>
    rw [if_neg Bool.false_ne_true, List.append_nil, hkeep]
    obtain ⟨init, last, rfl⟩ := (List.eq_nil_or_concat' kept).resolve_left
      fun e => Bool.false_ne_true (h0 e)
    have hlast : ([] :: (init ++ [last])).getLastD [] = last := List.getLastD_concat (l := [] :: init)
    rw [hlast, decide_eq_false (hk last (by simp)).2]

end IsNormal

theorem normalForm_idem (s : List α) :
    normalForm sep dot (normalForm sep dot s) = normalForm sep dot s :=
  (isNormal_normalForm s).normalForm_eq

end Segments
