import Lighttpd.Lib.Segments

/-!
# Where a path leads, segment by segment

A path is walked from a place, which is a list of segments: `push` says where each segment leads.
A walk stays `Below` a place if every segment leads to one that extends it. A path without `..` does
(`below_of_noUp`); for any other path it is decided by how far it climbs (`below_iff_climb`). The
segments behind the first of a part of a normal path are those of the path, so a path that is put
together from a place and such a part can only go up where the two meet.
-/

namespace Segments

variable {α : Type} [DecidableEq α] (sep dot : α)

/-- Every segment of the walk from `start` leads to `base` or below. -/
def Below (base start : List (List α)) (segs : List (List α)) : Prop :=
  ∀ p, p <+: segs → p ≠ [] → base <+: p.foldl (push dot) start

def climb : List (List α) → Nat
  | [] => 0
  | seg :: segs =>
    if seg = [] ∨ seg = [dot] then climb segs
    else if seg = [dot, dot] then climb segs + 1
    else climb segs - 1

/-- Where a path leads: an absolute one from the root, a relative one from `cwd`. -/
def startOf (cwd : List (List α)) (path : List α) : List (List α) :=
  if path.head? = some sep then [] else cwd

def resolvePath (cwd : List (List α)) (path : List α) : List (List α) :=
  (path.splitOn sep).foldl (push dot) (startOf sep cwd path)

variable {sep dot} {base start : List (List α)}

/-! ## Walks -/

theorem below_nil : Below dot base start [] := fun _ hp hne => absurd (List.prefix_nil.mp hp) hne

theorem below_cons {seg : List α} {segs : List (List α)} :
    Below dot base start (seg :: segs) ↔
      base <+: push dot start seg ∧ Below dot base (push dot start seg) segs := by
  constructor
  · intro h
    refine ⟨h [seg] ⟨segs, rfl⟩ (by simp), fun p hp hne => ?_⟩
    exact h (seg :: p) (List.cons_prefix_cons.mpr ⟨rfl, hp⟩) (by simp)
  · rintro ⟨hfirst, hrest⟩ p hp hne
    obtain ⟨x, q, rfl⟩ := List.exists_cons_of_ne_nil hne
    obtain ⟨rfl, hq⟩ := List.cons_prefix_cons.mp hp
    by_cases hnil : q = []
    · subst hnil
      exact hfirst
    · exact hrest q hq hnil

theorem below_append {p segs : List (List α)} :
    Below dot base start (p ++ segs) ↔
      Below dot base start p ∧ Below dot base (p.foldl (push dot) start) segs := by
  induction p generalizing start with
  | nil => exact ⟨fun h => ⟨below_nil, h⟩, fun h => h.2⟩
  | cons seg p ih =>
    rw [List.cons_append, below_cons, below_cons, ih, and_assoc]
    rfl

/-- Only `..` leads up. -/
theorem prefix_push {seg : List α} (h : base <+: start) (hup : seg ≠ [dot, dot]) :
    base <+: push dot start seg := by
  unfold push
  rw [if_neg hup]
  split
  · exact h
  · exact h.trans (List.prefix_append start [seg])

theorem below_of_noUp {segs : List (List α)} (h : base <+: start)
    (hup : ∀ seg ∈ segs, seg ≠ [dot, dot]) : Below dot base start segs := by
  induction segs generalizing start with
  | nil => exact below_nil
  | cons seg segs ih =>
    have hstep := prefix_push h (hup seg List.mem_cons_self)
    exact below_cons.mpr ⟨hstep, ih hstep fun x hx => hup x (List.mem_cons_of_mem _ hx)⟩

theorem below_root (segs : List (List α)) : Below dot [] start segs := fun _ _ _ => List.nil_prefix

/-- From the place itself `..` leads out, unless it is the root. -/
theorem prefix_push_up : base <+: push dot base [dot, dot] ↔ base = [] := by
  have hpush : push dot base [dot, dot] = base.dropLast := by simp [push]
  rw [hpush]
  constructor
  · intro h
    have hlen := h.length_le
    rw [List.length_dropLast] at hlen
    exact List.eq_nil_of_length_eq_zero (by omega)
  · rintro rfl
    exact List.prefix_rfl

theorem prefix_push_append {last first : List α} (hfirst : ¬ Special dot first) :
    push dot start last <+: push dot start (last ++ first) ↔ Special dot last := by
  have hne : first ≠ [] := fun h => hfirst (Or.inl h)
  have hpos := List.length_pos_iff.mpr hne
  constructor
  · intro h
    by_contra hlast
    have hjoined : ¬ Special dot (last ++ first) := by
      rintro (hnil | hdot | hup)
      · exact hne (List.append_eq_nil_iff.mp hnil).2
      · rcases List.append_eq_singleton_iff.mp hdot with ⟨hl, -⟩ | ⟨-, hf⟩
        · exact hlast (Or.inl hl)
        · exact hne hf
      · have hlen := congrArg List.length hup
        simp only [List.length_append, List.length_cons, List.length_nil] at hlen
        have hlastPos : last ≠ [] := fun h => hlast (Or.inl h)
        have hlastLen := List.length_pos_iff.mpr hlastPos
        obtain ⟨x, rfl⟩ := List.length_eq_one_iff.mp (show last.length = 1 by omega)
        rw [List.singleton_append] at hup
        exact hlast (Or.inr (Or.inl (by rw [(List.cons.inj hup).1])))
    rw [push_of_not_special hlast, push_of_not_special hjoined, List.prefix_append_right_inj,
      List.cons_prefix_cons] at h
    exact hne (List.self_eq_append_right.mp h.1)
  · rintro (rfl | rfl | rfl)
    · rw [push_empty]
      exact prefix_push List.prefix_rfl fun h => hfirst (Or.inr (Or.inr h))
    · have hstay : push dot start [dot] = start := if_pos (Or.inr rfl)
      rw [hstay]
      refine prefix_push List.prefix_rfl fun h => hfirst (Or.inr (Or.inl ?_))
      exact (List.cons.inj h).2
    · have hup : push dot start [dot, dot] = start.dropLast := by simp [push]
      rw [hup]
      refine prefix_push (List.dropLast_prefix start) fun h => hne ?_
      exact (List.cons.inj (List.cons.inj h).2).2

/-- **A walk stays below a place** if that is the root, or the walk starts deeper than it climbs. -/
theorem below_iff_climb {segs ks : List (List α)} :
    Below dot base (base ++ ks) segs ↔ base = [] ∨ climb dot segs ≤ ks.length := by
  by_cases hbase : base = []
  · subst hbase
    exact ⟨fun _ => Or.inl rfl, fun _ => below_root segs⟩
  rw [or_iff_right hbase]
  induction segs generalizing ks with
  | nil => exact ⟨fun _ => Nat.zero_le _, fun _ => below_nil⟩
  | cons seg segs ih =>
    rw [below_cons]
    unfold climb
    by_cases hstay : seg = [] ∨ seg = [dot]
    · have hpush : push dot (base ++ ks) seg = base ++ ks := if_pos hstay
      rw [hpush, ih, if_pos hstay]
      exact and_iff_right (List.prefix_append base ks)
    by_cases hup : seg = [dot, dot]
    · have hpush : push dot (base ++ ks) seg = (base ++ ks).dropLast := by
        rw [push, if_neg hstay, if_pos hup]
      rw [hpush, if_neg hstay, if_pos hup]
      rcases List.eq_nil_or_concat' ks with rfl | ⟨ks, k, rfl⟩
      · have hout : ¬ base <+: base.dropLast := by
          intro h
          have hlen := h.length_le
          rw [List.length_dropLast] at hlen
          exact hbase (List.eq_nil_of_length_eq_zero (by omega))
        rw [List.append_nil]
        exact ⟨fun h => absurd h.1 hout, fun h => by simp at h⟩
      · rw [← List.append_assoc, List.dropLast_concat, ih, List.length_append,
          List.length_singleton]
        exact ⟨fun h => by omega, fun h => ⟨List.prefix_append base ks, by omega⟩⟩
    · have hpush : push dot (base ++ ks) seg = base ++ (ks ++ [seg]) := by
        rw [push, if_neg hstay, if_neg hup, List.append_assoc]
      rw [hpush, ih, if_neg hstay, if_neg hup, List.length_append, List.length_singleton]
      exact ⟨fun h => by omega, fun h => ⟨List.prefix_append base _, by omega⟩⟩

theorem climb_concat_nil (segs : List (List α)) : climb dot (segs ++ [[]]) = climb dot segs := by
  induction segs with
  | nil => rfl
  | cons seg segs ih =>
    rw [List.cons_append, climb, climb, ih]

/-! ## Paths put together -/

theorem splitOn_cases (sep : α) (s : List α) : (sep ∉ s ∧ s.splitOn sep = [s]) ∨
    ∃ first t, s = first ++ sep :: t ∧ sep ∉ first ∧ s.splitOn sep = first :: t.splitOn sep := by
  by_cases hmem : sep ∈ s
  · obtain ⟨first, t, rfl, hfirst⟩ := List.eq_append_cons_of_mem hmem
    exact Or.inr ⟨first, t, rfl, hfirst, List.splitOn_append_cons_self_of_not_mem hfirst t⟩
  · exact Or.inl ⟨hmem, List.splitOn_eq_singleton hmem⟩

theorem splitOn_sep_cons (s : List α) : (sep :: s).splitOn sep = [] :: s.splitOn sep := by
  have hcons := List.splitOn_append_cons_self (a := sep) [] s
  rwa [List.splitOn_nil] at hcons

theorem mem_of_mem_splitOn {s seg : List α} {x : α} (hseg : seg ∈ s.splitOn sep) (hx : x ∈ seg) :
    x ∈ s := by
  induction s generalizing seg with
  | nil => simp_all
  | cons y s ih =>
    rw [List.splitOn_cons_eq_if_modifyHead] at hseg
    split at hseg
    · rcases List.mem_cons.mp hseg with rfl | hseg
      · cases hx
      · exact List.mem_cons_of_mem _ (ih hseg hx)
    · obtain ⟨r, rs, hr⟩ := List.exists_cons_of_ne_nil (List.splitOn_ne_nil sep s)
      rw [hr, List.modifyHead_cons] at hseg
      rcases List.mem_cons.mp hseg with rfl | hseg
      · rcases List.mem_cons.mp hx with rfl | hx
        · exact List.mem_cons_self
        · exact List.mem_cons_of_mem _ (ih (by rw [hr]; exact List.mem_cons_self) hx)
      · exact List.mem_cons_of_mem _ (ih (by rw [hr]; exact List.mem_cons_of_mem _ hseg) hx)

theorem splitOn_append {a b : List α} {init rest : List (List α)} {last first : List α}
    (ha : a.splitOn sep = init ++ [last]) (hb : b.splitOn sep = first :: rest) :
    (a ++ b).splitOn sep = init ++ (last ++ first) :: rest := by
  induction init generalizing a with
  | nil =>
    rcases splitOn_cases sep a with ⟨hsep, hsplit⟩ | ⟨seg, t, -, -, hsplit⟩
    · obtain rfl : a = last := List.singleton_inj.mp (hsplit.symm.trans ha)
      rcases splitOn_cases sep b with ⟨hsep', hsplit'⟩ | ⟨seg, t, rfl, hseg, hsplit'⟩
      · obtain ⟨rfl, rfl⟩ := List.cons.inj (hsplit'.symm.trans hb)
        exact List.splitOn_eq_singleton (by simp [hsep, hsep'])
      · obtain ⟨rfl, rfl⟩ := List.cons.inj (hsplit'.symm.trans hb)
        have hjoined : sep ∉ a ++ seg := by simp [hsep, hseg]
        rw [← List.append_assoc, List.splitOn_append_cons_self_of_not_mem hjoined]
        rfl
    · obtain ⟨-, hnil⟩ := List.cons.inj (hsplit.symm.trans ha)
      exact absurd hnil (List.splitOn_ne_nil sep t)
  | cons seg init ih =>
    rcases splitOn_cases sep a with ⟨hsep, hsplit⟩ | ⟨seg', t, rfl, hseg, hsplit⟩
    · obtain ⟨-, hnil⟩ := List.cons.inj (hsplit.symm.trans ha)
      simp at hnil
    · obtain ⟨rfl, ht⟩ := List.cons.inj (hsplit.symm.trans ha)
      rw [List.append_assoc, List.cons_append, List.splitOn_append_cons_self_of_not_mem hseg, ih ht]
      rfl

/-- The segments of a part of a normal path, but for the first one, are not `..`. -/
theorem IsNormal.noUp {p r first : List α} {rest : List (List α)} (h : IsNormal sep dot (p ++ r))
    (hr : r.splitOn sep = first :: rest) : ∀ seg ∈ rest, seg ≠ [dot, dot] := by
  obtain ⟨kept, special, hkept, -, heq⟩ := h
  have hsplit := splitOn_close special fun k hk => (hkept k hk).1
  have hp := (List.dropLast_append_getLast (List.splitOn_ne_nil sep p)).symm
  rw [← heq, splitOn_append hp hr] at hsplit
  intro seg hseg hup
  have hmem : seg ∈ [] :: kept ++ if special then [[]] else [] := by
    rw [← hsplit]
    exact List.mem_append_right _ (List.mem_cons_of_mem _ hseg)
  subst hup
  have hkeptUp : [dot, dot] ∉ kept := fun hk => (hkept _ hk).2 (Or.inr (Or.inr rfl))
  cases special with
  | false => simp [hkeptUp] at hmem
  | true => simp [hkeptUp] at hmem

theorem IsNormal.first {p r first : List α} {rest : List (List α)}
    (h : IsNormal sep dot (p ++ sep :: r)) (hr : r.splitOn sep = first :: rest) :
    (first = [] ∧ r = []) ∨ ¬ Special dot first := by
  obtain ⟨kept, special, hkept, -, heq⟩ := h
  have hsplit := splitOn_close special fun k hk => (hkept k hk).1
  obtain ⟨x, xs, hp⟩ := List.exists_cons_of_ne_nil (List.splitOn_ne_nil sep p)
  rw [← heq, List.splitOn_append_cons_self, hp, hr, List.cons_append, List.cons_append] at hsplit
  obtain ⟨-, htail⟩ := List.cons.inj hsplit
  cases special with
  | false =>
    have hmem : first ∈ kept := by
      rw [if_neg Bool.false_ne_true, List.append_nil] at htail
      rw [← htail]
      exact List.mem_append_right _ List.mem_cons_self
    exact Or.inr (hkept first hmem).2
  | true =>
    rw [if_pos rfl] at htail
    by_cases hrest : rest = []
    · subst hrest
      obtain ⟨-, hlast⟩ := List.append_inj' htail rfl
      obtain rfl : first = [] := List.singleton_inj.mp hlast
      rcases splitOn_cases sep r with ⟨-, hsplit'⟩ | ⟨seg, t, -, -, hsplit'⟩
      · exact Or.inl ⟨rfl, List.singleton_inj.mp (hsplit'.symm.trans hr)⟩
      · obtain ⟨-, hnil⟩ := List.cons.inj (hsplit'.symm.trans hr)
        exact absurd hnil (List.splitOn_ne_nil sep t)
    · have hdrop := congrArg List.dropLast htail
      rw [List.dropLast_concat, List.dropLast_append_of_ne_nil (by simp),
        List.dropLast_cons_of_ne_nil hrest] at hdrop
      have hmem : first ∈ kept := by
        rw [← hdrop]
        exact List.mem_append_right _ List.mem_cons_self
      exact Or.inr (hkept first hmem).2

/-! ## Other characters -/

omit [DecidableEq α] in
theorem IsNormal.map {s : List α} {f : α → α} (h : IsNormal sep dot s)
    (hsep : ∀ x, f x = sep ↔ x = sep) (hdot : ∀ x, f x = dot ↔ x = dot) :
    IsNormal sep dot (s.map f) := by
  obtain ⟨kept, special, hkept, hnil, rfl⟩ := h
  have hfsep : f sep = sep := (hsep sep).mpr rfl
  refine ⟨kept.map (List.map f), special, ?_, ?_, ?_⟩
  · intro k hk
    obtain ⟨k', hk', rfl⟩ := List.mem_map.mp hk
    obtain ⟨hsepk, hordinary⟩ := hkept k' hk'
    refine ⟨?_, ?_⟩
    · intro hmem
      obtain ⟨x, hx, hfx⟩ := List.mem_map.mp hmem
      exact hsepk ((hsep x).mp hfx ▸ hx)
    · rintro (hk0 | hk1 | hk2)
      · exact hordinary (Or.inl (List.map_eq_nil_iff.mp hk0))
      · obtain ⟨x, rfl, hx⟩ := List.map_eq_singleton_iff.mp hk1
        exact hordinary (Or.inr (Or.inl (by rw [(hdot x).mp hx])))
      · obtain ⟨x, l, rfl, hx, hl⟩ := List.map_eq_cons_iff.mp hk2
        obtain ⟨y, rfl, hy⟩ := List.map_eq_singleton_iff.mp hl
        exact hordinary (Or.inr (Or.inr (by rw [(hdot x).mp hx, (hdot y).mp hy])))
  · intro hmap
    exact hnil (List.map_eq_nil_iff.mp hmap)
  · have hrender : (render sep kept).map f = render sep (kept.map (List.map f)) := by
      simp [render, List.map_flatMap, List.flatMap_map, hfsep]
    unfold close
    rw [List.map_append, hrender]
    cases special with
    | false => rfl
    | true => simp [hfsep]

end Segments
