import Mathlib.Data.List.Infix
import Mathlib.Data.List.Flatten

/-!
# Searching a text that comes in pieces

A pattern is looked for in a list of pieces without joining them: each occurrence of its first
element starts a comparison that goes on into the following pieces. The search finds what a search
of the joined text finds (`search_spec`), wherever the text is split.
-/

namespace CLib

variable {α : Type}

/-- `head` is the shortest beginning of the text that ends with the pattern. -/
structure FirstEnd (pat text head rest : List α) : Prop where
  split : text = head ++ rest
  ends : pat <:+ head
  first : ∀ head', head' <+: text → pat <:+ head' → head.length ≤ head'.length

theorem FirstEnd.isInfix {pat text head rest : List α} (h : FirstEnd pat text head rest) :
    pat <:+: text :=
  h.split ▸ h.ends.isInfix.trans (List.prefix_append head rest).isInfix

theorem FirstEnd.unique {pat text head rest head' rest' : List α} (h : FirstEnd pat text head rest)
    (h' : FirstEnd pat text head' rest') : head = head' ∧ rest = rest' := by
  have hle := h.first head' (h'.split ▸ List.prefix_append _ _) h'.ends
  have hge := h'.first head (h.split ▸ List.prefix_append _ _) h.ends
  exact List.append_inj (h.split.symm.trans h'.split) (Nat.le_antisymm hle hge)

theorem firstEnd_of_notMem {pat front : List α} {x : α} (hx : x ∉ front) (rest : List α) :
    FirstEnd (x :: pat) (front ++ (x :: pat) ++ rest) (front ++ x :: pat) rest := by
  refine ⟨rfl, List.suffix_append _ _, ?_⟩
  rintro head' ⟨t, ht⟩ ⟨a, rfl⟩
  by_contra hlt
  simp only [List.length_append, List.length_cons] at hlt
  have hlen : a.length < front.length := by omega
  have hget := congrArg (·[a.length]?) ht
  simp only [List.append_assoc, List.getElem?_append_left hlen, List.getElem?_append_right
    (Nat.le_refl a.length), Nat.sub_self, List.cons_append, List.getElem?_cons_zero] at hget
  exact hx (List.mem_of_getElem? hget.symm)

/-- The position `p` of the joined text is `off` elements into piece `k`. -/
def Place (ws : List (List α)) (k off p : Nat) : Prop :=
  ∃ w, ws[k]? = some w ∧ off ≤ w.length ∧ p = (ws.take k).flatten.length + off

theorem Place.split {ws : List (List α)} {k off p : Nat} (h : Place ws k off p) :
    ∃ w, ws[k]? = some w ∧ off ≤ w.length ∧
      ws.flatten.take p = (ws.take k).flatten ++ w.take off ∧
      ws.flatten.drop p = w.drop off ++ (ws.drop (k + 1)).flatten := by
  obtain ⟨w, hw, hoff, rfl⟩ := h
  have hlt := (List.getElem?_eq_some_iff.mp hw).1
  have hflat : ws.flatten = (ws.take k).flatten ++ (w ++ (ws.drop (k + 1)).flatten) := by
    rw [← List.flatten_cons, ← List.flatten_append]
    congr 1
    conv_lhs => rw [← List.take_append_drop k ws, List.drop_eq_getElem_cons hlt]
    rw [(List.getElem?_eq_some_iff.mp hw).2]
  refine ⟨w, hw, hoff, ?_, ?_⟩
  · rw [hflat, List.take_length_add_append, List.take_append_of_le_length hoff]
  · rw [hflat, List.drop_length_add_append, List.drop_append_of_le_length hoff]

namespace Pieces

variable [DecidableEq α]

/-- How a comparison ends in one piece; `more` is for the end of the piece. -/
inductive Progress where
  | mismatch
  | found (off : Nat)
  | more (pos : Nat)
  deriving DecidableEq

/-- The comparison in one piece, from offset `j` on; `pos` elements of the pattern have matched. -/
def matchIn (pat : List α) : Nat → Nat → List α → Progress
  | pos, _, [] => .more pos
  | pos, j, x :: w =>
    if pat[pos]? = some x then
      if pos + 1 = pat.length then .found (j + 1) else matchIn pat (pos + 1) (j + 1) w
    else .mismatch

/-- The comparison over the pieces: `w` is what is left of piece `k`, `ws` are those behind it. The
result is the piece with the end of the pattern, and the offset of this end. -/
def matchFrom (pat : List α) (pos k j : Nat) (w : List α) : List (List α) → Option (Nat × Nat)
  | [] =>
    match matchIn pat pos j w with
    | .found off => some (k, off)
    | _ => none
  | w' :: ws =>
    match matchIn pat pos j w with
    | .found off => some (k, off)
    | .more pos => matchFrom pat pos (k + 1) 0 w' ws
    | .mismatch => none

/-- The search in piece `k` from offset `i` on. -/
def scanIn (pat : List α) (k : Nat) : Nat → List α → List (List α) → Option (Nat × Nat)
  | _, [], _ => none
  | i, x :: w, ws =>
    if pat[0]? = some x then
      match matchFrom pat 1 k (i + 1) w ws with
      | some r => some r
      | none => scanIn pat k (i + 1) w ws
    else scanIn pat k (i + 1) w ws

/-- The search in the pieces from number `k` on. -/
def search (pat : List α) (k : Nat) : List (List α) → Option (Nat × Nat)
  | [] => none
  | w :: ws =>
    match scanIn pat k 0 w ws with
    | some r => some r
    | none => search pat (k + 1) ws

/-! ## Correctness -/

/-- What a comparison in one piece says about the pattern. -/
def Progress.Meaning (pat : List α) (pos j : Nat) (w : List α) : Progress → Prop
  | .mismatch => ∀ t, ¬ pat.drop pos <+: w ++ t
  | .found off => pat.drop pos <+: w ∧ off = j + (pat.length - pos)
  | .more pos' => pos' = pos + w.length ∧ pos' < pat.length ∧
      ∀ t, pat.drop pos <+: w ++ t ↔ pat.drop pos' <+: t

theorem matchIn_meaning (pat : List α) : ∀ (w : List α) {pos : Nat} (j : Nat), pos < pat.length →
    (matchIn pat pos j w).Meaning pat pos j w
  | [], pos, j, hpos => ⟨rfl, hpos, fun t => Iff.rfl⟩
  | x :: w, pos, j, hpos => by
    have hdrop : pat.drop pos = pat[pos] :: pat.drop (pos + 1) := List.drop_eq_getElem_cons hpos
    unfold matchIn
    rw [List.getElem?_eq_getElem hpos]
    split
    · next hx =>
      obtain rfl := Option.some.inj hx
      split
      · next hend =>
        refine ⟨?_, by omega⟩
        rw [hdrop, List.drop_eq_nil_of_le (by omega)]
        exact ⟨w, rfl⟩
      · next hend =>
        have ih := matchIn_meaning pat w (j + 1) (show pos + 1 < pat.length by omega)
        cases hm : matchIn pat (pos + 1) (j + 1) w with
        | mismatch =>
          rw [hm] at ih
          intro t ht
          rw [hdrop, List.cons_append, List.cons_prefix_cons] at ht
          exact ih t ht.2
        | found off =>
          rw [hm] at ih
          obtain ⟨hpre, hoff⟩ := ih
          refine ⟨?_, by omega⟩
          rw [hdrop, List.cons_prefix_cons]
          exact ⟨rfl, hpre⟩
        | more pos' =>
          rw [hm] at ih
          obtain ⟨hpos', hlt, hiff⟩ := ih
          refine ⟨by rw [List.length_cons]; omega, hlt, fun t => ?_⟩
          rw [hdrop, List.cons_append, List.cons_prefix_cons, hiff]
          simp
    · next hx =>
      intro t ht
      rw [hdrop, List.cons_append, List.cons_prefix_cons] at ht
      exact hx (by rw [ht.1])

omit [DecidableEq α] in
theorem place_cons {w : List α} {ws : List (List α)} {k off p : Nat} (h : Place ws k off p) :
    Place (w :: ws) (k + 1) off (w.length + p) := by
  obtain ⟨w', hw', hoff, rfl⟩ := h
  refine ⟨w', hw', hoff, ?_⟩
  rw [List.take_succ_cons, List.flatten_cons, List.length_append, Nat.add_assoc]

omit [DecidableEq α] in
theorem place_zero {w : List α} (ws : List (List α)) {off : Nat} (h : off ≤ w.length) :
    Place (w :: ws) 0 off off :=
  ⟨w, rfl, h, by simp⟩

theorem matchFrom_spec (pat : List α) : ∀ (ws : List (List α)) {pos : Nat} (k : Nat) (front w : List α),
    pos < pat.length →
    if pat.drop pos <+: w ++ ws.flatten then
      ∃ d off, matchFrom pat pos k front.length w ws = some (k + d, off) ∧
        Place ((front ++ w) :: ws) d off (front.length + (pat.length - pos))
    else matchFrom pat pos k front.length w ws = none
  | [], pos, k, front, w, hpos => by
    have hm := matchIn_meaning pat w front.length hpos
    unfold matchFrom
    cases he : matchIn pat pos front.length w with
    | mismatch =>
      rw [he] at hm
      rw [if_neg (hm _)]
    | found off =>
      rw [he] at hm
      obtain ⟨hpre, rfl⟩ := hm
      have hlen := hpre.length_le
      rw [List.length_drop] at hlen
      rw [if_pos (hpre.trans (List.prefix_append _ _))]
      exact ⟨0, _, rfl, place_zero _ (by rw [List.length_append]; omega)⟩
    | more pos' =>
      rw [he] at hm
      obtain ⟨-, hlt, hiff⟩ := hm
      rw [if_neg]
      rw [hiff, List.flatten_nil, List.prefix_nil, List.drop_eq_nil_iff]
      omega
  | w' :: ws, pos, k, front, w, hpos => by
    have hm := matchIn_meaning pat w front.length hpos
    unfold matchFrom
    cases he : matchIn pat pos front.length w with
    | mismatch =>
      rw [he] at hm
      rw [if_neg (hm _)]
    | found off =>
      rw [he] at hm
      obtain ⟨hpre, rfl⟩ := hm
      have hlen := hpre.length_le
      rw [List.length_drop] at hlen
      rw [if_pos (hpre.trans (List.prefix_append _ _))]
      exact ⟨0, _, rfl, place_zero _ (by rw [List.length_append]; omega)⟩
    | more pos' =>
      rw [he] at hm
      obtain ⟨hpos', hlt, hiff⟩ := hm
      have ih := matchFrom_spec pat ws (k + 1) [] w' hlt
      simp only [hiff, List.flatten_cons]
      split
      · next hpre =>
        rw [if_pos hpre] at ih
        obtain ⟨d, off, hmatch, hplace⟩ := ih
        refine ⟨d + 1, off, by rw [show k + (d + 1) = k + 1 + d by omega]; exact hmatch, ?_⟩
        have hp := place_cons (w := front ++ w) hplace
        rw [List.length_append, List.length_nil, Nat.zero_add, List.nil_append] at hp
        rwa [show front.length + (pat.length - pos) =
          front.length + w.length + (pat.length - pos') by omega]
      · next hpre =>
        rw [if_neg hpre] at ih
        exact ih

/-- The first place where the pattern starts, from `p` on. -/
def FirstStart (pat text : List α) (p s : Nat) : Prop :=
  p ≤ s ∧ pat <+: text.drop s ∧ ∀ s', p ≤ s' → s' < s → ¬ pat <+: text.drop s'

theorem scanIn_spec {pat : List α} (hpat : 1 < pat.length) (k : Nat) (ws : List (List α)) :
    ∀ (w : List α) (front : List α),
    (∃ d off s, scanIn pat k front.length w ws = some (k + d, off) ∧
      Place ((front ++ w) :: ws) d off (s + pat.length) ∧
      FirstStart pat ((front ++ w) ++ ws.flatten) front.length s) ∨
    scanIn pat k front.length w ws = none ∧ ∀ s, front.length ≤ s → s < (front ++ w).length →
      ¬ pat <+: ((front ++ w) ++ ws.flatten).drop s
  | [], front => by
    refine Or.inr ⟨rfl, ?_⟩
    intro s hs hlt
    rw [List.append_nil] at hlt
    omega
  | x :: w, front => by
    have happ : front ++ x :: w = (front ++ [x]) ++ w := by simp
    have hlen : (front ++ [x]).length = front.length + 1 := by simp
    have ih := scanIn_spec hpat k ws w (front ++ [x])
    have hhere : ((front ++ x :: w) ++ ws.flatten).drop front.length = x :: (w ++ ws.flatten) := by
      simp
    have h0 : pat = pat[0] :: pat.drop 1 := by
      simpa using List.drop_eq_getElem_cons (i := 0) (l := pat) (by omega)
    -- what the scan behind `x` finds is found here, if nothing starts at `x`
    have later : ¬ pat <+: x :: (w ++ ws.flatten) →
        (∃ d off s, scanIn pat k (front.length + 1) w ws = some (k + d, off) ∧
          Place ((front ++ x :: w) :: ws) d off (s + pat.length) ∧
          FirstStart pat ((front ++ x :: w) ++ ws.flatten) front.length s) ∨
        scanIn pat k (front.length + 1) w ws = none ∧ ∀ s, front.length ≤ s →
          s < (front ++ x :: w).length → ¬ pat <+: ((front ++ x :: w) ++ ws.flatten).drop s := by
      intro hno
      rw [hlen, ← happ] at ih
      rcases ih with ⟨d, off, s, hscan, hplace, hs, hpre, hfirst⟩ | ⟨hscan, hnone⟩
      · refine Or.inl ⟨d, off, s, hscan, hplace, by omega, hpre, ?_⟩
        intro s' hs' hlt
        by_cases he : s' = front.length
        · rw [he, hhere]
          exact hno
        · exact hfirst s' (by omega) hlt
      · refine Or.inr ⟨hscan, ?_⟩
        intro s hs hlt
        by_cases he : s = front.length
        · rw [he, hhere]
          exact hno
        · exact hnone s (by omega) hlt
    have hmatch := matchFrom_spec pat ws k (front ++ [x]) w hpat
    rw [hlen, ← happ] at hmatch
    unfold scanIn
    rw [List.getElem?_eq_getElem (by omega)]
    split
    · next hx =>
      have hx : pat[0] = x := Option.some.inj hx
      by_cases hpre : pat.drop 1 <+: w ++ ws.flatten
      · rw [if_pos hpre] at hmatch
        obtain ⟨d, off, hmatch, hplace⟩ := hmatch
        rw [hmatch]
        refine Or.inl ⟨d, off, front.length, rfl, ?_, Nat.le_refl _, ?_, fun s' h1 h2 => by omega⟩
        · rwa [show front.length + pat.length = front.length + 1 + (pat.length - 1) by omega]
        · rw [hhere, h0, List.cons_prefix_cons]
          exact ⟨hx, hpre⟩
      · rw [if_neg hpre] at hmatch
        rw [hmatch]
        refine later fun h => hpre ?_
        rw [h0, List.cons_prefix_cons] at h
        exact h.2
    · next hx =>
      refine later fun h => hx ?_
      rw [h0, List.cons_prefix_cons] at h
      rw [h.1]

/-- **The search over the pieces is the search of the joined text.** -/
theorem search_spec {pat : List α} (hpat : 1 < pat.length) : ∀ (ws : List (List α)) (k : Nat),
    (∃ d off s, search pat k ws = some (k + d, off) ∧ Place ws d off (s + pat.length) ∧
      FirstStart pat ws.flatten 0 s) ∨
    search pat k ws = none ∧ ¬ pat <:+: ws.flatten
  | [], k => by
    refine Or.inr ⟨rfl, fun h => ?_⟩
    have hle := h.length_le
    rw [List.flatten_nil, List.length_nil] at hle
    omega
  | w :: ws, k => by
    have hscan := scanIn_spec hpat k ws w []
    rw [List.nil_append, List.length_nil] at hscan
    have hbehind : ∀ s, w.length ≤ s →
        (w :: ws).flatten.drop s = ws.flatten.drop (s - w.length) := by
      intro s hs
      rw [List.flatten_cons, List.drop_append, List.drop_eq_nil_of_le hs, List.nil_append]
    unfold search
    rcases hscan with ⟨d, off, s, hscan, hplace, hfirst⟩ | ⟨hscan, hnone⟩
    · rw [hscan]
      exact Or.inl ⟨d, off, s, rfl, hplace, hfirst⟩
    · rw [hscan]
      rcases search_spec hpat ws (k + 1) with ⟨d, off, s, hs, hplace, -, hpre, hfirst⟩ | ⟨hs, hno⟩
      · refine Or.inl ⟨d + 1, off, w.length + s, ?_, ?_, Nat.zero_le _, ?_, ?_⟩
        · rw [show k + (d + 1) = k + 1 + d by omega]
          exact hs
        · rw [Nat.add_assoc]
          exact place_cons hplace
        · rw [hbehind (w.length + s) (by omega), Nat.add_sub_cancel_left]
          exact hpre
        · intro s' _ hlt
          by_cases hlen : s' < w.length
          · exact hnone s' (Nat.zero_le _) hlen
          · rw [hbehind s' (by omega)]
            exact hfirst (s' - w.length) (Nat.zero_le _) (by omega)
      · refine Or.inr ⟨hs, ?_⟩
        rintro ⟨a, b, hab⟩
        have hstart : pat <+: (w :: ws).flatten.drop a.length := by
          rw [← hab, List.append_assoc, List.drop_left' rfl]
          exact List.prefix_append _ _
        by_cases hlen : a.length < w.length
        · exact hnone a.length (Nat.zero_le _) hlen hstart
        · rw [hbehind a.length (by omega)] at hstart
          exact hno (hstart.isInfix.trans (List.drop_suffix _ _).isInfix)

omit [DecidableEq α] in
theorem FirstStart.firstEnd {pat text : List α} {s : Nat} (h : FirstStart pat text 0 s) :
    FirstEnd pat text (text.take (s + pat.length)) (text.drop (s + pat.length)) := by
  obtain ⟨-, ⟨t, ht⟩, hfirst⟩ := h
  have htake : text.take (s + pat.length) = text.take s ++ pat := by
    rw [List.take_add, ← ht, List.take_left' rfl]
  refine ⟨(List.take_append_drop _ _).symm, ⟨text.take s, htake.symm⟩, ?_⟩
  rintro head' ⟨r, hr⟩ ⟨a, ha⟩
  have hstart : pat <+: text.drop a.length := by
    rw [← hr, ← ha, List.append_assoc, List.drop_left' rfl]
    exact List.prefix_append _ _
  have hle : s ≤ a.length := by
    by_contra hlt
    exact hfirst a.length (Nat.zero_le _) (by omega) hstart
  rw [← ha, List.length_append, List.length_take]
  omega

end Pieces

end CLib
