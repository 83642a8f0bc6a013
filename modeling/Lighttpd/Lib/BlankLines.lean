import Lighttpd.Lib.CString

/-!
# Blank lines

A blank line has only its end, which is LF or CR LF. A search for the two bytes or four bytes in
which a line end and a blank line meet finds the first blank line, as long as the two are of one
style and the search for the other style finds nothing (`searchPieces_iff`). The text arrives in
pieces, and what has arrived is searched with each of them.
-/

namespace CLib

section Occurrences

variable {needle s t : Bytes} {i : Nat}

def OccursAt (needle s : Bytes) (i : Nat) : Prop := needle <+: s.drop i

instance (needle s : Bytes) (i : Nat) : Decidable (OccursAt needle s i) :=
  inferInstanceAs (Decidable (_ <+: _))

/-- The first place where the text occurs in `s`. -/
def firstOccurrence (needle s : Bytes) : Option Nat :=
  (List.range (s.length + 1 - needle.length)).find? fun i => OccursAt needle s i

theorem OccursAt.le (h : OccursAt needle s i) (hne : needle ≠ []) :
    i + needle.length ≤ s.length := by
  have hlen := h.length_le
  have hpos := List.length_pos_of_ne_nil hne
  rw [List.length_drop] at hlen
  omega

theorem firstOccurrence_eq_some (hne : needle ≠ []) : firstOccurrence needle s = some i ↔
    OccursAt needle s i ∧ ∀ j < i, ¬ OccursAt needle s j := by
  unfold firstOccurrence
  rw [List.find?_range_eq_some, List.mem_range]
  constructor
  · rintro ⟨hi, -, hfirst⟩
    exact ⟨of_decide_eq_true hi, fun j hj => by simpa using hfirst j hj⟩
  · rintro ⟨hi, hfirst⟩
    have hle := hi.le hne
    exact ⟨decide_eq_true hi, by omega, fun j hj => by simpa using hfirst j hj⟩

theorem firstOccurrence_eq_none (hne : needle ≠ []) :
    firstOccurrence needle s = none ↔ ∀ i, ¬ OccursAt needle s i := by
  unfold firstOccurrence
  rw [List.find?_range_eq_none]
  constructor
  · intro h i hi
    have hle := hi.le hne
    have hno := h i (by omega)
    simp [hi] at hno
  · intro h i _
    simpa using h i

theorem occursAt_append (h : i + needle.length ≤ s.length) (t : Bytes) :
    OccursAt needle (s ++ t) i ↔ OccursAt needle s i := by
  unfold OccursAt
  rw [List.drop_append_of_le_length (by omega)]
  refine ⟨fun hpre => ?_, fun hpre => hpre.trans (List.prefix_append _ _)⟩
  refine List.prefix_of_prefix_length_le hpre (List.prefix_append _ _) ?_
  rw [List.length_drop]
  omega

theorem occursAt_iff : OccursAt needle s i ↔
    ∀ (k : Nat) (c : UInt8), needle[k]? = some c → s[i + k]? = some c := by
  unfold OccursAt
  constructor
  · rintro ⟨rest, hrest⟩ k c hc
    rw [← List.getElem?_drop, ← hrest, List.getElem?_append_left, hc]
    exact (List.getElem?_eq_some_iff.mp hc).1
  · intro h
    rw [List.prefix_iff_getElem?]
    intro k hk
    rw [List.getElem?_drop]
    exact h k _ (List.getElem?_eq_getElem hk)

theorem firstOccurrence_append (hne : needle ≠ []) (h : firstOccurrence needle s = some i)
    (t : Bytes) : firstOccurrence needle (s ++ t) = some i := by
  rw [firstOccurrence_eq_some hne] at h ⊢
  obtain ⟨hoccurs, hfirst⟩ := h
  have hle := hoccurs.le hne
  refine ⟨(occursAt_append hle t).mpr hoccurs, fun j hj hj' => ?_⟩
  exact hfirst j hj ((occursAt_append (by omega) t).mp hj')

theorem firstOccurrence_behind (hne : needle ≠ []) (hnone : firstOccurrence needle s = none)
    {t : Bytes} (h : firstOccurrence needle (s ++ t) = some i) : s.length < i + needle.length := by
  rw [firstOccurrence_eq_none hne] at hnone
  by_contra hle
  exact hnone i ((occursAt_append (by omega) t).mp ((firstOccurrence_eq_some hne).mp h).1)

end Occurrences

/-! ## Blank lines -/

/-- A blank line starts at `b`, and its end has `n` bytes. -/
structure BlankAt (s : Bytes) (b n : Nat) : Prop where
  start : b = 0 ∨ s[b - 1]? = some 10
  ending : n = 1 ∧ s[b]? = some 10 ∨ n = 2 ∧ s[b]? = some 13 ∧ s[b + 1]? = some 10

instance (s : Bytes) (b n : Nat) : Decidable (BlankAt s b n) :=
  decidable_of_iff ((b = 0 ∨ s[b - 1]? = some 10) ∧
    (n = 1 ∧ s[b]? = some 10 ∨ n = 2 ∧ s[b]? = some 13 ∧ s[b + 1]? = some 10))
    ⟨fun h => ⟨h.1, h.2⟩, fun h => ⟨h.start, h.ending⟩⟩

/-- Where the first blank line starts, and the length of its end. -/
def blankLine (s : Bytes) : Option (Nat × Nat) :=
  ((List.range s.length).find? fun b => BlankAt s b 1 ∨ BlankAt s b 2).map fun b =>
    (b, if BlankAt s b 1 then 1 else 2)

section BlankLines

variable {s t : Bytes} {b n b' n' h c : Nat}

namespace BlankAt

theorem le (hb : BlankAt s b n) : 0 < n ∧ n ≤ 2 ∧ b + n ≤ s.length := by
  rcases hb.ending with ⟨rfl, hlf⟩ | ⟨rfl, -, hlf⟩
  · have hlt := (List.getElem?_eq_some_iff.mp hlf).1
    omega
  · have hlt := (List.getElem?_eq_some_iff.mp hlf).1
    omega

theorem unique (hb : BlankAt s b n) (hb' : BlankAt s b n') : n = n' := by
  rcases hb.ending with ⟨rfl, hlf⟩ | ⟨rfl, hcr, -⟩
  · rcases hb'.ending with ⟨rfl, -⟩ | ⟨-, hcr, -⟩
    · rfl
    · rw [hlf] at hcr
      nomatch hcr
  · rcases hb'.ending with ⟨-, hlf⟩ | ⟨rfl, -⟩
    · rw [hlf] at hcr
      nomatch hcr
    · rfl

theorem append_iff (hle : b + n ≤ s.length) (t : Bytes) :
    BlankAt (s ++ t) b n ↔ BlankAt s b n := by
  have hsame : ∀ k c, k < s.length → ((s ++ t)[k]? = some c ↔ s[k]? = some c) := by
    intro k c hk
    rw [List.getElem?_append_left hk]
  constructor
  · rintro ⟨hstart, hending⟩
    rcases hending with ⟨rfl, hlf⟩ | ⟨rfl, hcr, hlf⟩
    · refine ⟨hstart.imp_right (hsame _ _ (by omega)).mp, Or.inl ⟨rfl, ?_⟩⟩
      exact (hsame _ _ (by omega)).mp hlf
    · refine ⟨hstart.imp_right (hsame _ _ (by omega)).mp, Or.inr ⟨rfl, ?_, ?_⟩⟩
      · exact (hsame _ _ (by omega)).mp hcr
      · exact (hsame _ _ (by omega)).mp hlf
  · rintro ⟨hstart, hending⟩
    rcases hending with ⟨rfl, hlf⟩ | ⟨rfl, hcr, hlf⟩
    · refine ⟨hstart.imp_right (hsame _ _ (by omega)).mpr, Or.inl ⟨rfl, ?_⟩⟩
      exact (hsame _ _ (by omega)).mpr hlf
    · refine ⟨hstart.imp_right (hsame _ _ (by omega)).mpr, Or.inr ⟨rfl, ?_, ?_⟩⟩
      · exact (hsame _ _ (by omega)).mpr hcr
      · exact (hsame _ _ (by omega)).mpr hlf

end BlankAt

theorem blankAt_iff : (BlankAt s b 1 ∨ BlankAt s b 2) ↔ ∃ n, BlankAt s b n := by
  constructor
  · rintro (hb | hb)
    · exact ⟨1, hb⟩
    · exact ⟨2, hb⟩
  · rintro ⟨n, hb⟩
    rcases hb.ending with ⟨rfl, -⟩ | ⟨rfl, -⟩
    · exact Or.inl hb
    · exact Or.inr hb

theorem blankLine_eq_none : blankLine s = none ↔ ∀ b n, ¬ BlankAt s b n := by
  unfold blankLine
  rw [Option.map_eq_none_iff, List.find?_range_eq_none]
  constructor
  · intro hno b n hb
    have hle := hb.le
    have hb' := blankAt_iff.mpr ⟨n, hb⟩
    have hfound := hno b (by omega)
    simp [hb'] at hfound
  · intro hno b _
    have hb' : ¬ (BlankAt s b 1 ∨ BlankAt s b 2) := fun hb => by
      obtain ⟨n, hb⟩ := blankAt_iff.mp hb
      exact hno b n hb
    simpa using hb'

theorem blankLine_eq_some : blankLine s = some (b, n) ↔
    BlankAt s b n ∧ ∀ b' n', BlankAt s b' n' → b ≤ b' := by
  unfold blankLine
  rw [Option.map_eq_some_iff]
  constructor
  · rintro ⟨b, hfind, heq⟩
    obtain ⟨rfl, rfl⟩ := Prod.mk.inj heq
    rw [List.find?_range_eq_some] at hfind
    obtain ⟨hb, -, hfirst⟩ := hfind
    refine ⟨?_, fun b' n' hb' => ?_⟩
    · rcases of_decide_eq_true hb with hlf | hcr
      · rwa [if_pos hlf]
      · rwa [if_neg fun hlf => nomatch hlf.unique hcr]
    · by_contra hlt
      have hno := hfirst b' (by omega)
      simp [blankAt_iff.mpr ⟨n', hb'⟩] at hno
  · rintro ⟨hb, hfirst⟩
    refine ⟨b, ?_, ?_⟩
    · rw [List.find?_range_eq_some, List.mem_range]
      refine ⟨decide_eq_true (blankAt_iff.mpr ⟨n, hb⟩), by have := hb.le; omega, fun j hj => ?_⟩
      have hno : ¬ (BlankAt s j 1 ∨ BlankAt s j 2) := fun hj' => by
        obtain ⟨m, hm⟩ := blankAt_iff.mp hj'
        have := hfirst j m hm
        omega
      simpa using hno
    · refine Prod.ext rfl ?_
      split
      · next hlf => exact hlf.unique hb
      · next hlf =>
        rcases blankAt_iff.mpr ⟨n, hb⟩ with h1 | h2
        · exact absurd h1 hlf
        · exact h2.unique hb

end BlankLines

/-! ## The search -/

def crlfCrlf : Bytes := [13, 10, 13, 10]

def lfLf : Bytes := [10, 10]

/-- The search for one style and then for the other: where the blank line starts, and what follows
it. -/
def searchBlank (s : Bytes) : Option (Nat × Nat) :=
  match firstOccurrence crlfCrlf s with
  | some i => some (i + 2, i + 4)
  | none => (firstOccurrence lfLf s).map fun i => (i + 1, i + 2)

section Search

variable {s t : Bytes} {b n c i : Nat}

theorem occursAt_lfLf : OccursAt lfLf s i ↔ BlankAt s (i + 1) 1 := by
  rw [occursAt_iff]
  constructor
  · intro h
    exact ⟨Or.inr (h 0 10 rfl), Or.inl ⟨rfl, h 1 10 rfl⟩⟩
  · rintro ⟨hstart, hending⟩ k c hc
    have hfirst : s[i]? = some 10 := hstart.resolve_left (Nat.succ_ne_zero i)
    have hsecond : s[i + 1]? = some 10 := (hending.resolve_right fun h => nomatch h.1).2
    match k, hc with
    | 0, hc => exact hfirst.trans hc
    | 1, hc => exact hsecond.trans hc

theorem occursAt_crlfCrlf :
    OccursAt crlfCrlf s i ↔ BlankAt s (i + 2) 2 ∧ s[i]? = some 13 := by
  rw [occursAt_iff]
  constructor
  · intro h
    exact ⟨⟨Or.inr (h 1 10 rfl), Or.inr ⟨rfl, h 2 13 rfl, h 3 10 rfl⟩⟩, h 0 13 rfl⟩
  · rintro ⟨⟨hstart, hending⟩, hzero⟩ k c hc
    have hfirst : s[i + 1]? = some 10 := hstart.resolve_left (Nat.succ_ne_zero (i + 1))
    obtain ⟨-, hcr, hlf⟩ := hending.resolve_left fun h => nomatch h.1
    match k, hc with
    | 0, hc => exact hzero.trans hc
    | 1, hc => exact hfirst.trans hc
    | 2, hc => exact hcr.trans hc
    | 3, hc => exact hlf.trans hc

theorem blankAt_of_searchBlank (h : searchBlank s = some (b, c)) :
    ∃ n, BlankAt s b n ∧ c = b + n ∧ 0 < b := by
  unfold searchBlank at h
  split at h
  · next i hfound =>
    obtain ⟨rfl, rfl⟩ := Prod.mk.inj (Option.some.inj h)
    have hoccurs := ((firstOccurrence_eq_some (by decide)).mp hfound).1
    exact ⟨2, (occursAt_crlfCrlf.mp hoccurs).1, rfl, by omega⟩
  · obtain ⟨i, hfound, heq⟩ := Option.map_eq_some_iff.mp h
    obtain ⟨rfl, rfl⟩ := Prod.mk.inj heq
    have hoccurs := ((firstOccurrence_eq_some (by decide)).mp hfound).1
    exact ⟨1, occursAt_lfLf.mp hoccurs, rfl, by omega⟩

theorem searchBlank_behind (hnone : searchBlank s = none) (h : searchBlank (s ++ t) = some (b, c)) :
    s.length < c := by
  have hmiss : (∀ i, ¬ OccursAt crlfCrlf s i) ∧ ∀ i, ¬ OccursAt lfLf s i := by
    unfold searchBlank at hnone
    split at hnone
    · nomatch hnone
    · next hcrlf =>
      have hlf := Option.map_eq_none_iff.mp hnone
      exact ⟨(firstOccurrence_eq_none (by decide)).mp hcrlf,
        (firstOccurrence_eq_none (by decide)).mp hlf⟩
  by_contra hle
  unfold searchBlank at h
  split at h
  · next i hfound =>
    obtain ⟨rfl, rfl⟩ := Prod.mk.inj (Option.some.inj h)
    have hoccurs := ((firstOccurrence_eq_some (by decide)).mp hfound).1
    exact hmiss.1 i ((occursAt_append (Nat.le_of_not_lt hle) t).mp hoccurs)
  · obtain ⟨i, hfound, heq⟩ := Option.map_eq_some_iff.mp h
    obtain ⟨rfl, rfl⟩ := Prod.mk.inj heq
    have hoccurs := ((firstOccurrence_eq_some (by decide)).mp hfound).1
    exact hmiss.2 i ((occursAt_append (Nat.le_of_not_lt hle) t).mp hoccurs)

theorem searchBlank_short (hblank : blankLine (s ++ t) = some (b, n)) (hs : s.length < b + n) :
    searchBlank s = none := by
  obtain ⟨hb, hfirst⟩ := blankLine_eq_some.mp hblank
  cases hfound : searchBlank s with
  | none => rfl
  | some d =>
    obtain ⟨b', c⟩ := d
    obtain ⟨n', hb', -, -⟩ := blankAt_of_searchBlank hfound
    have hle := hb'.le
    have hthere := (BlankAt.append_iff hle.2.2 t).mpr hb'
    have hbehind := hfirst b' n' hthere
    have hlen := hb.le
    have hsame : b' = b := by omega
    subst hsame
    have := hthere.unique hb
    omega

/-- The line in front of a blank line ends in the same style, and the search for the other style
finds nothing. -/
def FoundIn (s : Bytes) (b n : Nat) (text : Bytes) : Prop :=
  0 < b ∧ if n = 2 then 2 ≤ b ∧ s[b - 2]? = some 13 else firstOccurrence crlfCrlf text = none

instance (s : Bytes) (b n : Nat) (text : Bytes) : Decidable (FoundIn s b n text) :=
  inferInstanceAs (Decidable (_ ∧ _))

/-- **The first blank line is found** exactly if it is there and nothing stands in the way. -/
theorem searchBlank_iff (hblank : blankLine (s ++ t) = some (b, n)) :
    searchBlank s = some (b, c) ↔ c = b + n ∧ b + n ≤ s.length ∧ FoundIn (s ++ t) b n s := by
  obtain ⟨hb, hfirst⟩ := blankLine_eq_some.mp hblank
  have hbehind : ∀ b' n', BlankAt s b' n' → b ≤ b' := fun b' n' hb' =>
    hfirst b' n' ((BlankAt.append_iff hb'.le.2.2 t).mpr hb')
  constructor
  · intro h
    obtain ⟨n', hb', rfl, hpos⟩ := blankAt_of_searchBlank h
    obtain rfl : n' = n := ((BlankAt.append_iff hb'.le.2.2 t).mpr hb').unique hb
    refine ⟨rfl, hb'.le.2.2, hpos, ?_⟩
    unfold searchBlank at h
    split at h
    · next i hfound =>
      obtain ⟨rfl, hn⟩ := Prod.mk.inj (Option.some.inj h)
      have hoccurs := ((firstOccurrence_eq_some (by decide)).mp hfound).1
      have hcr := (occursAt_crlfCrlf.mp hoccurs).2
      rw [if_pos (by omega)]
      refine ⟨by omega, ?_⟩
      rw [Nat.add_sub_cancel, List.getElem?_append_left, hcr]
      exact (List.getElem?_eq_some_iff.mp hcr).1
    · next hnone =>
      obtain ⟨i, -, heq⟩ := Option.map_eq_some_iff.mp h
      obtain ⟨rfl, hn⟩ := Prod.mk.inj heq
      rw [if_neg (by omega)]
      exact hnone
  · rintro ⟨rfl, hle, hpos, hstyle⟩
    have hbs := (BlankAt.append_iff hle t).mp hb
    unfold searchBlank
    by_cases hn : n = 2
    · subst hn
      rw [if_pos rfl] at hstyle
      obtain ⟨htwo, hcr⟩ := hstyle
      obtain ⟨i, rfl⟩ : ∃ i, b = i + 2 := ⟨b - 2, by omega⟩
      rw [Nat.add_sub_cancel, List.getElem?_append_left (by omega)] at hcr
      have hfound : firstOccurrence crlfCrlf s = some i := by
        rw [firstOccurrence_eq_some (by decide)]
        refine ⟨occursAt_crlfCrlf.mpr ⟨hbs, hcr⟩, fun j hj hoccurs => ?_⟩
        have := hbehind _ _ (occursAt_crlfCrlf.mp hoccurs).1
        omega
      rw [hfound]
    · rw [if_neg hn] at hstyle
      obtain rfl : n = 1 := by
        have := hb.le
        omega
      obtain ⟨i, rfl⟩ : ∃ i, b = i + 1 := ⟨b - 1, by omega⟩
      have hfound : firstOccurrence lfLf s = some i := by
        rw [firstOccurrence_eq_some (by decide)]
        refine ⟨occursAt_lfLf.mpr hbs, fun j hj hoccurs => ?_⟩
        have := hbehind _ _ (occursAt_lfLf.mp hoccurs)
        omega
      rw [hstyle, hfound]
      rfl

end Search

/-! ## Texts that arrive in pieces -/

/-- What has arrived behind `t` with the piece that brings the `m`-th byte. -/
def arrived (m : Nat) : Bytes → List Bytes → Bytes
  | t, [] => t
  | t, piece :: pieces =>
    if m ≤ (t ++ piece).length then t ++ piece else arrived m (t ++ piece) pieces

def searchPieces : Bytes → List Bytes → Option (Nat × Nat)
  | _, [] => none
  | t, piece :: pieces =>
    match searchBlank (t ++ piece) with
    | some d => some d
    | none => searchPieces (t ++ piece) pieces

section Pieces

variable {t : Bytes} {pieces : List Bytes} {b n c : Nat}

theorem searchPieces_some {d : Nat × Nat} (h : searchPieces t pieces = some d) :
    ∃ pre post, pieces = pre ++ post ∧ pre ≠ [] ∧ searchBlank (t ++ pre.flatten) = some d := by
  induction pieces generalizing t with
  | nil => nomatch h
  | cons piece pieces ih =>
    unfold searchPieces at h
    split at h
    · next d' hfound =>
      obtain rfl := Option.some.inj h
      refine ⟨[piece], pieces, rfl, List.cons_ne_nil _ _, ?_⟩
      rw [List.flatten_singleton]
      exact hfound
    · obtain ⟨pre, post, rfl, -, hfound⟩ := ih h
      refine ⟨piece :: pre, post, rfl, List.cons_ne_nil _ _, ?_⟩
      rw [List.flatten_cons, ← List.append_assoc]
      exact hfound

/-- What has arrived with the `m`-th byte is in front of all that arrives later. -/
theorem arrived_front {m : Nat} {pre : List Bytes} (post : List Bytes) (hpre : pre ≠ [])
    (hm : m ≤ (t ++ pre.flatten).length) : arrived m t (pre ++ post) <+: t ++ pre.flatten := by
  induction pre generalizing t with
  | nil => exact absurd rfl hpre
  | cons piece pre ih =>
    rw [List.flatten_cons, ← List.append_assoc] at hm ⊢
    rw [List.cons_append, arrived]
    split
    · exact List.prefix_append _ _
    · next hshort =>
      refine ih ?_ hm
      rintro rfl
      rw [List.flatten_nil, List.append_nil] at hm
      exact hshort hm

theorem firstOccurrence_none_of_front {needle s : Bytes} (hne : needle ≠ []) (h : s <+: t)
    (hnone : firstOccurrence needle t = none) : firstOccurrence needle s = none := by
  obtain ⟨rest, rfl⟩ := h
  rw [firstOccurrence_eq_none hne] at hnone ⊢
  intro i hi
  exact hnone i ((occursAt_append (hi.le hne) rest).mpr hi)

/-- **The blank line is found in the pieces** exactly if nothing stands in the way in what has
arrived with it. -/
theorem searchPieces_iff (hblank : blankLine (t ++ pieces.flatten) = some (b, n))
    (ht : t.length < b + n) : searchPieces t pieces = some (b, c) ↔
      c = b + n ∧ FoundIn (t ++ pieces.flatten) b n (arrived (b + n) t pieces) := by
  constructor
  · intro h
    obtain ⟨pre, post, rfl, hne, hfound⟩ := searchPieces_some h
    rw [List.flatten_append, ← List.append_assoc] at hblank ⊢
    obtain ⟨hc, hle, hpos, hstyle⟩ := (searchBlank_iff hblank).mp hfound
    refine ⟨hc, hpos, ?_⟩
    split
    · next hn => rwa [if_pos hn] at hstyle
    · next hn =>
      rw [if_neg hn] at hstyle
      exact firstOccurrence_none_of_front (by decide) (arrived_front post hne hle) hstyle
  · rintro ⟨rfl, hfound⟩
    induction pieces generalizing t with
    | nil =>
      have hle := (blankLine_eq_some.mp hblank).1.le
      rw [List.flatten_nil, List.append_nil] at hle
      omega
    | cons piece pieces ih =>
      rw [List.flatten_cons, ← List.append_assoc] at hblank hfound
      unfold arrived at hfound
      unfold searchPieces
      by_cases hle : b + n ≤ (t ++ piece).length
      · rw [if_pos hle] at hfound
        rw [(searchBlank_iff hblank).mpr ⟨rfl, hle, hfound⟩]
      · rw [if_neg hle] at hfound
        rw [searchBlank_short hblank (by omega)]
        exact ih hblank (by omega) hfound

theorem searchPieces_none (hblank : blankLine (t ++ pieces.flatten) = none) :
    searchPieces t pieces = none := by
  cases h : searchPieces t pieces with
  | none => rfl
  | some d =>
    obtain ⟨pre, post, rfl, -, hfound⟩ := searchPieces_some h
    obtain ⟨n, hb, -, -⟩ := blankAt_of_searchBlank hfound
    rw [List.flatten_append, ← List.append_assoc] at hblank
    exact absurd ((BlankAt.append_iff hb.le.2.2 _).mpr hb) (blankLine_eq_none.mp hblank _ _)

theorem searchPieces_le {d : Nat × Nat} (h : searchPieces t pieces = some d) :
    d.1 < d.2 ∧ d.2 ≤ (t ++ pieces.flatten).length := by
  obtain ⟨b, c⟩ := d
  obtain ⟨pre, post, rfl, -, hfound⟩ := searchPieces_some h
  obtain ⟨n, hb, rfl, -⟩ := blankAt_of_searchBlank hfound
  have hle := hb.le
  rw [List.flatten_append, ← List.append_assoc, List.length_append]
  dsimp only
  omega

end Pieces

end CLib
