import Lighttpd.Array

/-!
# What the array operations do to the elements

An array is well formed (`Arr.WF`) when its counters fit its tables and every index entry in use
stands for an element in use. Each operation is described by the slots it changes: taking an
unused element empties its slot, an insertion fills the slot behind the last element or merges into
an element with an equal key.
-/

namespace Lighttpd

open CLib

namespace Arr

variable {α : Type}

/-- `x` is in slot `i` of the table, in use or not. -/
def Slot (a : Arr α) (i : Nat) (x : α) : Prop := a.data[i]? = some (some x)

/-- `x` is the element in use at `i`. -/
def Live (a : Arr α) (i : Nat) (x : α) : Prop := i < a.used ∧ a.Slot i x

structure WF (a : Arr α) : Prop where
  used_le : a.used ≤ a.data.length
  live : ∀ i < a.used, ∃ x, a.Slot i x
  index : ∀ pos < a.used, ∃ ndx < a.used, a.sorted[pos]? = some ndx

variable {a : Arr α} {i j : Nat} {x y : α}

theorem Slot.unique (h : a.Slot i x) (h' : a.Slot i y) : x = y := by
  unfold Slot at h h'
  rw [h] at h'
  simpa using h'

theorem Slot.lt (h : a.Slot i x) : i < a.data.length := (List.getElem?_eq_some_iff.mp h).1

theorem mem_elements : x ∈ a.elements ↔ ∃ i, a.Live i x := by
  simp only [elements, List.mem_filterMap, id_eq, exists_eq_right, Live, Slot]
  rw [List.mem_iff_getElem?]
  refine exists_congr fun i => ?_
  rw [List.getElem?_take]
  split
  · next hi => simp [hi]
  · next hi => simp [hi]

theorem WF.of_used_zero (h : a.used = 0) : a.WF where
  used_le := by omega
  live i hi := by omega
  index pos hpos := by omega

theorem WF.atPos (h : a.WF) {pos : Nat} (hpos : pos < a.used) :
    ∃ ndx x, a.atPos pos = some (ndx, x) ∧ a.sorted[pos]? = some ndx ∧ a.Live ndx x := by
  obtain ⟨ndx, hndx, hs⟩ := h.index pos hpos
  obtain ⟨x, hx⟩ := h.live ndx hndx
  refine ⟨ndx, x, ?_, hs, hndx, hx⟩
  unfold Arr.atPos
  rw [hs]
  unfold Slot at hx
  simp [hx]

theorem WF.take_data (h : a.WF) : a.data.take a.used = a.elements.map some := by
  have hall : ∀ o ∈ a.data.take a.used, o.isSome := by
    intro o ho
    obtain ⟨j, hj⟩ := List.mem_iff_getElem?.mp ho
    rw [List.getElem?_take] at hj
    split at hj
    · next hlt =>
      obtain ⟨y, hy⟩ := h.live j hlt
      rw [show a.data[j]? = some (some y) from hy] at hj
      obtain rfl := Option.some.inj hj
      rfl
    · nomatch hj
  unfold elements
  generalize a.data.take a.used = os at hall
  induction os with
  | nil => rfl
  | cons o os ih =>
    obtain ⟨y, rfl⟩ := Option.isSome_iff_exists.mp (hall o List.mem_cons_self)
    have htail := ih fun o ho => hall o (List.mem_cons_of_mem _ ho)
    rw [List.filterMap_cons, id_eq, List.map_cons, ← htail]

theorem getElem?_elements (h : a.WF) : a.elements[i]? = some x ↔ a.Live i x := by
  have hget : (a.data.take a.used)[i]? = (a.elements[i]?).map some := by
    rw [h.take_data, List.getElem?_map]
  rw [List.getElem?_take] at hget
  unfold Live Slot
  split at hget
  · next hlt =>
    rw [hget]
    simp [hlt]
  · next hge =>
    have hnone : a.elements[i]? = none := by simpa using hget.symm
    rw [hnone]
    simp [hge]

end Arr

section Specs

variable {α : Type} [DataUnset α] {a : Arr α}

/-! ## The search -/

theorem searchStep_spec (h : a.WF) (key : Bytes) (i : Nat) (pos : Int) :
    ∃ r, searchStep a key i pos = some r ∧
      ∀ ndx, r.1 = some ndx → ∃ x, a.Live ndx x ∧ compareKey key x = 0 := by
  unfold searchStep
  split
  · exact ⟨_, rfl, fun _ h => by cases h⟩
  · split
    · exact ⟨_, rfl, fun _ h => by cases h⟩
    · obtain ⟨ndx, x, hat, -, hlive⟩ := h.atPos (show pos.toNat < a.used by omega)
      rw [hat]
      dsimp only
      split
      · next h0 =>
        refine ⟨_, rfl, ?_⟩
        rintro ndx' hndx
        obtain rfl := Option.some.inj hndx
        exact ⟨x, hlive, h0⟩
      · split <;> exact ⟨_, rfl, fun _ h => by cases h⟩

theorem searchFrom_spec (h : a.WF) (key : Bytes) : ∀ (fuel i : Nat) (pos : Int), i < fuel →
    ∃ r, searchFrom a key fuel i pos = some r ∧
      ∀ ndx, r.1 = some ndx → ∃ x, a.Live ndx x ∧ compareKey key x = 0
  | 0, _, _, hi => by omega
  | fuel + 1, i, pos, hi => by
    obtain ⟨⟨found, pos'⟩, hr, hfound⟩ := searchStep_spec h key i pos
    unfold searchFrom
    rw [hr]
    cases found with
    | some ndx => exact ⟨_, rfl, hfound⟩
    | none =>
      dsimp only
      split
      · exact ⟨_, rfl, fun _ h => by cases h⟩
      · exact searchFrom_spec h key fuel (i / 2) pos' (by omega)

theorem arrayGetIndex_spec (h : a.WF) (key : Bytes) :
    ∃ r, arrayGetIndex a key = some r ∧
      ∀ ndx, r.1 = some ndx → ∃ x, a.Live ndx x ∧ compareKey key x = 0 :=
  searchFrom_spec h key _ _ _ (by omega)

theorem arrayGetElement_spec (h : a.WF) (key : Bytes) :
    ∃ r, arrayGetElement a key = some r ∧
      ∀ ndx x, r = some (ndx, x) → a.Live ndx x ∧ compareKey (key ++ [0]) x = 0 := by
  obtain ⟨⟨found, pos⟩, hr, hfound⟩ := arrayGetIndex_spec h (key ++ [0])
  unfold arrayGetElement
  rw [hr]
  cases found with
  | none => exact ⟨none, rfl, fun _ _ h => by cases h⟩
  | some ndx =>
    obtain ⟨x, hlive, h0⟩ := hfound ndx rfl
    have hx : a.data[ndx]? = some (some x) := hlive.2
    dsimp only
    rw [hx]
    refine ⟨_, rfl, ?_⟩
    rintro ndx' x' he
    obtain ⟨rfl, rfl⟩ := Prod.mk.inj (Option.some.inj he)
    exact ⟨hlive, h0⟩

theorem arrayGetIndex_congr {a' : Arr α} (h : a.WF) (hused : a'.used = a.used)
    (hsorted : ∀ pos < a.used, a'.sorted[pos]? = a.sorted[pos]?)
    (hpow : a'.nextPowerOf2 = a.nextPowerOf2)
    (hlive : ∀ {i x}, i < a.used → (a'.Slot i x ↔ a.Slot i x)) (key : Bytes) :
    arrayGetIndex a' key = arrayGetIndex a key := by
  have hstep : ∀ (i : Nat) (pos : Int), searchStep a' key i pos = searchStep a key i pos := by
    intro i pos
    unfold searchStep
    rw [hused]
    split
    · rfl
    · split
      · rfl
      · obtain ⟨ndx, x, hat, hs, hlt, hx⟩ := h.atPos (show pos.toNat < a.used by omega)
        have hat' : a'.atPos pos.toNat = some (ndx, x) := by
          have hx' : a'.data[ndx]? = some (some x) := (hlive hlt).mpr hx
          unfold Arr.atPos
          rw [hsorted _ (by omega), hs]
          simp [hx']
        rw [hat, hat']
  have hfrom : ∀ (fuel i : Nat) (pos : Int),
      searchFrom a' key fuel i pos = searchFrom a key fuel i pos := by
    intro fuel
    induction fuel with
    | zero => intro i pos; rfl
    | succ fuel ih =>
      intro i pos
      unfold searchFrom
      rw [hstep]
      simp only [ih]
  unfold arrayGetIndex
  rw [hpow, hfrom]

/-! ## The operations -/

omit [DataUnset α] in
theorem slot_setElement {ndx : Nat} {y : α} (hy : ndx < a.data.length) {i : Nat} {x : α} :
    (a.setElement ndx y).Slot i x ↔ i = ndx ∧ x = y ∨ i ≠ ndx ∧ a.Slot i x := by
  unfold Arr.Slot Arr.setElement
  rw [List.getElem?_set]
  by_cases hi : ndx = i
  · subst hi
    simp [hy, eq_comm]
  · simp [hi, Ne.symm hi]

omit [DataUnset α] in
theorem wf_setElement (h : a.WF) {ndx : Nat} {y : α} : (a.setElement ndx y).WF where
  used_le := by
    simp only [Arr.setElement, List.length_set]
    exact h.used_le
  live i hi := by
    obtain ⟨x, hx⟩ := h.live i hi
    by_cases hndx : ndx < a.data.length
    · by_cases he : i = ndx
      · exact ⟨y, (slot_setElement hndx).mpr (Or.inl ⟨he, rfl⟩)⟩
      · exact ⟨x, (slot_setElement hndx).mpr (Or.inr ⟨he, hx⟩)⟩
    · refine ⟨x, ?_⟩
      unfold Arr.Slot Arr.setElement
      rwa [List.set_eq_of_length_le (by omega)]
  index := h.index

/-- Where an element is taken from: its slot is empty afterwards, another unused element may have
moved, and the elements in use stay. -/
structure Taken (a : Arr α) (x : α) (a' : Arr α) : Prop where
  used : a'.used = a.used
  sorted : a'.sorted = a.sorted
  length : a'.data.length = a.data.length
  nextPowerOf2 : a'.nextPowerOf2 = a.nextPowerOf2
  live : ∀ {i y}, i < a.used → (a'.Slot i y ↔ a.Slot i y)
  slots : ∃ i, a.used ≤ i ∧ a.Slot i x ∧ ∀ {k y}, a'.Slot k y →
    k ≠ a.used ∧ (k ≠ i ∧ a.Slot k y ∨ k = i ∧ a.Slot a.used y)

theorem arrayGetUnusedElement_spec (t : DataType) {r : Option α × Arr α}
    (h : arrayGetUnusedElement a t = r) :
    (r.1 = none → r.2 = a) ∧ ∀ x, r.1 = some x → Taken a x r.2 := by
  subst h
  unfold arrayGetUnusedElement
  split
  · exact ⟨fun _ => rfl, fun _ h => by cases h⟩
  · next j hj =>
    obtain ⟨hlt, hp, -⟩ := List.findIdx?_eq_some_iff_getElem.mp hj
    rw [List.length_drop] at hlt
    rw [List.getElem_drop] at hp
    obtain ⟨x, hx⟩ : ∃ x, a.data[a.used + j] = some x := by
      cases hx : a.data[a.used + j] with
      | none =>
        rw [hx] at hp
        cases hp
      | some x => exact ⟨x, rfl⟩
    have hslot : a.Slot (a.used + j) x := by
      unfold Arr.Slot
      rw [List.getElem?_eq_getElem (by omega), hx]
    have hget : (a.data[a.used + j]?).join = some x := by
      rw [show a.data[a.used + j]? = some (some x) from hslot]
      rfl
    simp only [hget]
    refine ⟨(fun h => by cases h), ?_⟩
    rintro x' hx'
    obtain rfl := Option.some.inj hx'
    have hdata : ∀ k : Nat, ((a.data.set (a.used + j) (a.data[a.used]?).join).set a.used none)[k]? =
        if k = a.used then some none else
          if k = a.used + j then some (a.data[a.used]?).join else a.data[k]? := by
      intro k
      rw [List.getElem?_set, List.getElem?_set, List.length_set]
      by_cases h1 : a.used = k
      · subst h1
        rw [if_pos rfl, if_pos rfl, if_pos (by omega)]
      · rw [if_neg h1, if_neg (Ne.symm h1)]
        by_cases h2 : a.used + j = k
        · subst h2
          rw [if_pos rfl, if_pos rfl, if_pos (by omega)]
        · rw [if_neg h2, if_neg (Ne.symm h2)]
    refine ⟨rfl, rfl, by simp, rfl, ?_, a.used + j, by omega, hslot, ?_⟩
    · intro i y hi
      simp only [Arr.Slot, hdata]
      rw [if_neg (by omega), if_neg (by omega)]
    · intro k y hk
      simp only [Arr.Slot, hdata] at hk
      split at hk
      · simp at hk
      · next hk1 =>
        refine ⟨hk1, ?_⟩
        split at hk
        · next hk2 =>
          refine Or.inr ⟨hk2, ?_⟩
          cases hu : a.data[a.used]? with
          | none => simp [hu] at hk
          | some o =>
            rw [hu] at hk
            simpa [Arr.Slot, hu] using hk
        · next hk2 => exact Or.inl ⟨hk2, hk⟩

omit [DataUnset α] in
theorem Taken.wf {x : α} {a' : Arr α} (h : Taken a x a') (ha : a.WF) : a'.WF where
  used_le := by
    rw [h.used, h.length]
    exact ha.used_le
  live i hi := by
    rw [h.used] at hi
    obtain ⟨y, hy⟩ := ha.live i hi
    exact ⟨y, (h.live hi).mpr hy⟩
  index pos hpos := by
    rw [h.used] at hpos ⊢
    rw [h.sorted]
    exact ha.index pos hpos

omit [DataUnset α] in
theorem Taken.live_iff {x y : α} {a' : Arr α} (h : Taken a x a') {i : Nat} :
    a'.Live i y ↔ a.Live i y := by
  unfold Arr.Live
  rw [h.used]
  exact and_congr_right fun hi => h.live hi

omit [DataUnset α] in
theorem Taken.slot {x y : α} {a' : Arr α} (h : Taken a x a') {k : Nat} (hk : a'.Slot k y) :
    ∃ j, a.Slot j y ∧ (a.used ≤ k → a.used ≤ j) := by
  obtain ⟨i, -, -, hslots⟩ := h.slots
  rcases (hslots hk).2 with ⟨-, hold⟩ | ⟨-, hold⟩
  · exact ⟨k, hold, id⟩
  · exact ⟨a.used, hold, fun _ => Nat.le_refl _⟩

omit [DataUnset α] in
theorem Taken.elements {x : α} {a' : Arr α} (h : Taken a x a') (ha : a.WF) :
    a'.elements = a.elements := by
  refine List.ext_getElem? fun k => Option.ext fun y => ?_
  rw [Arr.getElem?_elements (h.wf ha), Arr.getElem?_elements ha, h.live_iff]

/-- What an insertion does: it merges into an element with an equal key, or appends. -/
inductive Inserted (a : Arr α) (x : α) : Arr α → Prop
  | merged {ndx : Nat} {pos : Int} {y : α}
      (found : arrayGetIndex a (DataUnset.key x).bytes = some (some ndx, pos))
      (live : a.Live ndx y) (equal : compareKey (DataUnset.key x).bytes y = 0) :
      Inserted a x (a.setElement ndx (DataUnset.insertDup y x))
  | appended {pos : Int} {a' : Arr α}
      (missing : arrayGetIndex a (DataUnset.key x).bytes = some (none, pos))
      (used : a'.used = a.used + 1)
      (slot : ∀ {i y}, a'.Slot i y ↔ i = a.used ∧ y = x ∨ i ≠ a.used ∧ a.Slot i y)
      (wf : a'.WF) : Inserted a x a'

omit [DataUnset α] in
theorem arrayGrow_spec (h : a.WF) : (arrayGrow a).used = a.used ∧
    (arrayGrow a).sorted = a.sorted ∧ (arrayGrow a).nextPowerOf2 = a.nextPowerOf2 ∧
      a.used < (arrayGrow a).data.length ∧ ∀ {i y}, (arrayGrow a).Slot i y ↔ a.Slot i y := by
  have hle := h.used_le
  unfold arrayGrow
  split
  · next hl =>
    refine ⟨rfl, rfl, rfl, by simp; omega, ?_⟩
    intro i y
    simp only [Arr.Slot, List.getElem?_append]
    split
    · rfl
    · next hge =>
      rw [List.getElem?_replicate]
      have : a.data[i]? = none := List.getElem?_eq_none (by omega)
      rw [this]
      split <;> simp
  · exact ⟨rfl, rfl, rfl, by omega, Iff.rfl⟩

theorem insertNew_spec (h : a.WF) {x : α} {pos : Int} {a' : Arr α}
    (hi : insertNew a x pos = some a') : a'.used = a.used + 1 ∧
      (∀ {i y}, a'.Slot i y ↔ i = a.used ∧ y = x ∨ i ≠ a.used ∧ a.Slot i y) ∧ a'.WF := by
  obtain ⟨hused, hsorted, -, hlt, hslot⟩ := arrayGrow_spec h
  unfold insertNew at hi
  dsimp only at hi
  split at hi
  · cases hi
  · next p hp =>
    split at hi
    · next hrange =>
      obtain rfl := Option.some.inj hi
      rw [hused] at hrange
      have hslot' : ∀ {i y}, (insertAt (arrayGrow a) x p.toNat).Slot i y ↔
          i = a.used ∧ y = x ∨ i ≠ a.used ∧ a.Slot i y := by
        intro i y
        rw [← hslot]
        simp only [Arr.Slot, insertAt, hused, List.getElem?_set]
        by_cases hiu : a.used = i
        · subst hiu
          simp [hlt, eq_comm]
        · simp [hiu, Ne.symm hiu]
      refine ⟨by simp [insertAt, hused], hslot', ?_, ?_, ?_⟩
      · simp only [insertAt, List.length_set, hused]
        omega
      · intro i hi
        simp only [insertAt, hused] at hi
        by_cases hiu : i = a.used
        · exact ⟨x, hslot'.mpr (Or.inl ⟨hiu, rfl⟩)⟩
        · obtain ⟨y, hy⟩ := h.live i (by omega)
          exact ⟨y, hslot'.mpr (Or.inr ⟨hiu, hy⟩)⟩
      · intro q hq
        simp only [insertAt, hused] at hq ⊢
        have hslen : a.used ≤ a.sorted.length := by
          by_contra hlt'
          obtain ⟨ndx, -, hs⟩ := h.index (a.used - 1) (by omega)
          have := (List.getElem?_eq_some_iff.mp hs).1
          omega
        obtain ⟨n, hn⟩ : ∃ n : Nat, p = n := ⟨p.toNat, by omega⟩
        subst hn
        simp only [Int.toNat_natCast, hsorted]
        have hn : n ≤ a.used := by omega
        have htake : (a.sorted.take n).length = n := by
          rw [List.length_take]
          omega
        rw [List.append_assoc]
        rcases Nat.lt_trichotomy q n with hqn | hqn | hqn
        · obtain ⟨ndx, hndx, hs⟩ := h.index q (by omega)
          refine ⟨ndx, by omega, ?_⟩
          rw [List.getElem?_append_left (by omega), List.getElem?_take_of_lt hqn, hs]
        · refine ⟨a.used, by omega, ?_⟩
          rw [List.getElem?_append_right (by omega), htake, hqn]
          simp
        · obtain ⟨ndx, hndx, hs⟩ := h.index (q - 1) (by omega)
          refine ⟨ndx, by omega, ?_⟩
          rw [List.getElem?_append_right (by omega), htake]
          obtain ⟨d, hd⟩ : ∃ d, q - n = d + 1 := ⟨q - n - 1, by omega⟩
          have hlen : ((a.sorted.drop n).take (a.used - n)).length = a.used - n := by
            rw [List.length_take, List.length_drop]
            omega
          rw [hd, List.cons_append, List.getElem?_cons_succ,
            List.getElem?_append_left (by omega), List.getElem?_take_of_lt (by omega),
            List.getElem?_drop]
          have : n + d = q - 1 := by omega
          rw [this, hs]
    · cases hi

theorem uniqueNdx_insertNew {x : α} {pos : Int} {a' : Arr α} (h : insertNew a x pos = some a') :
    a'.uniqueNdx = a.uniqueNdx := by
  have hgrow : (arrayGrow a).uniqueNdx = a.uniqueNdx := by
    unfold arrayGrow
    split <;> rfl
  unfold insertNew at h
  dsimp only at h
  split at h
  · nomatch h
  · split at h
    · obtain rfl := Option.some.inj h
      exact hgrow
    · nomatch h

theorem wf_ensureKey [Malloc] (h : a.WF) (x : α) : (ensureKey a x).1.WF := by
  unfold ensureKey
  split
  · exact ⟨h.used_le, h.live, h.index⟩
  · exact h

theorem arrayInsertUnique_ensured [Malloc] (h : a.WF) {x : α} {a' : Arr α}
    (hi : arrayInsertUnique a x = some a') :
    Inserted (ensureKey a x).1 (ensureKey a x).2 a' := by
  have hwf := wf_ensureKey h x
  unfold arrayInsertUnique at hi
  generalize ensureKey a x = r at hi hwf ⊢
  obtain ⟨b, z⟩ := r
  dsimp only at hi hwf ⊢
  obtain ⟨⟨found, pos⟩, hr, hfound⟩ := arrayGetIndex_spec hwf (DataUnset.key z).bytes
  rw [hr] at hi
  cases found with
  | some ndx =>
    obtain ⟨y, hlive, h0⟩ := hfound ndx rfl
    have hy : b.data[ndx]? = some (some y) := hlive.2
    unfold insertMerged at hi
    simp only [hy] at hi
    split at hi
    · obtain rfl := Option.some.inj hi
      exact .merged hr hlive h0
    · cases hi
  | none =>
    obtain ⟨hused, hslot, hwf'⟩ := insertNew_spec hwf hi
    exact .appended hr hused hslot hwf'

theorem ensureKey_named [Malloc] {x : α} (hkey : (DataUnset.key x).used ≠ 0)
    (hindex : DataUnset.isIndexKey x = false) : ensureKey a x = (a, x) := by
  simp [ensureKey, hkey, hindex]

theorem arrayInsertUnique_spec [Malloc] (h : a.WF) {x : α} {a' : Arr α}
    (hkey : (DataUnset.key x).used ≠ 0) (hindex : DataUnset.isIndexKey x = false)
    (hi : arrayInsertUnique a x = some a') : Inserted a x a' := by
  have hinserted := arrayInsertUnique_ensured h hi
  rwa [ensureKey_named hkey hindex] at hinserted

omit [DataUnset α] in
theorem length_elements (h : a.WF) : a.elements.length = a.used := by
  have hlive : ∀ j, j < a.elements.length ↔ j < a.used := by
    intro j
    constructor
    · intro hj
      exact ((Arr.getElem?_elements h).mp (List.getElem?_eq_getElem hj)).1
    · intro hj
      obtain ⟨y, hy⟩ := h.live j hj
      exact (List.getElem?_eq_some_iff.mp ((Arr.getElem?_elements h).mpr ⟨hj, hy⟩)).1
  have h1 := hlive a.elements.length
  have h2 := hlive a.used
  omega

omit [DataUnset α] in
theorem elements_setElement (h : a.WF) {ndx : Nat} {y : α} (hlive : a.Live ndx y) (x : α) :
    (a.setElement ndx x).elements = a.elements.set ndx x := by
  have hlt := (List.getElem?_eq_some_iff.mp ((Arr.getElem?_elements h).mpr hlive)).1
  apply List.ext_getElem?
  intro i
  apply Option.ext
  intro z
  rw [Arr.getElem?_elements (wf_setElement h), List.getElem?_set]
  show i < a.used ∧ _ ↔ _
  rw [slot_setElement hlive.2.lt]
  by_cases hi : ndx = i
  · subst hi
    simp [hlt, hlive.1, eq_comm]
  · rw [if_neg hi, Arr.getElem?_elements h]
    simp [Ne.symm hi, Arr.Live]

omit [DataUnset α] in
theorem elements_appended {x : α} {a' : Arr α} (h : a.WF) (hused : a'.used = a.used + 1)
    (hslot : ∀ {i y}, a'.Slot i y ↔ i = a.used ∧ y = x ∨ i ≠ a.used ∧ a.Slot i y) (hwf : a'.WF) :
    a'.elements = a.elements ++ [x] := by
  refine List.ext_getElem? fun i => Option.ext fun z => ?_
  rw [Arr.getElem?_elements hwf, List.getElem?_append]
  unfold Arr.Live
  rw [hslot, hused, length_elements h]
  split
  · next hlt =>
    rw [Arr.getElem?_elements h]
    unfold Arr.Live
    constructor
    · rintro ⟨-, ⟨rfl, -⟩ | ⟨-, hz⟩⟩
      · omega
      · exact ⟨hlt, hz⟩
    · rintro ⟨-, hz⟩
      exact ⟨by omega, Or.inr ⟨by omega, hz⟩⟩
  · next hge =>
    constructor
    · rintro ⟨hi, ⟨rfl, rfl⟩ | ⟨hne, -⟩⟩
      · simp
      · omega
    · intro hz
      obtain ⟨hi, rfl⟩ : i - a.used = 0 ∧ z = x := by
        rw [List.getElem?_singleton] at hz
        split at hz
        · exact ⟨‹_›, (Option.some.inj hz).symm⟩
        · nomatch hz
      exact ⟨by omega, Or.inl ⟨by omega, rfl⟩⟩

omit [DataUnset α] in
theorem eq_append_of_live (h : a.WF) {ndx : Nat} {y : α} (hlive : a.Live ndx y) :
    a.elements = a.elements.take ndx ++ y :: a.elements.drop (ndx + 1) := by
  obtain ⟨hlt, hy⟩ := List.getElem?_eq_some_iff.mp ((Arr.getElem?_elements h).mpr hlive)
  rw [← hy, List.getElem_cons_drop, List.take_append_drop]

theorem Inserted.elements {x : α} {a' : Arr α} (h : Inserted a x a') (ha : a.WF) :
    (∃ pre y post, compareKey (DataUnset.key x).bytes y = 0 ∧ a.elements = pre ++ y :: post ∧
      a'.elements = pre ++ DataUnset.insertDup y x :: post) ∨ a'.elements = a.elements ++ [x] := by
  cases h with
  | @merged ndx pos y _ live equal =>
    refine Or.inl ⟨a.elements.take ndx, y, a.elements.drop (ndx + 1), equal,
      eq_append_of_live ha live, ?_⟩
    have hlt := (List.getElem?_eq_some_iff.mp ((Arr.getElem?_elements ha).mpr live)).1
    rw [elements_setElement ha live, List.set_eq_take_append_cons_drop, if_pos hlt]
  | appended _ hused hslot hwf => exact Or.inr (elements_appended ha hused hslot hwf)

theorem Inserted.wf {x : α} {a' : Arr α} (h : Inserted a x a') (ha : a.WF) : a'.WF := by
  cases h with
  | merged => exact wf_setElement ha
  | appended _ _ _ hwf => exact hwf

end Specs

end Lighttpd
