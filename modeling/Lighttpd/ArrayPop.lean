import Lighttpd.ArrayHistory
import Lighttpd.CaselessOrder

/-!
# `array_pop`

`array_pop` takes the last element out of the table and leaves the index as it is. What the index
lists is still there only if the place of that element in the index was the last one too, so the
insertion is undone if and only if the new key is behind all others (`popUndoes_iff`).
-/

namespace Lighttpd

open CLib Compare

section Pop

variable {α : Type} [DataUnset α] {K : Bytes → Prop} {a b a' c d : Arr α} {x : α} {key : Bytes}

/-- The element, which may be `NULL`. Without an element the assertion fails. -/
def arrayPop (a : Arr α) : Option (Option α × Arr α) :=
  if a.used = 0 then none
  else
    let ndx := a.used - 1
    some ((a.data[ndx]?).join, { a with used := ndx, data := a.data.set ndx none })

def Arr.KeysWith (a : Arr α) (new key : Bytes) : Prop :=
  key = new ∨ ∃ i y, a.Live i y ∧ key = keyBytes y

section Runs

variable [Malloc]

/-- The arrays that `array_insert_unique` builds. -/
inductive Inserts : Arr α → Prop
  | init : Inserts arrayInit
  | step {a a' : Arr α} {x : α} (before : Inserts a) (run : arrayInsertUnique a x = some a') :
      Inserts a'

/-- Nobody who looks up and inserts keys in `K` can tell the arrays apart. -/
def BehavesAs (K : Bytes → Prop) (a b : Arr α) : Prop :=
  ∃ R : Arr α → Arr α → Prop, R a b ∧ ∀ c d, R c d → c.elements = d.elements ∧
    (∀ key, K key → (arrayGetIndex c key).map Prod.fst = (arrayGetIndex d key).map Prod.fst) ∧
    ∀ y, K (keyBytes (ensureKey c y).2) →
      Option.Rel R (arrayInsertUnique c y) (arrayInsertUnique d y)

/-- `array_pop` gives the new element back and leaves an array that is in order and behaves as the
one before the insertion. -/
def PopUndoes (a : Arr α) (x : α) : Prop :=
  ∃ a' b, arrayInsertUnique a x = some a' ∧ arrayPop a' = some (some (ensureKey a x).2, b) ∧
    b.uniqueNdx = a.uniqueNdx ∧
    PreorderOn bufferCaselessCompare (a.KeysWith (keyBytes (ensureKey a x).2)) ∧
    ∀ K, PreorderOn bufferCaselessCompare K →
      (∀ key, a.KeysWith (keyBytes (ensureKey a x).2) key → K key) → b.Ordered K ∧ BehavesAs K b a

end Runs

/-! ## Arrays with the same elements -/

/-- The arrays are in order and have the same elements; their tables, and the bounds of the search,
may differ. -/
structure AlikeInOrder (K : Bytes → Prop) (c d : Arr α) : Prop where
  left : c.Ordered K
  right : d.Ordered K
  elements : c.elements = d.elements
  uniqueNdx : c.uniqueNdx = d.uniqueNdx

namespace AlikeInOrder

theorem live (h : AlikeInOrder K c d) {i : Nat} {y : α} : c.Live i y ↔ d.Live i y := by
  rw [← Arr.getElem?_elements h.left.wf, ← Arr.getElem?_elements h.right.wf, h.elements]

theorem lookup (hK : PreorderOn bufferCaselessCompare K) (h : AlikeInOrder K c d) (hkey : K key) :
    ∃ found p q, arrayGetIndex c key = some (found, p) ∧ arrayGetIndex d key = some (found, q) ∧
      (∀ ndx, found = some ndx → ∃ y, c.Live ndx y ∧ d.Live ndx y) ∧
      (found = none → ∀ x, keyBytes x = key →
        (∃ c', insertNew c x p = some c' ∧ c'.Ordered K) ∧
        ∃ d', insertNew d x q = some d' ∧ d'.Ordered K) := by
  obtain ⟨found, p, hc, hfound, hmiss⟩ := arrayGetIndex_ordered hK h.left hkey
  obtain ⟨found', q, hd, hfound', hmiss'⟩ := arrayGetIndex_ordered hK h.right hkey
  obtain rfl : found = found' := by
    refine Option.ext fun ndx => ?_
    rw [hfound, hfound']
    exact exists_congr fun y => and_congr_left fun _ => h.live
  refine ⟨found, p, q, hc, hd, ?_, ?_⟩
  · intro ndx hndx
    obtain ⟨y, hy, -⟩ := (hfound ndx).mp hndx
    exact ⟨y, hy, h.live.mp hy⟩
  · intro hnone x hx
    exact ⟨hmiss hnone x hx, hmiss' hnone x hx⟩

variable [Malloc]

theorem ensureKey (hK : PreorderOn bufferCaselessCompare K) (h : AlikeInOrder K c d) (x : α) :
    AlikeInOrder K (Lighttpd.ensureKey c x).1 (Lighttpd.ensureKey d x).1 ∧
      (Lighttpd.ensureKey c x).2 = (Lighttpd.ensureKey d x).2 := by
  have hleft := h.left.ensureKey hK (x := x)
  have hright := h.right.ensureKey hK (x := x)
  have helements := h.elements
  have hnext := h.uniqueNdx
  unfold Lighttpd.ensureKey at hleft hright ⊢
  by_cases hkey : (DataUnset.key x).used = 0 ∨ DataUnset.isIndexKey x = true
  · rw [if_pos hkey] at hleft hright
    rw [if_pos hkey, if_pos hkey]
    exact ⟨⟨hleft, hright, helements, congrArg (· + 1) hnext⟩, by rw [hnext]⟩
  · rw [if_neg hkey, if_neg hkey]
    exact ⟨h, rfl⟩

variable [StringData α] [LawfulDataUnset α]

theorem insertUnique (hK : PreorderOn bufferCaselessCompare K) (h : AlikeInOrder K c d)
    (hkey : K (keyBytes (Lighttpd.ensureKey c x).2)) :
    Option.Rel (AlikeInOrder K) (arrayInsertUnique c x) (arrayInsertUnique d x) := by
  obtain ⟨hensured, hsame⟩ := h.ensureKey hK x
  unfold arrayInsertUnique
  generalize Lighttpd.ensureKey c x = r at hensured hsame hkey ⊢
  generalize Lighttpd.ensureKey d x = r' at hensured hsame ⊢
  obtain ⟨c, y⟩ := r
  obtain ⟨d, y'⟩ := r'
  dsimp only at hensured hsame hkey ⊢
  subst hsame
  obtain ⟨found, p, q, hc, hd, hfound, hmiss⟩ := hensured.lookup hK hkey
  simp only [keyBytes] at hc hd
  rw [hc, hd]
  cases found with
  | some ndx =>
    obtain ⟨z, hz, hz'⟩ := hfound ndx rfl
    have hslot : c.data[ndx]? = some (some z) := hz.2
    have hslot' : d.data[ndx]? = some (some z) := hz'.2
    simp only [insertMerged, hslot, hslot']
    by_cases htype : DataUnset.type z = DataUnset.type y
    · rw [if_pos htype, if_pos htype]
      obtain ⟨w, hw, hkw⟩ := hensured.left.live ndx hz.1
      obtain rfl := hw.unique hz.2
      have hmerged : keyBytes (DataUnset.insertDup w y) = keyBytes w := by
        unfold keyBytes
        rw [LawfulDataUnset.key_insertDup]
      have hkm : K (keyBytes (DataUnset.insertDup w y)) := hmerged ▸ hkw
      have hequal :
          bufferCaselessCompare (keyBytes (DataUnset.insertDup w y)) (keyBytes w) = 0 := by
        rw [hmerged]
        exact hK.refl hkw
      refine .some ⟨hensured.left.setElement hK hz hkm hequal,
        hensured.right.setElement hK hz' hkm hequal, ?_, hensured.uniqueNdx⟩
      rw [elements_setElement hensured.left.wf hz, elements_setElement hensured.right.wf hz',
        hensured.elements]
    · rw [if_neg htype, if_neg htype]
      exact .none
  | none =>
    obtain ⟨⟨c', hc', hcord⟩, d', hd', hdord⟩ := hmiss rfl y rfl
    obtain ⟨hused, hslots, hwf⟩ := insertNew_spec hensured.left.wf hc'
    obtain ⟨hused', hslots', hwf'⟩ := insertNew_spec hensured.right.wf hd'
    dsimp only
    rw [hc', hd']
    refine .some ⟨hcord, hdord, ?_, ?_⟩
    · rw [elements_appended hensured.left.wf hused hslots hwf,
        elements_appended hensured.right.wf hused' hslots' hwf', hensured.elements]
    · rw [uniqueNdx_insertNew hc', uniqueNdx_insertNew hd', hensured.uniqueNdx]

theorem behavesAs (hK : PreorderOn bufferCaselessCompare K) (h : AlikeInOrder K c d) :
    BehavesAs K c d := by
  refine ⟨AlikeInOrder K, h, fun c d hcd => ⟨hcd.elements, ?_, ?_⟩⟩
  · intro key hkey
    obtain ⟨found, p, q, hc, hd, -, -⟩ := hcd.lookup hK hkey
    rw [hc, hd]
    rfl
  · intro y hy
    exact hcd.insertUnique hK hy

end AlikeInOrder

section Undone

variable {t : Nat}

theorem place_used_iff (hK : PreorderOn bufferCaselessCompare K) (h : a.Ordered K) (hkey : K key)
    (hp : Place a key t) : t = a.used ↔
      ∀ i y, a.Live i y → bufferCaselessCompare (keyBytes y) key < 0 := by
  have hle := hp.le
  constructor
  · rintro rfl i y hy
    obtain ⟨pos, hpos, hat⟩ := h.exists_pos hy
    obtain ⟨y', hy', hky⟩ := h.live i hy.1
    obtain rfl := hy.2.unique hy'
    exact (hK.antisymm hky hkey).mpr (hp.front hpos hat)
  · intro hlast
    by_contra hne
    have ht : t < a.used := by omega
    obtain ⟨ndx, y, hat, -, hlt, hy, hky⟩ := h.atPos ht
    have hfront := (hK.antisymm hky hkey).mp (hlast ndx y ⟨hlt, hy⟩)
    have hhere := hp.here ht hat
    unfold compareKey at hhere
    unfold keyBytes at hfront
    omega

theorem arrayPop_insertNew (h : a.Ordered K) (hp : Place a (keyBytes x) t) {pos : Int}
    (hpos : pos = t ∨ pos = (t : Int) - 1) : ∃ a' b, insertNew a x pos = some a' ∧
      arrayPop a' = some (some x, b) ∧ b.uniqueNdx = a.uniqueNdx ∧
      (b.Ordered K → t = a.used) ∧ (t = a.used → AlikeInOrder K b a) := by
  have hle := hp.le
  have hnew := insertNew_eq h hp hpos
  obtain ⟨hused, hslots, hwf⟩ := insertNew_spec h.wf hnew
  have hnext := uniqueNdx_insertNew hnew
  have hsorted := take_sorted_insertAt (x := x) h hle
  have hpow : (insertAt (arrayGrow a) x t).nextPowerOf2 =
      if a.nextPowerOf2 = a.used then a.nextPowerOf2 * 2 else a.nextPowerOf2 := by
    simp only [insertAt, used_arrayGrow, nextPowerOf2_arrayGrow]
  generalize insertAt (arrayGrow a) x t = a' at hnew hused hslots hwf hnext hsorted hpow
  have hlen := h.length_take
  have hsize : a.used < a'.data.length := by
    have := hwf.used_le
    omega
  let b : Arr α := { a' with used := a.used, data := a'.data.set a.used none }
  have hpop : arrayPop a' = some (some x, b) := by
    have hslot : a'.data[a.used]? = some (some x) := hslots.mpr (Or.inl ⟨rfl, rfl⟩)
    unfold arrayPop
    rw [if_neg (by omega)]
    simp only [hused, Nat.add_sub_cancel, hslot]
    rfl
  have hold : ∀ {i y}, i < a.used → (b.Slot i y ↔ a.Slot i y) := by
    intro i y hi
    have hkept : b.data[i]? = a'.data[i]? := List.getElem?_set_ne (by omega)
    have hback : b.Slot i y ↔ a'.Slot i y := by
      unfold Arr.Slot
      rw [hkept]
    rw [hback, hslots]
    constructor
    · rintro (⟨hiu, -⟩ | ⟨-, hy⟩)
      · omega
      · exact hy
    · exact fun hy => Or.inr ⟨by omega, hy⟩
  have hindex : b.sorted.take b.used =
      ((a.sorted.take a.used).take t ++ a.used :: (a.sorted.take a.used).drop t).take a.used := by
    rw [← hsorted, List.take_take, Nat.min_eq_left (Nat.le_succ _)]
  refine ⟨a', b, hnew, hpop, hnext, ?_, ?_⟩
  · intro hb
    by_contra hne
    have hthere : a.used ∈ b.sorted.take b.used := by
      rw [hindex]
      refine List.mem_of_getElem? (i := t) ?_
      have hfront : ((a.sorted.take a.used).take t).length = t := by
        rw [List.length_take, hlen]
        omega
      rw [List.getElem?_take_of_lt (by omega), List.getElem?_append_right (by omega), hfront,
        Nat.sub_self]
      rfl
    exact absurd (List.mem_range.mp (hb.perm.subset hthere)) (Nat.lt_irrefl _)
  · rintro rfl
    have hsame : b.sorted.take b.used = a.sorted.take a.used := by
      have hall : (a.sorted.take a.used).take a.used = a.sorted.take a.used := by
        rw [List.take_take, Nat.min_self]
      rw [hindex, hall, List.take_left' hlen]
    have hordered : b.Ordered K := by
      refine ⟨?_, ?_, ?_, ?_, ?_, ?_⟩
      · have hsize' : b.data.length = a'.data.length := List.length_set
        have hused' : b.used = a.used := rfl
        omega
      · intro i hi
        obtain ⟨y, hy, hky⟩ := h.live i hi
        exact ⟨y, (hold hi).mpr hy, hky⟩
      · rw [hsame]
        exact h.perm
      · rw [hsame]
        refine h.increasing.imp_of_mem ?_
        intro i j hi hj hlt y z hy hz
        exact hlt y z ((hold (List.mem_range.mp (h.perm.subset hi))).mp hy)
          ((hold (List.mem_range.mp (h.perm.subset hj))).mp hz)
      · obtain ⟨k, hk⟩ := h.pow
        have hb : b.nextPowerOf2 = a'.nextPowerOf2 := rfl
        rw [hb, hpow]
        split
        · exact ⟨k + 1, by rw [hk, Nat.pow_succ]⟩
        · exact ⟨k, hk⟩
      · have hfits := h.used_le_pow
        have hb : b.nextPowerOf2 = a'.nextPowerOf2 := rfl
        have hused' : b.used = a.used := rfl
        rw [hb, hpow, hused']
        split <;> omega
    refine ⟨hordered, h, ?_, hnext⟩
    refine List.ext_getElem? fun i => Option.ext fun y => ?_
    rw [Arr.getElem?_elements hordered.wf, Arr.getElem?_elements h.wf]
    exact and_congr_right fun hi => hold hi

variable [Malloc] [StringData α] [LawfulDataUnset α]

omit [StringData α] [LawfulDataUnset α] in
theorem Inserts.wf (h : Inserts a) : a.WF := by
  induction h with
  | init => exact .of_used_zero rfl
  | @step a a' x before run ih =>
    exact (arrayInsertUnique_ensured ih run).wf (wf_ensureKey ih x)

omit [StringData α] [LawfulDataUnset α] in
theorem live_ensureKey {i : Nat} {y : α} : (ensureKey a x).1.Live i y ↔ a.Live i y := by
  unfold ensureKey
  split <;> exact Iff.rfl

theorem Inserts.ordered (hK : PreorderOn bufferCaselessCompare K) (h : Inserts a)
    (hkeys : ∀ i y, a.Live i y → K (keyBytes y)) : a.Ordered K := by
  induction h with
  | init => exact .used_zero rfl ⟨0, rfl⟩
  | @step a a' x before run ih =>
    have hwf := wf_ensureKey before.wf x
    cases arrayInsertUnique_ensured before.wf run with
    | @merged ndx pos y found live equal =>
      have hkept : keyBytes (DataUnset.insertDup y (ensureKey a x).2) = keyBytes y := by
        unfold keyBytes
        rw [LawfulDataUnset.key_insertDup]
      have hslot : ∀ {i z}, ((ensureKey a x).1.setElement ndx
          (DataUnset.insertDup y (ensureKey a x).2)).Slot i z ↔
          i = ndx ∧ z = DataUnset.insertDup y (ensureKey a x).2 ∨
            i ≠ ndx ∧ (ensureKey a x).1.Slot i z := slot_setElement live.2.lt
      have hky : K (keyBytes y) :=
        hkept ▸ hkeys ndx _ ⟨live.1, hslot.mpr (Or.inl ⟨rfl, rfl⟩)⟩
      have hordered : a.Ordered K := by
        apply ih
        intro i z hz
        have hz' := live_ensureKey (x := x).mpr hz
        by_cases hndx : i = ndx
        · subst hndx
          obtain rfl := live.2.unique hz'.2
          exact hky
        · exact hkeys i z ⟨hz'.1, hslot.mpr (Or.inr ⟨hndx, hz'.2⟩)⟩
      refine (hordered.ensureKey hK).setElement hK live (hkept ▸ hky) ?_
      rw [hkept]
      exact hK.refl hky
    | appended missing hused hslots hwf' =>
      have hk : K (keyBytes (ensureKey a x).2) :=
        hkeys _ _ ⟨by omega, hslots.mpr (Or.inl ⟨rfl, rfl⟩)⟩
      have hordered : a.Ordered K := by
        apply ih
        intro i z hz
        have hz' := live_ensureKey (x := x).mpr hz
        have hi := hz'.1
        exact hkeys i z ⟨by omega, hslots.mpr (Or.inr ⟨by omega, hz'.2⟩)⟩
      rcases arrayInsertUnique_ordered hK hordered hk with ⟨a'', hrun, hordered'⟩ | ⟨hnone, -⟩
      · rw [run] at hrun
        obtain rfl := Option.some.inj hrun
        exact hordered'
      · rw [run] at hnone
        nomatch hnone

omit [StringData α] [LawfulDataUnset α] in
theorem arrayPop_insertUnique (hK : PreorderOn bufferCaselessCompare K) (h : a.Ordered K)
    (hk : K (keyBytes (ensureKey a x).2))
    (hnew : ∀ i y, a.Live i y → compareKey (keyBytes (ensureKey a x).2) y ≠ 0) :
    ∃ a' b, arrayInsertUnique a x = some a' ∧ arrayPop a' = some (some (ensureKey a x).2, b) ∧
      b.uniqueNdx = (ensureKey a x).1.uniqueNdx ∧
      (b.Ordered K → ∀ i y, a.Live i y →
        bufferCaselessCompare (keyBytes y) (keyBytes (ensureKey a x).2) < 0) ∧
      ((∀ i y, a.Live i y →
        bufferCaselessCompare (keyBytes y) (keyBytes (ensureKey a x).2) < 0) →
        AlikeInOrder K b (ensureKey a x).1) := by
  have hensured := h.ensureKey hK (x := x)
  have hlive : ∀ {i y}, (ensureKey a x).1.Live i y ↔ a.Live i y := live_ensureKey
  unfold arrayInsertUnique
  generalize ensureKey a x = r at hk hnew hensured hlive ⊢
  obtain ⟨e, z⟩ := r
  dsimp only at hk hnew hensured hlive ⊢
  obtain ⟨t, hp⟩ := exists_place hK hensured hk
  obtain ⟨⟨found, pos⟩, hsearch, hfound, hpos⟩ := arrayGetIndex_place hensured hp
  dsimp only at hfound hpos
  have hmissing : found = none := by
    cases found with
    | none => rfl
    | some ndx =>
      obtain ⟨ht, y, hat, hequal⟩ := foundAt_eq_some.mp hfound.symm
      obtain ⟨ndx', y', hat', -, hlt, hy, -⟩ := hensured.atPos ht
      obtain ⟨rfl, rfl⟩ := Prod.mk.inj (Option.some.inj (hat.symm.trans hat'))
      exact absurd hequal (hnew ndx y (hlive.mp ⟨hlt, hy⟩))
  subst hmissing
  have hpos' : pos = t ∨ pos = (t : Int) - 1 := hpos.imp_right And.right
  obtain ⟨a', b, hinsert, hpop, hnext, hlast, hsame⟩ := arrayPop_insertNew hensured hp hpos'
  have hplace := place_used_iff hK hensured hk hp
  simp only [hlive] at hplace
  simp only [keyBytes] at hsearch
  rw [hsearch]
  exact ⟨a', b, hinsert, hpop, hnext, fun hb => hplace.mp (hlast hb),
    fun hbehind => hsame (hplace.mpr hbehind)⟩

theorem popUndoes_of_last (h : Inserts a) (hkey : (DataUnset.key x).used ≠ 0)
    (hindex : DataUnset.isIndexKey x = false)
    (hnew : ∀ i y, a.Live i y → compareKey (keyBytes x) y ≠ 0)
    (horder : PreorderOn bufferCaselessCompare (a.KeysWith (keyBytes x)))
    (hlast : ∀ i y, a.Live i y → bufferCaselessCompare (keyBytes y) (keyBytes x) < 0) :
    PopUndoes a x := by
  have hnamed : ensureKey a x = (a, x) := ensureKey_named hkey hindex
  have hkeys : ∀ i y, a.Live i y → a.KeysWith (keyBytes x) (keyBytes y) :=
    fun i y hy => Or.inr ⟨i, y, hy, rfl⟩
  obtain ⟨a', b, hrun, hpop, hnext, -⟩ :=
    arrayPop_insertUnique horder (h.ordered horder hkeys) (x := x) (hnamed ▸ Or.inl rfl)
      (hnamed ▸ hnew)
  rw [hnamed] at hpop hnext
  rw [PopUndoes, hnamed]
  refine ⟨a', b, hrun, hpop, hnext, horder, fun K hK hsub => ?_⟩
  have hordered := h.ordered hK fun i y hy => hsub _ (hkeys i y hy)
  obtain ⟨a'', b', hrun', hpop', -, -, hsame⟩ :=
    arrayPop_insertUnique hK hordered (x := x) (hnamed ▸ hsub _ (Or.inl rfl)) (hnamed ▸ hnew)
  rw [hnamed] at hpop' hsame
  obtain rfl := Option.some.inj (hrun.symm.trans hrun')
  obtain ⟨-, rfl⟩ := Prod.mk.inj (Option.some.inj (hpop.symm.trans hpop'))
  exact ⟨(hsame hlast).left, (hsame hlast).behavesAs hK⟩

end Undone

end Pop

/-! ## The stack of the configuration blocks -/

/-- The key of a block, and those of the blocks around it: they go on with a slash. -/
def BlockKey (t key : Bytes) : Prop := ∃ k, key = k ++ [0] ∧ (k = t ∨ ∃ r, t = k ++ 47 :: r)

theorem compare_slash (k r : Bytes) :
    bufferCaselessCompare (k ++ [0]) (k ++ 47 :: r ++ [0]) < 0 := by
  induction k with
  | nil =>
    rw [List.nil_append, List.nil_append, List.cons_append, bufferCaselessCompare_cons,
      if_neg (by decide)]
    decide
  | cons c k ih =>
    rw [List.cons_append, List.cons_append, List.cons_append, bufferCaselessCompare_cons,
      if_pos rfl]
    exact ih

theorem compare_blockKey {t key key' : Bytes} (h : BlockKey t key) (h' : BlockKey t key') :
    (bufferCaselessCompare key key' < 0 ↔ key.length < key'.length) ∧
      (bufferCaselessCompare key key' = 0 ↔ key.length = key'.length) := by
  have hshorter : ∀ {k k' : Bytes}, (k = t ∨ ∃ r, t = k ++ 47 :: r) →
      (k' = t ∨ ∃ r, t = k' ++ 47 :: r) → k.length < k'.length → ∃ r, k' = k ++ 47 :: r := by
    intro k k' hk hk' hlt
    have hpre : k' <+: t := by
      rcases hk' with rfl | ⟨r, rfl⟩
      · exact List.prefix_refl _
      · exact List.prefix_append _ _
    rcases hk with rfl | ⟨r, rfl⟩
    · exact absurd hpre.length_le (by omega)
    · have hnext : k ++ [47] <+: k' := by
        refine List.prefix_of_prefix_length_le ⟨r, by simp⟩ hpre ?_
        rw [List.length_append, List.length_singleton]
        omega
      obtain ⟨r', rfl⟩ := hnext
      exact ⟨r', by simp⟩
  obtain ⟨k, rfl, hk⟩ := h
  obtain ⟨k', rfl, hk'⟩ := h'
  have hlengths : ∀ l : Bytes, (l ++ [0]).length = l.length + 1 := fun l => by simp
  rw [hlengths, hlengths]
  rcases Nat.lt_trichotomy k.length k'.length with hlt | heq | hgt
  · obtain ⟨r, rfl⟩ := hshorter hk hk' hlt
    have hless := compare_slash k r
    omega
  · have hsame : k = k' := by
      have hpre : ∀ {l : Bytes}, (l = t ∨ ∃ r, t = l ++ 47 :: r) → l <+: t := by
        rintro l (rfl | ⟨r, rfl⟩)
        · exact List.prefix_refl _
        · exact List.prefix_append _ _
      exact (List.prefix_of_prefix_length_le (hpre hk) (hpre hk') heq.le).eq_of_length heq
    subst hsame
    have hzero : bufferCaselessCompare (k ++ [0]) (k ++ [0]) = 0 :=
      bufferCaselessCompare_eq_zero.mpr rfl
    omega
  · obtain ⟨r, rfl⟩ := hshorter hk' hk hgt
    have hless := compare_slash k' r
    rw [bufferCaselessCompare_neg] at hless
    omega

theorem preorderOn_blockKey (t : Bytes) : PreorderOn bufferCaselessCompare (BlockKey t) := by
  constructor
  · intro key key' hk hk'
    have h := compare_blockKey hk hk'
    have h' := compare_blockKey hk' hk
    omega
  · intro k₁ k₂ k₃ h₁ h₂ h₃ hle hle'
    have h₁₂ := compare_blockKey h₁ h₂
    have h₂₃ := compare_blockKey h₂ h₃
    have h₁₃ := compare_blockKey h₁ h₃
    omega

section Fields

def keyField (key : Bytes) : DataString := ⟨0, textBuffer key, textBuffer [], false, false⟩

def oneField (key : Bytes) : Arr DataString := insertAt (arrayGrow arrayInit) (keyField key) 0

theorem live_oneField {key : Bytes} {i : Nat} {y : DataString} (h : (oneField key).Live i y) :
    y = keyField key := by
  obtain ⟨hi, hslot⟩ := h
  have hused : (oneField key).used = 1 := rfl
  obtain rfl : i = 0 := by omega
  exact (Option.some.inj (Option.some.inj hslot)).symm

end Fields

end Lighttpd
