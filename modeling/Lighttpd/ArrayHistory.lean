import Lighttpd.ArrayOrder
import Lighttpd.Caseless

/-!
# The operations of a sorted array

Every operation keeps the order of the index, and has a value unless it meets an element of another
type (`ArrayOp.run_spec`). So the index is in order after any run of the operations, and the search
misses nothing that is there (`sortedArray`).
-/

namespace Lighttpd

open CLib Compare

/-- Elements keep their keys when they are merged or given a value. -/
class LawfulDataUnset (α : Type) [DataUnset α] [StringData α] : Prop where
  key_insertDup : ∀ a b : α, DataUnset.key (DataUnset.insertDup a b) = DataUnset.key a
  key_copyValue : ∀ (a : α) (v : Option Bytes),
    DataUnset.key (StringData.copyValue a v) = DataUnset.key a

instance [Malloc] : LawfulDataUnset DataString where
  key_insertDup _ _ := rfl
  key_copyValue _ _ := rfl

section Operations

variable {α : Type} [DataUnset α] {K : Bytes → Prop} {a a' : Arr α} {x : α}

namespace Arr.Ordered

theorem alike (hK : PreorderOn bufferCaselessCompare K) (h : a.Ordered K)
    (hused : a'.used = a.used) (hsorted : a'.sorted = a.sorted)
    (hlen : a'.data.length = a.data.length) (hpow : a'.nextPowerOf2 = a.nextPowerOf2)
    (hslots : ∀ {i x}, i < a.used → a.Slot i x → ∃ x', a'.Slot i x' ∧ K (keyBytes x') ∧
      bufferCaselessCompare (keyBytes x') (keyBytes x) = 0) : a'.Ordered K where
  used_le := by
    rw [hused, hlen]
    exact h.used_le
  live i hi := by
    rw [hused] at hi
    obtain ⟨x, hx, -⟩ := h.live i hi
    obtain ⟨x', hx', hk, -⟩ := hslots hi hx
    exact ⟨x', hx', hk⟩
  perm := by
    rw [hused, hsorted]
    exact h.perm
  increasing := by
    rw [hused, hsorted]
    refine h.increasing.imp_of_mem ?_
    intro i j hi hj hlt x' y' hx' hy'
    have hiu := List.mem_range.mp (h.perm.subset hi)
    have hju := List.mem_range.mp (h.perm.subset hj)
    obtain ⟨x, hx, hkx⟩ := h.live i hiu
    obtain ⟨y, hy, hky⟩ := h.live j hju
    obtain ⟨x'', hx'', hkx', hxx⟩ := hslots hiu hx
    obtain ⟨y'', hy'', hky', hyy⟩ := hslots hju hy
    obtain rfl := hx''.unique hx'
    obtain rfl := hy''.unique hy'
    have hxy := hlt x y hx hy
    have hlt' := hK.lt_of_le_of_lt hkx' hkx hky (by omega) hxy
    have hyy' := (hK.eq_zero_comm hky' hky).mp hyy
    exact hK.lt_of_lt_of_le hkx' hky hky' hlt' (by omega)
  pow := by
    rw [hpow]
    exact h.pow
  used_le_pow := by
    rw [hused, hpow]
    exact h.used_le_pow

theorem setElement (hK : PreorderOn bufferCaselessCompare K) (h : a.Ordered K) {ndx : Nat} {y : α}
    (hlive : a.Live ndx y) (hk : K (keyBytes x))
    (heq : bufferCaselessCompare (keyBytes x) (keyBytes y) = 0) :
    (a.setElement ndx x).Ordered K := by
  have hle := h.used_le
  have hlt := hlive.1
  refine h.alike hK rfl rfl (by simp [Arr.setElement]) rfl ?_
  intro i z hi hz
  by_cases hndx : i = ndx
  · subst hndx
    obtain rfl := hlive.2.unique hz
    exact ⟨x, (slot_setElement (by omega)).mpr (Or.inl ⟨rfl, rfl⟩), hk, heq⟩
  · obtain ⟨z', hz', hkz⟩ := h.live i hi
    obtain rfl := hz.unique hz'
    exact ⟨z, (slot_setElement (by omega)).mpr (Or.inr ⟨hndx, hz⟩), hkz, hK.refl hkz⟩

theorem taken (hK : PreorderOn bufferCaselessCompare K) (h : a.Ordered K) (ht : Taken a x a') :
    a'.Ordered K := by
  refine h.alike hK ht.used ht.sorted ht.length ht.nextPowerOf2 ?_
  intro i z hi hz
  obtain ⟨z', hz', hkz⟩ := h.live i hi
  obtain rfl := hz.unique hz'
  exact ⟨z, (ht.live hi).mpr hz, hkz, hK.refl hkz⟩

theorem used_zero (hused : a.used = 0) (hpow : ∃ k, a.nextPowerOf2 = 2 ^ k) :
    a.Ordered K where
  used_le := by omega
  live i hi := by omega
  perm := by simp [hused]
  increasing := by simp [hused]
  pow := hpow
  used_le_pow := by omega

end Arr.Ordered

section Insertion

variable {t : Nat}

theorem Place.front_mem (h : a.Ordered K) {key : Bytes} (hp : Place a key t) {ndx : Nat} {y : α}
    (hmem : ndx ∈ (a.sorted.take a.used).take t) (hy : a.Slot ndx y) : 0 < compareKey key y := by
  obtain ⟨pos, hpos⟩ := List.mem_iff_getElem?.mp hmem
  have hlt : pos < t := by
    by_contra hge
    rw [List.getElem?_eq_none (by simp; omega)] at hpos
    cases hpos
  rw [List.getElem?_take_of_lt hlt] at hpos
  have hle := hp.le
  obtain ⟨ndx', y', hat, hndx, -, hy', -⟩ := h.atPos (show pos < a.used by omega)
  rw [hndx] at hpos
  obtain rfl := Option.some.inj hpos
  obtain rfl := hy'.unique hy
  exact hp.front hlt hat

theorem Place.behind_mem (h : a.Ordered K) {key : Bytes} (hp : Place a key t)
    (hmiss : a.foundAt key t = none) {ndx : Nat} {y : α}
    (hmem : ndx ∈ (a.sorted.take a.used).drop t) (hy : a.Slot ndx y) : compareKey key y < 0 := by
  obtain ⟨pos, hpos⟩ := List.mem_iff_getElem?.mp hmem
  rw [List.getElem?_drop] at hpos
  have hlt : t + pos < a.used := by
    have := (List.getElem?_eq_some_iff.mp hpos).1
    rw [h.length_take] at this
    exact this
  obtain ⟨ndx', y', hat, hndx, -, hy', -⟩ := h.atPos hlt
  rw [hndx] at hpos
  obtain rfl := Option.some.inj hpos
  obtain rfl := hy'.unique hy
  cases pos with
  | succ pos => exact hp.behind (by omega) hlt hat
  | zero =>
    have hle := hp.here hlt hat
    have hne : compareKey key y' ≠ 0 := by
      intro h0
      have hfound := foundAt_eq_some.mpr ⟨hlt, y', hat, h0⟩
      rw [Nat.add_zero, hmiss] at hfound
      cases hfound
    omega

theorem Arr.Ordered.insert (hK : PreorderOn bufferCaselessCompare K) (h : a.Ordered K)
    (hk : K (keyBytes x)) (hp : Place a (keyBytes x) t) (hmiss : a.foundAt (keyBytes x) t = none)
    (hused : a'.used = a.used + 1)
    (hsorted : a'.sorted.take a'.used =
      (a.sorted.take a.used).take t ++ a.used :: (a.sorted.take a.used).drop t)
    (hlen : a.used < a'.data.length)
    (hslots : ∀ {i y}, a'.Slot i y ↔ i = a.used ∧ y = x ∨ i ≠ a.used ∧ a.Slot i y)
    (hpow : a'.nextPowerOf2 = if a.nextPowerOf2 = a.used then a.nextPowerOf2 * 2
      else a.nextPowerOf2) : a'.Ordered K where
  used_le := by omega
  live i hi := by
    by_cases hiu : i = a.used
    · exact ⟨x, hslots.mpr (Or.inl ⟨hiu, rfl⟩), hk⟩
    · obtain ⟨y, hy, hky⟩ := h.live i (by omega)
      exact ⟨y, hslots.mpr (Or.inr ⟨hiu, hy⟩), hky⟩
  perm := by
    rw [hsorted, hused, List.range_succ]
    refine List.perm_middle.trans ?_
    rw [List.take_append_drop]
    exact (@List.perm_append_comm _ [a.used] _).trans (h.perm.append_right [a.used])
  increasing := by
    rw [hsorted]
    have hold : ∀ {i}, i ∈ a.sorted.take a.used → i < a.used :=
      fun hi => List.mem_range.mp (h.perm.subset hi)
    have hslot : ∀ {i y}, i < a.used → a'.Slot i y → a.Slot i y := by
      intro i y hi hy
      rcases hslots.mp hy with ⟨hiu, -⟩ | ⟨-, hy⟩
      · omega
      · exact hy
    have hnew : ∀ {y}, a'.Slot a.used y → y = x := by
      intro y hy
      rcases hslots.mp hy with ⟨-, rfl⟩ | ⟨hne, -⟩
      · rfl
      · exact absurd rfl hne
    have hincr : (a.sorted.take a.used).Pairwise a'.KeyLt := by
      refine h.increasing.imp_of_mem ?_
      intro i j hi hj hlt y z hy hz
      exact hlt y z (hslot (hold hi) hy) (hslot (hold hj) hz)
    rw [← List.take_append_drop t (a.sorted.take a.used), List.pairwise_append] at hincr
    obtain ⟨hfront, hbehind, hacross⟩ := hincr
    refine List.pairwise_append.mpr ⟨hfront, List.pairwise_cons.mpr ⟨?_, hbehind⟩, ?_⟩
    · intro j hj y z hy hz
      obtain rfl := hnew hy
      exact hp.behind_mem h hmiss hj (hslot (hold (List.mem_of_mem_drop hj)) hz)
    · intro i hi j hj
      rcases List.mem_cons.mp hj with rfl | hj
      · intro y z hy hz
        obtain rfl := hnew hz
        have hiu := hold (List.mem_of_mem_take hi)
        obtain ⟨y', hy', hky⟩ := h.live i hiu
        have hy := hslot hiu hy
        obtain rfl := hy.unique hy'
        exact (hK.antisymm hky hk).mpr (hp.front_mem h hi hy)
      · exact hacross i hi j hj
  pow := by
    obtain ⟨k, hk⟩ := h.pow
    rw [hpow]
    split
    · exact ⟨k + 1, by rw [hk, Nat.pow_succ]⟩
    · exact ⟨k, hk⟩
  used_le_pow := by
    have := h.used_le_pow
    rw [hused, hpow]
    split
    · next heq =>
      obtain ⟨k, hk⟩ := h.pow
      have hpos : 0 < 2 ^ k := Nat.pow_pos (by decide)
      omega
    · omega

omit [DataUnset α] in
@[simp] theorem used_arrayGrow : (arrayGrow a).used = a.used := by
  unfold arrayGrow
  split <;> rfl

omit [DataUnset α] in
@[simp] theorem sorted_arrayGrow : (arrayGrow a).sorted = a.sorted := by
  unfold arrayGrow
  split <;> rfl

omit [DataUnset α] in
@[simp] theorem nextPowerOf2_arrayGrow : (arrayGrow a).nextPowerOf2 = a.nextPowerOf2 := by
  unfold arrayGrow
  split <;> rfl

theorem take_sorted_insertAt (h : a.Ordered K) (ht : t ≤ a.used) :
    (insertAt (arrayGrow a) x t).sorted.take (a.used + 1) =
      (a.sorted.take a.used).take t ++ a.used :: (a.sorted.take a.used).drop t := by
  have hlen := h.length_take
  have hfront : (a.sorted.take a.used).take t = a.sorted.take t := by
    rw [List.take_take, Nat.min_eq_left ht]
  have hbehind : (a.sorted.drop t).take (a.used - t) = (a.sorted.take a.used).drop t := by
    rw [List.drop_take]
  simp only [insertAt, used_arrayGrow, sorted_arrayGrow, hbehind, ← hfront]
  apply List.take_left'
  simp only [List.length_append, List.length_cons, List.length_take, List.length_drop] at hlen ⊢
  omega

theorem insertPos_place (h : a.Ordered K) (hp : Place a (keyBytes x) t) {pos : Int}
    (hpos : pos = t ∨ pos = (t : Int) - 1) :
    insertPos { arrayGrow a with data := (arrayGrow a).data.set a.used (some x) } (keyBytes x)
      a.used pos = some (t : Int) := by
  have hle := hp.le
  unfold insertPos
  by_cases hend : pos = a.used
  · rw [if_pos hend]
    congr 1
    omega
  rw [if_neg hend]
  by_cases hneg : pos < 0
  · rw [if_pos hneg]
    congr 1
    omega
  rw [if_neg hneg]
  obtain ⟨ndx, y, hat, hs, hlt, hy, -⟩ := h.atPos (show pos.toNat < a.used by omega)
  have hgrown : ({ arrayGrow a with
      data := (arrayGrow a).data.set a.used (some x) } : Arr α).atPos pos.toNat =
        some (ndx, y) := by
    have hs' : a.sorted[pos.toNat]? = some ndx := by
      rw [← hs, List.getElem?_take_of_lt (by omega)]
    have hy' : (arrayGrow a).data[ndx]? = some (some y) := by
      have hy : a.data[ndx]? = some (some y) := hy
      unfold arrayGrow
      split
      · rw [List.getElem?_append_left (List.getElem?_eq_some_iff.mp hy).1, hy]
      · exact hy
    simp only [Arr.atPos, sorted_arrayGrow, hs', List.getElem?_set, Option.bind_eq_bind,
      Option.bind_some]
    rw [if_neg (by omega), hy']
    rfl
  rw [hgrown]
  rcases hpos with rfl | rfl
  · have hnot : ¬ compareKey (keyBytes x) y > 0 := by
      have hhere := hp.here (by omega) hat
      omega
    exact congrArg some (if_neg hnot)
  · have hfront := hp.front (by omega) hat
    refine congrArg some ((if_pos hfront).trans ?_)
    omega

theorem insertNew_eq (h : a.Ordered K) (hp : Place a (keyBytes x) t) {pos : Int}
    (hpos : pos = t ∨ pos = (t : Int) - 1) :
    insertNew a x pos = some (insertAt (arrayGrow a) x t) := by
  have hle := hp.le
  have hplace := insertPos_place h hp hpos
  unfold insertNew
  simp only [keyBytes, used_arrayGrow] at hplace
  simp only [used_arrayGrow, hplace]
  rw [if_pos (by omega), Int.toNat_natCast]

theorem insertNew_place (hK : PreorderOn bufferCaselessCompare K) (h : a.Ordered K)
    (hk : K (keyBytes x)) (hp : Place a (keyBytes x) t) (hmiss : a.foundAt (keyBytes x) t = none)
    {pos : Int} (hpos : pos = t ∨ pos = (t : Int) - 1) :
    ∃ a', insertNew a x pos = some a' ∧ a'.Ordered K := by
  have hnew := insertNew_eq h hp hpos
  obtain ⟨hused', hslots, hwf⟩ := insertNew_spec h.wf hnew
  refine ⟨_, hnew, h.insert hK hk hp hmiss hused' ?_ ?_ hslots ?_⟩
  · rw [hused']
    exact take_sorted_insertAt h hp.le
  · have := hwf.used_le
    omega
  · simp only [insertAt, used_arrayGrow, nextPowerOf2_arrayGrow]

end Insertion

theorem arrayGetIndex_ordered (hK : PreorderOn bufferCaselessCompare K) (h : a.Ordered K)
    {key : Bytes} (hkey : K key) : ∃ found pos, arrayGetIndex a key = some (found, pos) ∧
      (∀ ndx, found = some ndx ↔ ∃ y, a.Live ndx y ∧ compareKey key y = 0) ∧
      (found = none → ∀ x, keyBytes x = key →
        ∃ a', insertNew a x pos = some a' ∧ a'.Ordered K) := by
  obtain ⟨t, hp⟩ := exists_place hK h hkey
  obtain ⟨⟨found, pos⟩, hr, hfound, hpos⟩ := arrayGetIndex_place h hp
  refine ⟨found, pos, hr, ?_, ?_⟩
  · intro ndx
    dsimp only at hfound
    rw [hfound]
    constructor
    · intro hf
      obtain ⟨ht, y, hat, h0⟩ := foundAt_eq_some.mp hf
      obtain ⟨ndx', y', hat', -, hlt, hy, -⟩ := h.atPos ht
      rw [hat] at hat'
      obtain ⟨rfl, rfl⟩ := Prod.mk.inj (Option.some.inj hat')
      exact ⟨y, ⟨hlt, hy⟩, h0⟩
    · rintro ⟨y, hy, h0⟩
      obtain ⟨p, hplt, hat⟩ := h.exists_pos hy
      rcases Nat.lt_trichotomy p t with hpt | rfl | hpt
      · have := hp.front hpt hat
        omega
      · exact foundAt_eq_some.mpr ⟨hplt, y, hat, h0⟩
      · have := hp.behind hpt hplt hat
        omega
  · rintro hnone x rfl
    dsimp only at hfound hpos hnone
    have hmiss : a.foundAt (keyBytes x) t = none := by
      rw [← hfound, hnone]
    refine insertNew_place hK h hkey hp hmiss ?_
    rcases hpos with hpos | ⟨-, hpos⟩
    · exact Or.inl hpos
    · exact Or.inr hpos

/-! ## The operations -/

/-- An insertion that meets an element of another type with the same key crashes. -/
def TypeClash (a : Arr α) (x : α) : Prop :=
  ∃ ndx y, a.Live ndx y ∧ compareKey (keyBytes x) y = 0 ∧ DataUnset.type y ≠ DataUnset.type x

theorem preorderOn_nil (hK : PreorderOn bufferCaselessCompare K) :
    PreorderOn bufferCaselessCompare (fun key => key = [] ∨ K key) := by
  have hleft := bufferCaselessCompare_nil
  have hright := bufferCaselessCompare_nil_right
  constructor
  · rintro x y (rfl | hx) (rfl | hy)
    · simp [hleft]
    · rw [hleft, hright]
      omega
    · rw [hleft, hright]
      omega
    · exact hK.antisymm hx hy
  · rintro x y z hx hy hz hxy hyz
    have hnil : ∀ b, bufferCaselessCompare b [] ≤ 0 → b = [] := by
      intro b hb
      rw [hright] at hb
      exact List.eq_nil_of_length_eq_zero (by omega)
    rcases hx with rfl | hx
    · rw [hleft]
      omega
    rcases hy with rfl | hy
    · obtain rfl := hnil x hxy
      rw [hleft]
      omega
    rcases hz with rfl | hz
    · obtain rfl := hnil y hyz
      exact hxy
    exact hK.trans hx hy hz hxy hyz

section Maps

variable [Malloc] [StringData α] [LawfulDataUnset α]

omit [StringData α] [LawfulDataUnset α] in
theorem Arr.Ordered.ensureKey (hK : PreorderOn bufferCaselessCompare K) (h : a.Ordered K) :
    (ensureKey a x).1.Ordered K := by
  unfold Lighttpd.ensureKey
  split
  · refine h.alike hK rfl rfl rfl rfl ?_
    intro i y hi hy
    obtain ⟨y', hy', hky⟩ := h.live i hi
    obtain rfl := hy.unique hy'
    exact ⟨y, hy, hky, hK.refl hky⟩
  · exact h

theorem arrayInsertUnique_ordered (hK : PreorderOn bufferCaselessCompare K) (h : a.Ordered K)
    (hk : K (keyBytes (ensureKey a x).2)) :
    (∃ a', arrayInsertUnique a x = some a' ∧ a'.Ordered K) ∨
      arrayInsertUnique a x = none ∧ TypeClash (ensureKey a x).1 (ensureKey a x).2 := by
  have h' := h.ensureKey hK (x := x)
  unfold arrayInsertUnique
  generalize ensureKey a x = r at hk h'
  obtain ⟨b, z⟩ := r
  dsimp only at hk h' ⊢
  obtain ⟨found, pos, hr, hfound, hmiss⟩ := arrayGetIndex_ordered hK h' hk
  simp only [keyBytes] at hr
  rw [hr]
  cases found with
  | none => exact Or.inl (hmiss rfl z rfl)
  | some ndx =>
    obtain ⟨y, hy, h0⟩ := (hfound ndx).mp rfl
    have hslot : b.data[ndx]? = some (some y) := hy.2
    obtain ⟨y', hy', hky⟩ := h'.live ndx hy.1
    obtain rfl := hy.2.unique hy'
    by_cases ht : DataUnset.type y = DataUnset.type z
    · refine Or.inl ⟨b.setElement ndx (DataUnset.insertDup y z), ?_, ?_⟩
      · simp [insertMerged, hslot, ht]
      have hkey : keyBytes (DataUnset.insertDup y z) = keyBytes y := by
        unfold keyBytes
        rw [LawfulDataUnset.key_insertDup]
      refine h'.setElement hK hy ?_ ?_
      · rwa [hkey]
      · rw [hkey]
        exact hK.refl hky
    · refine Or.inr ⟨?_, ndx, y, hy, h0, ht⟩
      simp [insertMerged, hslot, ht]

/-- An operation on an array. `insertUnused` takes an unused element, or none, and inserts what the
caller makes of it. -/
inductive ArrayOp (α : Type) where
  | insertUnique (str : α)
  | replace (du : α)
  | setKeyValue (key : Bytes) (keyLen : Nat) (value : Option Bytes)
  | insertUnused (t : DataType) (fill : Option α → α)
  | reset

namespace ArrayOp

def run : ArrayOp α → Arr α → Option (Arr α)
  | insertUnique str, a => arrayInsertUnique a str
  | replace du, a => (arrayReplace a du).map Prod.fst
  | setKeyValue key keyLen value, a => arraySetKeyValue a key keyLen value
  | insertUnused t fill, a =>
    let (el, a) := arrayGetUnusedElement a t
    arrayInsertUnique a (fill el)
  | reset, a => some (arrayReset a)

def lookup : ArrayOp α → Option Bytes
  | replace du => some (keyBytes du)
  | setKeyValue key _ _ => some (key ++ [0])
  | _ => none

/-- The element that is inserted, and the array it is inserted into. -/
def inserted : ArrayOp α → Arr α → Option (Arr α × α)
  | insertUnique str, a => some (a, str)
  | replace du, a =>
    match arrayGetIndex a (keyBytes du) with
    | some (none, _) => some (a, du)
    | _ => none
  | setKeyValue key keyLen value, a =>
    match arrayGetElement a key with
    | some none =>
      let (el, a) := arrayGetUnusedElement a .string
      let el := StringData.copyKey (el.getD StringData.init) (key.take keyLen)
      some (a, StringData.copyValue el value)
    | _ => none
  | insertUnused t fill, a =>
    let (el, a) := arrayGetUnusedElement a t
    some (a, fill el)
  | reset, _ => none

/-- The keys the operation compares are in `K`. -/
structure KeysIn (K : Bytes → Prop) (op : ArrayOp α) (a : Arr α) : Prop where
  lookup : ∀ key, op.lookup = some key → K key
  inserted : ∀ b x, op.inserted a = some (b, x) → K (keyBytes (ensureKey b x).2)

/-- The operation inserts an element where one of another type has its key. -/
def Crashes (op : ArrayOp α) (a : Arr α) : Prop :=
  ∃ b x, op.inserted a = some (b, x) ∧ TypeClash (ensureKey b x).1 (ensureKey b x).2

theorem insert_spec (hK : PreorderOn bufferCaselessCompare K) {op : ArrayOp α} {b : Arr α}
    (h : b.Ordered K) (hk : op.KeysIn K a) (hins : op.inserted a = some (b, x)) :
    (∃ a', arrayInsertUnique b x = some a' ∧ a'.Ordered K) ∨
      arrayInsertUnique b x = none ∧ op.Crashes a := by
  rcases arrayInsertUnique_ordered hK h (hk.inserted b x hins) with hrun | ⟨hnone, hclash⟩
  · exact Or.inl hrun
  · exact Or.inr ⟨hnone, b, x, hins, hclash⟩

omit [Malloc] [StringData α] [LawfulDataUnset α] in
theorem ordered_unused (hK : PreorderOn bufferCaselessCompare K) (h : a.Ordered K) (t : DataType) :
    (arrayGetUnusedElement a t).2.Ordered K := by
  obtain ⟨hnone, hsome⟩ := arrayGetUnusedElement_spec t (a := a) rfl
  cases hel : (arrayGetUnusedElement a t).1 with
  | none => rwa [hnone hel]
  | some y => exact h.taken hK (hsome y hel)

theorem run_spec (hK : PreorderOn bufferCaselessCompare K) (h : a.Ordered K) (op : ArrayOp α)
    (hk : op.KeysIn K a) : (∃ a', op.run a = some a' ∧ a'.Ordered K) ∨
      op.run a = none ∧ op.Crashes a := by
  cases op with
  | insertUnique str => exact insert_spec hK h hk rfl
  | replace du =>
    obtain ⟨found, pos, hr, hfound, -⟩ := arrayGetIndex_ordered hK h (hk.lookup _ rfl)
    cases found with
    | none =>
      have hins : (replace du).inserted a = some (a, du) := by simp only [inserted, hr]
      have hrun : (replace du).run a = arrayInsertUnique a du := by
        simp only [keyBytes] at hr
        simp only [run, arrayReplace, hr, Option.map_map]
        cases arrayInsertUnique a du <;> rfl
      rw [hrun]
      exact insert_spec hK h hk hins
    | some ndx =>
      obtain ⟨y, hy, h0⟩ := (hfound ndx).mp rfl
      have hslot : a.data[ndx]? = some (some y) := hy.2
      refine Or.inl ⟨a.setElement ndx du, ?_, h.setElement hK hy (hk.lookup _ rfl) h0⟩
      simp only [keyBytes] at hr
      simp [run, arrayReplace, hr, hslot]
  | setKeyValue key keyLen value =>
    obtain ⟨found, pos, hr, hfound, -⟩ := arrayGetIndex_ordered hK h (hk.lookup _ rfl)
    cases found with
    | none =>
      have hget : arrayGetElement a key = some none := by simp [arrayGetElement, hr]
      have hrun : (setKeyValue key keyLen value).run a =
          arrayInsertUnique (arrayGetUnusedElement a .string).2 (StringData.copyValue
            (StringData.copyKey ((arrayGetUnusedElement a .string).1.getD StringData.init)
              (key.take keyLen)) value) := by
        simp only [run, arraySetKeyValue, hget]
      rw [hrun]
      apply insert_spec hK (ordered_unused hK h .string) hk
      simp only [inserted, hget]
    | some ndx =>
      obtain ⟨y, hy, h0⟩ := (hfound ndx).mp rfl
      have hslot : a.data[ndx]? = some (some y) := hy.2
      obtain ⟨y', hy', hky⟩ := h.live ndx hy.1
      obtain rfl := hy.2.unique hy'
      have hkey : keyBytes (StringData.copyValue y value) = keyBytes y := by
        unfold keyBytes
        rw [LawfulDataUnset.key_copyValue]
      refine Or.inl ⟨a.setElement ndx (StringData.copyValue y value), ?_, h.setElement hK hy ?_ ?_⟩
      · simp [run, arraySetKeyValue, arrayGetElement, hr, hslot]
      · rwa [hkey]
      · rw [hkey]
        exact hK.refl hky
  | insertUnused t fill => exact insert_spec hK (ordered_unused hK h t) hk rfl
  | reset =>
    refine Or.inl ⟨_, rfl, ?_⟩
    unfold arrayReset
    split
    · exact .used_zero rfl h.pow
    · exact .used_zero rfl h.pow

end ArrayOp

/-- The arrays that a run of operations on keys in `K` may leave. A key that is not set, as `NULL`,
is in front of all others. -/
inductive Reaches (K : Bytes → Prop) : Arr α → Prop
  | init : Reaches K arrayInit
  | step {a a' : Arr α} {op : ArrayOp α} (before : Reaches K a)
      (keys : op.KeysIn (fun key => key = [] ∨ K key) a) (run : op.run a = some a') : Reaches K a'

omit [LawfulDataUnset α] in
theorem Reaches.insertUnique (h : Reaches K a) (hkey : Lighttpd.ensureKey a x = (a, x))
    (hk : K (keyBytes x)) (hrun : arrayInsertUnique a x = some a') : Reaches K a' := by
  refine @Reaches.step _ _ _ _ _ a a' (.insertUnique x) h ⟨?_, ?_⟩ hrun
  · intro key hlookup
    cases hlookup
  · intro b y hins
    obtain ⟨rfl, rfl⟩ := Prod.mk.inj (Option.some.inj hins)
    rw [hkey]
    exact Or.inr hk

theorem Reaches.ordered (hK : PreorderOn bufferCaselessCompare K) (h : Reaches K a) :
    a.Ordered (fun key => key = [] ∨ K key) := by
  induction h with
  | init => exact .used_zero rfl ⟨0, rfl⟩
  | step before keys run ih =>
    rcases ArrayOp.run_spec (preorderOn_nil hK) ih _ keys with ⟨a', hrun, hord⟩ | hcrash
    · rw [run] at hrun
      obtain rfl := Option.some.inj hrun
      exact hord
    · rw [run] at hcrash
      cases hcrash.1

end Maps

theorem arrayInsertUnique_named [Malloc] (hK : PreorderOn bufferCaselessCompare K)
    {headers : Arr DataString} (h : headers.Ordered K) {x : DataString} {name : Bytes}
    (hname : x.key.Text name) (hindex : x.isIndexKey = false) (hkey : K (name ++ [0])) :
    ∃ headers', arrayInsertUnique headers x = some headers' ∧ headers'.Ordered K ∧
      Inserted headers x headers' := by
  have hbytes : keyBytes x = name ++ [0] := hname.holds
  have hused : x.key.used ≠ 0 := by
    rw [hname.used]
    omega
  obtain ⟨headers', hrun, hordered⟩ | ⟨-, hclash⟩ := arrayInsertUnique_ordered hK h (x := x) (by
    rw [ensureKey_named hused hindex, hbytes]
    exact hkey)
  · exact ⟨headers', hrun, hordered, arrayInsertUnique_spec h.wf hused hindex hrun⟩
  · obtain ⟨_, _, _, _, htype⟩ := hclash
    exact absurd rfl htype

end Operations

section Names

variable [Malloc] {ds x : DataString} {name value : Bytes}

theorem keyBytes_of_text (h : ds.key.Text name) : keyBytes ds = name ++ [0] := h.holds

theorem compare_names (h : ds.key.Text name) (hx : x.key.Text value) :
    bufferCaselessCompare (keyBytes ds) (keyBytes x) = 0 ↔ foldName name = foldName value := by
  rw [keyBytes_of_text h, keyBytes_of_text hx, bufferCaselessCompare_eq_zero, List.map_append,
    List.map_append, List.append_left_inj]
  exact Iff.rfl

end Names

/-! ## Runs -/

def Arr.inUse {α : Type} (a : Arr α) : Arr α :=
  { a with data := a.data.take a.used, sorted := a.sorted.take a.used }

section Runs

variable {α : Type} [DataUnset α] {K : Bytes → Prop} {a : Arr α}

theorem arrayGetIndex_inUse (h : a.Ordered K) (key : Bytes) :
    arrayGetIndex a.inUse key = arrayGetIndex a key := by
  have hused : a.inUse.used = a.used := rfl
  refine arrayGetIndex_congr h.wf hused ?_ rfl ?_ key
  · intro pos hpos
    exact List.getElem?_take_of_lt hpos
  · intro i x hi
    unfold Arr.Slot Arr.inUse
    rw [List.getElem?_take_of_lt hi]

theorem Arr.Ordered.once (hK : PreorderOn bufferCaselessCompare K) (h : a.Ordered K) {i j : Nat}
    {x y : α} (hx : a.Live i x) (hy : a.Live j y)
    (heq : bufferCaselessCompare (keyBytes x) (keyBytes y) = 0) : i = j := by
  obtain ⟨p, hp, hatx⟩ := h.exists_pos hx
  obtain ⟨q, hq, haty⟩ := h.exists_pos hy
  obtain ⟨x', hx', hkx⟩ := h.live i hx.1
  obtain ⟨y', hy', hky⟩ := h.live j hy.1
  obtain rfl := hx.2.unique hx'
  obtain rfl := hy.2.unique hy'
  rcases Nat.lt_trichotomy p q with hpq | rfl | hpq
  · have := h.compare_lt hpq hq hatx haty
    omega
  · rw [hatx] at haty
    exact (Prod.mk.inj (Option.some.inj haty)).1
  · have hlt := h.compare_lt hpq hp haty hatx
    have := (hK.eq_zero_comm hkx hky).mp heq
    omega

/-- After any run of operations on keys that are ordered by `buffer_caseless_compare`, the index
lists the elements in use once each in strictly increasing order; the search, which reads nothing
but the parts in use, finds a key if and only if it is there, and otherwise says where the insertion
keeps the order; and no key is stored twice. -/
theorem sortedArray [Malloc] [StringData α] [LawfulDataUnset α]
    (hK : PreorderOn bufferCaselessCompare K) (h : Reaches K a) :
    a.Ordered (fun key => key = [] ∨ K key) ∧
      (∀ key, K key → ∃ found pos, arrayGetIndex a key = some (found, pos) ∧
        arrayGetIndex a.inUse key = some (found, pos) ∧
        (∀ ndx, found = some ndx ↔ ∃ x, a.Live ndx x ∧ compareKey key x = 0) ∧
        (found = none → ∀ x, keyBytes x = key → ∃ a', insertNew a x pos = some a' ∧
          a'.Ordered (fun key => key = [] ∨ K key))) ∧
      ∀ i j x y, a.Live i x → a.Live j y →
        bufferCaselessCompare (keyBytes x) (keyBytes y) = 0 → i = j := by
  have hord := h.ordered hK
  have hK' := preorderOn_nil hK
  refine ⟨hord, ?_, fun i j x y => hord.once hK'⟩
  intro key hkey
  obtain ⟨found, pos, hr, hfound, hmiss⟩ := arrayGetIndex_ordered hK' hord (Or.inr hkey)
  refine ⟨found, pos, hr, ?_, hfound, hmiss⟩
  rw [arrayGetIndex_inUse hord, hr]

/-- Two fields that arrive in the other order. -/
theorem sortedArray_twoFields :
    let K : Bytes → Prop := fun key => key = ascii "b\x00" ∨ key = ascii "A\x00"
    letI : Malloc := zeroMalloc
    ∃ a : Arr DataString, Reaches K a ∧ a.used = 2 ∧
      a.Ordered (fun key => key = [] ∨ K key) := by
  intro K
  let _ : Malloc := zeroMalloc
  let field (key : Bytes) : DataString := ⟨0, ⟨key, 2, 1⟩, ⟨[0], 1, 1⟩, false, false⟩
  have hK : PreorderOn bufferCaselessCompare K := by
    constructor
    · rintro x y (rfl | rfl) (rfl | rfl) <;> decide
    · rintro x y z (rfl | rfl) (rfl | rfl) (rfl | rfl) <;> decide
  let one := insertAt (arrayGrow arrayInit) (field (ascii "b\x00")) 0
  have hone : Reaches K one :=
    Reaches.init.insertUnique (x := field (ascii "b\x00")) rfl (Or.inl rfl) rfl
  have htwo : Reaches K (insertAt (arrayGrow one) (field (ascii "A\x00")) 0) :=
    hone.insertUnique (x := field (ascii "A\x00")) rfl (Or.inr rfl) (by decide)
  exact ⟨_, htwo, rfl, (sortedArray hK htwo).1⟩

end Runs

end Lighttpd
