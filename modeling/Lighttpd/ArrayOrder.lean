import Lighttpd.ArrayElements
import Lighttpd.Lib.Compare
import Mathlib.Order.Nat

/-!
# Sorted arrays

The index `sorted` lists the elements in use by their keys (`Arr.Ordered`). The search jumps by
halves of a power of two, over both ends of the index where it must; it finds the key, or ends next
to the place where it belongs (`arrayGetIndex_place`).
-/

namespace Lighttpd

open CLib Compare

section Order

variable {α : Type} [DataUnset α] {K : Bytes → Prop} {a : Arr α}

def keyBytes (x : α) : Bytes := (DataUnset.key x).bytes

/-- The element at `i` has a smaller key than the one at `j`. -/
def Arr.KeyLt (a : Arr α) (i j : Nat) : Prop :=
  ∀ x y, a.Slot i x → a.Slot j y → bufferCaselessCompare (keyBytes x) (keyBytes y) < 0

/-- The index lists every element in use once, in the order of the keys, which are in `K`. -/
structure Arr.Ordered (K : Bytes → Prop) (a : Arr α) : Prop where
  used_le : a.used ≤ a.data.length
  live : ∀ i < a.used, ∃ x, a.Slot i x ∧ K (keyBytes x)
  perm : (a.sorted.take a.used).Perm (List.range a.used)
  increasing : (a.sorted.take a.used).Pairwise a.KeyLt
  pow : ∃ k, a.nextPowerOf2 = 2 ^ k
  used_le_pow : a.used ≤ a.nextPowerOf2

namespace Arr.Ordered

theorem length_take (h : a.Ordered K) : (a.sorted.take a.used).length = a.used := by
  rw [h.perm.length_eq, List.length_range]

theorem atPos (h : a.Ordered K) {pos : Nat} (hpos : pos < a.used) :
    ∃ ndx x, a.atPos pos = some (ndx, x) ∧ (a.sorted.take a.used)[pos]? = some ndx ∧
      ndx < a.used ∧ a.Slot ndx x ∧ K (keyBytes x) := by
  have hlen := h.length_take
  obtain ⟨ndx, hndx⟩ : ∃ ndx, (a.sorted.take a.used)[pos]? = some ndx :=
    ⟨_, List.getElem?_eq_getElem (by omega)⟩
  have hlt : ndx < a.used :=
    List.mem_range.mp (h.perm.subset (List.mem_of_getElem? hndx))
  obtain ⟨x, hx, hk⟩ := h.live ndx hlt
  refine ⟨ndx, x, ?_, hndx, hlt, hx, hk⟩
  rw [List.getElem?_take_of_lt hpos] at hndx
  have hdata : a.data[ndx]? = some (some x) := hx
  simp [Arr.atPos, hndx, hdata]

theorem exists_pos (h : a.Ordered K) {ndx : Nat} {x : α} (hx : a.Live ndx x) :
    ∃ pos < a.used, a.atPos pos = some (ndx, x) := by
  have hmem : ndx ∈ a.sorted.take a.used := h.perm.symm.subset (List.mem_range.mpr hx.1)
  obtain ⟨pos, hpos⟩ := List.mem_iff_getElem?.mp hmem
  have hlt : pos < a.used := by
    have := (List.getElem?_eq_some_iff.mp hpos).1
    rwa [h.length_take] at this
  obtain ⟨ndx', x', hat, hs, -, hx', -⟩ := h.atPos hlt
  rw [hs] at hpos
  obtain rfl := Option.some.inj hpos
  obtain rfl := hx'.unique hx.2
  exact ⟨pos, hlt, hat⟩

theorem wf (h : a.Ordered K) : a.WF where
  used_le := h.used_le
  live i hi := by
    obtain ⟨x, hx, -⟩ := h.live i hi
    exact ⟨x, hx⟩
  index pos hpos := by
    obtain ⟨ndx, x, -, hs, hlt, -⟩ := h.atPos hpos
    rw [List.getElem?_take_of_lt hpos] at hs
    exact ⟨ndx, hlt, hs⟩

theorem compare_lt (h : a.Ordered K) {p q i j : Nat} {x y : α} (hpq : p < q) (hq : q < a.used)
    (hx : a.atPos p = some (i, x)) (hy : a.atPos q = some (j, y)) :
    bufferCaselessCompare (keyBytes x) (keyBytes y) < 0 := by
  obtain ⟨i', x', hx', hi, -, hsx, -⟩ := h.atPos (Nat.lt_trans hpq hq)
  obtain ⟨j', y', hy', hj, -, hsy, -⟩ := h.atPos hq
  rw [hx] at hx'
  rw [hy] at hy'
  obtain ⟨rfl, rfl⟩ := Prod.mk.inj (Option.some.inj hx')
  obtain ⟨rfl, rfl⟩ := Prod.mk.inj (Option.some.inj hy')
  obtain ⟨hpl, hi'⟩ := List.getElem?_eq_some_iff.mp hi
  obtain ⟨hql, hj'⟩ := List.getElem?_eq_some_iff.mp hj
  have hlt := List.pairwise_iff_getElem.mp h.increasing p q hpl hql hpq
  rw [hi', hj'] at hlt
  exact hlt x y hsx hsy

end Arr.Ordered

/-! ## The search -/

/-- The place of a key in the index: the elements in front of it are smaller, the ones behind it
larger, and the one at it is not smaller. -/
structure Place (a : Arr α) (key : Bytes) (t : Nat) : Prop where
  le : t ≤ a.used
  front : ∀ {pos ndx x}, pos < t → a.atPos pos = some (ndx, x) → 0 < compareKey key x
  behind : ∀ {pos ndx x}, t < pos → pos < a.used → a.atPos pos = some (ndx, x) →
    compareKey key x < 0
  here : ∀ {ndx x}, t < a.used → a.atPos t = some (ndx, x) → compareKey key x ≤ 0

theorem exists_place (hK : PreorderOn bufferCaselessCompare K) (h : a.Ordered K) {key : Bytes}
    (hkey : K key) : ∃ t, Place a key t := by
  classical
  have hex : ∃ t, t = a.used ∨
      t < a.used ∧ ∃ ndx x, a.atPos t = some (ndx, x) ∧ compareKey key x ≤ 0 := ⟨a.used, Or.inl rfl⟩
  have hmin := @Nat.find_min _ _ hex
  have hfind := Nat.find_spec hex
  generalize Nat.find hex = t at hmin hfind
  have hle : t ≤ a.used := by
    rcases hfind with h1 | ⟨h1, -⟩ <;> omega
  refine ⟨t, hle, ?_, ?_, ?_⟩
  · intro pos ndx x hpos hat
    by_contra hneg
    exact hmin hpos (Or.inr ⟨by omega, ndx, x, hat, by omega⟩)
  · intro pos ndx x hpos hused hat
    rcases hfind with h1 | ⟨ht, i, y, hy, hle⟩
    · omega
    · obtain ⟨i', y', hy', -, -, -, hky⟩ := h.atPos ht
      obtain ⟨j', x', hx', -, -, -, hkx⟩ := h.atPos hused
      rw [hy] at hy'
      rw [hat] at hx'
      obtain ⟨rfl, rfl⟩ := Prod.mk.inj (Option.some.inj hy')
      obtain ⟨rfl, rfl⟩ := Prod.mk.inj (Option.some.inj hx')
      exact hK.lt_of_le_of_lt hkey hky hkx hle (h.compare_lt hpos hused hy hat)
  · intro ndx x ht hat
    rcases hfind with h1 | ⟨-, i, y, hy, hle⟩
    · omega
    · rw [hat] at hy
      obtain ⟨rfl, rfl⟩ := Prod.mk.inj (Option.some.inj hy)
      exact hle

section Search

variable {key : Bytes} {t : Nat}

theorem searchStep_front (h : a.Ordered K) (hp : Place a key t) (i : Nat) {pos : Int}
    (hpos : pos < t) : searchStep a key i pos = some (none, pos + i) := by
  unfold searchStep
  split
  · rfl
  · next hneg =>
    have hle := hp.le
    rw [if_neg (by omega)]
    obtain ⟨ndx, x, hat, -⟩ := h.atPos (show pos.toNat < a.used by omega)
    have hfront := hp.front (show pos.toNat < t by omega) hat
    rw [hat]
    dsimp only
    rw [if_neg (by omega), if_neg (by omega)]

theorem searchStep_behind (h : a.Ordered K) (hp : Place a key t) (i : Nat) {pos : Int}
    (hpos : t < pos) : searchStep a key i pos = some (none, pos - i) := by
  unfold searchStep
  rw [if_neg (by omega)]
  split
  · rfl
  · obtain ⟨ndx, x, hat, -⟩ := h.atPos (show pos.toNat < a.used by omega)
    have hbehind := hp.behind (show t < pos.toNat by omega) (by omega) hat
    rw [hat]
    dsimp only
    rw [if_neg (by omega), if_pos hbehind]

/-- What is at the place: the index of an element with an equal key. -/
def Arr.foundAt (a : Arr α) (key : Bytes) (t : Nat) : Option Nat :=
  match a.atPos t with
  | some (ndx, x) => if t < a.used ∧ compareKey key x = 0 then some ndx else none
  | none => none

theorem foundAt_eq_some {ndx : Nat} : a.foundAt key t = some ndx ↔
    t < a.used ∧ ∃ x, a.atPos t = some (ndx, x) ∧ compareKey key x = 0 := by
  unfold Arr.foundAt
  split
  · next ndx' x hat =>
    rw [hat]
    constructor
    · intro h
      split at h
      · next hx =>
        obtain rfl := Option.some.inj h
        exact ⟨hx.1, x, rfl, hx.2⟩
      · cases h
    · rintro ⟨ht, x', hx', h0⟩
      obtain ⟨rfl, rfl⟩ := Prod.mk.inj (Option.some.inj hx')
      rw [if_pos ⟨ht, h0⟩]
  · next hat =>
    rw [hat]
    simp

theorem searchStep_here (h : a.Ordered K) (hp : Place a key t) (i : Nat) :
    searchStep a key i t =
      match a.foundAt key t with
      | some ndx => some (some ndx, (t : Int))
      | none => some (none, (t : Int) - i) := by
  unfold searchStep Arr.foundAt
  rw [if_neg (by omega), Int.toNat_natCast]
  by_cases ht : t < a.used
  · obtain ⟨ndx, x, hat, -⟩ := h.atPos ht
    have hhere := hp.here ht hat
    rw [if_neg (by omega), hat]
    dsimp only
    by_cases h0 : compareKey key x = 0
    · rw [if_pos h0, if_pos ⟨ht, h0⟩]
    · have hlt : compareKey key x < 0 := by omega
      rw [if_neg h0, if_pos hlt, if_neg (fun hx => h0 hx.2)]
  · rw [if_pos (by omega)]
    split
    · next ndx hndx =>
      exact absurd (foundAt_eq_some.mp hndx).1 ht
    · rfl

/-- How far in front of the place a search with the jump `i` may stand; a search for a key that is
there stays nearer. -/
def Arr.reach (a : Arr α) (key : Bytes) (t : Nat) (i : Nat) : Int :=
  if (a.foundAt key t).isSome then t - i + 1 else t - i

theorem searchStep_nearer (h : a.Ordered K) (hp : Place a key t) {i : Nat} {pos : Int}
    (hlo : a.reach key t (2 * i) ≤ pos) (hhi : pos < t + 2 * i) :
    (∃ ndx, a.foundAt key t = some ndx ∧ searchStep a key i pos = some (some ndx, (t : Int))) ∨
      ∃ pos', searchStep a key i pos = some (none, pos') ∧ a.reach key t i ≤ pos' ∧
        pos' < t + i := by
  have hreach : a.reach key t i ≤ a.reach key t (2 * i) + i := by
    unfold Arr.reach
    split <;> omega
  have hle : a.reach key t i ≤ t - i + 1 := by
    unfold Arr.reach
    split <;> omega
  rcases Int.lt_trichotomy pos t with hlt | rfl | hgt
  · exact Or.inr ⟨_, searchStep_front h hp i hlt, by omega, by omega⟩
  · have hhere := searchStep_here h hp i
    cases hf : a.foundAt key t with
    | some ndx =>
      rw [hf] at hhere
      exact Or.inl ⟨ndx, rfl, hhere⟩
    | none =>
      rw [hf] at hhere
      refine Or.inr ⟨_, hhere, ?_, by omega⟩
      simp [Arr.reach, hf]
  · exact Or.inr ⟨_, searchStep_behind h hp i hgt, by omega, by omega⟩

def SearchEnd (a : Arr α) (key : Bytes) (t : Nat) (r : Option Nat × Int) : Prop :=
  r.1 = a.foundAt key t ∧ (r.2 = t ∨ r.1 = none ∧ r.2 = (t : Int) - 1)

theorem searchFrom_zero (h : a.Ordered K) (hp : Place a key t) (fuel : Nat) {pos : Int}
    (hlo : a.reach key t 1 ≤ pos) (hhi : pos ≤ t) :
    ∃ r, searchFrom a key (fuel + 1) 0 pos = some r ∧ SearchEnd a key t r := by
  unfold searchFrom
  have hhere := searchStep_here h hp 0
  rcases Int.lt_or_eq_of_le hhi with hlt | rfl
  · have hnone : a.foundAt key t = none := by
      unfold Arr.reach at hlo
      split at hlo
      · omega
      · next hf => simpa using hf
    rw [searchStep_front h hp 0 hlt]
    refine ⟨_, if_pos rfl, hnone.symm, Or.inr ⟨rfl, ?_⟩⟩
    simp only [Arr.reach, hnone] at hlo
    simp at hlo ⊢
    omega
  · cases hf : a.foundAt key t with
    | some ndx =>
      rw [hf] at hhere
      rw [hhere]
      exact ⟨_, rfl, hf.symm, Or.inl rfl⟩
    | none =>
      rw [hf] at hhere
      rw [hhere]
      exact ⟨_, if_pos rfl, hf.symm, Or.inl (by simp)⟩

theorem searchFrom_place (h : a.Ordered K) (hp : Place a key t) :
    ∀ (k fuel : Nat) (pos : Int), 2 ^ k < fuel →
      a.reach key t (2 * 2 ^ k) ≤ pos → pos < t + 2 * (2 ^ k : Nat) →
        ∃ r, searchFrom a key fuel (2 ^ k) pos = some r ∧ SearchEnd a key t r := by
  intro k
  induction k with
  | zero =>
    intro fuel pos hfuel hlo hhi
    obtain ⟨fuel, rfl⟩ : ∃ n, fuel = n + 2 := ⟨fuel - 2, by simp at hfuel; omega⟩
    unfold searchFrom
    rcases searchStep_nearer h hp hlo hhi with ⟨ndx, hf, hstep⟩ | ⟨pos', hstep, hlo', hhi'⟩
    · rw [hstep]
      exact ⟨_, rfl, hf.symm, Or.inl rfl⟩
    · rw [hstep]
      exact searchFrom_zero h hp fuel hlo' (by simp at hhi'; omega)
  | succ k ih =>
    intro fuel pos hfuel hlo hhi
    have hpow : 2 ^ (k + 1) = 2 * 2 ^ k := by rw [Nat.pow_succ, Nat.mul_comm]
    have hpos : 0 < 2 ^ k := Nat.pow_pos (by decide)
    obtain ⟨fuel, rfl⟩ : ∃ n, fuel = n + 1 := ⟨fuel - 1, by omega⟩
    have hhalf : 2 ^ (k + 1) / 2 = 2 ^ k := by omega
    unfold searchFrom
    rcases searchStep_nearer h hp hlo hhi with ⟨ndx, hf, hstep⟩ | ⟨pos', hstep, hlo', hhi'⟩
    · rw [hstep]
      exact ⟨_, rfl, hf.symm, Or.inl rfl⟩
    · rw [hstep]
      dsimp only
      rw [if_neg (by omega), hhalf]
      rw [hpow] at hlo' hhi'
      exact ih fuel pos' (by omega) hlo' (by omega)

theorem arrayGetIndex_place (h : a.Ordered K) (hp : Place a key t) :
    ∃ r, arrayGetIndex a key = some r ∧ SearchEnd a key t r := by
  obtain ⟨k, hk⟩ := h.pow
  have hused := h.used_le_pow
  have hle := hp.le
  have hfound : (a.foundAt key t).isSome → t < a.used := by
    intro hf
    obtain ⟨ndx, hndx⟩ := Option.isSome_iff_exists.mp hf
    exact (foundAt_eq_some.mp hndx).1
  unfold arrayGetIndex
  cases k with
  | zero =>
    have hone : a.nextPowerOf2 = 1 := hk
    rw [hone]
    apply searchFrom_zero h hp
    · unfold Arr.reach
      split
      · next hf =>
        have := hfound hf
        simp
        omega
      · simp
        omega
    · simp
  | succ k =>
    have hpow : 2 ^ (k + 1) = 2 * 2 ^ k := by rw [Nat.pow_succ, Nat.mul_comm]
    have hpos : 0 < 2 ^ k := Nat.pow_pos (by decide)
    have hhalf : a.nextPowerOf2 / 2 = 2 ^ k := by omega
    rw [hhalf]
    apply searchFrom_place h hp k
    · omega
    · unfold Arr.reach
      split
      · next hf =>
        have := hfound hf
        omega
      · omega
    · omega

end Search

end Order

end Lighttpd
