import Lighttpd.ArrayElements

/-!
# Insertions stay inside the arrays

The search of `array.c` halves its step, so it ends at a place where an element can be inserted,
whatever the comparisons on its way say (`searchFrom_bounds`). So an insertion has a result in every
array that keeps its bounds (`Arr.Tidy`), also where the keys are in no order.
-/

namespace Lighttpd

open CLib

section Search

variable {α : Type} [DataUnset α] {a : Arr α}

theorem searchStep_moves (h : a.WF) (key : Bytes) (i : Nat) (pos : Int) :
    (∃ ndx, searchStep a key i pos = some (some ndx, pos)) ∨
      (searchStep a key i pos = some (none, pos + i) ∧ pos < a.used) ∨
        (searchStep a key i pos = some (none, pos - i) ∧ 0 ≤ pos) := by
  unfold searchStep
  by_cases hfront : pos < 0
  · rw [if_pos hfront]
    exact Or.inr (Or.inl ⟨rfl, by omega⟩)
  rw [if_neg hfront]
  by_cases hbehind : pos ≥ a.used
  · rw [if_pos hbehind]
    exact Or.inr (Or.inr ⟨rfl, by omega⟩)
  rw [if_neg hbehind]
  obtain ⟨ndx, x, hat, -, -⟩ := h.atPos (show pos.toNat < a.used by omega)
  rw [hat]
  dsimp only
  by_cases hequal : compareKey key x = 0
  · rw [if_pos hequal]
    exact Or.inl ⟨ndx, rfl⟩
  rw [if_neg hequal]
  by_cases hless : compareKey key x < 0
  · rw [if_pos hless]
    exact Or.inr (Or.inr ⟨rfl, by omega⟩)
  · rw [if_neg hless]
    exact Or.inr (Or.inl ⟨rfl, by omega⟩)

theorem searchFrom_moves (h : a.WF) {key : Bytes} {fuel i : Nat} {pos stop : Int}
    (hrun : searchFrom a key fuel i pos = some (none, stop)) : ∃ fuel' pos',
      (pos' = pos + i ∧ pos < a.used ∨ pos' = pos - i ∧ 0 ≤ pos) ∧
        if i = 0 then stop = pos' else searchFrom a key fuel' (i / 2) pos' = some (none, stop) := by
  cases fuel with
  | zero => cases hrun
  | succ fuel =>
    unfold searchFrom at hrun
    have hgoes : ∀ pos', searchStep a key i pos = some (none, pos') →
        if i = 0 then stop = pos' else searchFrom a key fuel (i / 2) pos' = some (none, stop) := by
      intro pos' hstep
      rw [hstep] at hrun
      dsimp only at hrun
      by_cases hzero : i = 0
      · rw [if_pos hzero] at hrun ⊢
        exact (Prod.mk.inj (Option.some.inj hrun)).2.symm
      · rw [if_neg hzero] at hrun ⊢
        exact hrun
    rcases searchStep_moves h key i pos with ⟨ndx, hfound⟩ | ⟨hup, hlt⟩ | ⟨hdown, hle⟩
    · rw [hfound] at hrun
      cases (Prod.mk.inj (Option.some.inj hrun)).1
    · exact ⟨fuel, _, Or.inl ⟨rfl, hlt⟩, hgoes _ hup⟩
    · exact ⟨fuel, _, Or.inr ⟨rfl, hle⟩, hgoes _ hdown⟩

theorem searchFrom_bounds (h : a.WF) {key : Bytes} (k : Nat) : ∀ {fuel : Nat} {pos stop : Int},
    searchFrom a key fuel (2 ^ k) pos = some (none, stop) → -2 * ((2 ^ k : Nat) : Int) ≤ pos →
      pos ≤ a.used - 1 + 2 * ((2 ^ k : Nat) : Int) → -1 ≤ stop ∧ stop ≤ a.used := by
  induction k with
  | zero =>
    intro fuel pos stop hrun hlow hhigh
    obtain ⟨fuel', pos', hpos', hmore⟩ := searchFrom_moves h hrun
    rw [if_neg (by decide)] at hmore
    obtain ⟨fuel₁, stop', hstop', hlast⟩ := searchFrom_moves h hmore
    rw [if_pos (by decide)] at hlast
    rw [Nat.pow_zero] at hpos' hlow hhigh
    rw [show 2 ^ 0 / 2 = 0 by decide] at hstop'
    omega
  | succ k ih =>
    intro fuel pos stop hrun hlow hhigh
    obtain ⟨fuel', pos', hpos', hmore⟩ := searchFrom_moves h hrun
    have hdouble : (2 : Nat) ^ (k + 1) = 2 * 2 ^ k := Nat.pow_succ'
    have hhalf : (2 : Nat) ^ (k + 1) / 2 = 2 ^ k := by omega
    rw [if_neg (Nat.two_pow_pos _).ne', hhalf] at hmore
    rw [hdouble] at hpos' hlow hhigh
    apply ih hmore
    · generalize 2 ^ k = step at hpos' hlow ⊢
      omega
    · generalize 2 ^ k = step at hpos' hhigh ⊢
      omega

theorem arrayGetIndex_bounds (h : a.WF) (hpow : ∃ k, a.nextPowerOf2 = 2 ^ k) {key : Bytes}
    {pos : Int} (hmiss : arrayGetIndex a key = some (none, pos)) : -1 ≤ pos ∧ pos ≤ a.used := by
  obtain ⟨k, hk⟩ := hpow
  unfold arrayGetIndex at hmiss
  cases k with
  | zero =>
    rw [hk] at hmiss
    obtain ⟨fuel', pos', hpos', hlast⟩ := searchFrom_moves h hmiss
    rw [if_pos (by decide)] at hlast
    rw [show 2 ^ 0 / 2 = 0 by decide] at hpos'
    omega
  | succ k =>
    have hdouble : (2 : Nat) ^ (k + 1) = 2 * 2 ^ k := Nat.pow_succ'
    have hhalf : (2 : Nat) ^ (k + 1) / 2 = 2 ^ k := by omega
    rw [hk, hhalf] at hmiss
    have hone : 1 ≤ 2 ^ k := Nat.one_le_two_pow
    apply searchFrom_bounds h k hmiss
    · generalize 2 ^ k = step
      omega
    · generalize 2 ^ k = step at hone ⊢
      omega

theorem insertNew_some (h : a.WF) (hpow : ∃ k, a.nextPowerOf2 = 2 ^ k) {x : α} {pos : Int}
    (hmiss : arrayGetIndex a (DataUnset.key x).bytes = some (none, pos)) : ∃ a',
      insertNew a x pos = some a' ∧ ∃ k, a'.nextPowerOf2 = 2 ^ k := by
  obtain ⟨hlow, hhigh⟩ := arrayGetIndex_bounds h hpow hmiss
  obtain ⟨hused, hsorted, hsame, hroom, hslot⟩ := arrayGrow_spec h
  have hplace : ∃ p, insertPos { arrayGrow a with
      data := (arrayGrow a).data.set (arrayGrow a).used (some x) } (DataUnset.key x).bytes
        (arrayGrow a).used pos = some p ∧ 0 ≤ p ∧ p ≤ (arrayGrow a).used := by
    unfold insertPos
    rw [hused]
    by_cases hend : pos = (a.used : Nat)
    · rw [if_pos hend]
      exact ⟨pos, rfl, by omega, by omega⟩
    rw [if_neg hend]
    by_cases hfront : pos < 0
    · rw [if_pos hfront]
      exact ⟨pos + 1, rfl, by omega, by omega⟩
    rw [if_neg hfront]
    obtain ⟨ndx, hndx, hat⟩ := h.index pos.toNat (by omega)
    obtain ⟨y, hy⟩ := h.live ndx hndx
    have hget : ((arrayGrow a).data.set a.used (some x))[ndx]? = some (some y) := by
      rw [List.getElem?_set_ne (by omega)]
      exact hslot.mpr hy
    have hfound : Arr.atPos { arrayGrow a with
        data := (arrayGrow a).data.set a.used (some x) } pos.toNat = some (ndx, y) := by
      simp only [Arr.atPos, hsorted, hat, hget, Option.bind_eq_bind, Option.bind_some]
    rw [hfound]
    dsimp only
    split
    · exact ⟨_, rfl, by omega, by omega⟩
    · exact ⟨_, rfl, by omega, by omega⟩
  obtain ⟨p, hp, hp₀, hp₁⟩ := hplace
  unfold insertNew
  simp only [hp]
  rw [if_pos ⟨hp₀, hp₁⟩]
  refine ⟨_, rfl, ?_⟩
  obtain ⟨k, hk⟩ := hpow
  unfold insertAt
  dsimp only
  rw [hsame, hk]
  split
  · exact ⟨k + 1, rfl⟩
  · exact ⟨k, rfl⟩

end Search

/-! ## Arrays of strings -/

structure DataString.Plain (ds : DataString) : Prop where
  named : ds.isIndexKey = false
  response : ds.response = true

/-- The array keeps its bounds, and all that was ever in it are fields. -/
structure Arr.Tidy (headers : Arr DataString) : Prop where
  wf : headers.WF
  pow : ∃ k, headers.nextPowerOf2 = 2 ^ k
  plain : ∀ {i ds}, headers.Slot i ds → ds.Plain

section Strings

variable [Malloc] {headers headers' : Arr DataString} {ds : DataString}

omit [Malloc] in
theorem Arr.Tidy.setElement (h : headers.Tidy) {ndx : Nat} {y : DataString}
    (hlive : headers.Live ndx y) (hds : ds.Plain) :
    (headers.setElement ndx ds).Tidy := by
  refine ⟨wf_setElement h.wf, h.pow, ?_⟩
  intro i z hz
  rcases (slot_setElement hlive.2.lt).mp hz with ⟨-, rfl⟩ | ⟨-, hold⟩
  · exact hds
  · exact h.plain hold

theorem Arr.Tidy.unused (h : headers.Tidy) (addr : Nat) :
    (arrayGetUnusedElement headers .string).2.Tidy ∧
      (arrayGetUnusedElement headers .string).2.elements = headers.elements ∧
      ((arrayGetUnusedElement headers .string).1.getD (dataResponseInit addr)).Plain := by
  generalize htake : arrayGetUnusedElement headers .string = taken
  obtain ⟨hsame, hsome⟩ := arrayGetUnusedElement_spec .string htake
  obtain ⟨old, rest⟩ := taken
  dsimp only
  cases old with
  | none =>
    obtain rfl : rest = headers := hsame rfl
    exact ⟨h, rfl, rfl, rfl⟩
  | some y =>
    have htaken := hsome y rfl
    obtain ⟨i, -, hslot, -⟩ := htaken.slots
    refine ⟨⟨htaken.wf h.wf, ?_, ?_⟩, htaken.elements h.wf, h.plain hslot⟩
    · rw [htaken.nextPowerOf2]
      exact h.pow
    · intro k z hz
      obtain ⟨j, hold, -⟩ := htaken.slot hz
      exact h.plain hold

theorem Arr.Tidy.insert (h : headers.Tidy) (hkey : ds.key.used ≠ 0)
    (hplain : ds.Plain) : ∃ headers', arrayInsertUnique headers ds = some headers' ∧
      headers'.Tidy ∧ Inserted headers ds headers' := by
  have hrun : ∃ headers', arrayInsertUnique headers ds = some headers' ∧
      ∃ k, headers'.nextPowerOf2 = 2 ^ k := by
    unfold arrayInsertUnique
    rw [ensureKey_named hkey hplain.named]
    dsimp only
    obtain ⟨⟨found, pos⟩, hindex, hfound⟩ := arrayGetIndex_spec h.wf (DataUnset.key ds).bytes
    rw [hindex]
    cases found with
    | some ndx =>
      obtain ⟨y, hlive, -⟩ := hfound ndx rfl
      have hslot : headers.data[ndx]? = some (some y) := hlive.2
      unfold insertMerged
      simp only [hslot]
      exact ⟨_, rfl, h.pow⟩
    | none => exact insertNew_some h.wf h.pow hindex
  obtain ⟨headers', hsome, hpow⟩ := hrun
  have hinserted := arrayInsertUnique_spec h.wf hkey hplain.named hsome
  refine ⟨headers', hsome, ?_, hinserted⟩
  cases hinserted with
  | @merged _ _ y _ live _ =>
    have hkept := h.plain live.2
    exact h.setElement live ⟨hkept.named, hkept.response⟩
  | appended _ _ slot wf =>
    refine ⟨wf, hpow, ?_⟩
    intro i z hz
    rcases slot.mp hz with ⟨-, rfl⟩ | ⟨-, hold⟩
    · exact hplain
    · exact h.plain hold

theorem Arr.Tidy.replace (h : headers.Tidy) (hkey : ds.key.used ≠ 0)
    (hplain : ds.Plain) : ∃ headers' old,
      arrayReplace headers ds = some (headers', old) ∧ headers'.Tidy ∧
        ((∃ pre y post, compareKey (DataUnset.key ds).bytes y = 0 ∧
          headers.elements = pre ++ y :: post ∧ headers'.elements = pre ++ ds :: post) ∨
            headers'.elements = headers.elements ++ [ds]) := by
  obtain ⟨⟨found, pos⟩, hindex, hfound⟩ := arrayGetIndex_spec h.wf (DataUnset.key ds).bytes
  unfold arrayReplace
  rw [hindex]
  cases found with
  | some ndx =>
    obtain ⟨y, hlive, hequal⟩ := hfound ndx rfl
    have hslot : headers.data[ndx]? = some (some y) := hlive.2
    simp only [hslot]
    have hlt := (List.getElem?_eq_some_iff.mp ((Arr.getElem?_elements h.wf).mpr hlive)).1
    have hsplit := eq_append_of_live h.wf hlive
    refine ⟨_, _, rfl, h.setElement hlive hplain, Or.inl ⟨_, y, _, hequal, hsplit, ?_⟩⟩
    rw [elements_setElement h.wf hlive, List.set_eq_take_append_cons_drop, if_pos hlt]
  | none =>
    obtain ⟨headers', hrun, htidy, hinserted⟩ := h.insert hkey hplain
    simp only [hrun, Option.map_some]
    refine ⟨_, _, rfl, htidy, Or.inr ?_⟩
    cases hinserted with
    | merged found live equal =>
      rw [hindex] at found
      nomatch (Prod.mk.inj (Option.some.inj found)).1
    | appended _ used slot wf => exact elements_appended h.wf used slot wf

end Strings

end Lighttpd
