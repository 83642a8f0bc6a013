import Lighttpd.ConfigfileHistory

/-!
# Conditions after the address was replaced

`clean_cond_cache` clears the results that are marked as being about the remote address. What was
decided by such a result, in a block that is nested in its block or follows it as an `else` branch,
is marked otherwise and stays. So the blocks asked for afterwards have the results of a cleared
cache exactly if the results that stay are right, and none of them hides a branch that holds from
the ones behind it (`refreshed_iff`).
-/

namespace Lighttpd

section Meaning

variable (cfg : ConfigContext) (rules : Nat → Bool) (known : CompKey → Bool)

def BlockMatches (i : Nat) : Prop :=
  ∃ dc, cfg.conds[i]? = some dc ∧ known dc.comp = true ∧ rules i = true

/-- The block holds, whatever is cached: it matches, it is nested in a block that holds, if in any,
and no branch in front of it does. -/
def BlockHolds (i : Nat) : Prop :=
  BlockMatches cfg rules known i ∧
    (∀ p, (_ : p < i) → (∃ dc, cfg.conds[i]? = some dc ∧ dc.parent = some p) → p ≠ 0 →
      BlockHolds p) ∧
    ∀ j, (_ : j < i) → Earlier cfg j i → ¬ BlockHolds j
termination_by i

/-- Nothing is decided from `j` on up to the block `i`. -/
def OpenTo (s : CondCache) (j i : Nat) : Prop :=
  s.result j = .unset ∧ ∀ m, Earlier cfg j m → m = i ∨ Earlier cfg m i → s.result m = .unset

/-- The results of the first `n` blocks are right, and an undecided block that matches is found to be
behind a branch that holds. -/
structure RightResults (n : Nat) (s : CondCache) : Prop where
  flags : s.valid = known
  decided : ∀ i < n, s.result i ≠ .unset → (s.result i = .true ↔ BlockHolds cfg rules known i)
  undecided : ∀ i < n, s.result i = .unset → BlockMatches cfg rules known i → ∀ j,
    Earlier cfg j i → BlockHolds cfg rules known j → OpenTo cfg s j i

end Meaning

section Meaning

variable {cfg : ConfigContext} {rules : Nat → Bool} {known : CompKey → Bool} {i j k n p : Nat}
  {s s' s'' : CondCache} {dc : DataConfig}

theorem blockHolds_iff (hdc : cfg.conds[i]? = some dc) : BlockHolds cfg rules known i ↔
    (known dc.comp = true ∧ rules i = true) ∧
      (∀ p, dc.parent = some p → p ≠ 0 → BlockHolds cfg rules known p) ∧
      ∀ j, Earlier cfg j i → ¬ BlockHolds cfg rules known j := by
  have hmatches : BlockMatches cfg rules known i ↔ known dc.comp = true ∧ rules i = true := by
    constructor
    · rintro ⟨dc', hdc', hfits⟩
      obtain rfl := Option.some.inj (hdc.symm.trans hdc')
      exact hfits
    · exact fun hfits => ⟨dc, hdc, hfits⟩
  rw [BlockHolds, hmatches]
  constructor
  · rintro ⟨hfits, hparent, hearlier⟩
    exact ⟨hfits, fun p hp => hparent p (cfg.parent_lt hdc hp) ⟨dc, hdc, hp⟩,
      fun j hj => hearlier j hj.lt hj⟩
  · rintro ⟨hfits, hparent, hearlier⟩
    refine ⟨hfits, ?_, fun j _ => hearlier j⟩
    rintro p - ⟨dc', hdc', hp⟩
    obtain rfl := Option.some.inj (hdc.symm.trans hdc')
    exact hparent p hp

theorem BlockHolds.not_behind (hi : BlockHolds cfg rules known i) (h : Earlier cfg i j) :
    ¬ BlockHolds cfg rules known j := by
  intro hj
  have hget := List.getElem?_eq_getElem h.lt_length
  exact ((blockHolds_iff hget).mp hj).2.2 i h hi

theorem BlockHolds.unique (hi : BlockHolds cfg rules known i) (hj : BlockHolds cfg rules known j)
    (hik : Earlier cfg i k) (hjk : Earlier cfg j k) : i = j := by
  rcases hik.total_front hjk with heq | hij | hji
  · exact heq
  · exact absurd hj (hi.not_behind hij)
  · exact absurd hi (hj.not_behind hji)

end Meaning

section Check

variable (cfg : ConfigContext) (rules : Nat → Bool) (known : CompKey → Bool)

def ParentHolds (i : Nat) : Prop :=
  ∀ dc p, cfg.conds[i]? = some dc → dc.parent = some p → p ≠ 0 → BlockHolds cfg rules known p

/-- From `b` on nothing is changed but the branches behind one that is found to hold. -/
def ChangesBehind (s s' : CondCache) (i b : Nat) : Prop :=
  ∀ k, b ≤ k → s'.result k = s.result k ∨ s'.result k = .false ∧
    ∃ t, t ≤ i ∧ Earlier cfg t k ∧ BlockHolds cfg rules known t ∧ OpenTo cfg s t i

/-- The branch `j` is known to hold, and the branches behind it not to. -/
def FoundToHold (s : CondCache) (j : Nat) : Prop :=
  s.result j = .true ∧ ∀ k, Earlier cfg j k → s.result k = .false

structure KeepsRight (n : Nat) (s s' : CondCache) : Prop where
  right : RightResults cfg rules known n s'
  decided : ∀ k, s.result k ≠ .unset → s'.result k ≠ .unset

/-- What the check of the block `i` leaves, before its own result `r` is stored. The branches in
front of a decided one are not looked at. -/
structure FoundRight (n i : Nat) (r : CondResult) (s s' : CondCache) : Prop where
  keeps : KeepsRight cfg rules known n s s'
  changes : ChangesBehind cfg rules known s s' i i
  holds : r = .true ↔ BlockMatches cfg rules known i ∧ ParentHolds cfg rules known i ∧
    ∀ j, Earlier cfg j i → BlockHolds cfg rules known j → ¬ OpenTo cfg s j i
  front : ∀ j, BlockHolds cfg rules known j → Earlier cfg j i → OpenTo cfg s j i →
    FoundToHold cfg s' j
  unset : r = .unset → s'.result i = .unset

structure CheckedRight (n i : Nat) (r : CondResult) (s s' : CondCache) : Prop where
  keeps : KeepsRight cfg rules known n s s'
  changes : ChangesBehind cfg rules known s s' i (i + 1)
  holds : r = .true ↔ BlockHolds cfg rules known i
  front : ∀ j, BlockHolds cfg rules known j → j = i ∨ Earlier cfg j i → OpenTo cfg s j i →
    FoundToHold cfg s' j
  result : s'.result i = r

end Check

section Check

variable {cfg : ConfigContext} {rules : Nat → Bool} {known : CompKey → Bool} {i j k n p : Nat}
  {s s' s'' : CondCache} {dc : DataConfig} {r : CondResult}

theorem parentHolds_iff (hdc : cfg.conds[i]? = some dc) : ParentHolds cfg rules known i ↔
    ∀ p, dc.parent = some p → p ≠ 0 → BlockHolds cfg rules known p := by
  constructor
  · exact fun h p => h dc p hdc
  · intro h dc' p hdc'
    obtain rfl := Option.some.inj (hdc.symm.trans hdc')
    exact h p

theorem BlockHolds.parentHolds (h : BlockHolds cfg rules known j) (hji : Earlier cfg j i) :
    ParentHolds cfg rules known i := by
  intro dc p hdc hp hne
  have hget := List.getElem?_eq_getElem (Nat.lt_trans hji.lt hji.lt_length)
  exact ((blockHolds_iff hget).mp h).2.1 p ((hji.parent_eq hget hdc).trans hp) hne

theorem Earlier.parent_lt (h : Earlier cfg j i) (hdc : cfg.conds[i]? = some dc)
    (hp : dc.parent = some p) : p < j := by
  have hget := List.getElem?_eq_getElem (Nat.lt_trans h.lt h.lt_length)
  exact cfg.parent_lt hget ((h.parent_eq hget hdc).trans hp)

theorem OpenTo.of_unset (h : OpenTo cfg s' j i)
    (hd : ∀ m, s'.result m = .unset → s.result m = .unset) : OpenTo cfg s j i :=
  ⟨hd j h.1, fun m hjm hmi => hd m (h.2 m hjm hmi)⟩

theorem KeepsRight.unset (h : KeepsRight cfg rules known n s s') (m : Nat)
    (hm : s'.result m = .unset) : s.result m = .unset := by
  by_contra hne
  exact h.decided m hne hm

theorem KeepsRight.trans (h : KeepsRight cfg rules known n s s')
    (h' : KeepsRight cfg rules known n s' s'') : KeepsRight cfg rules known n s s'' :=
  ⟨h'.right, fun k hk => h'.decided k (h.decided k hk)⟩

theorem OpenTo.front (h : OpenTo cfg s j k) (hik : Earlier cfg i k) : OpenTo cfg s j i := by
  refine ⟨h.1, fun m hjm hmi => h.2 m hjm (Or.inr ?_)⟩
  rcases hmi with rfl | hmi
  · exact hik
  · exact hmi.trans hik

theorem OpenTo.self (h : s.result i = .unset) : OpenTo cfg s i i := by
  refine ⟨h, fun m him hmi => ?_⟩
  rcases hmi with rfl | hmi
  · exact absurd him.lt (Nat.lt_irrefl _)
  · exact absurd (him.lt.trans hmi.lt) (Nat.lt_irrefl _)

theorem RightResults.holds_iff (h : RightResults cfg rules known n s) (hi : i < n)
    (hdc : cfg.conds[i]? = some dc) (hunset : s.result i = .unset) :
    (BlockMatches cfg rules known i ∧ ParentHolds cfg rules known i ∧
      ∀ j, Earlier cfg j i → BlockHolds cfg rules known j → ¬ OpenTo cfg s j i) ↔
      BlockHolds cfg rules known i := by
  rw [blockHolds_iff hdc, parentHolds_iff hdc]
  constructor
  · rintro ⟨⟨dc', hdc', hfits⟩, hparent, hearlier⟩
    obtain rfl := Option.some.inj (hdc.symm.trans hdc')
    refine ⟨hfits, hparent, fun j hj hholds => hearlier j hj hholds ?_⟩
    exact h.undecided i hi hunset ⟨dc, hdc, hfits⟩ j hj hholds
  · rintro ⟨hfits, hparent, hearlier⟩
    exact ⟨⟨dc, hdc, hfits⟩, hparent, fun j hj hholds => absurd hholds (hearlier j hj)⟩

theorem FoundRight.stored_true (h : FoundRight cfg rules known n i .true s s')
    (hi : s.result i = .unset) (hholds : BlockHolds cfg rules known i)
    (hself : s''.result i = .true) (hbehind : ∀ k, Earlier cfg i k → s''.result k = .false)
    (hother : ∀ k, ¬ Earlier cfg i k → k ≠ i → s''.result k = s'.result k)
    (hvalid : s''.valid = s'.valid) : CheckedRight cfg rules known n i .true s s'' where
  keeps := by
    refine ⟨⟨hvalid.trans h.keeps.right.flags, ?_, ?_⟩, ?_⟩
    · intro k hk hne
      by_cases hik : Earlier cfg i k
      · rw [hbehind k hik]
        exact iff_of_false (by simp) (hholds.not_behind hik)
      · by_cases hki : k = i
        · subst hki
          exact iff_of_true hself hholds
        · rw [hother k hik hki] at hne ⊢
          exact h.keeps.right.decided k hk hne
    · intro k hk hunset hfits j hjk hj
      have hik : ¬ Earlier cfg i k := by
        intro hik
        rw [hbehind k hik] at hunset
        cases hunset
      have hki : k ≠ i := by
        rintro rfl
        rw [hself] at hunset
        cases hunset
      rw [hother k hik hki] at hunset
      -- nothing in front of `k` is touched
      have hfront : ∀ m, m = k ∨ Earlier cfg m k → s''.result m = s'.result m := by
        rintro m (rfl | hmk)
        · exact hother m hik hki
        · refine hother m (fun him => hik (him.trans hmk)) ?_
          rintro rfl
          exact hik hmk
      have hopen := h.keeps.right.undecided k hk hunset hfits j hjk hj
      refine ⟨(hfront j (Or.inr hjk)).trans hopen.1, fun m hjm hmk => ?_⟩
      exact (hfront m hmk).trans (hopen.2 m hjm hmk)
    · intro k hk
      by_cases hik : Earlier cfg i k
      · rw [hbehind k hik]
        simp
      · by_cases hki : k = i
        · rw [hki, hself]
          simp
        · rw [hother k hik hki]
          exact h.keeps.decided k hk
  changes k hk := by
    by_cases hik : Earlier cfg i k
    · exact Or.inr ⟨hbehind k hik, i, Nat.le_refl i, hik, hholds, .self hi⟩
    · rw [hother k hik (by omega)]
      exact h.changes k (by omega)
  holds := iff_of_true rfl hholds
  front := by
    rintro j hj (rfl | hji) -
    · exact ⟨hself, hbehind⟩
    · exact absurd hholds (hj.not_behind hji)
  result := hself

theorem FoundRight.stored_false (h : FoundRight cfg rules known n i .false s s')
    (hholds : ¬ BlockHolds cfg rules known i) (hself : s''.result i = .false)
    (hother : ∀ k, k ≠ i → s''.result k = s'.result k) (hvalid : s''.valid = s'.valid) :
    CheckedRight cfg rules known n i .false s s'' where
  keeps := by
    refine ⟨⟨hvalid.trans h.keeps.right.flags, ?_, ?_⟩, ?_⟩
    · intro k hk hne
      by_cases hki : k = i
      · rw [hki, hself]
        exact iff_of_false (by simp) hholds
      · rw [hother k hki] at hne ⊢
        exact h.keeps.right.decided k hk hne
    · intro k hk hunset hfits j hjk hj
      have hki : k ≠ i := by
        rintro rfl
        rw [hself] at hunset
        cases hunset
      rw [hother k hki] at hunset
      have hopen := h.keeps.right.undecided k hk hunset hfits j hjk hj
      have hji : j ≠ i := by
        rintro rfl
        exact hholds hj
      refine ⟨(hother j hji).trans hopen.1, fun m hjm hmk => ?_⟩
      by_cases hmi : m = i
      · subst hmi
        -- the branches in front of `i` were looked at, so `j` is decided
        have hmk' := hmk.resolve_left (Ne.symm hki)
        have hfound := h.front j hj hjm ((hopen.front hmk').of_unset h.keeps.unset)
        exact absurd (hfound.1.symm.trans hopen.1) (by simp)
      · exact (hother m hmi).trans (hopen.2 m hjm hmk)
    · intro k hk
      by_cases hki : k = i
      · rw [hki, hself]
        simp
      · rw [hother k hki]
        exact h.keeps.decided k hk
  changes k hk := by
    rw [hother k (by omega)]
    exact h.changes k (by omega)
  holds := iff_of_false (by simp) hholds
  front := by
    rintro j hj (rfl | hji) hopen
    · exact absurd hj hholds
    · obtain ⟨htrue, hbehind⟩ := h.front j hj hji hopen
      refine ⟨(hother j (Nat.ne_of_lt hji.lt)).trans htrue, fun k hjk => ?_⟩
      by_cases hki : k = i
      · rw [hki, hself]
      · exact (hother k hki).trans (hbehind k hjk)
  result := hself

theorem FoundRight.stored_unset (h : FoundRight cfg rules known n i .unset s s')
    (hholds : ¬ BlockHolds cfg rules known i) (hsame : ∀ k, s''.result k = s'.result k)
    (hvalid : s''.valid = s'.valid) : CheckedRight cfg rules known n i .unset s s'' := by
  have hresult : s''.result = s'.result := funext hsame
  have hright := h.keeps.right
  refine ⟨⟨⟨hvalid.trans hright.flags, ?_, ?_⟩, ?_⟩, ?_, iff_of_false (by simp) hholds, ?_, ?_⟩
  · rw [hresult]
    exact hright.decided
  · unfold OpenTo
    rw [hresult]
    exact hright.undecided
  · rw [hresult]
    exact h.keeps.decided
  · intro k hk
    rw [hresult]
    exact h.changes k (by omega)
  · rintro j hj (rfl | hji) hopen
    · exact absurd hj hholds
    · unfold FoundToHold
      rw [hresult]
      exact h.front j hj hji hopen
  · rw [hresult]
    exact h.unset rfl

theorem FoundRight.stored (h : FoundRight cfg rules known n i r s s') (hi : s.result i = .unset)
    (hin : i < n) (hright : RightResults cfg rules known n s) (hdc : cfg.conds[i]? = some dc) :
    ∃ s'', storeResult cfg.conds s' i dc r = some s'' ∧ CheckedRight cfg rules known n i r s s'' := by
  have hholds := h.holds.trans (hright.holds_iff hin hdc hi)
  have hlt := (List.getElem?_eq_some_iff.mp hdc).1
  cases r with
  | true =>
    obtain ⟨js, hjs, hmem⟩ := @branchesBehind_spec cfg cfg.conds.length i hlt (by omega)
    have hstore : storeResult cfg.conds s' i dc .true =
        some (remainsToFalse (s'.store i dc .true) js) := by
      unfold storeResult
      dsimp only
      rw [if_pos rfl, hjs]
      rfl
    refine ⟨_, hstore, h.stored_true hi (hholds.mp rfl) ?_ ?_ ?_ ?_⟩
    · rw [remainsToFalse_result, if_neg (fun hin => absurd ((hmem i).mp hin).lt (Nat.lt_irrefl i))]
      exact if_pos rfl
    · intro k hik
      rw [remainsToFalse_result, if_pos ((hmem k).mpr hik)]
    · intro k hik hki
      rw [remainsToFalse_result, if_neg (fun hin => hik ((hmem k).mp hin))]
      exact if_neg hki
    · exact remainsToFalse_valid js _
  | false =>
    refine ⟨_, storeResult_ne_true _ _ _ _ (by simp), h.stored_false ?_ (if_pos rfl) ?_ rfl⟩
    · exact fun hi => absurd (hholds.mpr hi) (by simp)
    · exact fun k hki => if_neg hki
  | unset =>
    refine ⟨_, storeResult_ne_true _ _ _ _ (by simp), h.stored_unset ?_ ?_ rfl⟩
    · exact fun hi => absurd (hholds.mpr hi) (by simp)
    · intro k
      dsimp only [CondCache.store, CondCache.setResult]
      split
      · next hki => rw [hki, h.unset rfl]
      · rfl

section Nocache

variable {cached : CondCache → Nat → Option (CondResult × CondCache)}
  (ih : ∀ p < i, ∀ s, RightResults cfg rules known n s →
    ∃ r s', cached s p = some (r, s') ∧ CheckedRight cfg rules known n p r s s')

include ih

theorem checkParent_right (h : RightResults cfg rules known n s) (hdc : cfg.conds[i]? = some dc) :
    ∃ r s', checkParent cached s dc = some (r, s') ∧ KeepsRight cfg rules known n s s' ∧
      (r = .true ↔ ParentHolds cfg rules known i) ∧
      (∀ k, k = i ∨ Earlier cfg k i → s'.result k = s.result k) ∧
      ChangesBehind cfg rules known s s' i i := by
  rw [parentHolds_iff hdc]
  unfold checkParent
  have hsame : KeepsRight cfg rules known n s s := ⟨h, fun _ hk => hk⟩
  cases hp : dc.parent with
  | none =>
    exact ⟨_, _, rfl, hsame, iff_of_true rfl (by simp), fun _ _ => rfl, fun _ _ => Or.inl rfl⟩
  | some p =>
    dsimp only
    by_cases hp0 : p = 0
    · rw [if_neg (by simpa using hp0)]
      refine ⟨_, _, rfl, hsame, iff_of_true rfl ?_, fun _ _ => rfl, fun _ _ => Or.inl rfl⟩
      intro p' hp' hne
      exact absurd ((Option.some.inj hp').symm.trans hp0) hne
    · rw [if_pos hp0]
      have hlt := cfg.parent_lt hdc hp
      obtain ⟨r, s', hr, hchecked⟩ := ih p hlt s h
      -- a branch found on the way is in front of a block of an outer chain
      have houter : ∀ {t}, t ≤ p → ¬ Earlier cfg t i := by
        intro t ht hti
        exact absurd (hti.parent_lt hdc hp) (by omega)
      refine ⟨r, s', hr, hchecked.keeps, ?_, ?_, ?_⟩
      · rw [hchecked.holds]
        constructor
        · intro hholds p' hp' _
          obtain rfl := Option.some.inj hp'
          exact hholds
        · exact fun hall => hall p rfl hp0
      · intro k hk
        have hpk : p < k := by
          rcases hk with rfl | hki
          · exact hlt
          · exact hki.parent_lt hdc hp
        rcases hchecked.changes k hpk with heq | ⟨-, t, ht, htk, -, -⟩
        · exact heq
        · refine absurd ?_ (houter ht)
          rcases hk with rfl | hki
          · exact htk
          · exact htk.trans hki
      · intro k hk
        rcases hchecked.changes k (Nat.lt_of_lt_of_le hlt hk) with heq | ⟨hfalse, t, ht, htk, hholds, hopen⟩
        · exact Or.inl heq
        · refine Or.inr ⟨hfalse, t, by omega, htk, hholds, hopen.1, fun m htm hmi => ?_⟩
          refine absurd ?_ (houter ht)
          rcases hmi with rfl | hmi
          · exact htm
          · exact htm.trans hmi

theorem checkPrev_right (h : RightResults cfg rules known n s) (hdc : cfg.conds[i]? = some dc)
    (hi : s.result i = .unset) :
    ∃ s', checkPrev cached s dc = some s' ∧ KeepsRight cfg rules known n s s' ∧
      ChangesBehind cfg rules known s s' i i ∧
      ∀ j, BlockHolds cfg rules known j → Earlier cfg j i → OpenTo cfg s j i →
        FoundToHold cfg s' j := by
  unfold checkPrev
  cases hp : dc.prev with
  | none =>
    refine ⟨s, rfl, ⟨h, fun _ hk => hk⟩, fun _ _ => Or.inl rfl, fun j _ hji => ?_⟩
    obtain ⟨p, ⟨dc', hdc', hp'⟩, -⟩ := earlier_iff_prev.mp hji
    obtain rfl := Option.some.inj (hdc.symm.trans hdc')
    rw [hp] at hp'
    cases hp'
  | some p =>
    have hprev : IsPrev cfg.conds p i := ⟨dc, hdc, hp⟩
    have hlt := cfg.prev_lt hprev
    obtain ⟨r, s', hr, hchecked⟩ := ih p hlt s h
    have hmem : ∀ {m}, Earlier cfg m i → m = p ∨ Earlier cfg m p := by
      intro m hm
      obtain ⟨p', hp', hm⟩ := earlier_iff_prev.mp hm
      obtain rfl := hprev.unique hp'
      exact hm
    refine ⟨s', by simp [hr], hchecked.keeps, ?_, ?_⟩
    · intro k hk
      rcases hchecked.changes k (Nat.lt_of_lt_of_le hlt hk) with heq | ⟨hfalse, t, ht, htk, hholds, hopen⟩
      · exact Or.inl heq
      · refine Or.inr ⟨hfalse, t, by omega, htk, hholds, hopen.1, fun m htm hmi => ?_⟩
        rcases hmi with rfl | hmi
        · exact hi
        · exact hopen.2 m htm (hmem hmi)
    · intro j hj hji hopen
      refine hchecked.front j hj (hmem hji) ⟨hopen.1, fun m hjm hmp => hopen.2 m hjm (Or.inr ?_)⟩
      exact earlier_iff_prev.mpr ⟨p, hprev, hmp⟩

theorem configCheckCondNocache_right (h : RightResults cfg rules known n s)
    (hdc : cfg.conds[i]? = some dc) (hi : s.result i = .unset) :
    ∃ r s', configCheckCondNocache rules cached s i dc = some (r, s') ∧
      FoundRight cfg rules known n i r s s' := by
  obtain ⟨rp, s₁, hparent, hkeeps₁, hrp, hchain, hchanges₁⟩ := checkParent_right ih h hdc
  unfold configCheckCondNocache
  rw [hparent]
  -- the block is not reached if the parent is not known to hold
  have hstop : ∀ r, r ≠ .true → ¬ ParentHolds cfg rules known i →
      FoundRight cfg rules known n i r s s₁ := by
    intro r hr hno
    refine ⟨hkeeps₁, hchanges₁, iff_of_false hr (fun hholds => hno hholds.2.1), ?_, fun _ => ?_⟩
    · exact fun j hj hji => absurd (hj.parentHolds hji) hno
    · exact (hchain i (Or.inl rfl)).trans hi
  cases rp with
  | false => exact ⟨_, _, rfl, hstop _ (by simp) (fun hyes => absurd (hrp.mpr hyes) (by simp))⟩
  | unset => exact ⟨_, _, rfl, hstop _ (by simp) (fun hyes => absurd (hrp.mpr hyes) (by simp))⟩
  | true =>
    have hparents := hrp.mp rfl
    have hi₁ : s₁.result i = .unset := (hchain i (Or.inl rfl)).trans hi
    obtain ⟨s₂, hprev, hkeeps₂, hchanges₂, hfront₂⟩ := checkPrev_right ih hkeeps₁.right hdc hi₁
    dsimp only
    rw [hprev]
    have hkeeps := hkeeps₁.trans hkeeps₂
    have hchanges : ChangesBehind cfg rules known s s₂ i i := by
      intro k hk
      rcases hchanges₂ k hk with heq | ⟨hfalse, t, ht, htk, hholds, hopen⟩
      · rw [heq]
        exact hchanges₁ k hk
      · exact Or.inr ⟨hfalse, t, ht, htk, hholds, hopen.of_unset hkeeps₁.unset⟩
    have hfront : ∀ j, BlockHolds cfg rules known j → Earlier cfg j i → OpenTo cfg s j i →
        FoundToHold cfg s₂ j := by
      intro j hj hji hopen
      refine hfront₂ j hj hji ⟨(hchain j (Or.inr hji)).trans hopen.1, fun m hjm hmi => ?_⟩
      exact (hchain m hmi).trans (hopen.2 m hjm hmi)
    dsimp only
    split
    · next hf =>
      refine ⟨_, _, rfl, hkeeps, hchanges, iff_of_false (by simp) ?_, hfront, by simp⟩
      rintro ⟨-, -, hearlier⟩
      rcases hchanges i (Nat.le_refl i) with heq | ⟨-, t, -, hti, hholds, hopen⟩
      · rw [heq, hi] at hf
        cases hf.2
      · exact hearlier t hti hholds hopen
    · next hf =>
      have hundecided : s₂.result i = .unset := by
        rcases hchanges i (Nat.le_refl i) with heq | ⟨hfalse, t, -, hti, -, -⟩
        · rw [heq, hi]
        · obtain ⟨p, ⟨dc', hdc', hp⟩, -⟩ := earlier_iff_prev.mp hti
          obtain rfl := Option.some.inj (hdc.symm.trans hdc')
          exact absurd ⟨by simp [hp], hfalse⟩ hf
      have hearlier : ∀ j, Earlier cfg j i → BlockHolds cfg rules known j → ¬ OpenTo cfg s j i := by
        intro j hji hj hopen
        have hfalse := (hfront j hj hji hopen).2 i hji
        rw [hundecided] at hfalse
        cases hfalse
      have hmatches : BlockMatches cfg rules known i ↔ known dc.comp = true ∧ rules i = true := by
        constructor
        · rintro ⟨dc', hdc', hfits⟩
          obtain rfl := Option.some.inj (hdc.symm.trans hdc')
          exact hfits
        · exact fun hfits => ⟨dc, hdc, hfits⟩
      rw [hkeeps.right.flags]
      split
      · next hunknown =>
        refine ⟨_, _, rfl, hkeeps, hchanges, iff_of_false (by simp) ?_, hfront, fun _ => hundecided⟩
        rintro ⟨hfits, -, -⟩
        rw [(hmatches.mp hfits).1] at hunknown
        cases hunknown
      · next hknown =>
        refine ⟨_, _, rfl, hkeeps, hchanges, ?_, hfront, ?_⟩
        · rw [hmatches]
          cases hrule : rules i with
          | false => simp
          | true => exact iff_of_true rfl ⟨⟨by simpa using hknown, rfl⟩, hparents, hearlier⟩
        · intro hr
          split at hr <;> cases hr

end Nocache

/-- The check of one of the first `n` blocks, by induction on the recursion. -/
theorem configCheckCondCached_right (hn : n ≤ cfg.conds.length) (fuel : Nat) :
    ∀ i < n, i < fuel → ∀ s, RightResults cfg rules known n s →
      ∃ r s', configCheckCondCached cfg.conds rules fuel s i = some (r, s') ∧
        CheckedRight cfg rules known n i r s s' := by
  induction fuel with
  | zero => exact fun i _ hi => absurd hi (Nat.not_lt_zero i)
  | succ fuel ih =>
    intro i hin hi s h
    unfold configCheckCondCached
    by_cases hunset : s.result i = .unset
    · rw [if_pos hunset]
      have hdc := List.getElem?_eq_getElem (Nat.lt_of_lt_of_le hin hn)
      obtain ⟨r, s', hnocache, hfound⟩ := configCheckCondNocache_right
        (fun p hp => ih p (Nat.lt_trans hp hin) (by omega)) h hdc hunset
      obtain ⟨s'', hstore, hchecked⟩ := hfound.stored hunset hin h hdc
      rw [hdc]
      dsimp only
      rw [hnocache]
      dsimp only
      rw [hstore]
      exact ⟨r, s'', by simp [hchecked.result], hchecked⟩
    · rw [if_neg hunset]
      refine ⟨_, _, rfl, ⟨h, fun _ hk => hk⟩, fun _ _ => Or.inl rfl, h.decided i hin hunset, ?_, rfl⟩
      rintro j hj (rfl | hji) hopen
      · exact absurd hopen.1 hunset
      · exact absurd (hopen.2 i hji (Or.inl rfl)) hunset

end Check

/-! ## What is asked for afterwards -/

def CondCache.cleared (s : CondCache) : CondCache := { s with result := fun _ => .unset }

/-- Until the results are reset, further fields become known, and the modules ask for blocks. -/
inductive LaterOp (cfg : ConfigContext) where
  | known (comp : CompKey)
  | check (i : Fin cfg.conds.length)

section Later

variable (cfg : ConfigContext) (rules : Nat → Bool)

def later : Machine CondCache (LaterOp cfg) Bool where
  step s op :=
    match op with
    | .known comp => (setConditionalIsValid s comp, [])
    | .check i => (checking cfg rules).step s i

/-- Whatever block is asked for, the result is that of a cleared cache. -/
def Refreshed (s : CondCache) : Prop :=
  ∀ i < cfg.conds.length, ((checking cfg rules).step s i).2 =
    ((checking cfg rules).step s.cleared i).2

def RightNow (s : CondCache) : Prop := RightResults cfg rules s.valid cfg.conds.length s

def StaysRight (s : CondCache) : LaterOp cfg → Prop
  | .known comp => RightNow cfg rules (setConditionalIsValid s comp)
  | .check _ => True

end Later

section Later

variable {cfg : ConfigContext} {rules : Nat → Bool} {s : CondCache} {i n : Nat}

theorem rightNow_cleared (s : CondCache) : RightNow cfg rules s.cleared where
  flags := rfl
  decided _ _ hne := absurd rfl hne
  undecided _ _ _ _ _ _ _ := ⟨rfl, fun _ _ _ => rfl⟩

theorem checking_right (h : RightNow cfg rules s) (hi : i < cfg.conds.length) :
    ∃ b s', (checking cfg rules).step s i = (s', [b]) ∧
      (b = true ↔ BlockHolds cfg rules s.valid i) ∧ RightNow cfg rules s' := by
  obtain ⟨r, s', hcached, hchecked⟩ := configCheckCondCached_right (Nat.le_refl _)
    (cfg.conds.length + 1) i hi (Nat.lt_succ_of_lt hi) s h
  refine ⟨r == .true, s', ?_, ?_, ?_⟩
  · simp only [checking, configCheckCond, hcached, Option.map_some]
  · rw [beq_iff_eq]
    exact hchecked.holds
  · unfold RightNow
    rw [hchecked.keeps.right.flags]
    exact hchecked.keeps.right

theorem checking_cleared (rules : Nat → Bool) (s : CondCache) (hi : i < cfg.conds.length) :
    ∃ b, ((checking cfg rules).step s.cleared i).2 = [b] ∧
      (b = true ↔ BlockHolds cfg rules s.valid i) := by
  obtain ⟨b, s', hstep, hb, -⟩ := checking_right (rightNow_cleared s) hi
  exact ⟨b, congrArg Prod.snd hstep, hb⟩

theorem checking_of_decided (h : s.result i ≠ .unset) :
    ((checking cfg rules).step s i).2 = [s.result i == .true] := by
  have hcached : configCheckCondCached cfg.conds rules (cfg.conds.length + 1) s i =
      some (s.result i, s) := by
    unfold configCheckCondCached
    rw [if_neg h]
  simp only [checking, configCheckCond, hcached, Option.map_some]

theorem checking_of_hidden (hn : n < cfg.conds.length)
    (h : RightResults cfg rules s.valid n s) (hunset : s.result n = .unset)
    (hfits : BlockMatches cfg rules s.valid n) {j : Nat} (hj : BlockHolds cfg rules s.valid j)
    (hjn : Earlier cfg j n) (hhidden : ¬ OpenTo cfg s j n) :
    ((checking cfg rules).step s n).2 = [true] := by
  have hdc := List.getElem?_eq_getElem hn
  have ih : ∀ p < n, ∀ s', RightResults cfg rules s.valid n s' → ∃ r s'',
      configCheckCondCached cfg.conds rules cfg.conds.length s' p = some (r, s'') ∧
        CheckedRight cfg rules s.valid n p r s' s'' := by
    intro p hp s' hs'
    exact configCheckCondCached_right (Nat.le_of_lt hn) _ p hp (Nat.lt_trans hp hn) s' hs'
  obtain ⟨r, s', hnocache, hfound⟩ := configCheckCondNocache_right ih h hdc hunset
  obtain rfl : r = .true := by
    refine hfound.holds.mpr ⟨hfits, hj.parentHolds hjn, fun j' hj'n hj' => ?_⟩
    rw [hj'.unique hj hj'n hjn]
    exact hhidden
  obtain ⟨s'', hstore, hresult⟩ := storeResult_true s' cfg.conds[n] hn
  have hcached : configCheckCondCached cfg.conds rules (cfg.conds.length + 1) s n =
      some (.true, s'') := by
    unfold configCheckCondCached
    rw [if_pos hunset, hdc]
    dsimp only
    rw [hnocache]
    dsimp only
    rw [hstore, Option.map_some, hresult]
  simp only [checking, configCheckCond, hcached, Option.map_some]
  rfl

/-- By induction on the blocks in front. -/
theorem rightResults_of_refreshed (h : Refreshed cfg rules s) :
    ∀ n ≤ cfg.conds.length, RightResults cfg rules s.valid n s
  | 0, _ => ⟨rfl, fun _ hi => absurd hi (Nat.not_lt_zero _), fun _ hi => absurd hi (Nat.not_lt_zero _)⟩
  | n + 1, hn => by
    have ih := rightResults_of_refreshed h n (Nat.le_of_succ_le hn)
    obtain ⟨b, hcleared, hb⟩ := checking_cleared rules s hn
    have hanswer := (h n hn).trans hcleared
    refine ⟨rfl, ?_, ?_⟩
    · intro i hi hne
      rcases Nat.lt_succ_iff_lt_or_eq.mp hi with hlt | rfl
      · exact ih.decided i hlt hne
      · rw [checking_of_decided hne] at hanswer
        rw [← hb, ← List.singleton_inj.mp hanswer, beq_iff_eq]
    · intro i hi hunset hfits j hji hj
      rcases Nat.lt_succ_iff_lt_or_eq.mp hi with hlt | rfl
      · exact ih.undecided i hlt hunset hfits j hji hj
      · by_contra hhidden
        rw [checking_of_hidden hn ih hunset hfits hj hji hhidden] at hanswer
        exact hj.not_behind hji (hb.mp (List.singleton_inj.mp hanswer).symm)

theorem refreshed_iff_rightNow : Refreshed cfg rules s ↔ RightNow cfg rules s := by
  constructor
  · exact fun h => rightResults_of_refreshed h _ (Nat.le_refl _)
  · intro h i hi
    obtain ⟨b, s', hstep, hb, -⟩ := checking_right h hi
    obtain ⟨b', hcleared, hb'⟩ := checking_cleared rules s hi
    rw [hstep, hcleared, Bool.eq_iff_iff.mpr (hb.trans hb'.symm)]

/-- Along a run, by induction on the operations. -/
theorem refreshed_run : ∀ (ops : List (LaterOp cfg)) (s : CondCache),
    (∀ before after, ops = before ++ after →
      Refreshed cfg rules ((later cfg rules).run s before).1) ↔
      RightNow cfg rules s ∧ (later cfg rules).Guarded (StaysRight cfg rules) s ops
  | [], s => by
    rw [← refreshed_iff_rightNow]
    constructor
    · exact fun h => ⟨h [] [] rfl, trivial⟩
    · rintro ⟨h, -⟩ before after heq
      obtain ⟨rfl, rfl⟩ := List.append_eq_nil_iff.mp heq.symm
      exact h
  | op :: ops, s => by
    have hsplit : (∀ before after, op :: ops = before ++ after →
        Refreshed cfg rules ((later cfg rules).run s before).1) ↔ Refreshed cfg rules s ∧
          ∀ before after, ops = before ++ after →
            Refreshed cfg rules ((later cfg rules).run ((later cfg rules).step s op).1 before).1 := by
      constructor
      · exact fun h => ⟨h [] _ rfl, fun before after heq =>
          h (op :: before) after (congrArg (op :: ·) heq)⟩
      · rintro ⟨h, hrest⟩ (_ | ⟨op', before⟩) after heq
        · exact h
        · obtain rfl := (List.cons.inj heq).1
          exact hrest before after (List.cons.inj heq).2
    rw [hsplit, refreshed_run ops, refreshed_iff_rightNow]
    refine and_congr_right fun h => ?_
    refine and_congr_left fun _ => ?_
    cases op with
    | known comp => exact Iff.rfl
    | check i =>
      obtain ⟨b, s', hstep, -, hright⟩ := checking_right h i.isLt
      refine iff_of_true ?_ trivial
      show RightNow cfg rules ((checking cfg rules).step s i).1
      rw [hstep]
      exact hright

end Later

/-- `$HTTP["remoteip"] == .. { $HTTP["host"] == .. { } }` -/
def hostInRemote : ConfigContext where
  conds := [⟨.unset, none, none, none⟩, ⟨.httpRemoteIp, some 0, none, none⟩,
    ⟨.httpHost, some 1, none, none⟩]
  parent_lt := by
    rintro (_ | _ | _ | i) p dc h hp <;> simp at h <;> subst h <;> simp at hp <;> subst hp <;>
      exact Nat.lt_succ_self _
  prev_lt := by
    rintro i (_ | _ | _ | j) ⟨dc, h, hp⟩ <;> simp at h <;> subst h <;> simp at hp
  next_iff := by
    rintro (_ | _ | _ | i) (_ | _ | _ | j) <;> simp [IsPrev]
  same_parent := by
    rintro (_ | _ | _ | i) (_ | _ | _ | j) a b h ha hb <;> simp [IsPrev] at h ha hb

end Lighttpd
