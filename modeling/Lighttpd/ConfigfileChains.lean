import Lighttpd.ConfigfileGlue

/-!
# Chains of `else` branches

A cache is well decided (`WellDecided`) when a branch that holds excludes the others of its chain, and
a branch that is decided has all branches in front of it decided, or is false with its parent. A
check keeps this as long as the fields of a chain become known from its front (`InOrder`); so at
most one branch of a chain is ever reported to hold (`branchesExclusive`).
-/

namespace Lighttpd

/-! ## Chains -/

/-- `a` is in front of `b` in a chain. -/
def Earlier (cfg : ConfigContext) : Nat → Nat → Prop := Relation.TransGen (IsPrev cfg.conds)

section Chains

variable {cfg : ConfigContext} {a b c i j : Nat}

theorem IsPrev.unique {conds : List DataConfig} (h : IsPrev conds a c) (h' : IsPrev conds b c) :
    a = b := by
  obtain ⟨dc, hdc, hp⟩ := h
  obtain ⟨dc', hdc', hp'⟩ := h'
  rw [hdc] at hdc'
  obtain rfl := Option.some.inj hdc'
  rw [hp] at hp'
  exact Option.some.inj hp'

theorem IsPrev.unique_next (h : IsPrev cfg.conds a b) (h' : IsPrev cfg.conds a c) : b = c := by
  obtain ⟨dc, hdc, hn⟩ := cfg.next_iff.mpr h
  obtain ⟨dc', hdc', hn'⟩ := cfg.next_iff.mpr h'
  rw [hdc] at hdc'
  obtain rfl := Option.some.inj hdc'
  rw [hn] at hn'
  exact Option.some.inj hn'

theorem IsPrev.lt_length (h : IsPrev cfg.conds a b) : b < cfg.conds.length := by
  obtain ⟨dc, hdc, -⟩ := h
  exact (List.getElem?_eq_some_iff.mp hdc).1

theorem Earlier.lt (h : Earlier cfg a b) : a < b := by
  induction h with
  | single h => exact cfg.prev_lt h
  | tail _ h ih => exact Nat.lt_trans ih (cfg.prev_lt h)

theorem earlier_iff_prev :
    Earlier cfg a b ↔ ∃ p, IsPrev cfg.conds p b ∧ (a = p ∨ Earlier cfg a p) := by
  constructor
  · intro h
    cases h with
    | single h => exact ⟨a, h, Or.inl rfl⟩
    | tail h h' => exact ⟨_, h', Or.inr h⟩
  · rintro ⟨p, hp, rfl | h⟩
    · exact .single hp
    · exact .tail h hp

theorem earlier_iff_next :
    Earlier cfg a b ↔ ∃ n, IsPrev cfg.conds a n ∧ (b = n ∨ Earlier cfg n b) := by
  constructor
  · intro h
    obtain ⟨n, hn, h⟩ := Relation.TransGen.head'_iff.mp h
    exact ⟨n, hn, Relation.reflTransGen_iff_eq_or_transGen.mp h⟩
  · rintro ⟨n, hn, rfl | h⟩
    · exact .single hn
    · exact .head hn h

theorem Earlier.total_front (h : Earlier cfg a c) (h' : Earlier cfg b c) :
    a = b ∨ Earlier cfg a b ∨ Earlier cfg b a := by
  have hprev : ∀ {a c}, IsPrev cfg.conds a c → Earlier cfg b c → b = a ∨ Earlier cfg b a := by
    intro a c hac hbc
    obtain ⟨p, hp, hb⟩ := earlier_iff_prev.mp hbc
    obtain rfl := hac.unique hp
    exact hb
  induction h using Relation.TransGen.head_induction_on with
  | single h =>
    rcases hprev h h' with rfl | hb
    · exact Or.inl rfl
    · exact Or.inr (Or.inr hb)
  | head ha h ih =>
    rcases ih with rfl | hm | hm
    · exact Or.inr (Or.inl (.single ha))
    · exact Or.inr (Or.inl (hm.head ha))
    · rcases hprev ha hm with rfl | hb
      · exact Or.inl rfl
      · exact Or.inr (Or.inr hb)

theorem Earlier.lt_length (h : Earlier cfg a b) : b < cfg.conds.length := by
  obtain ⟨p, hp, -⟩ := earlier_iff_prev.mp h
  exact hp.lt_length

theorem Earlier.parent_eq (h : Earlier cfg a b) {da db : DataConfig} (ha : cfg.conds[a]? = some da)
    (hb : cfg.conds[b]? = some db) : da.parent = db.parent := by
  induction h generalizing db with
  | single h => exact cfg.same_parent h ha hb
  | @tail m b h hm ih =>
    have hlt : m < cfg.conds.length := Nat.lt_trans (cfg.prev_lt hm) hm.lt_length
    have hget := List.getElem?_eq_getElem hlt
    exact (ih hget).trans (cfg.same_parent hm hget hb)

theorem branchesBehind_spec : ∀ (fuel i : Nat), i < cfg.conds.length →
    cfg.conds.length ≤ i + fuel →
      ∃ js, branchesBehind cfg.conds fuel i = some js ∧ ∀ j, j ∈ js ↔ Earlier cfg i j
  | 0, i, hi, hfuel => by omega
  | fuel + 1, i, hi, hfuel => by
    have hget := List.getElem?_eq_getElem hi
    unfold branchesBehind
    rw [hget]
    dsimp only
    cases hn : cfg.conds[i].next with
    | none =>
      refine ⟨[], rfl, ?_⟩
      intro j
      have hnone : ¬ Earlier cfg i j := by
        intro h
        obtain ⟨n, hp, -⟩ := earlier_iff_next.mp h
        obtain ⟨dc, hdc, hnext⟩ := cfg.next_iff.mpr hp
        rw [hget] at hdc
        obtain rfl := Option.some.inj hdc
        rw [hn] at hnext
        cases hnext
      simpa using hnone
    | some n =>
      have hp : IsPrev cfg.conds i n := cfg.next_iff.mp ⟨_, hget, hn⟩
      have hlt := cfg.prev_lt hp
      obtain ⟨js, hjs, hmem⟩ := branchesBehind_spec fuel n hp.lt_length (by omega)
      refine ⟨n :: js, by simp [hjs], ?_⟩
      intro j
      rw [List.mem_cons, hmem]
      constructor
      · intro hj
        exact earlier_iff_next.mpr ⟨n, hp, hj⟩
      · intro h
        obtain ⟨n', hp', hj⟩ := earlier_iff_next.mp h
        obtain rfl := hp.unique_next hp'
        exact hj

end Chains

/-! ## Caches -/

def ParentDecided (cfg : ConfigContext) (s : CondCache) (i : Nat) : Prop :=
  ∀ dc p, cfg.conds[i]? = some dc → dc.parent = some p → p ≠ 0 → s.result p ≠ .unset

def ParentFalse (cfg : ConfigContext) (s : CondCache) (i : Nat) : Prop :=
  ∃ dc p, cfg.conds[i]? = some dc ∧ dc.parent = some p ∧ p ≠ 0 ∧ s.result p = .false

structure WellDecided (cfg : ConfigContext) (s : CondCache) : Prop where
  parent_decided : ∀ i, s.result i ≠ .unset → ParentDecided cfg s i
  earlier_decided : ∀ i, s.result i ≠ .unset →
    ParentFalse cfg s i ∨ ∀ j, Earlier cfg j i → s.result j ≠ .unset
  exclusive : ∀ i j, s.result i = .true → Earlier cfg i j ∨ Earlier cfg j i → s.result j = .false

structure Keeps (s s' : CondCache) : Prop where
  result : ∀ {k}, s.result k ≠ .unset → s'.result k = s.result k
  valid : s'.valid = s.valid

def InOrder (cfg : ConfigContext) (s : CondCache) : Prop :=
  ∀ i j di dj, Earlier cfg i j → cfg.conds[i]? = some di → cfg.conds[j]? = some dj →
    s.valid dj.comp = true → s.valid di.comp = true

section Caches

variable {cfg : ConfigContext} {s s' s'' : CondCache} {i j k : Nat}

theorem Keeps.refl : Keeps s s := ⟨fun _ => rfl, rfl⟩

theorem Keeps.decided (h : Keeps s s') (hk : s.result k ≠ .unset) : s'.result k ≠ .unset := by
  rw [h.result hk]
  exact hk

theorem Keeps.trans (h : Keeps s s') (h' : Keeps s' s'') : Keeps s s'' where
  result hk := by rw [h'.result (h.decided hk), h.result hk]
  valid := by rw [h'.valid, h.valid]

theorem Keeps.eq (h : Keeps s s') {r : CondResult} (hk : s.result k = r) (hr : r ≠ .unset) :
    s'.result k = r := by
  rw [h.result (by rwa [hk]), hk]

theorem ParentDecided.keeps (h : ParentDecided cfg s i) (hk : Keeps s s') :
    ParentDecided cfg s' i := by
  intro dc p hdc hp hne
  exact hk.decided (h dc p hdc hp hne)

theorem ParentFalse.keeps (h : ParentFalse cfg s i) (hk : Keeps s s') : ParentFalse cfg s' i := by
  obtain ⟨dc, p, hdc, hp, hne, hf⟩ := h
  exact ⟨dc, p, hdc, hp, hne, hk.eq hf (by simp)⟩

theorem ParentFalse.parentDecided (h : ParentFalse cfg s i) : ParentDecided cfg s i := by
  obtain ⟨dc, p, hdc, hp, -, hf⟩ := h
  rintro dc' p' hdc' hp' -
  rw [hdc] at hdc'
  obtain rfl := Option.some.inj hdc'
  rw [hp] at hp'
  obtain rfl := Option.some.inj hp'
  rw [hf]
  simp

theorem InOrder.keeps (h : InOrder cfg s) (hk : Keeps s s') : InOrder cfg s' := by
  unfold InOrder
  rw [hk.valid]
  exact h

theorem WellDecided.decide (h : WellDecided cfg s) (hk : Keeps s s')
    (hnew : ∀ k, s.result k = .unset → s'.result k ≠ .unset → ParentDecided cfg s' k ∧
      (ParentFalse cfg s' k ∨ ∀ j, Earlier cfg j k → s'.result j ≠ .unset))
    (hexcl : ∀ i j, s'.result i = .true → Earlier cfg i j ∨ Earlier cfg j i →
      s'.result j = .false) : WellDecided cfg s' where
  parent_decided i hi := by
    by_cases h0 : s.result i = .unset
    · exact (hnew i h0 hi).1
    · exact (h.parent_decided i h0).keeps hk
  earlier_decided i hi := by
    by_cases h0 : s.result i = .unset
    · exact (hnew i h0 hi).2
    · rcases h.earlier_decided i h0 with hf | hd
      · exact Or.inl (hf.keeps hk)
      · exact Or.inr fun j hj => hk.decided (hd j hj)
  exclusive := hexcl

theorem remainsToFalse_result (js : List Nat) (s : CondCache) (k : Nat) :
    (remainsToFalse s js).result k = if k ∈ js then .false else s.result k := by
  induction js generalizing s with
  | nil => rfl
  | cons j js ih =>
    unfold remainsToFalse at ih ⊢
    rw [List.foldl_cons, ih]
    by_cases hk : k ∈ js
    · rw [if_pos hk, if_pos (List.mem_cons_of_mem _ hk)]
    · by_cases hj : k = j
      · simp [hj, CondCache.setResult]
      · simp [hk, hj, CondCache.setResult]

theorem remainsToFalse_valid (js : List Nat) (s : CondCache) :
    (remainsToFalse s js).valid = s.valid := by
  induction js generalizing s with
  | nil => rfl
  | cons j js ih =>
    unfold remainsToFalse at ih ⊢
    rw [List.foldl_cons, ih]
    rfl

/-! ## The check -/

/-- What a change behind `i` may be: a branch in front became true. -/
def Behind (cfg : ConfigContext) (s s' : CondCache) (i : Nat) : Prop :=
  ∀ k, i ≤ k → s'.result k = s.result k ∨
    s'.result k = .false ∧ ∃ t, Earlier cfg t k ∧ s'.result t = .true

/-- What a check leaves: it decides the block if the field is known and the parent is decided. -/
structure Checked (cfg : ConfigContext) (s : CondCache) (i : Nat) (r : CondResult)
    (s' : CondCache) : Prop where
  consistent : WellDecided cfg s'
  keeps : Keeps s s'
  result : s'.result i = r
  decides : ∀ dc, cfg.conds[i]? = some dc → ParentDecided cfg s i → s.valid dc.comp = true →
    r ≠ .unset
  behind : Behind cfg s s' (i + 1)

theorem Behind.refl : Behind cfg s s i := fun _ _ => Or.inl rfl

theorem Behind.trans (h : Behind cfg s s' i) (h' : Behind cfg s' s'' i) (hk : Keeps s' s'') :
    Behind cfg s s'' i := by
  intro k hik
  rcases h' k hik with he | hf
  · rcases h k hik with he' | ⟨hf, t, ht, htrue⟩
    · exact Or.inl (he.trans he')
    · exact Or.inr ⟨he.trans hf, t, ht, hk.eq htrue (by simp)⟩
  · exact Or.inr hf

theorem Behind.mono (h : Behind cfg s s' i) (hij : i ≤ j) : Behind cfg s s' j :=
  fun k hk => h k (Nat.le_trans hij hk)

/-- What the check of the block itself finds, before the result is stored. -/
structure Found (cfg : ConfigContext) (s : CondCache) (i : Nat) (dc : DataConfig) (r : CondResult)
    (s' : CondCache) : Prop where
  consistent : WellDecided cfg s'
  keeps : Keeps s s'
  behind : Behind cfg s s' i
  unset : r = .unset → s'.result i = .unset ∧
    ¬ (ParentDecided cfg s i ∧ s.valid dc.comp = Bool.true)
  isFalse : r = .false → s'.result i ≠ .true ∧ ParentDecided cfg s' i ∧
    (ParentFalse cfg s' i ∨ ∀ j, Earlier cfg j i → s'.result j ≠ .unset)
  isTrue : r = .true → s'.result i = .unset ∧ ParentDecided cfg s' i ∧
    ∀ j, Earlier cfg j i → s'.result j = .false

theorem ParentDecided.earlier (h : ParentDecided cfg s i) (hij : Earlier cfg i j ∨ Earlier cfg j i)
    (hi : i < cfg.conds.length) : ParentDecided cfg s j := by
  intro dc p hdc hp hne
  have hget := List.getElem?_eq_getElem hi
  refine h _ p hget ?_ hne
  rcases hij with hij | hji
  · rw [hij.parent_eq hget hdc, hp]
  · rw [← hji.parent_eq hdc hget, hp]

theorem ParentFalse.earlier (h : ParentFalse cfg s i) (hij : Earlier cfg i j) :
    ParentFalse cfg s j := by
  obtain ⟨dc, p, hdc, hp, hne, hf⟩ := h
  have hget := List.getElem?_eq_getElem hij.lt_length
  exact ⟨_, p, hget, by rw [← hij.parent_eq hdc hget, hp], hne, hf⟩

theorem ParentFalse.of_keeps (h : ParentFalse cfg s' i) (hk : Keeps s s')
    (hd : ParentDecided cfg s i) : ParentFalse cfg s i := by
  obtain ⟨dc, p, hdc, hp, hne, hf⟩ := h
  exact ⟨dc, p, hdc, hp, hne, by rw [← hk.result (hd dc p hdc hp hne), hf]⟩

section Nocache

variable {cached : CondCache → Nat → Option (CondResult × CondCache)} {dc : DataConfig}
  (ih : ∀ p < i, ∀ s, WellDecided cfg s → InOrder cfg s →
    ∃ r s', cached s p = some (r, s') ∧ Checked cfg s p r s')

include ih

theorem checkParent_spec (h : WellDecided cfg s) (ho : InOrder cfg s)
    (hdc : cfg.conds[i]? = some dc) :
    ∃ r s', checkParent cached s dc = some (r, s') ∧ WellDecided cfg s' ∧ Keeps s s' ∧
      Behind cfg s s' i ∧ (r = .unset → ¬ ParentDecided cfg s' i) ∧
      (r = .false → ParentFalse cfg s' i) ∧
      (r = .true → ParentDecided cfg s' i ∧ ¬ ParentFalse cfg s' i) := by
  unfold checkParent
  cases hp : dc.parent with
  | none =>
    refine ⟨_, _, rfl, h, .refl, .refl, by simp, by simp, ?_⟩
    refine fun _ => ⟨?_, ?_⟩
    · intro dc' p hdc' hp'
      rw [hdc] at hdc'
      obtain rfl := Option.some.inj hdc'
      rw [hp] at hp'
      cases hp'
    · rintro ⟨dc', p, hdc', hp', -⟩
      rw [hdc] at hdc'
      obtain rfl := Option.some.inj hdc'
      rw [hp] at hp'
      cases hp'
  | some p =>
    have hparent : ∀ {dc' p'}, cfg.conds[i]? = some dc' → dc'.parent = some p' → p' = p := by
      intro dc' p' hdc' hp'
      rw [hdc] at hdc'
      obtain rfl := Option.some.inj hdc'
      rw [hp] at hp'
      exact (Option.some.inj hp').symm
    dsimp only
    by_cases hp0 : p = 0
    · rw [if_neg (by simpa using hp0)]
      refine ⟨_, _, rfl, h, .refl, .refl, by simp, by simp, ?_⟩
      refine fun _ => ⟨?_, ?_⟩
      · intro dc' p' hdc' hp' hne
        exact absurd ((hparent hdc' hp').trans hp0) hne
      · rintro ⟨dc', p', hdc', hp', hne, -⟩
        exact absurd ((hparent hdc' hp').trans hp0) hne
    · rw [if_pos hp0]
      have hlt := cfg.parent_lt hdc hp
      obtain ⟨r, s', hr, hchecked⟩ := ih p hlt s h ho
      refine ⟨r, s', hr, hchecked.consistent, hchecked.keeps, hchecked.behind.mono hlt, ?_, ?_, ?_⟩
      · rintro rfl hd
        exact hd dc p hdc hp hp0 hchecked.result
      · rintro rfl
        exact ⟨dc, p, hdc, hp, hp0, hchecked.result⟩
      · rintro rfl
        refine ⟨?_, ?_⟩
        · rintro dc' p' hdc' hp' -
          rw [hparent hdc' hp', hchecked.result]
          simp
        · rintro ⟨dc', p', hdc', hp', -, hf⟩
          rw [hparent hdc' hp', hchecked.result] at hf
          cases hf

theorem checkPrev_spec (h : WellDecided cfg s) (ho : InOrder cfg s)
    (hdc : cfg.conds[i]? = some dc) (hd : ParentDecided cfg s i) :
    ∃ s', checkPrev cached s dc = some s' ∧ WellDecided cfg s' ∧ Keeps s s' ∧ Behind cfg s s' i ∧
      ∀ p, IsPrev cfg.conds p i → s.valid dc.comp = true → s'.result p ≠ .unset := by
  unfold checkPrev
  cases hp : dc.prev with
  | none =>
    refine ⟨_, rfl, h, .refl, .refl, ?_⟩
    rintro p ⟨dc', hdc', hp'⟩
    rw [hdc] at hdc'
    obtain rfl := Option.some.inj hdc'
    rw [hp] at hp'
    cases hp'
  | some p =>
    have hprev : IsPrev cfg.conds p i := ⟨dc, hdc, hp⟩
    have hlt := cfg.prev_lt hprev
    have hi := hprev.lt_length
    obtain ⟨r, s', hr, hchecked⟩ := ih p hlt s h ho
    refine ⟨s', by simp [hr], hchecked.consistent, hchecked.keeps, hchecked.behind.mono hlt, ?_⟩
    intro p' hp' hvalid
    obtain rfl := hprev.unique hp'
    have hget := List.getElem?_eq_getElem (Nat.lt_trans hlt hi)
    rw [hchecked.result]
    refine hchecked.decides _ hget (hd.earlier (Or.inr (.single hprev)) hi) ?_
    exact ho p i _ dc (.single hprev) hget hdc hvalid

theorem configCheckCondNocache_spec (rules : Nat → Bool) (h : WellDecided cfg s)
    (ho : InOrder cfg s) (hdc : cfg.conds[i]? = some dc) (hi : s.result i = .unset) :
    ∃ r s', configCheckCondNocache rules cached s i dc = some (r, s') ∧ Found cfg s i dc r s' := by
  have hlt := (List.getElem?_eq_some_iff.mp hdc).1
  obtain ⟨rp, s1, hr1, h1, hk1, hb1, hunset, hfalse, htrue⟩ := checkParent_spec ih h ho hdc
  have hnot : ∀ {s'}, Behind cfg s s' i → s'.result i ≠ .true := by
    intro s' hb
    rcases hb i (Nat.le_refl i) with he | ⟨he, -⟩
    · rw [he, hi]
      simp
    · rw [he]
      simp
  unfold configCheckCondNocache
  rw [hr1]
  cases rp with
  | false =>
    have hpf := hfalse rfl
    exact ⟨_, _, rfl, h1, hk1, hb1, by simp,
      fun _ => ⟨hnot hb1, hpf.parentDecided, Or.inl hpf⟩, by simp⟩
  | unset =>
    refine ⟨_, _, rfl, h1, hk1, hb1, fun _ => ⟨?_, ?_⟩, by simp, by simp⟩
    · rcases hb1 i (Nat.le_refl i) with he | ⟨-, t, ht, htrue'⟩
      · rw [he, hi]
      · have htd := h1.parent_decided t (by rw [htrue']; simp)
        exact absurd (htd.earlier (Or.inl ht) (Nat.lt_trans ht.lt hlt)) (hunset rfl)
    · rintro ⟨hd, -⟩
      exact hunset rfl (hd.keeps hk1)
  | true =>
    obtain ⟨hd1, hnf1⟩ := htrue rfl
    obtain ⟨s2, hr2, h2, hk2, hb2, hprev⟩ := checkPrev_spec ih h1 (ho.keeps hk1) hdc hd1
    have hk := hk1.trans hk2
    have hb := hb1.trans hb2 hk2
    dsimp only
    rw [hr2]
    dsimp only
    split
    · next hf =>
      refine ⟨_, _, rfl, h2, hk, hb, by simp, fun _ => ⟨hnot hb, ?_⟩, by simp⟩
      have hne : s2.result i ≠ .unset := by
        rw [hf.2]
        simp
      exact ⟨h2.parent_decided i hne, h2.earlier_decided i hne⟩
    · next hf =>
      have hopen : s2.result i = .unset := by
        rcases hb i (Nat.le_refl i) with he | ⟨he, t, ht, -⟩
        · rw [he, hi]
        · obtain ⟨p, ⟨dc', hdc', hp⟩, -⟩ := earlier_iff_prev.mp ht
          rw [hdc] at hdc'
          obtain rfl := Option.some.inj hdc'
          exact absurd ⟨by simp [hp], he⟩ hf
      split
      · next hv =>
        refine ⟨_, _, rfl, h2, hk, hb, fun _ => ⟨hopen, ?_⟩, by simp, by simp⟩
        rintro ⟨-, hv'⟩
        rw [← hk.valid, hv] at hv'
        cases hv'
      · next hv =>
        have hvalid : s1.valid dc.comp = true := by
          rw [← hk2.valid]
          simpa using hv
        have hall : ∀ j, Earlier cfg j i → s2.result j ≠ .unset := by
          intro j hj
          obtain ⟨p, hp, hjp⟩ := earlier_iff_prev.mp hj
          have hpd := hprev p hp hvalid
          rcases hjp with rfl | hjp
          · exact hpd
          · rcases h2.earlier_decided p hpd with hpf | hdec
            · exact absurd ((hpf.earlier (.single hp)).of_keeps hk2 hd1) hnf1
            · exact hdec j hjp
        have hd2 := hd1.keeps hk2
        cases hrule : rules i with
        | false =>
          exact ⟨_, _, rfl, h2, hk, hb, by simp, fun _ => ⟨hnot hb, hd2, Or.inr hall⟩, by simp⟩
        | true =>
          refine ⟨_, _, rfl, h2, hk, hb, by simp, by simp, fun _ => ⟨hopen, hd2, ?_⟩⟩
          intro j hj
          cases hres : s2.result j with
          | unset => exact absurd hres (hall j hj)
          | false => rfl
          | true =>
            have hf' := h2.exclusive j i hres (Or.inl hj)
            rw [hopen] at hf'
            cases hf'

end Nocache

section Store

variable {dc : DataConfig}

theorem Found.stored_unset (hf : Found cfg s i dc .unset s')
    (hres : ∀ k, s''.result k = if k = i then .unset else s'.result k)
    (hvalid : s''.valid = s'.valid) :
    WellDecided cfg s'' ∧ Keeps s' s'' ∧ Behind cfg s' s'' (i + 1) := by
  have hsame : ∀ k, s''.result k = s'.result k := by
    intro k
    rw [hres]
    split
    · next hk => rw [hk, (hf.unset rfl).1]
    · rfl
  have hk : Keeps s' s'' := ⟨fun _ => hsame _, hvalid⟩
  refine ⟨hf.consistent.decide hk ?_ ?_, hk, fun k _ => Or.inl (hsame k)⟩
  · intro k h0 hne
    rw [hsame] at hne
    exact absurd h0 hne
  · intro a b ha hab
    rw [hsame] at ha ⊢
    exact hf.consistent.exclusive a b ha hab

theorem Found.stored_false (hf : Found cfg s i dc .false s')
    (hres : ∀ k, s''.result k = if k = i then .false else s'.result k)
    (hvalid : s''.valid = s'.valid) :
    WellDecided cfg s'' ∧ Keeps s' s'' ∧ Behind cfg s' s'' (i + 1) := by
  obtain ⟨hnot, hd, hearlier⟩ := hf.isFalse rfl
  have hk : Keeps s' s'' := by
    refine ⟨?_, hvalid⟩
    intro k hne
    rw [hres]
    split
    · next hki =>
      subst hki
      cases hold : s'.result k with
      | unset => exact absurd hold hne
      | false => rfl
      | true => exact absurd hold hnot
    · rfl
  refine ⟨hf.consistent.decide hk ?_ ?_, hk, ?_⟩
  · intro k h0 hne
    by_cases hki : k = i
    · subst hki
      refine ⟨hd.keeps hk, ?_⟩
      rcases hearlier with hpf | hdec
      · exact Or.inl (hpf.keeps hk)
      · exact Or.inr fun j hj => hk.decided (hdec j hj)
    · rw [hres, if_neg hki] at hne
      exact absurd h0 hne
  · intro a b ha hab
    rw [hres] at ha ⊢
    split at ha
    · cases ha
    · split
      · rfl
      · exact hf.consistent.exclusive a b ha hab
  · intro k hik
    rw [hres, if_neg (by omega)]
    exact Or.inl rfl

theorem Found.stored_true (hf : Found cfg s i dc .true s') (hi : i < cfg.conds.length)
    {js : List Nat} (hmem : ∀ j, j ∈ js ↔ Earlier cfg i j)
    (hres : ∀ k, s''.result k = if k ∈ js then .false else if k = i then .true else s'.result k)
    (hvalid : s''.valid = s'.valid) :
    WellDecided cfg s'' ∧ Keeps s' s'' ∧ Behind cfg s' s'' (i + 1) := by
  obtain ⟨hopen, hd, hearlier⟩ := hf.isTrue rfl
  have hbehind : ∀ {k}, Earlier cfg i k → s''.result k = .false := by
    intro k hk
    rw [hres, if_pos ((hmem k).mpr hk)]
  have hself : s''.result i = .true := by
    rw [hres, if_neg (fun h => Nat.lt_irrefl i ((hmem i).mp h).lt), if_pos rfl]
  have hother : ∀ {k}, ¬ Earlier cfg i k → k ≠ i → s''.result k = s'.result k := by
    intro k hk hki
    rw [hres, if_neg (fun h => hk ((hmem k).mp h)), if_neg hki]
  have hk : Keeps s' s'' := by
    refine ⟨?_, hvalid⟩
    intro k hne
    by_cases hik : Earlier cfg i k
    · rw [hbehind hik]
      cases hold : s'.result k with
      | unset => exact absurd hold hne
      | false => rfl
      | true =>
        have hfi := hf.consistent.exclusive k i hold (Or.inr hik)
        rw [hopen] at hfi
        cases hfi
    · by_cases hki : k = i
      · rw [hki] at hne
        exact absurd hopen hne
      · exact hother hik hki
  have hfront : ∀ {j}, Earlier cfg j i → s''.result j = .false := by
    intro j hj
    exact hk.eq (hearlier j hj) (by simp)
  refine ⟨hf.consistent.decide hk ?_ ?_, hk, ?_⟩
  · intro k h0 hne
    by_cases hik : Earlier cfg i k
    · refine ⟨(hd.keeps hk).earlier (Or.inl hik) hi, Or.inr ?_⟩
      intro j hj
      rcases hj.total_front hik with rfl | hji | hij
      · rw [hself]
        simp
      · rw [hfront hji]
        simp
      · rw [hbehind hij]
        simp
    · by_cases hki : k = i
      · subst hki
        refine ⟨hd.keeps hk, Or.inr ?_⟩
        intro j hj
        rw [hfront hj]
        simp
      · rw [hother hik hki] at hne
        exact absurd h0 hne
  · intro a b ha hab
    by_cases hia : Earlier cfg i a
    · rw [hbehind hia] at ha
      cases ha
    · by_cases hai : a = i
      · subst hai
        rcases hab with hab | hba
        · exact hbehind hab
        · exact hfront hba
      · rw [hother hia hai] at ha
        have hb := hf.consistent.exclusive a b ha hab
        exact hk.eq hb (by simp)
  · intro k hik
    by_cases hk' : Earlier cfg i k
    · exact Or.inr ⟨hbehind hk', i, hk', hself⟩
    · exact Or.inl (hother hk' (by omega))

theorem storeResult_spec {r : CondResult} (hdc : cfg.conds[i]? = some dc)
    (hf : Found cfg s i dc r s') :
    ∃ s'', storeResult cfg.conds s' i dc r = some s'' ∧ Checked cfg s i r s'' := by
  have hlt := (List.getElem?_eq_some_iff.mp hdc).1
  have hdecides : ∀ dc', cfg.conds[i]? = some dc' → ParentDecided cfg s i →
      s.valid dc'.comp = true → r ≠ .unset := by
    rintro dc' hdc' hd hv rfl
    rw [hdc] at hdc'
    obtain rfl := Option.some.inj hdc'
    exact (hf.unset rfl).2 ⟨hd, hv⟩
  have hchecked : ∀ {s''}, (WellDecided cfg s'' ∧ Keeps s' s'' ∧ Behind cfg s' s'' (i + 1)) →
      s''.result i = r → Checked cfg s i r s'' := by
    rintro s'' ⟨hc, hk, hb⟩ hres
    exact ⟨hc, hf.keeps.trans hk, hres, hdecides, (hf.behind.mono (Nat.le_succ i)).trans hb hk⟩
  unfold storeResult
  cases r with
  | unset => exact ⟨_, rfl, hchecked (hf.stored_unset (fun _ => rfl) rfl) (if_pos rfl)⟩
  | false => exact ⟨_, rfl, hchecked (hf.stored_false (fun _ => rfl) rfl) (if_pos rfl)⟩
  | true =>
    obtain ⟨js, hjs, hmem⟩ := @branchesBehind_spec cfg cfg.conds.length i hlt (by omega)
    rw [hjs]
    refine ⟨_, rfl, hchecked (hf.stored_true hlt hmem ?_ ?_) ?_⟩
    · intro k
      exact remainsToFalse_result js _ k
    · exact remainsToFalse_valid js _
    · refine (remainsToFalse_result js _ i).trans ?_
      rw [if_neg (fun h => Nat.lt_irrefl i ((hmem i).mp h).lt)]
      exact if_pos rfl

end Store

theorem configCheckCondCached_spec (rules : Nat → Bool) : ∀ (fuel i : Nat) (s : CondCache),
    i < fuel → i < cfg.conds.length → WellDecided cfg s → InOrder cfg s →
      ∃ r s', configCheckCondCached cfg.conds rules fuel s i = some (r, s') ∧ Checked cfg s i r s'
  | 0, i, s, hfuel, _, _, _ => by omega
  | fuel + 1, i, s, hfuel, hlt, h, ho => by
    have hget := List.getElem?_eq_getElem hlt
    unfold configCheckCondCached
    by_cases hi : s.result i = .unset
    · rw [if_pos hi, hget]
      have ih : ∀ p < i, ∀ s, WellDecided cfg s → InOrder cfg s →
          ∃ r s', configCheckCondCached cfg.conds rules fuel s p = some (r, s') ∧
            Checked cfg s p r s' :=
        fun p hp s => configCheckCondCached_spec rules fuel p s (by omega) (by omega)
      obtain ⟨r, s', hr, hfound⟩ := configCheckCondNocache_spec ih rules h ho hget hi
      obtain ⟨s'', hs'', hchecked⟩ := storeResult_spec hget hfound
      dsimp only
      rw [hr]
      dsimp only
      rw [hs'']
      exact ⟨r, s'', by simp [hchecked.result], hchecked⟩
    · rw [if_neg hi]
      exact ⟨_, _, rfl, h, .refl, rfl, fun _ _ _ _ => hi, .refl⟩

end Caches

/-! ## Requests -/

/-- What happens to the cache while a request is prepared, from the reset on: fields become known
in any order, and the modules check any block at any time, each time as `ok` says. The second index
lists the blocks that were reported to hold. -/
inductive CondRun (cfg : ConfigContext) (ok : CondCache → Prop) : CondCache → List Nat → Prop
  | reset (s : CondCache) : CondRun cfg ok (configCondCacheReset s) []
  | field {s : CondCache} {reported : List Nat} (before : CondRun cfg ok s reported)
      (comp : CompKey) : CondRun cfg ok (setConditionalIsValid s comp) reported
  | check {s s' : CondCache} {reported : List Nat} {i : Nat} {r : Bool}
      (before : CondRun cfg ok s reported) (fits : ok s) (rules : Nat → Bool)
      (isBlock : i < cfg.conds.length) (run : configCheckCond cfg.conds rules s i = some (r, s')) :
      CondRun cfg ok s' (if r then i :: reported else reported)

/-- A branch was reported to hold only with all branches in front of it decided to be false, and no
two branches of a chain were. -/
structure Exclusive (cfg : ConfigContext) (s : CondCache) (reported : List Nat) : Prop where
  earlier : ∀ i ∈ reported, ∀ j, Earlier cfg j i → s.result j = .false
  once : ∀ i ∈ reported, ∀ j ∈ reported, ¬ Earlier cfg i j

section Requests

variable {cfg : ConfigContext} {s : CondCache} {reported : List Nat}

theorem CondRun.holds (h : CondRun cfg (InOrder cfg) s reported) :
    WellDecided cfg s ∧ ∀ i ∈ reported, s.result i = .true := by
  induction h with
  | reset s =>
    refine ⟨⟨?_, ?_, ?_⟩, by simp⟩
    · intro i hi
      exact absurd rfl hi
    · intro i hi
      exact absurd rfl hi
    · intro i j hi
      cases hi
  | field before comp ih =>
    obtain ⟨hc, hr⟩ := ih
    exact ⟨⟨hc.parent_decided, hc.earlier_decided, hc.exclusive⟩, hr⟩
  | @check s s' reported i r before fits rules isBlock run ih =>
    obtain ⟨hc, hr⟩ := ih
    obtain ⟨res, s'', hcached, hchecked⟩ := configCheckCondCached_spec rules (cfg.conds.length + 1)
      i s (by omega) isBlock hc fits
    unfold configCheckCond at run
    rw [hcached] at run
    obtain ⟨rfl, rfl⟩ := Prod.mk.inj (Option.some.inj run)
    refine ⟨hchecked.consistent, ?_⟩
    have hold : ∀ k ∈ reported, s''.result k = .true := fun k hk => hchecked.keeps.eq (hr k hk) (by simp)
    split
    · next hres =>
      intro k hk
      rcases List.mem_cons.mp hk with rfl | hk
      · rw [hchecked.result]
        exact beq_iff_eq.mp hres
      · exact hold k hk
    · exact hold

/-- When the fields of every chain become known from its front, at most one branch of a chain is
ever reported to hold, with the ones in front of it decided. -/
theorem branchesExclusive (h : CondRun cfg (InOrder cfg) s reported) : Exclusive cfg s reported := by
  obtain ⟨hc, hr⟩ := h.holds
  constructor
  · intro i hi j hj
    exact hc.exclusive i j (hr i hi) (Or.inr hj)
  · intro i hi j hj hij
    have hf := hc.exclusive i j (hr i hi) (Or.inl hij)
    rw [hr j hj] at hf
    cases hf

end Requests

section UrlOrHost

/-- `$HTTP["url"] == .. { } else $HTTP["host"] == .. { }` -/
def urlOrHost : ConfigContext where
  conds := [⟨.unset, none, none, none⟩, ⟨.httpUrl, some 0, none, some 2⟩,
    ⟨.httpHost, some 0, some 1, none⟩]
  parent_lt := by
    rintro (_ | _ | _ | i) p dc h hp <;> simp at h <;> subst h <;> simp at hp <;> omega
  prev_lt := by
    rintro i (_ | _ | _ | j) ⟨dc, h, hp⟩ <;> simp at h <;> subst h <;> simp at hp <;> omega
  next_iff := by
    rintro (_ | _ | _ | i) (_ | _ | _ | j) <;> simp [IsPrev]
  same_parent := by
    rintro (_ | _ | _ | i) (_ | _ | _ | j) a b h ha hb <;> simp [IsPrev] at h ha hb <;>
      subst ha <;> subst hb
    rfl

theorem earlier_urlOrHost : Earlier urlOrHost 1 2 := .single ⟨_, rfl, rfl⟩

theorem eq_of_earlier_urlOrHost {i j : Nat} (h : Earlier urlOrHost i j) : i = 1 ∧ j = 2 := by
  have hprev : ∀ {i j}, IsPrev urlOrHost.conds i j → i = 1 ∧ j = 2 := by
    rintro i (_ | _ | _ | j) h <;> simp [IsPrev, urlOrHost] at h
    exact ⟨h.symm, rfl⟩
  obtain ⟨p, hp, hip⟩ := earlier_iff_prev.mp h
  obtain ⟨rfl, rfl⟩ := hprev hp
  rcases hip with rfl | hip
  · exact ⟨rfl, rfl⟩
  · obtain ⟨q, hq, -⟩ := earlier_iff_prev.mp hip
    obtain ⟨-, h⟩ := hprev hq
    cases h

/-- The host is known before the URL: first the second branch is reported to hold, and then the
first one. -/
theorem not_branchesExclusive_urlOrHost :
    ¬ ∀ s reported, CondRun urlOrHost (fun _ => True) s reported → Exclusive urlOrHost s reported := by
  intro h
  have hstart := @CondRun.reset urlOrHost (fun _ => True)
    ⟨fun _ => .unset, fun _ => .unset, fun _ => false⟩
  have hhost := (hstart.field .httpHost).check trivial (fun _ => true) (i := 2) (by decide) rfl
  have hurl := (hhost.field .httpUrl).check trivial (fun _ => true) (i := 1) (by decide) rfl
  exact (h _ _ hurl).once 1 (by decide) 2 (by decide) earlier_urlOrHost

/-- The URL is known first. -/
theorem branchesExclusive_urlOrHost : ∃ s, CondRun urlOrHost (InOrder urlOrHost) s [1] ∧
    Exclusive urlOrHost s [1] := by
  have hstart := @CondRun.reset urlOrHost (InOrder urlOrHost)
    ⟨fun _ => .unset, fun _ => .unset, fun _ => false⟩
  have horder : ∀ s, s.valid .httpUrl = true → InOrder urlOrHost s := by
    intro s hs i j di dj hij hdi
    obtain ⟨rfl, -⟩ := eq_of_earlier_urlOrHost hij
    obtain rfl := Option.some.inj hdi
    exact fun _ _ => hs
  have hurl := (hstart.field .httpUrl).check (horder _ rfl) (fun _ => true) (i := 1) (by decide) rfl
  have hhost := (hurl.field .httpHost).check (horder _ rfl) (fun _ => true) (i := 2) (by decide) rfl
  exact ⟨_, hhost, branchesExclusive hhost⟩

end UrlOrHost

end Lighttpd
