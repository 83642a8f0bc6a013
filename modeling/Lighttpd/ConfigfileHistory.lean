import Lighttpd.ConfigfileChains
import Lighttpd.Lib.Machine
import Lighttpd.Plugins.Extforward

/-!
# Results of conditions from one request to the next

The results live in the connection structure, which is used for one request after the other. They
are cleared in `http_response_prepare`, behind the return for a request whose status is decided
already; the hooks at the end of a request ask for results in any case. So a request that
`http_request_parse` rejects has its own results only if none of its blocks is found to hold
(`rejected_own_iff`), and a request that is prepared has, unless `mod_extforward` clears results
that an earlier request marked for it (`condResults_own`).
-/

namespace Lighttpd

/-! ## The operations -/

/-- `clean_cond_cache` of `mod_extforward`, when the address of the client changes. -/
def cleanCondCache (s : CondCache) : CondCache := configCondCacheResetItem s .httpRemoteIp

def CondCache.fresh : CondCache := ⟨fun _ => .unset, fun _ => .unset, fun _ => false⟩

/-- What is done with the conditions while a request is handled, with what the comparisons say
then. -/
inductive CondOp (cfg : ConfigContext) where
  /-- `http_response_prepare` starts, for the first time or after a comeback. -/
  | reset
  /-- `config_patch_connection` -/
  | patch (comp : CompKey) (rules : Nat → Bool)
  /-- A plugin asks for a block. -/
  | check (i : Fin cfg.conds.length) (rules : Nat → Bool)
  | cleanCondCache

section Machines

variable (cfg : ConfigContext)

/-- `config_check_cond` of one block after the other. -/
def checking (rules : Nat → Bool) : Machine CondCache Nat Bool where
  step s i :=
    match configCheckCond cfg.conds rules s i with
    | some (holds, s) => (s, [holds])
    | none => (s, [])

def configPatchConnection (s : CondCache) (comp : CompKey) (rules : Nat → Bool) :
    CondCache × List Bool :=
  (checking cfg rules).run (setConditionalIsValid s comp) (List.range' 1 (cfg.conds.length - 1))

def conditions : Machine CondCache (CondOp cfg) Bool where
  step s op :=
    match op with
    | .reset => (configCondCacheReset s, [])
    | .patch comp rules => configPatchConnection cfg s comp rules
    | .check i rules => (checking cfg rules).step s i
    | .cleanCondCache => (cleanCondCache s, [])

structure CondRequest where
  /-- The status in front of `http_response_prepare`, as the parser left it. -/
  httpStatus : Nat
  /-- What `http_response_prepare` and the plugins do, once the results are cleared. -/
  handling : List (CondOp cfg)
  /-- What the comparisons say if nothing is prepared, -/
  rules : Nat → Bool
  /-- and the blocks that the hooks of the end ask for then. -/
  asked : List (Fin cfg.conds.length)

end Machines

section Requests

variable {cfg : ConfigContext}

def CondRequest.Rejected (r : CondRequest cfg) : Prop := r.httpStatus ≠ 0 ∧ r.httpStatus ≠ 200

instance (r : CondRequest cfg) : Decidable r.Rejected := inferInstanceAs (Decidable (_ ∧ _))

def CondRequest.ops (r : CondRequest cfg) : List (CondOp cfg) :=
  if r.Rejected then r.asked.map fun i => .check i r.rules else .reset :: r.handling

variable (cfg) in
def condRequests : Machine CondCache (CondRequest cfg) Bool where
  step s r := (conditions cfg).run s r.ops

/-- The results used for the request are those it has alone. -/
def OwnResults (s : CondCache) (r : CondRequest cfg) : Prop :=
  ((condRequests cfg).step s r).2 = ((condRequests cfg).step .fresh r).2

/-! ## The condition -/

def DataConfig.TopLevel (dc : DataConfig) : Prop := ∀ p, dc.parent = some p → p = 0

variable (cfg) in
/-- No block in front of the `n`-th one holds, and none would come to hold: the field of an undecided
one is not marked as known, or does not match. -/
structure NoneHolds (rules : Nat → Bool) (n : Nat) (s : CondCache) : Prop where
  result : ∀ i, i < n → s.result i ≠ .true
  rule : ∀ i dc, i < n → cfg.conds[i]? = some dc → dc.TopLevel → s.result i = .unset →
    s.valid dc.comp = true → rules i = false

/-- Each result that `mod_extforward` clears is marked by this request, or is not decided anyway. -/
def OwnMarks (s : CondCache) (r : CondRequest cfg) : Prop :=
  ∀ before after, r.handling = before ++ .cleanCondCache :: after → ∀ i,
    ((conditions cfg).run s (.reset :: before)).1.compType i = .httpRemoteIp →
      ((conditions cfg).run .fresh (.reset :: before)).1.compType i = .httpRemoteIp ∨
        ((conditions cfg).run s (.reset :: before)).1.result i = .unset

def Separate (s : CondCache) (r : CondRequest cfg) : Prop :=
  if r.Rejected then NoneHolds cfg r.rules cfg.conds.length s else OwnMarks s r

end Requests

def CondCache.store (s : CondCache) (i : Nat) (dc : DataConfig) (r : CondResult) : CondCache :=
  { s.setResult i r with compType := fun k => if k = i then dc.comp else s.compType k }

/-! ## Requests that are prepared -/

/-- The same results; what `t` has marked is marked in `s`. -/
structure SameResults (s t : CondCache) : Prop where
  result : s.result = t.result
  valid : s.valid = t.valid
  compType : ∀ i, t.compType i ≠ .unset → s.compType i = t.compType i

def SameAnswer (a b : CondResult × CondCache) : Prop := a.1 = b.1 ∧ SameResults a.2 b.2

section Same

variable {cfg : ConfigContext} {s t : CondCache} {dc : DataConfig}
  {cached : CondCache → Nat → Option (CondResult × CondCache)}

theorem SameResults.setResult (h : SameResults s t) (i : Nat) (r : CondResult) :
    SameResults (s.setResult i r) (t.setResult i r) where
  result := by
    simp only [CondCache.setResult, h.result]
  valid := h.valid
  compType := h.compType

theorem SameResults.remainsToFalse (h : SameResults s t) (js : List Nat) :
    SameResults (remainsToFalse s js) (remainsToFalse t js) := by
  induction js generalizing s t with
  | nil => exact h
  | cons j js ih => exact ih (h.setResult j .false)

variable (dc) in
theorem storeResult_same (conds : List DataConfig) (h : SameResults s t) (i : Nat)
    (r : CondResult) :
    Option.Rel SameResults (storeResult conds s i dc r) (storeResult conds t i dc r) := by
  have hmark : SameResults (s.store i dc r) (t.store i dc r) := by
    refine ⟨(h.setResult i r).result, h.valid, ?_⟩
    intro k hk
    dsimp only [CondCache.store] at hk ⊢
    split
    · rfl
    · next hki =>
      rw [if_neg hki] at hk
      exact h.compType k hk
  unfold storeResult
  split
  · cases branchesBehind conds conds.length i with
    | none => exact .none
    | some js => exact .some (hmark.remainsToFalse js)
  · exact .some hmark

variable (hc : ∀ {s t} i, SameResults s t → Option.Rel SameAnswer (cached s i) (cached t i))

include hc

variable (dc) in
theorem checkParent_same (h : SameResults s t) :
    Option.Rel SameAnswer (checkParent cached s dc) (checkParent cached t dc) := by
  unfold checkParent
  cases dc.parent with
  | none => exact .some ⟨rfl, h⟩
  | some p =>
    dsimp only
    split
    · exact hc p h
    · exact .some ⟨rfl, h⟩

variable (dc) in
theorem checkPrev_same (h : SameResults s t) :
    Option.Rel SameResults (checkPrev cached s dc) (checkPrev cached t dc) := by
  unfold checkPrev
  cases dc.prev with
  | none => exact .some h
  | some p =>
    have hp := hc p h
    dsimp only
    generalize cached s p = a at hp ⊢
    generalize cached t p = b at hp ⊢
    cases hp with
    | none => exact .none
    | some hsame => exact .some hsame.2

variable (dc) in
theorem configCheckCondNocache_same (rules : Nat → Bool) (h : SameResults s t) (i : Nat) :
    Option.Rel SameAnswer (configCheckCondNocache rules cached s i dc)
      (configCheckCondNocache rules cached t i dc) := by
  unfold configCheckCondNocache
  have hparent := checkParent_same dc hc h
  generalize checkParent cached s dc = a at hparent ⊢
  generalize checkParent cached t dc = b at hparent ⊢
  cases hparent with
  | none => exact .none
  | @some a b hp =>
    obtain ⟨r, s₁⟩ := a
    obtain ⟨r', t₁⟩ := b
    obtain ⟨rfl, h₁⟩ := hp
    cases r with
    | false => exact .some ⟨rfl, h₁⟩
    | unset => exact .some ⟨rfl, h₁⟩
    | true =>
      dsimp only
      have hprev := checkPrev_same dc hc h₁
      generalize checkPrev cached s₁ dc = a at hprev ⊢
      generalize checkPrev cached t₁ dc = b at hprev ⊢
      cases hprev with
      | none => exact .none
      | @some s₂ t₂ h₂ =>
        dsimp only
        rw [h₂.result, h₂.valid]
        split
        · exact .some ⟨rfl, h₂⟩
        · split
          · exact .some ⟨rfl, h₂⟩
          · exact .some ⟨rfl, h₂⟩

end Same

section Same

variable {cfg : ConfigContext} {s t : CondCache}

theorem configCheckCondCached_same (conds : List DataConfig) (rules : Nat → Bool) (fuel : Nat) :
    ∀ {s t : CondCache} (i : Nat), SameResults s t →
      Option.Rel SameAnswer (configCheckCondCached conds rules fuel s i)
        (configCheckCondCached conds rules fuel t i) := by
  induction fuel with
  | zero => exact fun _ _ => .none
  | succ fuel ih =>
    intro s t i h
    unfold configCheckCondCached
    rw [h.result]
    split
    · cases conds[i]? with
      | none => exact .none
      | some dc =>
        dsimp only
        have hnocache := configCheckCondNocache_same dc ih rules h i
        generalize configCheckCondNocache rules _ s i dc = a at hnocache ⊢
        generalize configCheckCondNocache rules _ t i dc = b at hnocache ⊢
        cases hnocache with
        | none => exact .none
        | @some a b hn =>
          obtain ⟨r, s₁⟩ := a
          obtain ⟨r', t₁⟩ := b
          obtain ⟨rfl, h₁⟩ := hn
          dsimp only
          have hstore := storeResult_same dc conds h₁ i r
          generalize storeResult conds s₁ i dc r = a at hstore ⊢
          generalize storeResult conds t₁ i dc r = b at hstore ⊢
          cases hstore with
          | none => exact .none
          | some h₂ => exact .some ⟨congrFun h₂.result i, h₂⟩
    · exact .some ⟨rfl, h⟩

theorem checking_same (rules : Nat → Bool) (h : SameResults s t) (i : Nat) :
    SameResults ((checking cfg rules).step s i).1 ((checking cfg rules).step t i).1 ∧
      ((checking cfg rules).step s i).2 = ((checking cfg rules).step t i).2 := by
  have hcached := configCheckCondCached_same cfg.conds rules (cfg.conds.length + 1) i h
  simp only [checking, configCheckCond]
  generalize configCheckCondCached cfg.conds rules _ s i = a at hcached ⊢
  generalize configCheckCondCached cfg.conds rules _ t i = b at hcached ⊢
  cases hcached with
  | none => exact ⟨h, rfl⟩
  | some hsame => exact ⟨hsame.2, by simp [hsame.1]⟩

theorem configPatchConnection_same (comp : CompKey) (rules : Nat → Bool) (h : SameResults s t) :
    SameResults (configPatchConnection cfg s comp rules).1
        (configPatchConnection cfg t comp rules).1 ∧
      (configPatchConnection cfg s comp rules).2 = (configPatchConnection cfg t comp rules).2 := by
  have hvalid : SameResults (setConditionalIsValid s comp) (setConditionalIsValid t comp) := by
    refine ⟨h.result, ?_, h.compType⟩
    simp only [setConditionalIsValid, h.valid]
  have hstep : ∀ s t i, SameResults s t → True →
      SameResults ((checking cfg rules).step s i).1 ((checking cfg rules).step t i).1 ∧
        ((checking cfg rules).step s i).2 = ((checking cfg rules).step t i).2 := by
    intro s t i hst _
    exact checking_same rules hst i
  unfold configPatchConnection
  exact Machine.run_simulation hstep _ hvalid (.of_forall (fun _ _ => trivial) _ _)

theorem cleanCondCache_same (h : SameResults s t)
    (hown : ∀ i, s.compType i = .httpRemoteIp →
      t.compType i = .httpRemoteIp ∨ s.result i = .unset) :
    SameResults (cleanCondCache s) (cleanCondCache t) := by
  refine ⟨?_, h.valid, h.compType⟩
  funext i
  simp only [cleanCondCache, configCondCacheResetItem]
  by_cases ht : t.compType i = .httpRemoteIp
  · have hs : s.compType i = .httpRemoteIp := by
      rw [h.compType i (by simp [ht]), ht]
    rw [if_pos hs, if_pos ht]
  · rw [if_neg ht, h.result]
    split
    · next hs =>
      have hunset := (hown i hs).resolve_left ht
      rw [← h.result, hunset]
    · rfl

/-- From caches with the same results on, by induction on the operations. -/
theorem conditions_same : ∀ (ops : List (CondOp cfg)) {s t : CondCache}, SameResults s t →
    (∀ before after, ops = before ++ .cleanCondCache :: after → ∀ i,
      ((conditions cfg).run s before).1.compType i = .httpRemoteIp →
        ((conditions cfg).run t before).1.compType i = .httpRemoteIp ∨
          ((conditions cfg).run s before).1.result i = .unset) →
    ((conditions cfg).run s ops).2 = ((conditions cfg).run t ops).2
  | [], _, _, _, _ => rfl
  | op :: ops, s, t, h, hown => by
    have hstep : SameResults ((conditions cfg).step s op).1 ((conditions cfg).step t op).1 ∧
        ((conditions cfg).step s op).2 = ((conditions cfg).step t op).2 := by
      cases op with
      | reset => exact ⟨⟨rfl, rfl, h.compType⟩, rfl⟩
      | patch comp rules => exact configPatchConnection_same comp rules h
      | check i rules => exact checking_same rules h i
      | cleanCondCache => exact ⟨cleanCondCache_same h (hown [] ops rfl), rfl⟩
    have hrest := conditions_same ops hstep.1 fun before after heq =>
      hown (op :: before) after (congrArg (op :: ·) heq)
    rw [Machine.run_cons, Machine.run_cons, hstep.2, hrest]

theorem ownResults_of_marks {r : CondRequest cfg} (hr : ¬ r.Rejected) (h : OwnMarks s r) :
    OwnResults s r := by
  have hops : r.ops = .reset :: r.handling := if_neg hr
  have hreset : SameResults (configCondCacheReset s) (configCondCacheReset .fresh) :=
    ⟨rfl, rfl, fun _ hne => absurd rfl hne⟩
  unfold OwnResults condRequests
  dsimp only
  rw [hops, Machine.run_cons, Machine.run_cons]
  exact conditions_same r.handling hreset h

end Same

section NoneHolds

variable {cfg : ConfigContext} {rules : Nat → Bool} {n i : Nat} {s s' s'' : CondCache}
  {dc : DataConfig}

theorem noneHolds_fresh (rules : Nat → Bool) (n : Nat) : NoneHolds cfg rules n .fresh where
  result := by
    intro i _ hi
    nomatch hi
  rule := by
    intro i dc _ _ _ _ hvalid
    nomatch hvalid

/-- A step that leaves no block in front of the `n`-th one to hold, and those behind as they are. -/
structure Quiet (cfg : ConfigContext) (rules : Nat → Bool) (n : Nat) (s s' : CondCache) : Prop where
  noneHolds : NoneHolds cfg rules n s'
  valid : s'.valid = s.valid
  behind : ∀ k, n ≤ k → s'.result k = s.result k

theorem Quiet.refl (h : NoneHolds cfg rules n s) : Quiet cfg rules n s s := ⟨h, rfl, fun _ _ => rfl⟩

theorem Quiet.trans (h : Quiet cfg rules n s s') (h' : Quiet cfg rules n s' s'') :
    Quiet cfg rules n s s'' :=
  ⟨h'.noneHolds, h'.valid.trans h.valid, fun k hk => (h'.behind k hk).trans (h.behind k hk)⟩

theorem checkParent_topLevel (cached : CondCache → Nat → Option (CondResult × CondCache))
    (h : dc.TopLevel) : checkParent cached s dc = some (.true, s) := by
  unfold checkParent
  cases hp : dc.parent with
  | none => rfl
  | some p =>
    dsimp only
    rw [if_neg (not_not_intro (h p hp))]

theorem storeResult_ne_true (conds : List DataConfig) (s : CondCache) (i : Nat) (dc : DataConfig)
    {r : CondResult} (hr : r ≠ .true) : storeResult conds s i dc r = some (s.store i dc r) := by
  unfold storeResult
  dsimp only
  rw [if_neg hr]
  rfl

theorem Quiet.store (h : NoneHolds cfg rules n s) (hin : i < n) (hdc : cfg.conds[i]? = some dc)
    {r : CondResult} (hr : r ≠ .true)
    (hopen : r = .unset → dc.TopLevel → s.valid dc.comp = false) :
    Quiet cfg rules n s (s.store i dc r) where
  noneHolds := by
    constructor
    · intro k hk
      simp only [CondCache.store, CondCache.setResult]
      split
      · exact hr
      · exact h.result k hk
    · intro k dk hk hdk htop hunset hvalid
      simp only [CondCache.store, CondCache.setResult] at hunset hvalid
      split at hunset
      · next hki =>
        subst hki
        obtain rfl := Option.some.inj (hdc.symm.trans hdk)
        rw [hopen hunset htop] at hvalid
        cases hvalid
      · exact h.rule k dk hk hdk htop hunset hvalid
  valid := rfl
  behind := by
    intro k hk
    simp only [CondCache.store, CondCache.setResult]
    rw [if_neg (by omega)]

section Nocache

variable {cached : CondCache → Nat → Option (CondResult × CondCache)}
  (ih : ∀ p, p < i → ∀ s, NoneHolds cfg rules n s →
    ∃ r s', cached s p = some (r, s') ∧ r ≠ .true ∧ Quiet cfg rules n s s')

include ih

theorem checkPrev_quiet (h : NoneHolds cfg rules n s) (hdc : cfg.conds[i]? = some dc) :
    ∃ s', checkPrev cached s dc = some s' ∧ Quiet cfg rules n s s' ∧
      (dc.prev.isSome = false → s' = s) := by
  unfold checkPrev
  cases hp : dc.prev with
  | none => exact ⟨s, rfl, .refl h, fun _ => rfl⟩
  | some p =>
    obtain ⟨r, s', hcached, -, hquiet⟩ := ih p (cfg.prev_lt ⟨dc, hdc, hp⟩) s h
    exact ⟨s', by simp [hcached], hquiet, by simp⟩

theorem configCheckCondNocache_quiet (h : NoneHolds cfg rules n s) (hin : i < n)
    (hdc : cfg.conds[i]? = some dc) (hunset : s.result i = .unset) :
    ∃ r s', configCheckCondNocache rules cached s i dc = some (r, s') ∧ r ≠ .true ∧
      Quiet cfg rules n s s' ∧ (r = .unset → dc.TopLevel → s'.valid dc.comp = false) := by
  unfold configCheckCondNocache
  by_cases htop : dc.TopLevel
  · rw [checkParent_topLevel cached htop]
    obtain ⟨s', hprev, hquiet, hsame⟩ := checkPrev_quiet ih h hdc
    dsimp only
    rw [hprev]
    dsimp only
    split
    · exact ⟨_, _, rfl, by simp, hquiet, by simp⟩
    · next hopen =>
      split
      · next hvalid => exact ⟨_, _, rfl, by simp, hquiet, fun _ _ => hvalid⟩
      · next hvalid =>
        -- nothing in front has set the block to false, and it does not hold: it is undecided
        have hundecided : s'.result i = .unset := by
          cases hres : s'.result i with
          | unset => rfl
          | true => exact absurd hres (hquiet.noneHolds.result i hin)
          | false =>
            cases hprev' : dc.prev.isSome with
            | false => rw [← hres, hsame hprev', hunset]
            | true => exact absurd ⟨hprev', hres⟩ hopen
        have hrule := hquiet.noneHolds.rule i dc hin hdc htop hundecided (by simpa using hvalid)
        rw [hrule]
        exact ⟨_, _, rfl, by simp, hquiet, by simp⟩
  · obtain ⟨p, hp, hne⟩ : ∃ p, dc.parent = some p ∧ p ≠ 0 := by
      simpa [DataConfig.TopLevel] using htop
    obtain ⟨r, s', hcached, hr, hquiet⟩ := ih p (cfg.parent_lt hdc hp) s h
    have hparent : checkParent cached s dc = some (r, s') := by
      unfold checkParent
      rw [hp]
      dsimp only
      rw [if_pos hne, hcached]
    rw [hparent]
    cases r with
    | false => exact ⟨_, _, rfl, hr, hquiet, by simp⟩
    | unset => exact ⟨_, _, rfl, hr, hquiet, fun _ h => absurd h htop⟩
    | true => exact absurd rfl hr

end Nocache

/-- The check of a block in front of the `n`-th one, by induction on the recursion. -/
theorem configCheckCondCached_quiet (hn : n ≤ cfg.conds.length) (fuel : Nat) :
    ∀ i, i < n → i < fuel → ∀ s, NoneHolds cfg rules n s →
      ∃ r s', configCheckCondCached cfg.conds rules fuel s i = some (r, s') ∧ r ≠ .true ∧
        Quiet cfg rules n s s' := by
  induction fuel with
  | zero => exact fun i _ hi => absurd hi (Nat.not_lt_zero i)
  | succ fuel ih =>
    intro i hin hi s h
    unfold configCheckCondCached
    by_cases hunset : s.result i = .unset
    · rw [if_pos hunset]
      have hdc := List.getElem?_eq_getElem (Nat.lt_of_lt_of_le hin hn)
      obtain ⟨r, s', hnocache, hr, hquiet, hopen⟩ := configCheckCondNocache_quiet
        (fun p hp => ih p (Nat.lt_trans hp hin) (by omega)) h hin hdc hunset
      rw [hdc]
      dsimp only
      rw [hnocache]
      dsimp only
      have hstore := storeResult_ne_true cfg.conds s' i cfg.conds[i] hr
      rw [hstore]
      refine ⟨_, _, rfl, ?_, ?_⟩
      · simpa [CondCache.store, CondCache.setResult] using hr
      · exact hquiet.trans (.store hquiet.noneHolds hin hdc hr hopen)
    · rw [if_neg hunset]
      exact ⟨_, _, rfl, h.result i hin, .refl h⟩

theorem asked_none (asked : List (Fin cfg.conds.length))
    (h : NoneHolds cfg rules cfg.conds.length s) :
    ((conditions cfg).run s (asked.map fun i => .check i rules)).2 =
      asked.map fun _ => false := by
  induction asked generalizing s with
  | nil => rfl
  | cons i asked ih =>
    obtain ⟨r, s', hcached, hr, hquiet⟩ := configCheckCondCached_quiet (Nat.le_refl _)
      (cfg.conds.length + 1) i i.isLt (Nat.lt_succ_of_lt i.isLt) s h
    have hstep : (conditions cfg).step s (.check i rules) = (s', [false]) := by
      simp only [conditions, checking, configCheckCond, hcached, Option.map_some]
      simp [hr]
    rw [List.map_cons, Machine.run_cons, hstep, ih hquiet.noneHolds]
    rfl

theorem check_of_true (h : s.result i = .true) :
    ((checking cfg rules).step s i).2 = [true] := by
  have hcached : configCheckCondCached cfg.conds rules (cfg.conds.length + 1) s i =
      some (.true, s) := by
    unfold configCheckCondCached
    rw [if_neg (by simp [h]), h]
  simp only [checking, configCheckCond, hcached, Option.map_some]
  rfl

variable (dc s) in
theorem storeResult_true (hi : i < cfg.conds.length) :
    ∃ s', storeResult cfg.conds s i dc .true = some s' ∧ s'.result i = .true := by
  obtain ⟨js, hjs, hmem⟩ := @branchesBehind_spec cfg cfg.conds.length i hi (by omega)
  have hself : i ∉ js := fun hin => absurd ((hmem i).mp hin).lt (Nat.lt_irrefl i)
  have hstore : storeResult cfg.conds s i dc .true =
      some (remainsToFalse (s.store i dc .true) js) := by
    unfold storeResult
    dsimp only
    rw [if_pos rfl, hjs]
    rfl
  refine ⟨_, hstore, ?_⟩
  rw [remainsToFalse_result, if_neg hself]
  simp [CondCache.store, CondCache.setResult]

theorem check_of_rule (hi : i < cfg.conds.length) (h : NoneHolds cfg rules i s)
    (hdc : cfg.conds[i]? = some dc) (htop : dc.TopLevel) (hunset : s.result i = .unset)
    (hvalid : s.valid dc.comp = true) (hrule : rules i = true) :
    ((checking cfg rules).step s i).2 = [true] := by
  have ih : ∀ p, p < i → ∀ s, NoneHolds cfg rules i s →
      ∃ r s', configCheckCondCached cfg.conds rules cfg.conds.length s p = some (r, s') ∧
        r ≠ .true ∧ Quiet cfg rules i s s' := by
    intro p hp s hs
    exact configCheckCondCached_quiet (Nat.le_of_lt hi) _ p hp (Nat.lt_trans hp hi) s hs
  obtain ⟨s', hprev, hquiet, -⟩ := checkPrev_quiet ih h hdc
  obtain ⟨s'', hstore, hresult⟩ := storeResult_true s' dc hi
  have hopen : s'.result i = .unset := (hquiet.behind i (Nat.le_refl i)).trans hunset
  have hcached : configCheckCondCached cfg.conds rules (cfg.conds.length + 1) s i =
      some (.true, s'') := by
    unfold configCheckCondCached
    rw [if_pos hunset, hdc]
    dsimp only
    unfold configCheckCondNocache
    rw [checkParent_topLevel _ htop]
    dsimp only
    rw [hprev]
    dsimp only
    rw [if_neg (by simp [hopen]), hquiet.valid, if_neg (by simp [hvalid]), if_pos hrule]
    dsimp only
    rw [hstore, Option.map_some, hresult]
  simp only [checking, configCheckCond, hcached, Option.map_some]
  rfl

/-- If no block is reported to hold, then none does. By induction on the blocks in front. -/
theorem noneHolds_of_checks (h : ∀ i, i < cfg.conds.length →
    ((checking cfg rules).step s i).2 ≠ [true]) :
    ∀ n, n ≤ cfg.conds.length → NoneHolds cfg rules n s
  | 0, _ => ⟨fun _ hi => absurd hi (Nat.not_lt_zero _), fun _ _ hi => absurd hi (Nat.not_lt_zero _)⟩
  | n + 1, hn => by
    have ih := noneHolds_of_checks h n (Nat.le_of_succ_le hn)
    constructor
    · intro i hi htrue
      exact h i (by omega) (check_of_true htrue)
    · intro i dc hi hdc htop hunset hvalid
      rcases Nat.lt_succ_iff_lt_or_eq.mp hi with hlt | rfl
      · exact ih.rule i dc hlt hdc htop hunset hvalid
      · by_contra hrule
        exact h i hn (check_of_rule hn ih hdc htop hunset hvalid (by simpa using hrule))

end NoneHolds

section Own

variable {cfg : ConfigContext} {s : CondCache}

theorem rejected_own_iff {r : CondRequest cfg} (hr : r.Rejected) :
    (∀ asked, OwnResults s { r with asked := asked }) ↔
      NoneHolds cfg r.rules cfg.conds.length s := by
  have hops : ∀ asked, CondRequest.ops { r with asked := asked } =
      asked.map fun i => .check i r.rules := fun asked => if_pos hr
  unfold OwnResults condRequests
  dsimp only
  constructor
  · intro h
    refine noneHolds_of_checks ?_ _ (Nat.le_refl _)
    intro i hi htrue
    have hown := h [⟨i, hi⟩]
    rw [hops, asked_none _ (noneHolds_fresh _ _), List.map_singleton, Machine.run_cons] at hown
    have hstep : ((conditions cfg).step s (.check ⟨i, hi⟩ r.rules)).2 = [true] := htrue
    rw [hstep] at hown
    nomatch hown
  · intro h asked
    rw [hops, asked_none _ h, asked_none _ (noneHolds_fresh _ _)]

theorem Separate.ownResults {r : CondRequest cfg} (h : Separate s r) : OwnResults s r := by
  unfold Separate at h
  split at h
  · next hr => exact (rejected_own_iff hr).mpr h r.asked
  · next hr => exact ownResults_of_marks hr h

/-- In a history whose requests all find a structure they are separate from, each one has its own
results. -/
theorem condResults_own {history : List (CondRequest cfg)}
    (h : (condRequests cfg).Guarded Separate .fresh history) :
    ∀ earlier r later, history = earlier ++ r :: later →
      OwnResults ((condRequests cfg).run .fresh earlier).1 r := by
  rintro earlier r later rfl
  exact (Machine.guarded_append.mp h).2.1.ownResults

end Own

section HostLog

def hostBlock : Fin urlOrHost.conds.length := ⟨2, by decide⟩

/-- The host is known and matches; then the log asks for the block. -/
def hostRequest : CondRequest urlOrHost where
  httpStatus := 0
  handling := [.patch .httpHost (· == 2), .check hostBlock (· == 2)]
  rules := fun _ => false
  asked := []

def badRequest : CondRequest urlOrHost where
  httpStatus := 400
  handling := []
  rules := fun _ => false
  asked := [hostBlock]

/-- The rejected request comes first. -/
theorem condResults_own_badFirst :
    OwnResults ((condRequests urlOrHost).run .fresh [badRequest]).1 hostRequest := by
  have hbad : Separate .fresh badRequest := noneHolds_fresh _ _
  have hhost : Separate ((condRequests urlOrHost).step .fresh badRequest).1 hostRequest := by
    intro before after heq
    have hmem : CondOp.cleanCondCache ∈ hostRequest.handling := by
      rw [heq]
      simp
    simp [hostRequest] at hmem
  have hguarded : (condRequests urlOrHost).Guarded Separate .fresh [badRequest, hostRequest] :=
    ⟨hbad, hhost, trivial⟩
  exact condResults_own hguarded [badRequest] hostRequest [] rfl

/-- The log of the rejected request finds the block of the host the request before was for. -/
theorem not_condResults_own_hostRequest :
    ¬ ∀ (cfg : ConfigContext) (earlier : List (CondRequest cfg)) (r : CondRequest cfg),
      OwnResults ((condRequests cfg).run .fresh earlier).1 r := by
  intro h
  have hown := h urlOrHost [hostRequest] badRequest
  have hstale : ((condRequests urlOrHost).step
      ((condRequests urlOrHost).run .fresh [hostRequest]).1 badRequest).2 = [true] := by
    decide +kernel
  have halone : ((condRequests urlOrHost).step .fresh badRequest).2 = [false] := by
    decide +kernel
  unfold OwnResults at hown
  rw [hstale, halone] at hown
  nomatch hown

end HostLog

end Lighttpd
