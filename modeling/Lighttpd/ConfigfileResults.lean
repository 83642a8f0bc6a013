import Lighttpd.ConfigfileCaptures

/-!
# The results of the checks that keep the groups

The results are those of the checks without buffers and groups, for what the comparisons say in the
state before the check: the only buffer that a check writes is written before it is compared.
-/

namespace Lighttpd

open CLib

namespace CondConnection

/-- What a check reads of the connection besides the results; the buffer of the server is written
before it is read. -/
structure SameFields (s s' : CondConnection) : Prop where
  buffers : ∀ b, b ≠ .tmpBuf → s'.buffers b = s.buffers b
  methodName : s'.methodName = s.methodName
  element : s'.element = s.element

section Results

variable [Malloc] {cfg : ConfigContext} {re : CondRegexes} {cond : Nat → ConfigCond}
  {equal : Nat → Bool} {s s' s'' : CondConnection} {i : Nat} {dc : DataConfig} {comp : CompKey}
  {b : CondBuffer}

omit [Malloc] in
theorem SameFields.refl (s : CondConnection) : SameFields s s := ⟨fun _ _ => rfl, rfl, rfl⟩

omit [Malloc] in
theorem SameFields.trans (h : SameFields s s') (h' : SameFields s' s'') : SameFields s s'' :=
  ⟨fun b hb => (h'.buffers b hb).trans (h.buffers b hb), h'.methodName.trans h.methodName,
    h'.element.trans h.element⟩

theorem sameFields_copyMethod (s : CondConnection) : SameFields s s.copyMethod :=
  ⟨fun _ hb => Function.update_of_ne hb _ _, rfl, rfl⟩

omit [Malloc] in
theorem sameFields_matchRegex (s : CondConnection) (i : Nat) (comp : CompKey) (b : CondBuffer) :
    SameFields s (s.matchRegex re i comp b).2 := by
  obtain ⟨hbuffers, hname, helement⟩ := matchRegex_buffers s i comp b
  exact ⟨fun b' _ => congrFun hbuffers b', hname, helement⟩

omit [Malloc] in
theorem matchRegex_holds (s : CondConnection) (i : Nat) (comp : CompKey) (b : CondBuffer) :
    (s.matchRegex re i comp b).1 =
      ((re.pcre i (s.buffers b)).any fun m => decide ((pcreExec m).1 > 0)) := by
  unfold matchRegex
  cases re.pcre i (s.buffers b) with
  | none => rfl
  | some m =>
    dsimp only
    split
    · next hn => exact (decide_eq_true hn).symm
    · next hn => exact (decide_eq_false hn).symm

omit [Malloc] in
theorem SameFields.condBuffer (h : SameFields s s') (comp : CompKey) :
    s'.condBuffer comp = s.condBuffer comp := by
  unfold CondConnection.condBuffer
  rw [h.buffers .authority (by decide), h.element]

omit [Malloc] in
theorem pcre_text {l l' : Buffer} {t : Bytes} (hl : l.Text t) (hl' : l'.Text t) :
    re.pcre i l' = re.pcre i l := by
  unfold CondRegexes.pcre
  rw [hl.used, hl'.used, Nat.add_sub_cancel]
  have htake := take_of_holds hl.holds hl.used
  have htake' := take_of_holds hl'.holds hl'.used
  rw [hl.used, Nat.add_sub_cancel] at htake
  rw [hl'.used, Nat.add_sub_cancel] at htake'
  rw [htake, htake']

omit [Malloc] in
theorem sameFields_compareField (s : CondConnection) (i : Nat) (comp : CompKey) :
    SameFields s (compareField re cond equal s i comp).2 := by
  unfold compareField
  cases s.condBuffer comp with
  | none => exact .refl s
  | some b =>
    dsimp only
    cases cond i with
    | eq => exact .refl s
    | ne => exact .refl s
    | regex => exact sameFields_matchRegex s i comp b
    | notRegex => exact sameFields_matchRegex s i comp b

omit [Malloc] in
theorem compareField_holds (h : SameFields s s') (i : Nat)
    (hpcre : ∀ b, s.condBuffer comp = some b →
      re.pcre i (s'.buffers b) = re.pcre i (s.buffers b)) :
    (compareField re cond equal s' i comp).1 = (compareField re cond equal s i comp).1 := by
  unfold compareField
  rw [h.condBuffer comp]
  cases hb : s.condBuffer comp with
  | none => rfl
  | some b =>
    dsimp only
    cases cond i with
    | eq => rfl
    | ne => rfl
    | regex =>
      dsimp only
      rw [matchRegex_holds, matchRegex_holds, hpcre b hb]
    | notRegex =>
      dsimp only
      rw [matchRegex_holds, matchRegex_holds, hpcre b hb]

theorem sameFields_passRules (s : CondConnection) (i : Nat) (dc : DataConfig) :
    SameFields s (s.passRules re cond equal i dc).2 := by
  unfold passRules
  split
  · exact (sameFields_copyMethod s).trans (sameFields_compareField _ i _)
  · exact sameFields_compareField s i _

theorem passRules_holds (h : SameFields s s') (i : Nat) (dc : DataConfig) :
    (s'.passRules re cond equal i dc).1 = (s.passRules re cond equal i dc).1 := by
  unfold passRules
  by_cases hmethod : dc.comp = .httpRequestMethod
  · rw [if_pos hmethod, if_pos hmethod]
    have hcopies : SameFields s.copyMethod s'.copyMethod := by
      refine ⟨fun b hb => ?_, h.methodName, h.element⟩
      exact ((sameFields_copyMethod s').buffers b hb).trans
        ((h.buffers b hb).trans ((sameFields_copyMethod s).buffers b hb).symm)
    refine compareField_holds hcopies i fun b hb => ?_
    rw [hmethod] at hb
    cases hb
    exact pcre_text (text_copyMethod s) (h.methodName ▸ text_copyMethod s')
  · rw [if_neg hmethod, if_neg hmethod]
    refine compareField_holds h i fun b hb => ?_
    have hne : b ≠ .tmpBuf := by
      rintro rfl
      exact hmethod (condBuffer_tmpBuf hb)
    rw [h.buffers b hne]

variable (cfg re cond equal) in
def rules (s : CondConnection) (i : Nat) : Bool :=
  match cfg.conds[i]? with
  | some dc => (s.passRules re cond equal i dc).1
  | none => false

def AgreesWith (s : CondConnection) (a : CondResult × CondConnection)
    (b : CondResult × CondCache) : Prop :=
  a.1 = b.1 ∧ a.2.cache = b.2 ∧ SameFields s a.2

def AgreesStored (s : CondConnection) (i : Nat) (dc : DataConfig)
    (a : CondResult × CondConnection) (b : CondResult × CondCache) : Prop :=
  a.1 = b.1 ∧ a.2.cache.store i dc a.1 = b.2.store i dc a.1 ∧ SameFields s a.2

omit [Malloc] in
theorem matchRegex_store (s : CondConnection) (i : Nat) (b : CondBuffer) (r : CondResult) :
    (s.matchRegex re i dc.comp b).2.cache.store i dc r = s.cache.store i dc r := by
  unfold matchRegex
  split
  · rfl
  · dsimp only
    split
    · unfold CondCache.store CondCache.setResult
      dsimp only
      congr 1
      funext k
      split <;> rfl
    · rfl

theorem passRules_store (s : CondConnection) (i : Nat) (r : CondResult) :
    (s.passRules re cond equal i dc).2.cache.store i dc r = s.cache.store i dc r := by
  have hcompare : ∀ s : CondConnection,
      (compareField re cond equal s i dc.comp).2.cache.store i dc r = s.cache.store i dc r := by
    intro s
    unfold compareField
    cases s.condBuffer dc.comp with
    | none => rfl
    | some b =>
      dsimp only
      cases cond i with
      | eq => rfl
      | ne => rfl
      | regex => exact matchRegex_store s i b r
      | notRegex => exact matchRegex_store s i b r
  unfold passRules
  rw [hcompare]
  split <;> rfl

section Recursion

variable {cached : CondConnection → Nat → Option (CondResult × CondConnection)}
  {cached' : CondCache → Nat → Option (CondResult × CondCache)}
  (hc : ∀ {s'} i, SameFields s s' →
    Option.Rel (AgreesWith s) (cached s' i) (cached' s'.cache i))

include hc

omit [Malloc] in
theorem checkParent_agrees (h : SameFields s s') (dc : DataConfig) :
    Option.Rel (AgreesWith s) (checkParent cached s' dc)
      (Lighttpd.checkParent cached' s'.cache dc) := by
  unfold checkParent Lighttpd.checkParent
  cases dc.parent with
  | none => exact .some ⟨rfl, rfl, h⟩
  | some p =>
    dsimp only
    split
    · exact hc p h
    · exact .some ⟨rfl, rfl, h⟩

omit [Malloc] in
theorem checkPrev_agrees (h : SameFields s s') (dc : DataConfig) :
    Option.Rel (fun a c => a.cache = c ∧ SameFields s a) (checkPrev cached s' dc)
      (Lighttpd.checkPrev cached' s'.cache dc) := by
  unfold checkPrev Lighttpd.checkPrev
  cases dc.prev with
  | none => exact .some ⟨rfl, h⟩
  | some p =>
    dsimp only
    have hprev := hc p h
    generalize cached s' p = a at hprev ⊢
    generalize cached' s'.cache p = c at hprev ⊢
    cases hprev with
    | none => exact .none
    | some hsame => exact .some hsame.2

theorem configCheckCondNocache_agrees (h : SameFields s s') (hdc : cfg.conds[i]? = some dc) :
    Option.Rel (AgreesStored s i dc) (configCheckCondNocache re cond equal cached s' i dc)
      (Lighttpd.configCheckCondNocache (s.rules cfg re cond equal) cached' s'.cache i dc) := by
  unfold configCheckCondNocache Lighttpd.configCheckCondNocache
  have hparent := checkParent_agrees hc h dc
  generalize checkParent cached s' dc = a at hparent ⊢
  generalize Lighttpd.checkParent cached' s'.cache dc = c at hparent ⊢
  cases hparent with
  | none => exact .none
  | @some a c hsame =>
    obtain ⟨r, s₁⟩ := a
    obtain ⟨r', c₁⟩ := c
    obtain ⟨rfl, rfl, h₁⟩ := hsame
    cases r with
    | false => exact .some ⟨rfl, rfl, h₁⟩
    | unset => exact .some ⟨rfl, rfl, h₁⟩
    | true =>
      dsimp only
      have hprev := checkPrev_agrees hc h₁ dc
      generalize checkPrev cached s₁ dc = a at hprev ⊢
      generalize Lighttpd.checkPrev cached' s₁.cache dc = c at hprev ⊢
      cases hprev with
      | none => exact .none
      | @some s₂ c₂ hsame =>
        obtain ⟨rfl, h₂⟩ := hsame
        have hrule : s.rules cfg re cond equal i = (s₂.passRules re cond equal i dc).1 := by
          unfold rules
          rw [hdc]
          exact (passRules_holds h₂ i dc).symm
        dsimp only
        rw [hrule]
        split
        · exact .some ⟨rfl, rfl, h₂⟩
        · split
          · exact .some ⟨rfl, rfl, h₂⟩
          · exact .some ⟨rfl, passRules_store s₂ i _, h₂.trans (sameFields_passRules s₂ i dc)⟩

end Recursion

end Results

end CondConnection

end Lighttpd
