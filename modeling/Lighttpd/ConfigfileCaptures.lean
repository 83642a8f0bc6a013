import Lighttpd.ConfigfileHistory
import Lighttpd.ConfigfileOperands
import Lighttpd.PathInfo
import Lighttpd.Plugins.RewriteTemplate

/-!
# `configfile-glue.c`: the groups of a condition

When a condition matches an expression, the cache keeps where the groups are and a pointer to the
buffer, not its text. For the request method this is a buffer of the server that all code uses, for
the other fields one of the connection. So the groups that are appended later are those that were
captured exactly as long as nobody writes something else into the place of a group that is kept
(`appendsCaptured_iff`). The checks of other conditions never do.
-/

namespace Lighttpd

open CLib

/-- The buffers that a condition is compared with; the value of a header is in the element that the
request has for it. -/
inductive CondBuffer where
  | tmpBuf
  | emptyString
  | srvToken
  | dstAddr
  | scheme
  | authority
  | path
  | query
  | value (element : Nat)
  deriving DecidableEq, Repr

/-- `cond_cache_t` without the result and the field. -/
structure CondGroups where
  patterncount : Int
  ovector : List (Int × Int)
  compValue : Option CondBuffer
  deriving DecidableEq, Repr

/-- The expressions of the blocks; the groups that PCRE finds are in the subject. -/
structure CondRegexes where
  exec : Nat → Bytes → Option (List (Option (Nat × Nat)))
  inside : ∀ {i s groups g}, exec i s = some groups → some g ∈ groups → g.2 ≤ s.length

/-- What the conditions use of the server and the connection. `matched` is what each block matched
when it was evaluated for the request; the code does not keep it. -/
structure CondConnection where
  cache : CondCache
  groups : Nat → CondGroups
  buffers : CondBuffer → Buffer
  methodName : Bytes
  element : CompKey → Option Nat
  matched : Nat → Option PcreMatch

/-- `pcre_exec` on a buffer; without a text its length is −1. -/
def CondRegexes.pcre (re : CondRegexes) (i : Nat) (l : Buffer) : Option PcreMatch :=
  if l.used = 0 then none
  else (re.exec i (l.ptr.take (l.used - 1))).map (PcreMatch.mk (l.ptr.take (l.used - 1)))

namespace CondConnection

section Code

variable [Malloc] (cfg : ConfigContext) (re : CondRegexes) (cond : Nat → ConfigCond)
  (equal : Nat → Bool)

/-- The name of the method is copied, as there must be a buffer for comparing. -/
def copyMethod (s : CondConnection) : CondConnection :=
  { s with
    buffers := Function.update s.buffers .tmpBuf
      (bufferCopyString (s.buffers .tmpBuf) (some s.methodName)) }

/-- The buffer for the field, if there is one: `l`. -/
def condBuffer (s : CondConnection) : CompKey → Option CondBuffer
  | .unset => none
  | .serverSocket => some .srvToken
  | .httpUrl => some .path
  | .httpHost => some (if bufferIsEmpty (s.buffers .authority) then .emptyString else .authority)
  | .httpRemoteIp => some .dstAddr
  | .httpQueryString => some .query
  | .httpScheme => some .scheme
  | .httpRequestMethod => some .tmpBuf
  | comp => some (match s.element comp with | some e => .value e | none => .emptyString)

/-- `CONFIG_COND_MATCH`: whether the expression matches. Where the vector has no room for all groups
it does not. -/
def matchRegex (s : CondConnection) (i : Nat) (comp : CompKey) (b : CondBuffer) :
    Bool × CondConnection :=
  match re.pcre i (s.buffers b) with
  | none =>
    (false, { s with
      groups := Function.update s.groups i { s.groups i with patterncount := -1 }
      matched := Function.update s.matched i none })
  | some m =>
    let n := (pcreExec m).1
    if n > 0 then
      (true, { s with
        cache := { s.cache with
          compType := fun k => if k = i then comp else s.cache.compType k }
        groups := Function.update s.groups i ⟨n, (pcreExec m).2, some b⟩
        matched := Function.update s.matched i (some m) })
    else
      (false, { s with
        groups := Function.update s.groups i ⟨n, (pcreExec m).2, (s.groups i).compValue⟩
        matched := Function.update s.matched i (some m) })

/-- The switch over `dc->cond`; for `==` and `!=` its result is `equal`. -/
def compareField (s : CondConnection) (i : Nat) (comp : CompKey) : Bool × CondConnection :=
  match s.condBuffer comp with
  | none => (false, s)
  | some b =>
    match cond i with
    | .eq | .ne => (equal i, s)
    | .regex => s.matchRegex re i comp b
    | .notRegex =>
      let (holds, s) := s.matchRegex re i comp b
      (!holds, s)

def passRules (s : CondConnection) (i : Nat) (dc : DataConfig) : Bool × CondConnection :=
  compareField re cond equal (if dc.comp = .httpRequestMethod then s.copyMethod else s) i dc.comp

/-- The parent's result; `cached` is the check of another block. -/
def checkParent (cached : CondConnection → Nat → Option (CondResult × CondConnection))
    (s : CondConnection) (dc : DataConfig) : Option (CondResult × CondConnection) :=
  match dc.parent with
  | some p => if p ≠ 0 then cached s p else some (.true, s)
  | none => some (.true, s)

def checkPrev (cached : CondConnection → Nat → Option (CondResult × CondConnection))
    (s : CondConnection) (dc : DataConfig) : Option CondConnection :=
  match dc.prev with
  | some p => (cached s p).map Prod.snd
  | none => some s

def configCheckCondNocache
    (cached : CondConnection → Nat → Option (CondResult × CondConnection)) (s : CondConnection)
    (i : Nat) (dc : DataConfig) : Option (CondResult × CondConnection) :=
  match checkParent cached s dc with
  | none => none
  | some (.false, s) => some (.false, s)
  | some (.unset, s) => some (.unset, s)
  | some (.true, s) =>
    match checkPrev cached s dc with
    | none => none
    | some s =>
      -- the branch in front may have set this one to false
      if dc.prev.isSome ∧ s.cache.result i = .false then some (.false, s)
      else if s.cache.valid dc.comp = false then some (.unset, s)
      else
        let (holds, s) := s.passRules re cond equal i dc
        some (if holds then .true else .false, s)

def configCheckCondCached :
    Nat → CondConnection → Nat → Option (CondResult × CondConnection)
  | 0, _, _ => none
  | fuel + 1, s, i =>
    if s.cache.result i = .unset then
      match cfg.conds[i]? with
      | none => none
      | some dc =>
        match configCheckCondNocache re cond equal (configCheckCondCached fuel) s i dc with
        | none => none
        | some (r, s) =>
          (storeResult cfg.conds s.cache i dc r).map fun c => (c.result i, { s with cache := c })
    else some (s.cache.result i, s)

/-- `config_check_cond` -/
def configCheckCond (s : CondConnection) (i : Nat) : Option (Bool × CondConnection) :=
  (configCheckCondCached cfg re cond equal (cfg.conds.length + 1) s i).map fun (r, s) =>
    (r == .true, s)

/-- The results that `reset` is about are cleared, with their groups. -/
def resetItems (s : CondConnection) (cache : CondCache) (reset : Nat → Prop) [DecidablePred reset] :
    CondConnection :=
  { s with
    cache := cache
    groups := fun i =>
      if reset i then { s.groups i with patterncount := 0, compValue := none } else s.groups i
    matched := fun i => if reset i then none else s.matched i }

/-- `config_cond_cache_reset_item` -/
def configCondCacheResetItem (s : CondConnection) (item : CompKey) : CondConnection :=
  s.resetItems (Lighttpd.configCondCacheResetItem s.cache item) fun i =>
    s.cache.compType i = item

/-- `config_cond_cache_reset` -/
def configCondCacheReset (s : CondConnection) : CondConnection :=
  s.resetItems (Lighttpd.configCondCacheReset s.cache) fun _ => True

/-- What `cache->comp_value->ptr` points to. -/
def compValue (s : CondConnection) (i : Nat) : Bytes :=
  match (s.groups i).compValue with
  | some b => (s.buffers b).ptr
  | none => []

def configAppendCondMatchBuffer (s : CondConnection) (i : Nat) (buf : Buffer) (n : Nat) :
    Nat × Buffer :=
  (if (n : Int) ≥ (s.groups i).patterncount then 0 else 1,
    Lighttpd.configAppendCondMatchBuffer
      ⟨(s.groups i).patterncount, (s.groups i).ovector, s.compValue i⟩ buf n)

end Code

end CondConnection

/-! ## The runs -/

/-- What is done with the conditions and with what they point to. -/
inductive CaptureOp where
  /-- `http_response_prepare` starts, for the next request or after a comeback. -/
  | prepare (methodName : Bytes) (element : CompKey → Option Nat)
  /-- The next request is rejected by the parser, so it is not prepared. -/
  | rejected (methodName : Bytes) (element : CompKey → Option Nat)
  /-- `config_patch_connection` starts. -/
  | setConditionalIsValid (comp : CompKey)
  /-- A plugin asks for a block. -/
  | check (i : Nat) (equal : Nat → Bool)
  /-- `clean_cond_cache` of `mod_extforward` -/
  | cleanCondCache
  /-- The headers of the request are changed. -/
  | setElement (element : CompKey → Option Nat)
  /-- Anything is written into a buffer. -/
  | write (b : CondBuffer) (buffer : Buffer)

section Machines

variable [Malloc] (cfg : ConfigContext) (re : CondRegexes) (cond : Nat → ConfigCond)

def captures : Machine CondConnection CaptureOp Bool where
  step s op :=
    match op with
    | .prepare methodName element =>
      ({ s.configCondCacheReset with methodName := methodName, element := element }, [])
    | .rejected methodName element =>
      ({ s with methodName := methodName, element := element, matched := fun _ => none }, [])
    | .setConditionalIsValid comp => ({ s with cache := setConditionalIsValid s.cache comp }, [])
    | .check i equal =>
      match s.configCheckCond cfg re cond equal i with
      | some (holds, s) => (s, [holds])
      | none => (s, [])
    | .cleanCondCache => (s.configCondCacheResetItem .httpRemoteIp, [])
    | .setElement element => ({ s with element := element }, [])
    | .write b buffer => ({ s with buffers := Function.update s.buffers b buffer }, [])

end Machines

def CondConnection.fresh (buffers : CondBuffer → Buffer) : CondConnection where
  cache := .fresh
  groups _ := ⟨0, [], none⟩
  buffers := buffers
  methodName := []
  element _ := none
  matched _ := none

def CondGroups.text (g : CondGroups) (memory : Bytes) (d : Nat) : Bytes :=
  (memory.drop (g.ovector.getD d (0, 0)).1.toNat).take
    ((g.ovector.getD d (0, 0)).2 - (g.ovector.getD d (0, 0)).1).toNat

/-- Whatever is appended is the group that was captured when the condition was evaluated for the
request. -/
def AppendsCaptured [Malloc] (s : CondConnection) : Prop :=
  ∀ i n buf t, buf.Shows t → (s.configAppendCondMatchBuffer i buf n).1 = 1 → ∃ m,
    s.matched i = some m ∧ (s.configAppendCondMatchBuffer i buf n).2.Shows (t ++ m.group n)

/-- What is written into a buffer has the same text at the place of each group that is kept of it,
and a request that is not prepared finds no groups. -/
def SparesGroups (s : CondConnection) : CaptureOp → Prop
  | .write b buffer => ∀ i, (s.groups i).compValue = some b →
      ∀ d : Nat, (d : Int) < (s.groups i).patterncount →
        (s.groups i).text buffer.ptr d = (s.groups i).text (s.buffers b).ptr d
  | .rejected _ _ => ∀ i, (s.groups i).patterncount ≤ 0
  | _ => True

/-! ## The groups in the buffer -/

namespace PcreMatch

variable {m : PcreMatch} {d : Nat}

theorem lt_pcreExec_iff : (d : Int) < (pcreExec m).1 ↔ d < m.count ∧ m.count ≤ 10 := by
  unfold pcreExec
  dsimp only
  split <;> omega

theorem text_of_prefix (hinside : ∀ g, some g ∈ m.groups → g.2 ≤ m.subject.length)
    (hd : (d : Int) < (pcreExec m).1) {g : CondGroups} (hg : g.ovector = (pcreExec m).2)
    {memory : Bytes} (hmemory : m.subject <+: memory) : g.text memory d = m.group d := by
  obtain ⟨hcount, hroom⟩ := lt_pcreExec_iff.mp hd
  obtain ⟨behind, rfl⟩ := hmemory
  have hlt : d < m.groups.length := Nat.lt_of_lt_of_le hcount m.count_le
  have hget : m.groups[d]? = some m.groups[d] := List.getElem?_eq_getElem hlt
  have hmem : m.groups[d] ∈ m.groups := List.getElem_mem hlt
  unfold CondGroups.text
  rw [hg, List.getD_eq_getElem?_getD]
  unfold pcreExec group
  dsimp only
  rw [List.getElem?_map, List.getElem?_take_of_lt (by omega), hget, Option.map_some,
    Option.getD_some]
  cases hgroup : m.groups[d] with
  | none => rfl
  | some pair =>
    obtain ⟨first, last⟩ := pair
    rw [hgroup] at hmem
    have hlast : last ≤ m.subject.length := hinside _ hmem
    dsimp only
    rw [Int.toNat_natCast, show ((last : Int) - first).toNat = last - first by omega]
    rcases Nat.le_total first last with hle | hge
    · rw [List.drop_append_of_le_length (hle.trans hlast),
        List.take_append_of_le_length (by rw [List.length_drop]; omega)]
    · rw [Nat.sub_eq_zero_of_le hge, List.take_zero, List.take_zero]

end PcreMatch

theorem CondRegexes.pcre_spec {re : CondRegexes} {i : Nat} {l : Buffer} {m : PcreMatch}
    (h : re.pcre i l = some m) : m.subject = l.ptr.take (l.used - 1) ∧
      ∀ g, some g ∈ m.groups → g.2 ≤ m.subject.length := by
  unfold CondRegexes.pcre at h
  split at h
  · cases h
  · obtain ⟨groups, hexec, rfl⟩ := Option.map_eq_some_iff.mp h
    exact ⟨rfl, fun g hg => re.inside hexec hg⟩

namespace CondConnection

/-- The block keeps the groups of a match, and they are still in the buffer. -/
structure Keeps (s : CondConnection) (i : Nat) (m : PcreMatch) (b : CondBuffer) : Prop where
  matched : s.matched i = some m
  groups : s.groups i = ⟨(pcreExec m).1, (pcreExec m).2, some b⟩
  inside : ∀ g, some g ∈ m.groups → g.2 ≤ m.subject.length
  there : ∀ d : Nat, (d : Int) < (pcreExec m).1 →
    (s.groups i).text (s.buffers b).ptr d = m.group d
  name : b = .tmpBuf → m.subject = s.methodName

def KeepsAll (s : CondConnection) : Prop :=
  ∀ i, 0 < (s.groups i).patterncount → ∃ m b, s.Keeps i m b

variable {s s' : CondConnection} {i : Nat} {m : PcreMatch} {b : CondBuffer}

theorem Keeps.congr (h : s.Keeps i m b) (hmatched : s'.matched i = s.matched i)
    (hgroups : s'.groups i = s.groups i) (hbuffer : s'.buffers b = s.buffers b)
    (hname : s'.methodName = s.methodName) : s'.Keeps i m b where
  matched := hmatched.trans h.matched
  groups := hgroups.trans h.groups
  inside := h.inside
  there d hd := by
    rw [hgroups, hbuffer]
    exact h.there d hd
  name hb := (h.name hb).trans hname.symm

theorem KeepsAll.congr (h : s.KeepsAll) (hmatched : s'.matched = s.matched)
    (hgroups : s'.groups = s.groups) (hbuffers : s'.buffers = s.buffers)
    (hname : s'.methodName = s.methodName) : s'.KeepsAll := by
  intro i hi
  rw [hgroups] at hi
  obtain ⟨m, b, hkeeps⟩ := h i hi
  exact ⟨m, b, hkeeps.congr (congrFun hmatched i) (congrFun hgroups i) (congrFun hbuffers b) hname⟩

section Evaluation

variable [Malloc] (cfg : ConfigContext) {re : CondRegexes} {cond : Nat → ConfigCond}
  {equal : Nat → Bool} {comp : CompKey} {dc : DataConfig}

theorem text_copyMethod (s : CondConnection) :
    (s.copyMethod.buffers .tmpBuf).Text s.methodName := by
  unfold copyMethod
  dsimp only
  rw [Function.update_self]
  exact text_bufferCopyString _ _

theorem keepsAll_copyMethod (h : s.KeepsAll) : s.copyMethod.KeepsAll := by
  intro i hi
  obtain ⟨m, b, hkeeps⟩ := h i hi
  refine ⟨m, b, ?_⟩
  by_cases hb : b = .tmpBuf
  · subst hb
    refine ⟨hkeeps.matched, hkeeps.groups, hkeeps.inside, fun d hd => ?_, hkeeps.name⟩
    obtain ⟨behind, hptr⟩ := (text_copyMethod s).ptr_eq
    refine PcreMatch.text_of_prefix hkeeps.inside hd ?_ ?_
    · exact congrArg CondGroups.ovector hkeeps.groups
    · rw [hptr, hkeeps.name rfl]
      exact List.prefix_append _ _
  · exact hkeeps.congr rfl rfl (Function.update_of_ne hb _ _) rfl

omit [Malloc] in
theorem matchRegex_frame (s : CondConnection) (i : Nat) (comp : CompKey) (b : CondBuffer) {k : Nat}
    (hk : k ≠ i) :
    ((s.matchRegex re i comp b).2.groups k = s.groups k ∧
      (s.matchRegex re i comp b).2.matched k = s.matched k) := by
  unfold matchRegex
  split
  · exact ⟨Function.update_of_ne hk _ _, Function.update_of_ne hk _ _⟩
  · dsimp only
    split
    · exact ⟨Function.update_of_ne hk _ _, Function.update_of_ne hk _ _⟩
    · exact ⟨Function.update_of_ne hk _ _, Function.update_of_ne hk _ _⟩

omit [Malloc] in
theorem matchRegex_buffers (s : CondConnection) (i : Nat) (comp : CompKey) (b : CondBuffer) :
    (s.matchRegex re i comp b).2.buffers = s.buffers ∧
      (s.matchRegex re i comp b).2.methodName = s.methodName ∧
      (s.matchRegex re i comp b).2.element = s.element := by
  unfold matchRegex
  split
  · exact ⟨rfl, rfl, rfl⟩
  · dsimp only
    split
    · exact ⟨rfl, rfl, rfl⟩
    · exact ⟨rfl, rfl, rfl⟩

omit [Malloc] in
theorem matchRegex_keeps (s : CondConnection) (i : Nat) (comp : CompKey)
    (hb : b = .tmpBuf → (s.buffers .tmpBuf).Text s.methodName)
    (hi : 0 < ((s.matchRegex re i comp b).2.groups i).patterncount) :
    ∃ m, (s.matchRegex re i comp b).2.Keeps i m b := by
  unfold matchRegex at hi ⊢
  split at hi
  · next hnone =>
    have hgroups : Function.update s.groups i { s.groups i with patterncount := -1 } i =
        { s.groups i with patterncount := -1 } := Function.update_self ..
    dsimp only at hi
    rw [hgroups] at hi
    exact absurd hi (show ¬ (0 : Int) < -1 by decide)
  · next m hm =>
    obtain ⟨hsubject, hinside⟩ := CondRegexes.pcre_spec hm
    dsimp only at hi ⊢
    by_cases hn : (pcreExec m).1 > 0
    · rw [if_pos hn]
      refine ⟨m, Function.update_self .., Function.update_self .., hinside, fun d hd => ?_, ?_⟩
      · dsimp only
        rw [Function.update_self]
        refine PcreMatch.text_of_prefix hinside hd rfl ?_
        rw [hsubject]
        exact List.take_prefix _ _
      · intro htmp
        have htext := hb htmp
        subst htmp
        rw [hsubject]
        exact take_of_holds htext.holds htext.used
    · rw [if_neg hn] at hi
      dsimp only at hi
      rw [Function.update_self] at hi
      exact absurd hi hn

omit [Malloc] in
theorem keepsAll_matchRegex (h : s.KeepsAll) (i : Nat) (comp : CompKey)
    (hb : b = .tmpBuf → (s.buffers .tmpBuf).Text s.methodName) :
    (s.matchRegex re i comp b).2.KeepsAll := by
  intro k hk
  by_cases hki : k = i
  · subst hki
    obtain ⟨m, hkeeps⟩ := matchRegex_keeps s k comp hb hk
    exact ⟨m, b, hkeeps⟩
  · obtain ⟨hgroups, hmatched⟩ := matchRegex_frame s i comp b hki
    obtain ⟨hbuffers, hname, -⟩ := matchRegex_buffers s i comp b
    rw [hgroups] at hk
    obtain ⟨m, b', hkeeps⟩ := h k hk
    exact ⟨m, b', hkeeps.congr hmatched hgroups (congrFun hbuffers b') hname⟩

omit [Malloc] in
theorem condBuffer_tmpBuf (h : s.condBuffer comp = some .tmpBuf) : comp = .httpRequestMethod := by
  unfold condBuffer at h
  split at h
  case h_8 => rfl
  all_goals
    first
      | cases h
      | (obtain h := Option.some.inj h; split at h <;> cases h)

omit [Malloc] in
theorem keepsAll_compareField (h : s.KeepsAll) (i : Nat)
    (hname : comp = .httpRequestMethod → (s.buffers .tmpBuf).Text s.methodName) :
    (compareField re cond equal s i comp).2.KeepsAll := by
  unfold compareField
  cases hbuffer : s.condBuffer comp with
  | none => exact h
  | some b =>
    have htmp : b = .tmpBuf → (s.buffers .tmpBuf).Text s.methodName := by
      rintro rfl
      exact hname (condBuffer_tmpBuf hbuffer)
    dsimp only
    cases cond i with
    | eq => exact h
    | ne => exact h
    | regex => exact keepsAll_matchRegex h i _ htmp
    | notRegex => exact keepsAll_matchRegex h i _ htmp

/-- **A comparison** keeps the groups of all other blocks. -/
theorem keepsAll_passRules (h : s.KeepsAll) (i : Nat) (dc : DataConfig) :
    (s.passRules re cond equal i dc).2.KeepsAll := by
  unfold passRules
  by_cases hmethod : dc.comp = .httpRequestMethod
  · rw [if_pos hmethod]
    exact keepsAll_compareField (keepsAll_copyMethod h) i fun _ => text_copyMethod s
  · rw [if_neg hmethod]
    exact keepsAll_compareField h i fun hcomp => absurd hcomp hmethod

section Nocache

variable {P : CondConnection → Prop}
  {cached : CondConnection → Nat → Option (CondResult × CondConnection)}
  (hcached : ∀ {s k r s'}, P s → cached s k = some (r, s') → P s') {r : CondResult}

include hcached

omit [Malloc] in
theorem checkParent_keeps (hP : P s) (hrun : checkParent cached s dc = some (r, s')) : P s' := by
  unfold checkParent at hrun
  split at hrun
  · split at hrun
    · exact hcached hP hrun
    · cases hrun
      exact hP
  · cases hrun
    exact hP

omit [Malloc] in
theorem checkPrev_keeps (hP : P s) (hrun : checkPrev cached s dc = some s') : P s' := by
  unfold checkPrev at hrun
  split at hrun
  · obtain ⟨⟨r, s₁⟩, hcheck, rfl⟩ := Option.map_eq_some_iff.mp hrun
    exact hcached hP hcheck
  · cases hrun
    exact hP

theorem nocache_keeps (hpass : ∀ s i dc, P s → P (s.passRules re cond equal i dc).2) (hP : P s)
    (hrun : configCheckCondNocache re cond equal cached s i dc = some (r, s')) : P s' := by
  unfold configCheckCondNocache at hrun
  split at hrun
  · cases hrun
  · next s₁ hparent =>
    cases hrun
    exact checkParent_keeps hcached hP hparent
  · next s₁ hparent =>
    cases hrun
    exact checkParent_keeps hcached hP hparent
  · next s₁ hparent =>
    have hP₁ := checkParent_keeps hcached hP hparent
    split at hrun
    · cases hrun
    · next s₂ hprev =>
      have hP₂ := checkPrev_keeps hcached hP₁ hprev
      split at hrun
      · cases hrun
        exact hP₂
      · split at hrun
        · cases hrun
          exact hP₂
        · cases hrun
          exact hpass s₂ i dc hP₂

end Nocache

variable (re cond equal)

theorem configCheckCondCached_keeps {P : CondConnection → Prop}
    (hcache : ∀ s c, P s → P { s with cache := c })
    (hpass : ∀ s i dc, P s → P (s.passRules re cond equal i dc).2) (fuel : Nat) {i : Nat}
    {s s' : CondConnection} {r : CondResult} (hP : P s)
    (hrun : configCheckCondCached cfg re cond equal fuel s i = some (r, s')) : P s' := by
  induction fuel generalizing i s s' r with
  | zero => cases hrun
  | succ fuel ih =>
    unfold configCheckCondCached at hrun
    split at hrun
    · cases hdc : cfg.conds[i]? with
      | none =>
        rw [hdc] at hrun
        cases hrun
      | some dc =>
        rw [hdc] at hrun
        dsimp only at hrun
        cases hnocache : configCheckCondNocache re cond equal
            (configCheckCondCached cfg re cond equal fuel) s i dc with
        | none =>
          rw [hnocache] at hrun
          cases hrun
        | some found =>
          obtain ⟨r₁, s₁⟩ := found
          rw [hnocache] at hrun
          obtain ⟨c, -, hstore⟩ := Option.map_eq_some_iff.mp hrun
          cases hstore
          exact hcache s₁ c (nocache_keeps (fun hP hc => ih hP hc) hpass hP hnocache)
    · cases hrun
      exact hP

end Evaluation

/-! ## What is appended -/

theorem shows_appended [Malloc] {buf : Buffer} {t : Bytes} (h : buf.Shows t) {n : Nat}
    (hn : (n : Int) < (s.groups i).patterncount) :
    (s.configAppendCondMatchBuffer i buf n).2.Shows
      (t ++ (s.groups i).text (s.compValue i) n) := by
  unfold configAppendCondMatchBuffer Lighttpd.configAppendCondMatchBuffer
  dsimp only
  rw [if_neg (by omega)]
  exact shows_bufferAppendStringLen h _

theorem appended_iff [Malloc] (buf : Buffer) (n : Nat) :
    (s.configAppendCondMatchBuffer i buf n).1 = 1 ↔ (n : Int) < (s.groups i).patterncount := by
  unfold configAppendCondMatchBuffer
  dsimp only
  split <;> omega

theorem appendsCaptured_places [Malloc] : AppendsCaptured s ↔
    ∀ i, ∀ n : Nat, (n : Int) < (s.groups i).patterncount → ∃ m, s.matched i = some m ∧
      (s.groups i).text (s.compValue i) n = m.group n := by
  constructor
  · intro h i n hn
    have hempty : bufferInit.Shows [] := Or.inr ⟨rfl, rfl⟩
    obtain ⟨m, hmatched, hshows⟩ := h i n bufferInit [] hempty ((appended_iff _ n).mpr hn)
    exact ⟨m, hmatched, (shows_appended hempty hn).unique hshows⟩
  · intro h i n buf t hbuf hone
    have hn := (appended_iff buf n).mp hone
    obtain ⟨m, hmatched, htext⟩ := h i n hn
    exact ⟨m, hmatched, htext ▸ shows_appended hbuf hn⟩

theorem KeepsAll.appendsCaptured [Malloc] (h : s.KeepsAll) : AppendsCaptured s := by
  rw [appendsCaptured_places]
  intro i n hn
  obtain ⟨m, b, hkeeps⟩ := h i (by omega)
  have hmemory : s.compValue i = (s.buffers b).ptr := by
    unfold compValue
    rw [hkeeps.groups]
  rw [hkeeps.groups] at hn
  exact ⟨m, hkeeps.matched, hmemory ▸ hkeeps.there n hn⟩

/-! ## The operations -/

theorem keepsAll_fresh (buffers : CondBuffer → Buffer) : (fresh buffers).KeepsAll :=
  fun _ hi => absurd hi (Int.lt_irrefl 0)

theorem keepsAll_resetItems (h : s.KeepsAll) (cache : CondCache) (reset : Nat → Prop)
    [DecidablePred reset] : (s.resetItems cache reset).KeepsAll := by
  intro i hi
  unfold resetItems at hi
  dsimp only at hi
  by_cases hreset : reset i
  · rw [if_pos hreset] at hi
    exact absurd hi (Int.lt_irrefl 0)
  · rw [if_neg hreset] at hi
    obtain ⟨m, b, hkeeps⟩ := h i hi
    exact ⟨m, b, hkeeps.congr (if_neg hreset) (if_neg hreset) rfl rfl⟩

theorem keepsAll_of_none (h : ∀ i, (s.groups i).patterncount ≤ 0) : s.KeepsAll :=
  fun i hi => absurd hi (Int.not_lt.mpr (h i))

theorem keepsAll_write (h : s.KeepsAll) {b : CondBuffer} {buffer : Buffer}
    (hspares : SparesGroups s (.write b buffer)) :
    KeepsAll { s with buffers := Function.update s.buffers b buffer } := by
  intro i hi
  obtain ⟨m, b', hkeeps⟩ := h i hi
  refine ⟨m, b', ?_⟩
  by_cases hb : b' = b
  · subst hb
    have hvalue : (s.groups i).compValue = some b' := congrArg CondGroups.compValue hkeeps.groups
    refine ⟨hkeeps.matched, hkeeps.groups, hkeeps.inside, fun d hd => ?_, hkeeps.name⟩
    have hcount : (d : Int) < (s.groups i).patterncount := by
      rw [hkeeps.groups]
      exact hd
    dsimp only
    rw [Function.update_self, hspares i hvalue d hcount]
    exact hkeeps.there d hd
  · exact hkeeps.congr rfl rfl (Function.update_of_ne hb _ _) rfl

section Steps

variable [Malloc] {cfg : ConfigContext} {re : CondRegexes} {cond : Nat → ConfigCond}

theorem keepsAll_check (h : s.KeepsAll) (equal : Nat → Bool) {holds : Bool}
    (hrun : s.configCheckCond cfg re cond equal i = some (holds, s')) : s'.KeepsAll := by
  unfold configCheckCond at hrun
  obtain ⟨⟨r, s₁⟩, hcached, hanswer⟩ := Option.map_eq_some_iff.mp hrun
  cases hanswer
  exact configCheckCondCached_keeps cfg re cond equal (P := KeepsAll)
    (fun s c hP => hP.congr rfl rfl rfl rfl)
    (fun s i dc hP => keepsAll_passRules hP i dc) _ h hcached

/-- **One operation.** -/
theorem keepsAll_step (s : CondConnection) (op : CaptureOp) (hspares : SparesGroups s op)
    (h : s.KeepsAll) : ((captures cfg re cond).step s op).1.KeepsAll := by
  cases op with
  | prepare methodName element => exact keepsAll_of_none fun i => Int.le_refl 0
  | rejected methodName element => exact keepsAll_of_none hspares
  | setConditionalIsValid comp => exact h.congr rfl rfl rfl rfl
  | check i equal =>
    cases hrun : s.configCheckCond cfg re cond equal i with
    | none => simpa only [captures, hrun] using h
    | some answer => simpa only [captures, hrun] using keepsAll_check h equal hrun
  | cleanCondCache => exact keepsAll_resetItems h _ _
  | setElement element => exact h.congr rfl rfl rfl rfl
  | write b buffer => exact keepsAll_write h hspares

theorem sparesGroups_of_appendsCaptured (s : CondConnection) (op : CaptureOp)
    (h : AppendsCaptured s) (h' : AppendsCaptured ((captures cfg re cond).step s op).1) :
    SparesGroups s op := by
  rw [appendsCaptured_places] at h h'
  cases op with
  | rejected methodName element =>
    intro i
    by_contra hi
    obtain ⟨m, hmatched, -⟩ := h' i 0 (by simpa [captures] using hi)
    cases hmatched
  | write b buffer =>
    intro i hvalue d hd
    obtain ⟨m, hmatched, htext⟩ := h i d hd
    obtain ⟨m', hmatched', htext'⟩ := h' i d hd
    obtain rfl := Option.some.inj (hmatched.symm.trans hmatched')
    have hmemory : s.compValue i = (s.buffers b).ptr := by
      unfold compValue
      rw [hvalue]
    have hmemory' : compValue ((captures cfg re cond).step s (.write b buffer)).1 i =
        buffer.ptr := by
      unfold compValue captures
      dsimp only
      rw [hvalue]
      dsimp only
      rw [Function.update_self]
    rw [hmemory] at htext
    rw [hmemory'] at htext'
    exact htext'.trans htext.symm
  | prepare methodName element => trivial
  | setConditionalIsValid comp => trivial
  | check i equal => trivial
  | cleanCondCache => trivial
  | setElement element => trivial

end Steps

end CondConnection

section Result

variable [Malloc] (cfg : ConfigContext) (re : CondRegexes) (cond : Nat → ConfigCond)

/-- **The groups are those of the matched text** in all states of a run exactly if every operation
of it spares them. -/
theorem appendsCaptured_iff (buffers : CondBuffer → Buffer) (ops : List CaptureOp) :
    (∀ part, part <+: ops →
      AppendsCaptured ((captures cfg re cond).run (.fresh buffers) part).1) ↔
      (captures cfg re cond).Guarded SparesGroups (.fresh buffers) ops :=
  Machine.forall_prefix_iff_guarded
    (fun s op hspares hkeeps => CondConnection.keepsAll_step s op hspares hkeeps)
    (fun _ hkeeps => hkeeps.appendsCaptured)
    (fun s op hkeeps hnext =>
      CondConnection.sparesGroups_of_appendsCaptured s op hkeeps.appendsCaptured hnext)
    ops (CondConnection.keepsAll_fresh buffers)

end Result

/-! ## A path that is cut -/

theorem slice_set_iff {l : Bytes} {k a n : Nat} (hk : k < l.length) :
    ((l.set k 0).drop a).take n = (l.drop a).take n ↔ (a ≤ k → k < a + n → l[k]? = some 0) := by
  constructor
  · intro heq ha hn
    have hget : (((l.set k 0).drop a).take n)[k - a]? = ((l.drop a).take n)[k - a]? := by rw [heq]
    rw [List.getElem?_take_of_lt (by omega), List.getElem?_take_of_lt (by omega),
      List.getElem?_drop, List.getElem?_drop, Nat.add_sub_cancel' ha,
      List.getElem?_set_self hk] at hget
    exact hget.symm
  · intro h
    refine List.ext_getElem? fun j => ?_
    by_cases hj : j < n
    · rw [List.getElem?_take_of_lt hj, List.getElem?_take_of_lt hj, List.getElem?_drop,
        List.getElem?_drop]
      by_cases hjk : k = a + j
      · subst hjk
        rw [List.getElem?_set_self hk, h (Nat.le_add_right a j) (by omega)]
      · exact List.getElem?_set_ne hjk
    · rw [List.getElem?_eq_none (by rw [List.length_take]; omega),
        List.getElem?_eq_none (by rw [List.length_take]; omega)]

/-- `$HTTP["request-method"]` -/
def methodBlock : ConfigContext where
  conds := [⟨.unset, none, none, none⟩, ⟨.httpRequestMethod, some 0, none, none⟩]
  parent_lt := by
    rintro (_ | _ | i) p dc h hp <;> simp at h <;> subst h <;> simp at hp
    subst hp
    exact Nat.lt_succ_self _
  prev_lt := by
    rintro i (_ | _ | j) ⟨dc, h, hp⟩ <;> simp at h <;> subst h <;> simp at hp
  next_iff := by
    rintro (_ | _ | i) (_ | _ | j) <;> simp [IsPrev]
  same_parent := by
    rintro (_ | _ | i) (_ | _ | j) a b h ha hb <;> simp [IsPrev] at h

/-- `^(GET|HEAD)$` -/
def methodRegex : CondRegexes where
  exec _ s :=
    if s = ascii "GET" ∨ s = ascii "HEAD" then
      some [some (0, s.length), some (0, s.length)]
    else none
  inside := by
    intro i s groups g hexec hg
    split at hexec
    · cases hexec
      simp only [List.mem_cons, Option.some.injEq, List.not_mem_nil, or_false, or_self] at hg
      rw [hg]
    · cases hexec

/-- The method matches, and then the buffer is used for the path `/a.html`. -/
def methodRun : List CaptureOp :=
  [.prepare (ascii "GET") fun _ => none, .setConditionalIsValid .httpRequestMethod,
    .check 1 fun _ => false, .write .tmpBuf (textBuffer (ascii "/a.html"))]

/-- `/a.` is appended for `GET`. -/
theorem not_appendsCaptured_method : letI : Malloc := zeroMalloc
    ¬ ∀ cfg re cond buffers ops part, part <+: ops → AppendsCaptured
      ((captures cfg re cond).run (.fresh buffers) part).1 := by
  let _ : Malloc := zeroMalloc
  intro h
  have happended := h methodBlock methodRegex (fun _ => .regex) (fun _ => textBuffer []) methodRun
    methodRun List.prefix_rfl
  rw [CondConnection.appendsCaptured_places] at happended
  obtain ⟨m, hmatched, htext⟩ := happended 1 1 (by decide +kernel)
  have hm : m = ⟨ascii "GET", [some (0, 3), some (0, 3)]⟩ := by
    refine Option.some.inj (hmatched.symm.trans ?_)
    decide +kernel
  rw [hm] at htext
  revert htext
  decide +kernel

end Lighttpd
