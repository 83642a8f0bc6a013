import Mathlib.Algebra.Order.Ring.Int
import Mathlib.Logic.Relation

/-!
# `configfile-glue.c`: conditions and their cached results

A conditional block of the configuration has a parent, if it is nested, and neighbours in a chain of
`else` branches. Its result is cached per connection, and is not decided as long as the field it
tests is not known. What the comparison of the field itself says (`rules`) may be anything at any
time; the operands of the comparison and the captures of a regular expression are left out.
-/

namespace Lighttpd

/-- `comp_key_t` -/
inductive CompKey where
  | unset
  | serverSocket
  | httpUrl
  | httpHost
  | httpReferer
  | httpUserAgent
  | httpLanguage
  | httpCookie
  | httpRemoteIp
  | httpQueryString
  | httpScheme
  | httpRequestMethod
  deriving DecidableEq, Repr

/-- `cond_result_t` -/
inductive CondResult where
  | unset
  | false
  | true
  deriving DecidableEq, Repr

/-- `data_config`; the pointers are the indices `context_ndx` of the blocks. -/
structure DataConfig where
  comp : CompKey
  parent : Option Nat
  prev : Option Nat
  next : Option Nat
  deriving DecidableEq, Repr

/-- `a` is the branch in front of `b`. -/
def IsPrev (conds : List DataConfig) (a b : Nat) : Prop :=
  ∃ dc, conds[b]? = some dc ∧ dc.prev = some a

/-- The blocks as the parser numbers and links them: a block comes behind its parent and behind the
branch in front of it, and the branches of a chain have one parent. -/
structure ConfigContext where
  conds : List DataConfig
  parent_lt : ∀ {i p} {dc : DataConfig}, conds[i]? = some dc → dc.parent = some p → p < i
  prev_lt : ∀ {i j}, IsPrev conds i j → i < j
  next_iff : ∀ {i j}, (∃ dc, conds[i]? = some dc ∧ dc.next = some j) ↔ IsPrev conds i j
  same_parent : ∀ {i j a b}, IsPrev conds i j → conds[i]? = some a → conds[j]? = some b →
    a.parent = b.parent

/-- What a connection keeps for the conditions: the results in `cond_cache`, with the field each
was about, and `conditional_is_valid`. -/
structure CondCache where
  result : Nat → CondResult
  compType : Nat → CompKey
  valid : CompKey → Bool

def CondCache.setResult (s : CondCache) (i : Nat) (r : CondResult) : CondCache :=
  { s with result := fun k => if k = i then r else s.result k }

/-- The branches behind `i`, without a value if they do not end. -/
def branchesBehind (conds : List DataConfig) : Nat → Nat → Option (List Nat)
  | 0, _ => none
  | fuel + 1, i =>
    match conds[i]? with
    | none => none
    | some dc =>
      match dc.next with
      | none => some []
      | some j => (branchesBehind conds fuel j).map (j :: ·)

/-- The loop over `dc->next`. -/
def remainsToFalse (s : CondCache) (js : List Nat) : CondCache :=
  js.foldl (fun s j => s.setResult j .false) s

section Check

/-- The parent's result; a block that is not nested has the global one for its parent. -/
def checkParent (cached : CondCache → Nat → Option (CondResult × CondCache)) (s : CondCache)
    (dc : DataConfig) : Option (CondResult × CondCache) :=
  match dc.parent with
  | some p => if p ≠ 0 then cached s p else some (.true, s)
  | none => some (.true, s)

def checkPrev (cached : CondCache → Nat → Option (CondResult × CondCache)) (s : CondCache)
    (dc : DataConfig) : Option CondCache :=
  match dc.prev with
  | some p => (cached s p).map Prod.snd
  | none => some s

/-- `cached` is the check of another block. -/
def configCheckCondNocache (rules : Nat → Bool)
    (cached : CondCache → Nat → Option (CondResult × CondCache))
    (s : CondCache) (i : Nat) (dc : DataConfig) : Option (CondResult × CondCache) :=
  match checkParent cached s dc with
  | none => none
  | some (.false, s) => some (.false, s)
  | some (.unset, s) => some (.unset, s)
  | some (.true, s) =>
    match checkPrev cached s dc with
    | none => none
    | some s =>
      -- the branch in front may have set this one to false
      if dc.prev.isSome ∧ s.result i = .false then some (.false, s)
      else if s.valid dc.comp = false then some (.unset, s)
      else some (if rules i then .true else .false, s)

variable (conds : List DataConfig) (rules : Nat → Bool)

/-- The result is stored; if it holds, the branches behind are false. -/
def storeResult (s : CondCache) (i : Nat) (dc : DataConfig) (r : CondResult) : Option CondCache :=
  let s := s.setResult i r
  let s := { s with compType := fun k => if k = i then dc.comp else s.compType k }
  if r = .true then (branchesBehind conds conds.length i).map (remainsToFalse s) else some s

def configCheckCondCached : Nat → CondCache → Nat → Option (CondResult × CondCache)
  | 0, _, _ => none
  | fuel + 1, s, i =>
    if s.result i = .unset then
      match conds[i]? with
      | none => none
      | some dc =>
        match configCheckCondNocache rules (configCheckCondCached fuel) s i dc with
        | none => none
        | some (r, s) => (storeResult conds s i dc r).map fun s => (s.result i, s)
    else some (s.result i, s)

def configCheckCond (s : CondCache) (i : Nat) : Option (Bool × CondCache) :=
  (configCheckCondCached conds rules (conds.length + 1) s i).map fun (r, s) => (r == .true, s)

end Check

def configCondCacheReset (s : CondCache) : CondCache :=
  { s with result := fun _ => .unset, valid := fun _ => false }

/-- What `config_patch_connection` does before it checks the conditions. -/
def setConditionalIsValid (s : CondCache) (comp : CompKey) : CondCache :=
  { s with valid := fun c => if c = comp then true else s.valid c }

end Lighttpd
