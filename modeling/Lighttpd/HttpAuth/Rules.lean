import Lighttpd.HttpAuth.Password

/-!
# `http_auth.c`: the rules that a user has to meet

The rules of `require` are walked from the left, with pointers into the one text. `valid-user` is
meant to stand alone: in a list it ends the walk, and only what matched in front of it counts. Rules
for groups and hosts match nobody.
-/

namespace Lighttpd

open CLib

section Operations

variable [Malloc]

/-- What a turn of the loop returns, if it does. `r` is the text from the rule on, and `rLen` the
length of the rule. -/
def matchRule (username : Option Bytes) (r : Bytes) (rLen : Nat) : Option Int :=
  if strneq rLen (r ++ [0]) (ascii "valid-user" ++ [0]) then some (-1)
  else
    match strchr r 61 with
    | none => some (-1)
    | some kLen =>
      if rLen < kLen then some (-1)
      else
        let v := r.drop (kLen + 1)
        let vLen : Int := rLen - kLen - 1
        if kLen = 4 then
          if strneq kLen r (ascii "user") then
            match username with
            | none => none
            | some username =>
              if username.length = vLen ∧
                  strneq vLen.toNat (username ++ [0]) (v ++ [0]) = true then some 0
              else none
          else if strneq kLen r (ascii "host") then none
          else some (-1)
        else if kLen = 5 then
          if strneq kLen r (ascii "group") then none else some (-1)
        else some (-1)

def matchRules (username : Option Bytes) : Nat → Bytes → Option Int
  | 0, _ => none
  | fuel + 1, r =>
    let e := strchr r 124
    match matchRule username r (e.getD r.length) with
    | some ret => some ret
    | none =>
      match e with
      | none => some (-1)
      | some e => matchRules username fuel (r.drop (e + 1))

/-- `url` is a string; an entry whose key is a beginning of it applies. -/
def requireApplies (url : Bytes) (da : DataArray) : Bool :=
  decide (da.key.used ≠ 0) && strneq (da.key.used - 1) (url ++ [0]) da.key.ptr

/-- The `require` of the first entry that applies; a `NULL` that is followed has no value. -/
def requireFor (authRequire : List DataArray) (url : Bytes) : Option (Option DataString) :=
  match authRequire.find? (requireApplies url) with
  | none => some none
  | some da =>
    match arrayGetElement da.value (ascii "require") with
    | some (some (_, require)) => some (some require)
    | _ => none

/-- `username` is a string or `NULL`; `group` and `host` are not used. -/
def httpAuthMatchRules (authRequire : List DataArray) (url : Bytes) (username : Option Bytes) :
    Option Int :=
  match requireFor authRequire url with
  | none => none
  | some none => some (-1)
  | some (some require) =>
    let rules := require.value.str
    if rules = ascii "valid-user" then some 0 else matchRules username (rules.length + 1) rules

end Operations

/-! ## Lists of rules -/

/-- A rule of `require`. -/
inductive RequireRule where
  | user (name : Bytes)
  | group (name : Bytes)
  | host (name : Bytes)
  | validUser
  deriving DecidableEq, Repr

namespace RequireRule

def text : RequireRule → Bytes
  | user name => ascii "user=" ++ name
  | group name => ascii "group=" ++ name
  | host name => ascii "host=" ++ name
  | validUser => ascii "valid-user"

structure Valid (r : RequireRule) : Prop where
  separator : 124 ∉ r.text
  cstr : IsCStr r.text

instance (r : RequireRule) : Decidable r.Valid :=
  decidable_of_iff (124 ∉ r.text ∧ IsCStr r.text) ⟨fun h => ⟨h.1, h.2⟩, fun h => ⟨h.1, h.2⟩⟩

end RequireRule

/-- The rules with a `|` between them. -/
def requireText (rules : List RequireRule) : Bytes := [124].intercalate (rules.map RequireRule.text)

variable {user tail : Bytes} {r : RequireRule} {rules : List RequireRule}

theorem requireText_cons (r : RequireRule) (rules : List RequireRule) :
    rules = [] ∧ requireText (r :: rules) = r.text ∨
      rules ≠ [] ∧ requireText (r :: rules) = r.text ++ 124 :: requireText rules := by
  cases rules with
  | nil => exact Or.inl ⟨rfl, List.intercalate_singleton⟩
  | cons r' rules =>
    refine Or.inr ⟨by simp, ?_⟩
    unfold requireText
    rw [List.map_cons, List.map_cons, List.intercalate_cons_cons, List.append_assoc]
    rfl

theorem isCStr_requireText (h : ∀ r ∈ rules, r.Valid) : IsCStr (requireText rules) := by
  induction rules with
  | nil => simp [requireText, IsCStr]
  | cons r rules ih =>
    obtain ⟨hr, hrules⟩ := List.forall_mem_cons.mp h
    rcases requireText_cons r rules with ⟨-, htext⟩ | ⟨-, htext⟩
    · rw [htext]
      exact hr.cstr
    · rw [htext]
      refine hr.cstr.append fun hmem => ?_
      rcases List.mem_cons.mp hmem with hzero | hmem
      · cases hzero
      · exact ih hrules hmem

def RequireRule.answer (user : Bytes) : RequireRule → Option Int
  | .user name => if name = user then some 0 else none
  | .validUser => some (-1)
  | .group _ => none
  | .host _ => none

theorem matchRule_validUser (username : Option Bytes) (tail : Bytes) :
    matchRule username (ascii "valid-user" ++ tail) (ascii "valid-user").length = some (-1) := by
  have hcstr : IsCStr (ascii "valid-user") := by decide
  unfold matchRule
  rw [List.append_assoc, (strneq_length hcstr _).mpr (List.prefix_append _ _)]
  rfl

theorem prefix_iff_of_length {a b : Bytes} (h : a.length = b.length) : a <+: b ↔ a = b :=
  ⟨fun hpre => hpre.eq_of_length h, fun heq => heq ▸ List.prefix_rfl⟩

theorem matchRule_key (key name tail : Bytes) (user : Bytes) (hcstr : IsCStr (key ++ 61 :: name))
    (hkey : 61 ∉ key) (hhead : ¬ key ++ 61 :: name <+: ascii "valid-user" ++ [0])
    (huser : IsCStr user) :
    matchRule (some user) (key ++ 61 :: name ++ tail) (key ++ 61 :: name).length =
      if key.length = 4 then
        if key = ascii "user" then if name = user then some 0 else none
        else if key = ascii "host" then none
        else some (-1)
      else if key.length = 5 then
        if key = ascii "group" then none else some (-1)
      else some (-1) := by
  have hkeycstr : IsCStr key := hcstr.of_append_left
  have hnotvalid : strneq (key ++ 61 :: name).length (key ++ 61 :: name ++ tail ++ [0])
      (ascii "valid-user" ++ [0]) = false := by
    rw [List.append_assoc, Bool.eq_false_iff]
    exact fun h => hhead ((strneq_length hcstr _).mp h)
  have htext : key ++ 61 :: name ++ tail = key ++ 61 :: (name ++ tail) := by simp
  have hlength : ¬ (key ++ 61 :: name).length < key.length := by simp
  have hvlen : (((key ++ 61 :: name).length : Int) - key.length - 1) = name.length := by
    simp only [List.length_append, List.length_cons]
    omega
  have hvalue : (user.length = (name.length : Int) ∧
      strneq (name.length : Int).toNat (user ++ [0]) (name ++ tail ++ [0]) = true) ↔
        name = user := by
    rw [Int.toNat_natCast, Int.natCast_inj]
    constructor
    · rintro ⟨hlen, heq⟩
      rw [← hlen, strneq_length huser, List.append_assoc] at heq
      obtain ⟨t, ht⟩ := heq
      exact (List.append_inj ht hlen).1.symm
    · rintro rfl
      rw [strneq_length huser, List.append_assoc]
      exact ⟨rfl, List.prefix_append _ _⟩
  unfold matchRule
  rw [hnotvalid, if_neg Bool.false_ne_true, htext, strchr_append_cons hkey]
  dsimp only
  rw [if_neg hlength, drop_append_cons, hvlen]
  simp only [hvalue, strneq_length hkeycstr]
  by_cases h4 : key.length = 4
  · have huser' : key <+: ascii "user" ↔ key = ascii "user" := prefix_iff_of_length h4
    have hhost : key <+: ascii "host" ↔ key = ascii "host" := prefix_iff_of_length h4
    simp only [if_pos h4, huser', hhost]
  · by_cases h5 : key.length = 5
    · have hgroup : key <+: ascii "group" ↔ key = ascii "group" := prefix_iff_of_length h5
      simp only [if_neg h4, if_pos h5, hgroup]
    · simp only [if_neg h4, if_neg h5]

theorem matchRule_answer (hr : r.Valid) (huser : IsCStr user) (tail : Bytes) :
    matchRule (some user) (r.text ++ tail) r.text.length = r.answer user := by
  cases r with
  | user name =>
    exact matchRule_key (ascii "user") name tail user hr.cstr (by decide)
      (fun h => absurd (List.cons_prefix_cons.mp h).1 (by decide)) huser
  | group name =>
    exact matchRule_key (ascii "group") name tail user hr.cstr (by decide)
      (fun h => absurd (List.cons_prefix_cons.mp h).1 (by decide)) huser
  | host name =>
    exact matchRule_key (ascii "host") name tail user hr.cstr (by decide)
      (fun h => absurd (List.cons_prefix_cons.mp h).1 (by decide)) huser
  | validUser => exact matchRule_validUser (some user) tail

/-! ## The walk -/

def firstAnswer (user : Bytes) (rules : List RequireRule) : Int :=
  (rules.findSome? (RequireRule.answer user)).getD (-1)

theorem matchRules_requireText (huser : IsCStr user) (hrules : ∀ r ∈ rules, r.Valid)
    (hne : rules ≠ []) : ∀ {n : Nat}, (requireText rules).length < n →
      matchRules (some user) n (requireText rules) = some (firstAnswer user rules) := by
  induction rules with
  | nil => exact absurd rfl hne
  | cons r rules ih =>
    intro n hn
    obtain ⟨n, rfl⟩ : ∃ m, n = m + 1 := ⟨n - 1, by omega⟩
    obtain ⟨hr, hrules⟩ := List.forall_mem_cons.mp hrules
    unfold matchRules firstAnswer
    dsimp only
    rw [List.findSome?_cons]
    rcases requireText_cons r rules with ⟨rfl, htext⟩ | ⟨hmore, htext⟩
    · have hturn := matchRule_answer hr huser []
      rw [List.append_nil] at hturn
      rw [htext, strchr_eq_none.mpr hr.separator, Option.getD_none, hturn]
      cases r.answer user <;> rfl
    · have hshorter : (requireText rules).length < n := by
        rw [htext, List.length_append, List.length_cons] at hn
        omega
      rw [htext, strchr_append_cons hr.separator, Option.getD_some, matchRule_answer hr huser]
      cases r.answer user with
      | some ret => rfl
      | none =>
        dsimp only
        rw [drop_append_cons]
        exact ih hrules hmore hshorter

/-- A rule names the user, with no `valid-user` in front of it. -/
def NamedInFront (user : Bytes) (rules : List RequireRule) : Prop :=
  ∃ pre post, rules = pre ++ .user user :: post ∧ .validUser ∉ pre

theorem namedInFront_cons : NamedInFront user (r :: rules) ↔
    r = .user user ∨ r ≠ .validUser ∧ NamedInFront user rules := by
  constructor
  · rintro ⟨pre, post, heq, hvalid⟩
    cases pre with
    | nil => exact Or.inl (List.cons.inj heq).1
    | cons r' pre =>
      obtain ⟨rfl, rfl⟩ := List.cons.inj heq
      simp only [List.mem_cons, not_or] at hvalid
      exact Or.inr ⟨Ne.symm hvalid.1, pre, post, rfl, hvalid.2⟩
  · rintro (rfl | ⟨hr, pre, post, rfl, hvalid⟩)
    · exact ⟨[], rules, rfl, List.not_mem_nil⟩
    · exact ⟨r :: pre, post, rfl, by simp [hvalid, Ne.symm hr]⟩

theorem firstAnswer_eq_zero : firstAnswer user rules = 0 ↔ NamedInFront user rules := by
  unfold firstAnswer
  induction rules with
  | nil => simp [NamedInFront]
  | cons r rules ih =>
    rw [List.findSome?_cons, namedInFront_cons]
    cases r with
    | user name =>
      by_cases hname : name = user
      · simp [RequireRule.answer, hname]
      · simpa [RequireRule.answer, hname] using ih
    | validUser => simp [RequireRule.answer]
    | group name => simpa [RequireRule.answer] using ih
    | host name => simpa [RequireRule.answer] using ih

theorem requireText_eq_validUser (hrules : ∀ r ∈ rules, r.Valid) (hne : rules ≠ []) :
    requireText rules = ascii "valid-user" ↔ rules = [.validUser] := by
  refine ⟨fun heq => ?_, fun heq => heq ▸ rfl⟩
  obtain ⟨r, rules, rfl⟩ := List.exists_cons_of_ne_nil hne
  rcases requireText_cons r rules with ⟨rfl, htext⟩ | ⟨-, htext⟩
  · rw [htext] at heq
    cases r with
    | validUser => rfl
    | user name => exact absurd (List.cons.inj heq).1 (by decide)
    | group name => exact absurd (List.cons.inj heq).1 (by decide)
    | host name => exact absurd (List.cons.inj heq).1 (by decide)
  · have hmem : (124 : UInt8) ∈ ascii "valid-user" := by
      rw [← heq, htext]
      exact List.mem_append_right _ List.mem_cons_self
    exact absurd hmem (by decide)

section Answer

variable [Malloc] {authRequire : List DataArray} {url : Bytes} {require : DataString}

theorem httpAuthMatchRules_text (hfor : requireFor authRequire url = some (some require))
    (htext : require.value.Text (requireText rules)) (hrules : ∀ r ∈ rules, r.Valid)
    (hne : rules ≠ []) (huser : IsCStr user) :
    httpAuthMatchRules authRequire url (some user) =
      if rules = [.validUser] then some 0 else some (firstAnswer user rules) := by
  unfold httpAuthMatchRules
  rw [hfor]
  dsimp only
  rw [htext.str (isCStr_requireText hrules),
    matchRules_requireText huser hrules hne (Nat.lt_succ_self _)]
  simp only [requireText_eq_validUser hrules hne]

/-- **A user meets the rules** exactly if these are `valid-user` alone, or one of them has the whole
name and `valid-user` does not stand in front of it. -/
theorem httpAuthMatchRules_iff (hfor : requireFor authRequire url = some (some require))
    (htext : require.value.Text (requireText rules)) (hrules : ∀ r ∈ rules, r.Valid)
    (hne : rules ≠ []) (huser : IsCStr user) :
    httpAuthMatchRules authRequire url (some user) = some 0 ↔
      rules = [.validUser] ∨
        ∃ pre post, rules = pre ++ .user user :: post ∧ .validUser ∉ pre := by
  rw [httpAuthMatchRules_text hfor htext hrules hne huser]
  by_cases halone : rules = [.validUser]
  · simp [halone]
  · rw [if_neg halone, or_iff_right halone, Option.some_inj, firstAnswer_eq_zero]
    rfl

end Answer

def siteRequire (rules : List RequireRule) : List DataArray :=
  [⟨textBuffer (ascii "/"), oneString (ascii "require") (requireText rules)⟩]

def staffRules : List RequireRule :=
  [.user (ascii "alice"), .group (ascii "staff"), .user (ascii "bob")]

theorem requireFor_staff : @requireFor zeroMalloc (siteRequire staffRules) (ascii "/index.html") =
    some (some ⟨0, textBuffer (ascii "require"), textBuffer (requireText staffRules), false,
      false⟩) := by
  decide +kernel

theorem httpAuthMatchRules_iff_bob :
    @httpAuthMatchRules zeroMalloc (siteRequire staffRules) (ascii "/index.html")
      (some (ascii "bob")) = some 0 :=
  letI : Malloc := zeroMalloc
  (httpAuthMatchRules_iff requireFor_staff (text_textBuffer _) (by decide) (by decide)
    (by decide)).mpr (Or.inr ⟨[.user (ascii "alice"), .group (ascii "staff")], [], rfl, by decide⟩)

/-- A list with `valid-user` in it refuses a user that it does not name. -/
theorem httpAuthMatchRules_valid_user :
    ¬ (@httpAuthMatchRules zeroMalloc (siteRequire [.user (ascii "alice"), .validUser])
        (ascii "/index.html") (some (ascii "bob")) = some 0 ↔
      RequireRule.validUser ∈ [RequireRule.user (ascii "alice"), .validUser] ∨
        RequireRule.user (ascii "bob") ∈ [RequireRule.user (ascii "alice"), .validUser]) := by
  decide +kernel

end Lighttpd
