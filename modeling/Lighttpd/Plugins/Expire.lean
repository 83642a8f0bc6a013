import Lighttpd.Buffer
import Lighttpd.Lib.Walk

/-!
# `mod_expire.c`: the offset of a rule

A rule is a base, perhaps `plus`, and pairs of a number and a unit, with one blank between the words
(`expireRule`). `mod_expire_get_offset` counts in `int` and `time_t` and does not look for an
overflow, wants a pair, and takes for a number what `strtol` takes: nothing at all, or digits behind
white-space and a sign. The rest it does as it should (`offsetAsSaid_iff`).
-/

namespace Lighttpd

open CLib Segments

def expireUnits : List (Bytes × Int) := [
  (ascii "years", 60 * 60 * 24 * 30 * 12), (ascii "months", 60 * 60 * 24 * 30),
  (ascii "weeks", 60 * 60 * 24 * 7), (ascii "days", 60 * 60 * 24), (ascii "hours", 60 * 60),
  (ascii "minutes", 60), (ascii "seconds", 1)]

/-- The type, 0 for the time of access and 1 for that of modification, and the text behind. -/
def expireBase (ts : Bytes) : Option (Int × Bytes) :=
  if strneq 7 ts (ascii "access ") then some (0, ts.drop 7)
  else if strneq 4 ts (ascii "now ") then some (0, ts.drop 4)
  else if strneq 13 ts (ascii "modification ") then some (1, ts.drop 13)
  else none

/-- `slen == 5 && 0 == strncmp(ts, "years", slen)` and so on. -/
def expireUnit (word : Bytes) : Option Int :=
  (expireUnits.find? fun unit => unit.1 == word).map Prod.snd

section Code

variable (w : Nat)

/-- `num *= unit; retts += num;`, in an `int` and a `time_t` of `w` bits that wrap around. -/
def addSeconds (retts num unit : Int) : Int := (retts + (num * unit).bmod (2 ^ 32)).bmod (2 ^ w)

/-- `while (1)`: `fuel` bounds the number of rounds. -/
def expireLoop : Nat → Int → Bytes → Option Int
  | 0, _, _ => none
  | fuel + 1, retts, ts =>
    match strchr ts 32 with
    | none => none
    | some space =>
      let (num, err) := strtol ts
      if err.head? ≠ some 32 then none
      else
        let ts := ts.drop (space + 1)
        match strchr ts 32 with
        | some space =>
          match expireUnit (ts.take space) with
          | none => none
          | some unit => expireLoop fuel (addSeconds w retts num unit) (ts.drop (space + 1))
        | none =>
          match expireUnit ts with
          | none => none
          | some unit => some (addSeconds w retts num unit)

/-- The return value, and `*offset` if it is set. -/
def modExpireGetOffset (expire : Buffer) : Int × Option Int :=
  if expire.used = 0 then (-1, none)
  else
    match expireBase expire.str with
    | none => (-1, none)
    | some (type, ts) =>
      let ts := if strneq 5 ts (ascii "plus ") then ts.drop 5 else ts
      match expireLoop w (ts.length + 1) 0 ts with
      | none => (-1, none)
      | some retts => (type, some retts)

end Code

/-! ## Rules -/

def expireBases : List (Bytes × Int) :=
  [(ascii "access", 0), (ascii "now", 0), (ascii "modification", 1)]

/-- `{<num> <type>}*`, where `number` reads a number. -/
def expirePairs (number : Bytes → Option Int) : List Bytes → Option (List (Int × Int))
  | [] => some []
  | [_] => none
  | num :: unit :: words => do
    let num ← number num
    let unit ← expireUnit unit
    let pairs ← expirePairs number words
    some ((num, unit) :: pairs)

/-- The words behind an optional `plus`. -/
def dropPlus (words : List Bytes) : List Bytes :=
  if words.head? = some (ascii "plus") then words.tail else words

/-- `'(access|now|modification) [plus] {<num> <type>}*'`: the base, and the pairs. -/
def expireRule (number : Bytes → Option Int) (s : Bytes) : Option (Int × List (Int × Int)) :=
  match s.splitOn 32 with
  | [] => none
  | base :: words => do
    let base ← expireBases.find? fun b => b.1 == base
    let pairs ← expirePairs number (dropPlus words)
    some (base.2, pairs)

instance (ds : Bytes) : Decidable (Digits ds) := inferInstanceAs (Decidable (_ ∧ _))

def plainNumber (num : Bytes) : Option Int := if Digits num then some (digitsValue num) else none

/-- What `strtol` reads to the end. -/
def strtolNumber (num : Bytes) : Option Int :=
  if (strtol num).2 = [] then some (strtol num).1 else none

def expireSeconds (pairs : List (Int × Int)) : Int := (pairs.map fun pair => pair.1 * pair.2).sum

/-- A rule gives its base and its seconds, or an error if they are no `time_t`; everything else is
refused. -/
def OffsetAsSaid (w : Nat) (s : Bytes) (result : Int × Option Int) : Prop :=
  match expireRule plainNumber s with
  | none => result.1 = -1
  | some (type, pairs) =>
    if expireSeconds pairs < 2 ^ (w - 1) then result = (type, some (expireSeconds pairs))
    else result.1 = -1

instance (w : Nat) (s : Bytes) (result : Int × Option Int) : Decidable (OffsetAsSaid w s result) :=
  match h : expireRule plainNumber s with
  | none => decidable_of_iff (result.1 = -1) (by rw [OffsetAsSaid, h])
  | some (type, pairs) =>
    decidable_of_iff (if expireSeconds pairs < 2 ^ (w - 1) then
      result = (type, some (expireSeconds pairs)) else result.1 = -1) (by rw [OffsetAsSaid, h])

/-- A rule has a pair, each product is an `int`, and the sum a `time_t`. What is no rule is none
either with the numbers that `strtol` reads. -/
def ExpireFits (w : Nat) (s : Bytes) : Prop :=
  match expireRule plainNumber s with
  | none => expireRule strtolNumber s = none
  | some (_, pairs) =>
    pairs ≠ [] ∧ (∀ pair ∈ pairs, pair.1 * pair.2 < 2 ^ 31) ∧ expireSeconds pairs < 2 ^ (w - 1)

/-! ## Numbers -/

theorem isSome_strtolNumber {num : Bytes} :
    (strtolNumber num).isSome ↔ num = [] ∨ ∃ v, NumeralText num v := by
  have hsame : (strtol num).2 = (strtoll num).2 := by
    unfold strtol strtoll
    dsimp only
    split <;> rfl
  have hsome : (strtolNumber num).isSome ↔ (strtoll num).2 = [] := by
    rw [← hsame]
    unfold strtolNumber
    by_cases hend : (strtol num).2 = []
    · rw [if_pos hend]
      exact ⟨fun _ => hend, fun _ => rfl⟩
    · rw [if_neg hend]
      exact ⟨fun h => absurd h Bool.false_ne_true, fun h => absurd h hend⟩
  rw [hsome]
  constructor
  · intro hend
    by_cases hne : num = []
    · exact .inl hne
    · exact .inr ⟨_, numeralText_of_strtoll hne hend⟩
  · rintro (rfl | ⟨v, hv⟩)
    · rfl
    · have hread := hv.strtoll_append noDigit_nil
      rw [List.append_nil] at hread
      rw [hread]

theorem expireUnit_spec {word : Bytes} {unit : Int} (h : expireUnit word = some unit) :
    1 ≤ unit ∧ ∃ c t, word = c :: t ∧ NoNumber c := by
  obtain ⟨entry, hentry, rfl⟩ := Option.map_eq_some_iff.mp h
  have hfound := List.find?_some hentry
  have hword : entry.1 = word := beq_iff_eq.mp hfound
  have hall : ∀ u ∈ expireUnits, 1 ≤ u.2 ∧ u.1 ≠ [] ∧ NoNumber (u.1.headD 0) := by decide
  obtain ⟨hunit, hne, hc⟩ := hall entry (List.mem_of_find?_eq_some hentry)
  obtain ⟨c, t, ht⟩ := List.exists_cons_of_ne_nil hne
  rw [ht, List.headD_cons] at hc
  exact ⟨hunit, c, t, hword ▸ ht, hc⟩

/-! ## The loop -/

theorem expirePairs_cons {number : Bytes → Option Int} {num unit : Bytes} {words : List Bytes} :
    expirePairs number (num :: unit :: words) =
      (number num).bind fun num => (expireUnit unit).bind fun unit =>
        (expirePairs number words).map fun pairs => (num, unit) :: pairs := by
  rw [expirePairs]
  simp only [Option.bind_eq_bind, Option.map_eq_bind]
  rfl

theorem expire_round {α : Type} {num unit : Bytes} (hnum : 32 ∉ num) (t : Bytes)
    (f : Int → Int → Option α) :
    (let (num, err) := strtol (num ++ 32 :: (unit ++ t))
      if err.head? ≠ some 32 then none
      else
        match expireUnit unit with
        | none => none
        | some unit => f num unit) =
      (strtolNumber num).bind fun num => (expireUnit unit).bind fun unit => f num unit := by
  cases hunit : expireUnit unit with
  | none =>
    dsimp only
    cases strtolNumber num <;> simp
  | some seconds =>
    obtain ⟨-, c, u, rfl, hc⟩ := expireUnit_spec hunit
    have hread := strtol_blank num hc (u ++ t)
    rw [List.cons_append, hread]
    dsimp only
    have hhead := head_strtol_blank hnum (c :: (u ++ t))
    unfold strtolNumber
    by_cases hend : (strtol num).2 = []
    · rw [if_neg (not_not.mpr (hhead.mpr hend)), if_pos hend]
      rfl
    · rw [if_pos (mt hhead.mp hend), if_neg hend]
      rfl

theorem expireLoop_eq (w : Nat) : ∀ (fuel : Nat) (retts : Int) {ts : Bytes}, ts.length < fuel →
    expireLoop w fuel retts ts = (expirePairs strtolNumber (ts.splitOn 32)).map fun pairs =>
      pairs.foldl (fun retts pair => addSeconds w retts pair.1 pair.2) retts := by
  intro fuel
  induction fuel with
  | zero => exact fun _ _ h => absurd h (Nat.not_lt_zero _)
  | succ fuel ih =>
    intro retts ts hlen
    unfold expireLoop
    rcases splitOn_cases 32 ts with ⟨hno, hsplit⟩ | ⟨num, t, rfl, hnum, hsplit⟩
    · rw [strchr_eq_none.mpr hno, hsplit]
      rfl
    · rw [strchr_append_cons hnum, hsplit]
      dsimp only
      rw [drop_append_cons]
      rcases splitOn_cases 32 t with ⟨hno, hsplit'⟩ | ⟨unit, rest, rfl, hunit, hsplit'⟩
      · have hround := @expire_round Int num t hnum [] fun num unit =>
          some (addSeconds w retts num unit)
        rw [List.append_nil] at hround
        rw [strchr_eq_none.mpr hno, hsplit']
        refine hround.trans ?_
        rw [expirePairs_cons]
        cases strtolNumber num with
        | none => rfl
        | some n => cases expireUnit t <;> rfl
      · have hround := @expire_round Int num unit hnum (32 :: rest) fun num unit =>
          expireLoop w fuel (addSeconds w retts num unit) rest
        have hrest : rest.length < fuel := by
          simp only [List.length_append, List.length_cons] at hlen
          omega
        rw [strchr_append_cons hunit, hsplit']
        dsimp only
        rw [List.take_left' rfl, drop_append_cons]
        refine hround.trans ?_
        rw [expirePairs_cons]
        cases strtolNumber num with
        | none => rfl
        | some n =>
          cases expireUnit unit with
          | none => rfl
          | some seconds =>
            rw [Option.bind_some, Option.bind_some, Option.bind_some, Option.bind_some, ih _ hrest]
            cases expirePairs strtolNumber (rest.splitOn 32) <;> rfl

theorem expirePairs_eq_nil {number : Bytes → Option Int} {words : List Bytes}
    (h : expirePairs number words = some []) : words = [] := by
  match words with
  | [] => rfl
  | [_] => cases h
  | num :: unit :: words =>
    rw [expirePairs_cons] at h
    obtain ⟨n, -, h⟩ := Option.bind_eq_some_iff.mp h
    obtain ⟨u, -, h⟩ := Option.bind_eq_some_iff.mp h
    obtain ⟨pairs, -, h⟩ := Option.map_eq_some_iff.mp h
    cases h

theorem expirePairs_ne_nil {number : Bytes → Option Int} {s : Bytes} {pairs : List (Int × Int)}
    (h : expirePairs number (s.splitOn 32) = some pairs) : pairs ≠ [] := by
  rintro rfl
  exact List.splitOn_ne_nil 32 s (expirePairs_eq_nil h)

/-! ## The words in front of the pairs -/

theorem strneq_word {key word : Bytes} (hkey : IsCStr key) (hblank : 32 ∉ key) (hword : 32 ∉ word)
    (t : Bytes) : strneq (key.length + 1) (word ++ 32 :: t) (key ++ [32]) = true ↔ word = key := by
  have hcstr : IsCStr (key ++ [32]) := IsCStr.append hkey (by decide)
  have hlen : key.length + 1 = (key ++ [32]).length := by
    rw [List.length_append, List.length_singleton]
  have hprefix := @strneq_length (key ++ [32]) hcstr [] (word ++ 32 :: t)
  rw [List.append_nil] at hprefix
  rw [hlen, strneq_comm, hprefix]
  constructor
  · rintro ⟨rest, hrest⟩
    have hsame : key ++ 32 :: rest = word ++ 32 :: t := by
      rw [← hrest, List.append_assoc]
      rfl
    exact (append_inj_of_stopsAt hblank hword (.inr ⟨_, rfl⟩) (.inr ⟨_, rfl⟩) hsame).1.symm
  · rintro rfl
    exact ⟨t, by rw [List.append_assoc]; rfl⟩

theorem strneq_noBlank {key s : Bytes} (hkey : IsCStr key) (hs : 32 ∉ s) :
    strneq (key.length + 1) s (key ++ [32]) = false := by
  have hcstr : IsCStr (key ++ [32]) := IsCStr.append hkey (by decide)
  have hlen : key.length + 1 = (key ++ [32]).length := by
    rw [List.length_append, List.length_singleton]
  have hprefix := @strneq_length (key ++ [32]) hcstr [] s
  rw [List.append_nil] at hprefix
  rw [hlen, strneq_comm, Bool.eq_false_iff, ne_eq, hprefix]
  intro h
  exact hs (h.subset (List.mem_append_right key List.mem_cons_self))

theorem dropPlus_splitOn {t : Bytes} (ht : t ≠ ascii "plus") : dropPlus (t.splitOn 32) =
    (if strneq 5 t (ascii "plus ") then t.drop 5 else t).splitOn 32 := by
  unfold dropPlus
  rcases splitOn_cases 32 t with ⟨hno, hsplit⟩ | ⟨word, rest, rfl, hword, hsplit⟩
  · have hcmp : strneq 5 t (ascii "plus ") = false :=
      @strneq_noBlank (ascii "plus") t (by decide) hno
    rw [hcmp, if_neg Bool.false_ne_true, hsplit, List.head?_cons, if_neg (mt Option.some.inj ht)]
  · have hcmp : strneq 5 (word ++ 32 :: rest) (ascii "plus ") = true ↔ word = ascii "plus" :=
      @strneq_word (ascii "plus") word (by decide) (by decide) hword rest
    by_cases hw : word = ascii "plus"
    · have hdrop : (word ++ 32 :: rest).drop 5 = rest := by
        rw [hw]
        exact drop_append_cons (ascii "plus") 32 rest
      rw [if_pos (hcmp.mpr hw), hdrop, hsplit, List.head?_cons, if_pos (congrArg some hw),
        List.tail_cons]
    · rw [if_neg (mt hcmp.mp hw), hsplit, List.head?_cons, if_neg (mt Option.some.inj hw)]

theorem expireRule_word (number : Bytes → Option Int) {word : Bytes} (hword : 32 ∉ word)
    (t : Bytes) : expireRule number (word ++ 32 :: t) =
      (expireBases.find? fun b => b.1 == word).bind fun base =>
        (expirePairs number (dropPlus (t.splitOn 32))).map fun pairs => (base.2, pairs) := by
  unfold expireRule
  rw [List.splitOn_append_cons_self_of_not_mem hword]
  simp only [Option.bind_eq_bind, Option.map_eq_bind]
  rfl

theorem expireBase_word {word : Bytes} (hword : 32 ∉ word) (t : Bytes) :
    expireBase (word ++ 32 :: t) =
      (expireBases.find? fun b => b.1 == word).map fun base => (base.2, t) := by
  have haccess : strneq 7 (word ++ 32 :: t) (ascii "access ") = true ↔ word = ascii "access" :=
    @strneq_word (ascii "access") word (by decide) (by decide) hword t
  have hnow : strneq 4 (word ++ 32 :: t) (ascii "now ") = true ↔ word = ascii "now" :=
    @strneq_word (ascii "now") word (by decide) (by decide) hword t
  have hmodification : strneq 13 (word ++ 32 :: t) (ascii "modification ") = true ↔
      word = ascii "modification" :=
    @strneq_word (ascii "modification") word (by decide) (by decide) hword t
  have hdrop : ∀ {key : Bytes} {n : Nat}, word = key → n = key.length + 1 →
      (word ++ 32 :: t).drop n = t := by
    rintro key n rfl rfl
    exact drop_append_cons word 32 t
  unfold expireBase
  by_cases h1 : word = ascii "access"
  · rw [if_pos (haccess.mpr h1), @hdrop _ 7 h1 rfl, h1]
    rfl
  · rw [if_neg (mt haccess.mp h1)]
    by_cases h2 : word = ascii "now"
    · rw [if_pos (hnow.mpr h2), @hdrop _ 4 h2 rfl, h2]
      rfl
    · rw [if_neg (mt hnow.mp h2)]
      by_cases h3 : word = ascii "modification"
      · rw [if_pos (hmodification.mpr h3), @hdrop _ 13 h3 rfl, h3]
        rfl
      · have hnone : expireBases.find? (fun b => b.1 == word) = none := by
          simp [expireBases, Ne.symm h1, Ne.symm h2, Ne.symm h3]
        rw [if_neg (mt hmodification.mp h3), hnone]
        rfl

theorem expireBase_noBlank {s : Bytes} (hs : 32 ∉ s) : expireBase s = none := by
  have haccess : strneq 7 s (ascii "access ") = false :=
    @strneq_noBlank (ascii "access") s (by decide) hs
  have hnow : strneq 4 s (ascii "now ") = false := @strneq_noBlank (ascii "now") s (by decide) hs
  have hmodification : strneq 13 s (ascii "modification ") = false :=
    @strneq_noBlank (ascii "modification") s (by decide) hs
  unfold expireBase
  rw [haccess, hnow, hmodification]
  rfl

/-- What the sum of the pairs is in `time_t`. -/
def countSeconds (w : Nat) (pairs : List (Int × Int)) : Int :=
  pairs.foldl (fun retts pair => addSeconds w retts pair.1 pair.2) 0

/-- The function on any string: the pairs of the rule, with the numbers that `strtol` reads, if
there is one. -/
theorem modExpireGetOffset_eq (w : Nat) {expire : Buffer} {s : Bytes} (h : expire.Terminated s) :
    modExpireGetOffset w expire =
      match expireRule strtolNumber s with
      | some (type, pair :: pairs) => (type, some (countSeconds w (pair :: pairs)))
      | _ => (-1, none) := by
  have hused : expire.used ≠ 0 := Nat.ne_of_gt (Nat.lt_of_le_of_lt (Nat.zero_le _) h.length_lt)
  unfold modExpireGetOffset
  rw [if_neg hused, h.str]
  rcases splitOn_cases 32 s with ⟨hno, hsplit⟩ | ⟨word, t, rfl, hword, hsplit⟩
  · rw [expireBase_noBlank hno]
    unfold expireRule
    rw [hsplit]
    dsimp only
    cases expireBases.find? fun b => b.1 == s with
    | none => rfl
    | some base => rfl
  · rw [expireBase_word hword, expireRule_word strtolNumber hword]
    cases expireBases.find? fun b => b.1 == word with
    | none => rfl
    | some base =>
      rw [Option.map_some, Option.bind_some]
      dsimp only
      by_cases ht : t = ascii "plus"
      · have hwords : (ascii "plus").splitOn 32 = [ascii "plus"] :=
          List.splitOn_eq_singleton (by decide)
        rw [ht, hwords]
        rfl
      · rw [dropPlus_splitOn ht]
        generalize (if strneq 5 t (ascii "plus ") then t.drop 5 else t) = ts
        rw [expireLoop_eq w (ts.length + 1) 0 (Nat.lt_succ_self _)]
        cases hpairs : expirePairs strtolNumber (ts.splitOn 32) with
        | none => rfl
        | some pairs =>
          cases pairs with
          | nil => exact absurd rfl (expirePairs_ne_nil hpairs)
          | cons pair pairs => rfl

/-! ## Rules with digits -/

theorem strtolNumber_of_plain {num : Bytes} {n : Int} (h : plainNumber num = some n) :
    0 ≤ n ∧ strtolNumber num = some (saturate n) := by
  unfold plainNumber at h
  split at h
  · next hdigits =>
    cases h
    have hread := strtol_digits hdigits
    refine ⟨Int.natCast_nonneg _, ?_⟩
    rw [strtolNumber, hread]
    rfl
  · cases h

/-- The pairs of a rule, with the numbers cut to a `long`. -/
def saturated (pairs : List (Int × Int)) : List (Int × Int) :=
  pairs.map fun pair => (saturate pair.1, pair.2)

theorem expirePairs_of_plain {words : List Bytes} {pairs : List (Int × Int)}
    (h : expirePairs plainNumber words = some pairs) :
    (∀ pair ∈ pairs, 0 ≤ pair.1 ∧ 1 ≤ pair.2) ∧
      expirePairs strtolNumber words = some (saturated pairs) := by
  match words with
  | [] =>
    cases h
    exact ⟨List.forall_mem_nil _, rfl⟩
  | [_] => cases h
  | num :: unit :: words =>
    rw [expirePairs_cons] at h
    obtain ⟨n, hnum, h⟩ := Option.bind_eq_some_iff.mp h
    obtain ⟨u, hunit, h⟩ := Option.bind_eq_some_iff.mp h
    obtain ⟨rest, hrest, rfl⟩ := Option.map_eq_some_iff.mp h
    obtain ⟨hnonneg, hread⟩ := strtolNumber_of_plain hnum
    obtain ⟨hpos, hwords⟩ := expirePairs_of_plain hrest
    refine ⟨List.forall_mem_cons.mpr ⟨⟨hnonneg, (expireUnit_spec hunit).1⟩, hpos⟩, ?_⟩
    rw [expirePairs_cons, hread, hunit, hwords]
    rfl

theorem expireRule_of_plain {s : Bytes} {type : Int} {pairs : List (Int × Int)}
    (h : expireRule plainNumber s = some (type, pairs)) :
    0 ≤ type ∧ (∀ pair ∈ pairs, 0 ≤ pair.1 ∧ 1 ≤ pair.2) ∧
      expireRule strtolNumber s = some (type, saturated pairs) := by
  unfold expireRule at h ⊢
  split at h
  · cases h
  · simp only [Option.bind_eq_bind] at h ⊢
    obtain ⟨base, hbase, h⟩ := Option.bind_eq_some_iff.mp h
    obtain ⟨pairs', hpairs, h⟩ := Option.bind_eq_some_iff.mp h
    obtain ⟨hpos, hread⟩ := expirePairs_of_plain hpairs
    have hall : ∀ b ∈ expireBases, 0 ≤ b.2 := by decide
    cases h
    refine ⟨hall base (List.mem_of_find?_eq_some hbase), hpos, ?_⟩
    rw [hbase, Option.bind_some, hread, Option.bind_some]

/-! ## Counting -/

theorem bmod_small {w : Nat} {x : Int} (hlow : -2 ^ (w - 1) < x) (hhigh : x < 2 ^ (w - 1)) :
    x.bmod (2 ^ w) = x := by
  cases w with
  | zero =>
    have hone : (2 : Int) ^ (0 - 1) = 1 := rfl
    rw [hone] at hlow hhigh
    obtain rfl : x = 0 := by omega
    rfl
  | succ w =>
    have hpow : ((2 ^ (w + 1) : Nat) : Int) = 2 ^ w * 2 := by
      push_cast
      exact Int.pow_succ 2 w
    rw [Nat.add_sub_cancel] at hlow hhigh
    exact Int.bmod_eq_of_le_mul_two (by omega) (by omega)

def counted (pair : Int × Int) : Int := (saturate pair.1 * pair.2).bmod (2 ^ 32)

/-- The product is counted right exactly when it is an `int`, and is too small otherwise. -/
theorem counted_spec {pair : Int × Int} (hnum : 0 ≤ pair.1) (hunit : 1 ≤ pair.2) :
    -(pair.1 * pair.2) ≤ counted pair ∧ counted pair ≤ pair.1 * pair.2 ∧
      (counted pair = pair.1 * pair.2 ↔ pair.1 * pair.2 < 2 ^ 31) := by
  have hprod : 0 ≤ pair.1 * pair.2 := Int.mul_nonneg hnum (by omega)
  have hnumber : pair.1 ≤ pair.1 * pair.2 := by
    have := Int.mul_le_mul_of_nonneg_left hunit hnum
    rwa [Int.mul_one] at this
  unfold counted
  by_cases hfit : pair.1 * pair.2 < 2 ^ 31
  · have hsat : saturate pair.1 = pair.1 := saturate_eq (by omega) (by omega)
    have hmod : (pair.1 * pair.2).bmod (2 ^ 32) = pair.1 * pair.2 :=
      @bmod_small 32 _ (by omega) (by omega)
    rw [hsat, hmod]
    exact ⟨by omega, Int.le_refl _, fun _ => hfit, fun _ => rfl⟩
  · have hlt := @Int.bmod_lt (saturate pair.1 * pair.2) (2 ^ 32) (by decide)
    have hle := @Int.le_bmod (saturate pair.1 * pair.2) (2 ^ 32) (by decide)
    generalize (saturate pair.1 * pair.2).bmod (2 ^ 32) = v at *
    generalize pair.1 * pair.2 = p at *
    refine ⟨?_, ?_, fun heq => ?_, fun h => absurd h hfit⟩ <;> omega

theorem expireSeconds_cons (pair : Int × Int) (pairs : List (Int × Int)) :
    expireSeconds (pair :: pairs) = pair.1 * pair.2 + expireSeconds pairs := List.sum_cons

theorem expireSeconds_nonneg {pairs : List (Int × Int)}
    (h : ∀ pair ∈ pairs, 0 ≤ pair.1 ∧ 1 ≤ pair.2) : 0 ≤ expireSeconds pairs := by
  induction pairs with
  | nil => exact Int.le_refl 0
  | cons pair pairs ih =>
    obtain ⟨⟨hnum, hunit⟩, hrest⟩ := List.forall_mem_cons.mp h
    have hprod : 0 ≤ pair.1 * pair.2 := Int.mul_nonneg hnum (by omega)
    have := ih hrest
    rw [expireSeconds_cons]
    omega

theorem foldl_addSeconds {w : Nat} {pairs : List (Int × Int)}
    (h : ∀ pair ∈ pairs, 0 ≤ pair.1 ∧ 1 ≤ pair.2) : ∀ {retts : Int},
    retts + expireSeconds pairs < 2 ^ (w - 1) → -2 ^ (w - 1) < retts - expireSeconds pairs →
    (saturated pairs).foldl (fun retts pair => addSeconds w retts pair.1 pair.2) retts =
      retts + (pairs.map counted).sum := by
  induction pairs with
  | nil =>
    intro retts _ _
    exact (Int.add_zero retts).symm
  | cons pair pairs ih =>
    intro retts hhigh hlow
    obtain ⟨⟨hnum, hunit⟩, hrest⟩ := List.forall_mem_cons.mp h
    obtain ⟨hcl, hch, -⟩ := counted_spec hnum hunit
    have hnonneg := expireSeconds_nonneg hrest
    rw [expireSeconds_cons] at hhigh hlow
    have hstep : addSeconds w retts (saturate pair.1) pair.2 = retts + counted pair :=
      bmod_small (by unfold counted at *; omega) (by unfold counted at *; omega)
    have hnext := @ih hrest (retts + counted pair) (by omega) (by omega)
    unfold saturated at hnext ⊢
    rw [List.map_cons, List.foldl_cons, hstep, hnext, List.map_cons, List.sum_cons, Int.add_assoc]

theorem sum_counted {pairs : List (Int × Int)} (h : ∀ pair ∈ pairs, 0 ≤ pair.1 ∧ 1 ≤ pair.2) :
    (pairs.map counted).sum ≤ expireSeconds pairs ∧
      ((pairs.map counted).sum = expireSeconds pairs ↔
        ∀ pair ∈ pairs, pair.1 * pair.2 < 2 ^ 31) := by
  induction pairs with
  | nil => exact ⟨Int.le_refl 0, fun _ => List.forall_mem_nil _, fun _ => rfl⟩
  | cons pair pairs ih =>
    obtain ⟨⟨hnum, hunit⟩, hrest⟩ := List.forall_mem_cons.mp h
    obtain ⟨-, hch, hiff⟩ := counted_spec hnum hunit
    obtain ⟨hle, hsum⟩ := ih hrest
    rw [expireSeconds_cons, List.map_cons, List.sum_cons, List.forall_mem_cons, ← hiff, ← hsum]
    omega

/-! ## The offset -/

theorem expireRule_spec {number : Bytes → Option Int} {s : Bytes} {type : Int}
    {pairs : List (Int × Int)} (h : expireRule number s = some (type, pairs)) : 0 ≤ type ∧
      (pairs = [] → ∀ number', expireRule number' s = some (type, [])) := by
  unfold expireRule at h
  split at h
  · cases h
  · next words hsplit =>
    simp only [Option.bind_eq_bind] at h
    obtain ⟨base, hbase, h⟩ := Option.bind_eq_some_iff.mp h
    obtain ⟨pairs', hpairs, h⟩ := Option.bind_eq_some_iff.mp h
    have hall : ∀ b ∈ expireBases, 0 ≤ b.2 := by decide
    cases h
    refine ⟨hall base (List.mem_of_find?_eq_some hbase), ?_⟩
    rintro rfl number'
    unfold expireRule
    rw [hsplit]
    simp only [Option.bind_eq_bind]
    rw [hbase, Option.bind_some, expirePairs_eq_nil hpairs]
    rfl

/-- `mod_expire_get_offset` does what it should exactly when the offset of a rule fits, and nothing
but a rule has the form it reads. -/
theorem offsetAsSaid_iff (w : Nat) {expire : Buffer} {s : Bytes} (h : expire.Terminated s) :
    OffsetAsSaid w s (modExpireGetOffset w expire) ↔ ExpireFits w s := by
  unfold OffsetAsSaid ExpireFits
  rw [modExpireGetOffset_eq w h]
  cases hrule : expireRule plainNumber s with
  | none =>
    dsimp only
    cases hread : expireRule strtolNumber s with
    | none => exact ⟨fun _ => rfl, fun _ => rfl⟩
    | some read =>
      obtain ⟨type, pairs⟩ := read
      obtain ⟨htype, hnil⟩ := expireRule_spec hread
      cases pairs with
      | nil =>
        rw [hnil rfl plainNumber] at hrule
        cases hrule
      | cons pair pairs =>
        refine ⟨fun hminus => ?_, fun hnone => (nomatch hnone)⟩
        dsimp only at hminus
        omega
  | some rule =>
    obtain ⟨type, pairs⟩ := rule
    obtain ⟨htype, hpos, hread⟩ := expireRule_of_plain hrule
    rw [hread]
    cases pairs with
    | nil =>
      have hzero : expireSeconds [] < 2 ^ (w - 1) := Int.pow_pos (by decide)
      refine ⟨fun hsaid => ?_, fun hfits => absurd rfl hfits.1⟩
      dsimp only at hsaid
      rw [if_pos hzero] at hsaid
      cases hsaid
    | cons pair pairs =>
      have hresult : saturated (pair :: pairs) = (saturate pair.1, pair.2) :: saturated pairs := rfl
      rw [hresult]
      dsimp only
      rw [← hresult]
      by_cases hfit : expireSeconds (pair :: pairs) < 2 ^ (w - 1)
      · have hnonneg := expireSeconds_nonneg hpos
        have hcount : countSeconds w (saturated (pair :: pairs)) =
            ((pair :: pairs).map counted).sum :=
          (foldl_addSeconds hpos (by omega) (by omega)).trans (Int.zero_add _)
        rw [if_pos hfit, hcount]
        constructor
        · intro hsaid
          have hsum := Option.some.inj (Prod.mk.inj hsaid).2
          exact ⟨List.cons_ne_nil _ _, (sum_counted hpos).2.mp hsum, hfit⟩
        · rintro ⟨-, hprods, -⟩
          rw [(sum_counted hpos).2.mpr hprods]
      · rw [if_neg hfit]
        refine ⟨fun hminus => ?_, fun hfits => absurd hfits.2.2 hfit⟩
        omega

/-- Two pairs behind `plus`. -/
theorem offsetAsSaid_iff_plus :
    OffsetAsSaid 32 (ascii "access plus 1 seconds 2 minutes")
      (modExpireGetOffset 32 (textBuffer (ascii "access plus 1 seconds 2 minutes"))) ↔
    ExpireFits 32 (ascii "access plus 1 seconds 2 minutes") :=
  offsetAsSaid_iff 32 ⟨by decide, by decide, by decide⟩

/-- A hundred years are no `int`, a number that is left out is 0, and a rule without pairs is
refused. -/
theorem not_offsetAsSaid :
    modExpireGetOffset 32 (textBuffer (ascii "access 100 years")) = (0, some (-1184567296)) ∧
    ¬ OffsetAsSaid 32 (ascii "access 100 years")
      (modExpireGetOffset 32 (textBuffer (ascii "access 100 years"))) ∧
    modExpireGetOffset 32 (textBuffer (ascii "now  seconds")) = (0, some 0) ∧
    ¬ OffsetAsSaid 32 (ascii "now  seconds")
      (modExpireGetOffset 32 (textBuffer (ascii "now  seconds"))) ∧
    ¬ OffsetAsSaid 32 (ascii "access")
      (modExpireGetOffset 32 (textBuffer (ascii "access"))) := by
  decide +kernel

end Lighttpd
