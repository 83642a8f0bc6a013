import Lighttpd.Lib.CString
import Mathlib.Data.List.Induction
import Mathlib.Data.Int.Order.Basic

/-!
# Numerals

`strtol` in base 10 and `atoi`, with a 32-bit `long`, `strtoll`, and the text `%d` prints. A
numeral that reaches the end of a piece of text is *open* (`NumeralOpen`): what follows in memory
takes part in its value. A closed one has the same value whatever follows
(`atoi_append_of_closed`).
-/

namespace CLib

def isSpace (c : UInt8) : Bool := c == 32 || (9 ≤ c && c ≤ 13)

def isDigit (c : UInt8) : Bool := 48 ≤ c && c ≤ 57

def digitsValue (ds : Bytes) : Nat := ds.foldl (fun v d => 10 * v + (d.toNat - 48)) 0

def splitSign : Bytes → Bool × Bytes
  | [] => (false, [])
  | c :: r => if c = 45 then (true, r) else if c = 43 then (false, r) else (false, c :: r)

/-- The range of `long`: `strtol` saturates. -/
def saturate (v : Int) : Int := max (-2147483648) (min v 2147483647)

/-- `strtol(s, &err, 10)`: the value, and the text at `err` (all of `s` when there is no digit). -/
def strtol (s : Bytes) : Int × Bytes :=
  let (minus, r) := splitSign (s.dropWhile isSpace)
  let ds := r.takeWhile isDigit
  if ds = [] then (0, s)
  else (saturate (if minus then -(digitsValue ds : Int) else digitsValue ds), r.dropWhile isDigit)

theorem saturate_eq {v : Int} (h1 : -2147483648 ≤ v) (h2 : v ≤ 2147483647) : saturate v = v := by
  rw [saturate, min_eq_left h2, max_eq_right h1]

def atoi (s : Bytes) : Int := (strtol s).1

/-- `atol` -/
def atol (s : Bytes) : Int := (strtol s).1

/-! ## Printing -/

def digitByte (d : Nat) : UInt8 := UInt8.ofNat (48 + d)

/-- The digits of `n`; `fuel` bounds their number. -/
def decimalNatAux : Nat → Nat → Bytes
  | 0, n => [digitByte (n % 10)]
  | fuel + 1, n =>
    if n < 10 then [digitByte n] else decimalNatAux fuel (n / 10) ++ [digitByte (n % 10)]

def decimalNat (n : Nat) : Bytes := decimalNatAux n n

/-- What `%d` prints. -/
def decimal (v : Int) : Bytes := if v < 0 then 45 :: decimalNat v.natAbs else decimalNat v.natAbs

theorem digitByte_toNat {d : Nat} (hd : d < 10) : (digitByte d).toNat = 48 + d := by
  unfold digitByte
  rw [UInt8.toNat_ofNat']
  omega

theorem isDigit_digitByte {d : Nat} (hd : d < 10) : isDigit (digitByte d) = true := by
  have h := digitByte_toNat hd
  simp only [isDigit, Bool.and_eq_true, decide_eq_true_eq, UInt8.le_iff_toNat_le, h]
  constructor
  · show 48 ≤ 48 + d
    omega
  · show 48 + d ≤ 57
    omega

theorem digitsValue_append_singleton (ds : Bytes) (d : UInt8) :
    digitsValue (ds ++ [d]) = 10 * digitsValue ds + (d.toNat - 48) := by
  simp [digitsValue, List.foldl_append]

theorem le_digitsValue_append (u t : Bytes) : digitsValue t ≤ digitsValue (u ++ t) := by
  induction t using List.reverseRecOn with
  | nil => exact Nat.zero_le _
  | append_singleton t d ih =>
    rw [digitsValue_append_singleton, ← List.append_assoc, digitsValue_append_singleton]
    omega

theorem digitsValue_nines (j : Nat) : digitsValue (List.replicate j 57) + 1 = 10 ^ j := by
  induction j with
  | zero => rfl
  | succ j ih =>
    rw [List.replicate_succ', digitsValue_append_singleton, Nat.pow_succ]
    have h9 : (57 : UInt8).toNat - 48 = 9 := rfl
    omega

theorem digitsValue_decimalNatAux : ∀ (fuel n : Nat), n ≤ fuel →
    digitsValue (decimalNatAux fuel n) = n
  | 0, n, h => by
    have hn : n = 0 := by omega
    subst hn
    rfl
  | fuel + 1, n, h => by
    unfold decimalNatAux
    split
    · next hn => simp [digitsValue, digitByte_toNat hn]
    · next hn =>
      have ih := digitsValue_decimalNatAux fuel (n / 10) (by omega)
      rw [digitsValue_append_singleton, ih, digitByte_toNat (Nat.mod_lt _ (by decide))]
      omega

/-- Reading back what `%d` printed. -/
theorem digitsValue_decimalNat (n : Nat) : digitsValue (decimalNat n) = n :=
  digitsValue_decimalNatAux n n (Nat.le_refl n)

theorem isDigit_of_mem_decimalNatAux : ∀ (fuel n : Nat) {c : UInt8},
    c ∈ decimalNatAux fuel n → isDigit c = true
  | 0, n, c, h => by
    simp only [decimalNatAux, List.mem_singleton] at h
    subst h
    exact isDigit_digitByte (Nat.mod_lt _ (by decide))
  | fuel + 1, n, c, h => by
    unfold decimalNatAux at h
    split at h
    · next hn =>
      rw [List.mem_singleton] at h
      subst h
      exact isDigit_digitByte hn
    · rcases List.mem_append.mp h with h | h
      · exact isDigit_of_mem_decimalNatAux fuel _ h
      · rw [List.mem_singleton] at h
        subst h
        exact isDigit_digitByte (Nat.mod_lt _ (by decide))

theorem isDigit_of_mem_decimalNat {n : Nat} {c : UInt8} (h : c ∈ decimalNat n) :
    isDigit c = true :=
  isDigit_of_mem_decimalNatAux n n h

theorem notMem_decimal {c : UInt8} (hc : isDigit c = false) (hminus : c ≠ 45) (v : Int) :
    c ∉ decimal v := by
  have hnat : c ∉ decimalNat v.natAbs := fun h =>
    absurd (hc.symm.trans (isDigit_of_mem_decimalNat h)) Bool.false_ne_true
  unfold decimal
  split
  · exact List.not_mem_cons_of_ne_of_not_mem hminus hnat
  · exact hnat

theorem isCStr_decimal (v : Int) : IsCStr (decimal v) := notMem_decimal rfl (by decide) v

theorem decimal_natCast (n : Nat) : decimal (n : Int) = decimalNat n := by
  unfold decimal
  rw [if_neg (by omega), Int.natAbs_natCast]

theorem decimalNat_injective : Function.Injective decimalNat := fun m n h => by
  rw [← digitsValue_decimalNat m, h, digitsValue_decimalNat n]

theorem digitsValue_lt (ds : Bytes) (hds : ∀ d ∈ ds, isDigit d = true) :
    digitsValue ds < 10 ^ ds.length := by
  induction ds using List.reverseRecOn with
  | nil => simp [digitsValue]
  | append_singleton ds d ih =>
    have hd : isDigit d = true := hds d (by simp)
    simp only [isDigit, Bool.and_eq_true, decide_eq_true_eq, UInt8.le_iff_toNat_le] at hd
    have h9 : d.toNat ≤ 57 := hd.2
    have := ih (fun e he => hds e (by simp [he]))
    rw [digitsValue_append_singleton, List.length_append, List.length_singleton, Nat.pow_succ]
    omega

/-- A number of `k + 1` digits or more prints as more than `k` characters. -/
theorem lt_length_decimalNat {k n : Nat} (h : 10 ^ k ≤ n) : k < (decimalNat n).length := by
  have hlt := digitsValue_lt (decimalNat n) (fun _ => isDigit_of_mem_decimalNat)
  rw [digitsValue_decimalNat] at hlt
  by_contra hle
  have := Nat.pow_le_pow_right (show 0 < 10 by decide) (Nat.le_of_not_lt hle)
  omega

theorem length_decimalNatAux_le : ∀ (fuel n : Nat) {k : Nat}, n ≤ fuel → n < 10 ^ (k + 1) →
    (decimalNatAux fuel n).length ≤ k + 1
  | 0, n, k, _, _ => by simp [decimalNatAux]
  | fuel + 1, n, k, hf, h => by
    unfold decimalNatAux
    split
    · simp
    · next hn =>
      cases k with
      | zero => omega
      | succ k =>
        have ih := length_decimalNatAux_le fuel (n / 10) (k := k) (by omega)
          (by rw [Nat.pow_succ] at h; omega)
        rw [List.length_append, List.length_singleton]
        omega

/-- A number below `10 ^ (k + 1)` prints as at most `k + 1` characters. -/
theorem length_decimalNat_le {k n : Nat} (h : n < 10 ^ (k + 1)) : (decimalNat n).length ≤ k + 1 :=
  length_decimalNatAux_le n n (Nat.le_refl n) h

theorem decimal_injective : Function.Injective decimal := by
  intro v w h
  unfold decimal at h
  have minus : ∀ {n : Nat} {t : Bytes}, 45 :: t ≠ decimalNat n := fun {n t} e => by
    have : isDigit 45 = true := isDigit_of_mem_decimalNat (n := n) (by rw [← e]; simp)
    cases this
  split at h <;> split at h
  · have := decimalNat_injective (List.cons.inj h).2
    omega
  · exact absurd h minus
  · exact absurd h.symm minus
  · have := decimalNat_injective h
    omega

/-! ## Open numerals -/

/-- The scan for a numeral reaches the end of the text: blanks, a sign and digits, nothing else. -/
def NumeralOpen (f : Bytes) : Prop :=
  (splitSign (f.dropWhile isSpace)).2.dropWhile isDigit = []

instance (f : Bytes) : Decidable (NumeralOpen f) := inferInstanceAs (Decidable (_ = _))

theorem splitSign_append {f : Bytes} (hf : f ≠ []) (r : Bytes) :
    splitSign (f ++ r) = ((splitSign f).1, (splitSign f).2 ++ r) := by
  cases f with
  | nil => exact absurd rfl hf
  | cons c t =>
    simp only [List.cons_append, splitSign]
    split
    · rfl
    · split <;> rfl

theorem dropWhile_append_of_ne_nil {p : UInt8 → Bool} {f : Bytes} (h : f.dropWhile p ≠ [])
    (r : Bytes) : (f ++ r).dropWhile p = f.dropWhile p ++ r := by
  rw [List.dropWhile_append]
  simp [h]

theorem takeWhile_append_of_ne_nil {p : UInt8 → Bool} {f : Bytes} (h : f.dropWhile p ≠ [])
    (r : Bytes) : (f ++ r).takeWhile p = f.takeWhile p := by
  rw [List.takeWhile_append]
  have hlen : (f.takeWhile p).length ≠ f.length := by
    intro he
    have := congrArg List.length (List.takeWhile_append_dropWhile (p := p) (l := f))
    rw [List.length_append, he] at this
    exact h (List.eq_nil_of_length_eq_zero (by omega))
  simp [hlen]

theorem atoi_append_of_closed {f : Bytes} (h : ¬ NumeralOpen f) (r : Bytes) :
    atoi (f ++ r) = atoi f := by
  unfold NumeralOpen at h
  have hsp : f.dropWhile isSpace ≠ [] := fun e => h (by simp [e, splitSign])
  unfold atoi strtol
  rw [dropWhile_append_of_ne_nil hsp, splitSign_append hsp]
  simp only [takeWhile_append_of_ne_nil h]
  split <;> rfl

theorem atoi_append_of_open {f t : Bytes} (h : NumeralOpen f) (ht : t ≠ [])
    (htd : ∀ d ∈ t, isDigit d = true) :
    atoi (f ++ t) = saturate (if (splitSign (f.dropWhile isSpace)).1
      then -(digitsValue ((splitSign (f.dropWhile isSpace)).2 ++ t) : Int)
      else digitsValue ((splitSign (f.dropWhile isSpace)).2 ++ t)) := by
  have htake : ∀ {u : Bytes}, u.dropWhile isDigit = [] → (u ++ t).takeWhile isDigit = u ++ t := by
    intro u hu
    rw [List.takeWhile_eq_self_iff]
    intro x hx
    rcases List.mem_append.mp hx with hx | hx
    · exact List.dropWhile_eq_nil_iff.mp hu x hx
    · exact htd x hx
  have hdrop : (f ++ t).dropWhile isSpace = f.dropWhile isSpace ++ t := by
    by_cases hsp : f.dropWhile isSpace = []
    · rw [List.dropWhile_append]
      obtain ⟨d, t', rfl⟩ := List.exists_cons_of_ne_nil ht
      have hd : isSpace d = false := by
        have hd := htd d (by simp)
        simp only [isDigit, Bool.and_eq_true, decide_eq_true_eq, UInt8.le_iff_toNat_le] at hd
        have h1 : 48 ≤ d.toNat := hd.1
        simp only [isSpace, Bool.or_eq_false_iff, beq_eq_false_iff_ne, Bool.and_eq_false_iff,
          decide_eq_false_iff_not, UInt8.le_iff_toNat_le]
        refine ⟨fun e => ?_, Or.inr ?_⟩
        · rw [e] at h1
          exact absurd h1 (by decide)
        · show ¬ d.toNat ≤ 13
          omega
      simp [hsp, hd]
    · exact dropWhile_append_of_ne_nil hsp t
  have hsign : splitSign (f.dropWhile isSpace ++ t) = ((splitSign (f.dropWhile isSpace)).1,
      (splitSign (f.dropWhile isSpace)).2 ++ t) := by
    by_cases hsp : f.dropWhile isSpace = []
    · obtain ⟨d, t', rfl⟩ := List.exists_cons_of_ne_nil ht
      have hd := htd d (by simp)
      have h45 : d ≠ 45 := fun e => by subst e; cases hd
      have h43 : d ≠ 43 := fun e => by subst e; cases hd
      simp [hsp, splitSign, h45, h43]
    · exact splitSign_append hsp t
  unfold NumeralOpen at h
  unfold atoi strtol
  rw [hdrop, hsign]
  simp only [htake h]
  have hne : (splitSign (f.dropWhile isSpace)).2 ++ t ≠ [] := by simp [ht]
  rw [if_neg hne]

theorem length_splitSign_le (f : Bytes) : (splitSign f).2.length ≤ f.length := by
  cases f with
  | nil => simp [splitSign]
  | cons c t =>
    simp only [splitSign]
    split
    · simp
    · split <;> simp

/-- The value of a text of `k` characters has at most `k` digits. -/
theorem natAbs_atoi_lt (f : Bytes) : (atoi f).natAbs < 10 ^ f.length := by
  have hlen : ((splitSign (f.dropWhile isSpace)).2.takeWhile isDigit).length ≤ f.length := by
    have h1 := (List.takeWhile_prefix isDigit (l := (splitSign (f.dropWhile isSpace)).2)).length_le
    have h2 := (List.dropWhile_suffix isSpace (l := f)).length_le
    have h3 := length_splitSign_le (f.dropWhile isSpace)
    omega
  unfold atoi strtol
  simp only
  split
  · exact Nat.pow_pos (by decide)
  · have hv := digitsValue_lt ((splitSign (f.dropWhile isSpace)).2.takeWhile isDigit)
      fun _ => List.mem_takeWhile_imp
    have hpow := Nat.pow_le_pow_right (show 0 < 10 by decide) hlen
    simp only [saturate]
    split <;> omega

/-- The digits of an open numeral stand for a number below `10 ^ f.length`. -/
theorem digitsValue_open_lt {f : Bytes} (h : NumeralOpen f) :
    digitsValue (splitSign (f.dropWhile isSpace)).2 < 10 ^ f.length := by
  have hall := List.dropWhile_eq_nil_iff.mp h
  have h1 := length_splitSign_le (f.dropWhile isSpace)
  have h2 := (List.dropWhile_suffix isSpace (l := f)).length_le
  exact Nat.lt_of_lt_of_le (digitsValue_lt _ hall)
    (Nat.pow_le_pow_right (by decide) (Nat.le_trans h1 h2))

/-! ## 64 bits -/

/-- The range of `long long`. -/
def saturate64 (v : Int) : Int := max (-9223372036854775808) (min v 9223372036854775807)

/-- `strtoll(s, &err, 10)`, with the text at `err`. -/
def strtoll (s : Bytes) : Int × Bytes :=
  let (minus, r) := splitSign (s.dropWhile isSpace)
  let ds := r.takeWhile isDigit
  if ds = [] then (0, s)
  else (saturate64 (if minus then -(digitsValue ds : Int) else digitsValue ds), r.dropWhile isDigit)

/-- `strtoll` sets `errno`: the number is out of range. -/
def strtollErange (s : Bytes) : Bool :=
  let (minus, r) := splitSign (s.dropWhile isSpace)
  let v : Int := digitsValue (r.takeWhile isDigit)
  decide (saturate64 (if minus then -v else v) ≠ if minus then -v else v)

/-- Blanks, perhaps a sign, and digits: the text of the number `v`. -/
def NumeralText (t : Bytes) (v : Int) : Prop :=
  ∃ blanks sign ds, t = blanks ++ (sign ++ ds) ∧ (∀ c ∈ blanks, isSpace c = true) ∧
    (sign = [] ∨ sign = [45] ∨ sign = [43]) ∧ ds ≠ [] ∧ (∀ c ∈ ds, isDigit c = true) ∧
    v = saturate64 (if sign = [45] then -(digitsValue ds : Int) else digitsValue ds)

/-- The text does not go on with a digit. -/
def NoDigit (r : Bytes) : Prop := ∀ c ∈ r.head?, isDigit c = false

theorem noDigit_nil : NoDigit [] := fun _ h => by cases h

theorem noDigit_cons {c : UInt8} (hc : isDigit c = false) (r : Bytes) : NoDigit (c :: r) := by
  intro c' h
  obtain rfl := Option.some.inj h
  exact hc

theorem isSpace_of_isDigit {c : UInt8} (hc : isDigit c = true) : isSpace c = false := by
  simp only [isDigit, Bool.and_eq_true, decide_eq_true_eq, UInt8.le_iff_toNat_le] at hc
  have h1 : 48 ≤ c.toNat := hc.1
  simp only [isSpace, Bool.or_eq_false_iff, beq_eq_false_iff_ne, Bool.and_eq_false_iff,
    decide_eq_false_iff_not, UInt8.le_iff_toNat_le]
  refine ⟨?_, Or.inr ?_⟩
  · rintro rfl
    exact absurd h1 (by decide)
  · show ¬ c.toNat ≤ 13
    omega

theorem splitSign_sign_append {sign ds : Bytes} (hsign : sign = [] ∨ sign = [45] ∨ sign = [43])
    (hne : ds ≠ []) (hds : ∀ c ∈ ds, isDigit c = true) (r : Bytes) :
    splitSign (sign ++ ds ++ r) = (decide (sign = [45]), ds ++ r) := by
  rcases hsign with rfl | rfl | rfl
  · obtain ⟨d, ds, rfl⟩ := List.exists_cons_of_ne_nil hne
    have hd := hds d (by simp)
    have h45 : d ≠ 45 := fun e => by subst e; cases hd
    have h43 : d ≠ 43 := fun e => by subst e; cases hd
    simp [splitSign, h45, h43]
  · simp [splitSign]
  · simp [splitSign]

/-- A row of digits, with at least one. -/
def Digits (ds : Bytes) : Prop := ds ≠ [] ∧ ∀ c ∈ ds, isDigit c = true

theorem Digits.notMem {ds : Bytes} (h : Digits ds) {c : UInt8} (hc : isDigit c = false) :
    c ∉ ds := fun hmem => absurd (h.2 c hmem) (by simp [hc])

theorem strtol_digits {ds : Bytes} (h : Digits ds) : strtol ds = (saturate (digitsValue ds), []) := by
  obtain ⟨hne, hds⟩ := h
  have hblank : ds.dropWhile isSpace = ds := by
    cases ds with
    | nil => rfl
    | cons d ds => simp [isSpace_of_isDigit (hds d List.mem_cons_self)]
  have hsign : splitSign ds = (false, ds) := by
    have hcut := splitSign_sign_append (Or.inl (Eq.refl ([] : Bytes))) hne hds []
    simpa using hcut
  have htake : ds.takeWhile isDigit = ds := List.takeWhile_eq_self_iff.mpr hds
  have hdrop : ds.dropWhile isDigit = [] := List.dropWhile_eq_nil_iff.mpr hds
  unfold strtol
  rw [hblank, hsign]
  dsimp only
  rw [htake, hdrop, if_neg hne]
  rfl

theorem digits_of_strtol {t : Bytes} (hne : t ≠ []) (hspace : ∀ c ∈ t, isSpace c = false)
    (h43 : 43 ∉ t) (h45 : 45 ∉ t) (hend : (strtol t).2 = []) : Digits t := by
  refine ⟨hne, ?_⟩
  have hblank : t.dropWhile isSpace = t := by
    cases t with
    | nil => rfl
    | cons c t => simp [hspace c List.mem_cons_self]
  have hsign : splitSign t = (false, t) := by
    cases t with
    | nil => rfl
    | cons c t =>
      have hne43 : c ≠ 43 := fun e => h43 (by simp [e])
      have hne45 : c ≠ 45 := fun e => h45 (by simp [e])
      simp [splitSign, hne43, hne45]
  unfold strtol at hend
  rw [hblank, hsign] at hend
  dsimp only at hend
  split at hend
  · exact absurd hend hne
  · exact List.dropWhile_eq_nil_iff.mp hend

theorem saturate_nat {n : Nat} (v : Nat) (hv : v < 2147483647) : saturate n = v ↔ n = v := by
  unfold saturate
  omega

theorem NumeralText.strtoll_append {t : Bytes} {v : Int} (h : NumeralText t v) {r : Bytes}
    (hr : NoDigit r) : strtoll (t ++ r) = (v, r) := by
  obtain ⟨blanks, sign, ds, rfl, hblanks, hsign, hne, hds, rfl⟩ := h
  have hdrop : (blanks ++ (sign ++ ds) ++ r).dropWhile isSpace = sign ++ ds ++ r := by
    rw [List.append_assoc, List.dropWhile_append_of_pos hblanks]
    rcases hsign with rfl | rfl | rfl
    · obtain ⟨d, ds, rfl⟩ := List.exists_cons_of_ne_nil hne
      simp [isSpace_of_isDigit (hds d (by simp))]
    · rfl
    · rfl
  have htake : (ds ++ r).takeWhile isDigit = ds ∧ (ds ++ r).dropWhile isDigit = r := by
    rw [List.takeWhile_append_of_pos hds, List.dropWhile_append_of_pos hds]
    cases r with
    | nil => simp
    | cons c r => simp [hr c rfl]
  unfold strtoll
  rw [hdrop, splitSign_sign_append hsign hne hds]
  simp only [htake.1, htake.2, if_neg hne, decide_eq_true_eq]

theorem NumeralText.ne_nil {t : Bytes} {v : Int} (h : NumeralText t v) : t ≠ [] := by
  obtain ⟨blanks, sign, ds, rfl, -, -, hne, -⟩ := h
  simp [hne]

theorem NumeralText.notMem {t : Bytes} {v : Int} (h : NumeralText t v) {c : UInt8}
    (hspace : isSpace c = false) (hdigit : isDigit c = false) (h45 : c ≠ 45) (h43 : c ≠ 43) :
    c ∉ t := by
  obtain ⟨blanks, sign, ds, rfl, hblanks, hsign, -, hds, -⟩ := h
  intro hc
  rcases List.mem_append.mp hc with hc | hc
  · rw [hblanks c hc] at hspace
    cases hspace
  · rcases List.mem_append.mp hc with hc | hc
    · rcases hsign with rfl | rfl | rfl
      · cases hc
      · exact h45 (List.mem_singleton.mp hc)
      · exact h43 (List.mem_singleton.mp hc)
    · rw [hds c hc] at hdigit
      cases hdigit

theorem strtoll_cases (s : Bytes) : strtoll s = (0, s) ∨
    ∃ t v r, s = t ++ r ∧ NumeralText t v ∧ NoDigit r ∧ strtoll s = (v, r) := by
  have hsplit := List.takeWhile_append_dropWhile (p := isSpace) (l := s)
  have hsign : ∃ sign, (sign = [] ∨ sign = [45] ∨ sign = [43]) ∧
      (splitSign (s.dropWhile isSpace)).1 = decide (sign = [45]) ∧
      s.dropWhile isSpace = sign ++ (splitSign (s.dropWhile isSpace)).2 := by
    cases s.dropWhile isSpace with
    | nil => exact ⟨[], Or.inl rfl, rfl, rfl⟩
    | cons c u =>
      simp only [splitSign]
      split
      · next hc =>
        subst hc
        exact ⟨[45], Or.inr (Or.inl rfl), rfl, rfl⟩
      · split
        · next hc =>
          subst hc
          exact ⟨[43], Or.inr (Or.inr rfl), rfl, rfl⟩
        · exact ⟨[], Or.inl rfl, rfl, rfl⟩
  obtain ⟨sign, hsign, hminus, hrest⟩ := hsign
  unfold strtoll
  generalize splitSign (s.dropWhile isSpace) = q at hminus hrest
  obtain ⟨minus, u⟩ := q
  dsimp only at hminus hrest ⊢
  subst hminus
  split
  · exact Or.inl rfl
  · next hds =>
    refine Or.inr ⟨s.takeWhile isSpace ++ (sign ++ u.takeWhile isDigit), _, u.dropWhile isDigit, ?_,
      ⟨_, sign, _, rfl, fun c hc => List.mem_takeWhile_imp hc, hsign, hds,
        fun c hc => List.mem_takeWhile_imp hc, rfl⟩, ?_, ?_⟩
    · rw [List.append_assoc, List.append_assoc, List.takeWhile_append_dropWhile, ← hrest, hsplit]
    · intro c hc
      have := List.head?_dropWhile_not isDigit u
      rw [Option.mem_def.mp hc] at this
      simpa using this
    · simp only [decide_eq_true_eq]

theorem numeralText_of_strtoll {t : Bytes} (hne : t ≠ []) (h : (strtoll t).2 = []) :
    NumeralText t (strtoll t).1 := by
  rcases strtoll_cases t with h0 | ⟨t', v, r, ht, hnum, -, hv⟩
  · rw [h0] at h
    exact absurd h hne
  · rw [hv] at h ⊢
    obtain rfl : r = [] := h
    rw [List.append_nil] at ht
    rwa [ht]

theorem strtoll_nonneg {t : Bytes} (h : 45 ∉ t) : 0 ≤ (strtoll t).1 := by
  rcases strtoll_cases t with h0 | ⟨t', v, r, rfl, hnum, -, hv⟩
  · rw [h0]
  · rw [hv]
    obtain ⟨blanks, sign, ds, rfl, -, -, -, -, rfl⟩ := hnum
    have hsign : sign ≠ [45] := by
      rintro rfl
      simp at h
    rw [if_neg hsign]
    simp only [saturate64]
    omega

theorem strtoll_append_cons (t : Bytes) {c : UInt8} (hspace : isSpace c = false)
    (hdigit : isDigit c = false) (h45 : c ≠ 45) (h43 : c ≠ 43) (r : Bytes) :
    strtoll (t ++ c :: r) = ((strtoll t).1, (strtoll t).2 ++ c :: r) := by
  have hnodigit : ∀ {u : Bytes}, NoDigit u → NoDigit (u ++ c :: r) := by
    intro u hu
    cases u with
    | nil => exact noDigit_cons hdigit r
    | cons d u => exact noDigit_cons (hu d rfl) _
  rcases strtoll_cases t with h0 | ⟨t', v, u, rfl, hnum, hu, hv⟩
  · rw [h0]
    rcases strtoll_cases (t ++ c :: r) with h1 | ⟨t', v, u, he, hnum, hu, hv⟩
    · exact h1
    · -- the numeral would end before `c`
      exfalso
      rcases List.append_eq_append_iff.mp he with ⟨w, rfl, hw⟩ | ⟨w, rfl, hw⟩
      · cases w with
        | nil =>
          rw [List.append_nil] at hnum
          have := hnum.strtoll_append noDigit_nil
          rw [List.append_nil, h0] at this
          exact hnum.ne_nil (congrArg Prod.snd this)
        | cons d w =>
          obtain ⟨rfl, -⟩ := List.cons.inj hw
          exact hnum.notMem hspace hdigit h45 h43 (by simp)
      · have hnd : NoDigit w := by
          cases w with
          | nil => exact noDigit_nil
          | cons d w => exact noDigit_cons (hu d (by rw [hw]; rfl)) w
        have := hnum.strtoll_append hnd
        rw [h0] at this
        have hlen := congrArg List.length (congrArg Prod.snd this)
        have hpos := List.length_pos_iff.mpr hnum.ne_nil
        simp only [List.length_append] at hlen
        omega
  · rw [hv, List.append_assoc, hnum.strtoll_append (hnodigit hu)]

theorem strtoll_append_minus {t : Bytes} (hne : t ≠ []) (r : Bytes) :
    ((strtoll (t ++ 45 :: r)).2 = 45 :: r ↔ (strtoll t).2 = []) ∧
      ((strtoll t).2 = [] → (strtoll (t ++ 45 :: r)).1 = (strtoll t).1) := by
  have hminus : NoDigit (45 :: r) := noDigit_cons rfl r
  have hback : (strtoll t).2 = [] → strtoll (t ++ 45 :: r) = ((strtoll t).1, 45 :: r) :=
    fun h => (numeralText_of_strtoll hne h).strtoll_append hminus
  refine ⟨⟨fun h => ?_, fun h => by rw [hback h]⟩, fun h => by rw [hback h]⟩
  rcases strtoll_cases (t ++ 45 :: r) with h0 | ⟨t', v, u, he, hnum, -, hv⟩
  · rw [h0] at h
    have hlen := congrArg List.length h
    have hpos := List.length_pos_iff.mpr hne
    simp only [List.length_append] at hlen
    omega
  · rw [hv] at h
    obtain rfl : u = 45 :: r := h
    obtain rfl := List.append_cancel_right he
    have := hnum.strtoll_append noDigit_nil
    rw [List.append_nil] at this
    rw [this]

/-! ## A number in front of a blank -/

theorem span_append_stop {p : UInt8 → Bool} {c : UInt8} (hc : p c = false) (s t : Bytes) :
    (s ++ c :: t).takeWhile p = s.takeWhile p ∧
      (s ++ c :: t).dropWhile p = s.dropWhile p ++ c :: t := by
  induction s with
  | nil => simp [hc]
  | cons x s ih =>
    rw [List.cons_append]
    by_cases hx : p x = true
    · simp [hx, ih.1, ih.2]
    · simp [hx]

theorem strtol_suffix (s : Bytes) : (strtol s).2 <:+ s := by
  have hsign : ∀ t : Bytes, (splitSign t).2 <:+ t := by
    intro t
    cases t with
    | nil => exact List.suffix_refl _
    | cons c t =>
      rw [splitSign]
      split
      · exact List.suffix_cons c t
      · split
        · exact List.suffix_cons c t
        · exact List.suffix_refl _
  unfold strtol
  dsimp only
  split
  · exact List.suffix_refl s
  · exact (List.dropWhile_suffix _).trans ((hsign _).trans (List.dropWhile_suffix _))

/-- A byte that neither is a part of a number nor stands in front of one. -/
def NoNumber (c : UInt8) : Prop := isSpace c = false ∧ isDigit c = false ∧ c ≠ 45 ∧ c ≠ 43

instance (c : UInt8) : Decidable (NoNumber c) := inferInstanceAs (Decidable (_ ∧ _))

/-- A number ends at a blank, also where it is empty and `strtol` skips the blank. -/
theorem strtol_blank (num : Bytes) {c : UInt8} (hc : NoNumber c) (t : Bytes) :
    strtol (num ++ 32 :: c :: t) = ((strtol num).1, (strtol num).2 ++ 32 :: c :: t) := by
  obtain ⟨hspace, hdigit, hminus, hplus⟩ := hc
  unfold strtol
  by_cases hblank : num.dropWhile isSpace = []
  · have hall : ∀ x ∈ num, isSpace x = true := List.dropWhile_eq_nil_iff.mp hblank
    have hdrop : (num ++ 32 :: c :: t).dropWhile isSpace = c :: t := by
      rw [List.dropWhile_append_of_pos hall, List.dropWhile_cons_of_pos (by decide),
        List.dropWhile_cons_of_neg (by rw [hspace]; exact Bool.false_ne_true)]
    have hsign : splitSign (c :: t) = (false, c :: t) := by
      rw [splitSign, if_neg hminus, if_neg hplus]
    have htake : (c :: t).takeWhile isDigit = [] :=
      List.takeWhile_cons_of_neg (by rw [hdigit]; exact Bool.false_ne_true)
    rw [hdrop, hblank, hsign]
    dsimp only
    rw [htake, if_pos rfl]
    rfl
  · rw [dropWhile_append_of_ne_nil hblank, splitSign_append hblank]
    dsimp only
    generalize splitSign (num.dropWhile isSpace) = r
    obtain ⟨htake, hdrop⟩ := @span_append_stop isDigit 32 rfl r.2 (c :: t)
    rw [htake, hdrop]
    split <;> rfl

/-- The text at `err` starts with a blank exactly when the word is read to its end. -/
theorem head_strtol_blank {num : Bytes} (hnum : 32 ∉ num) (r : Bytes) :
    ((strtol num).2 ++ 32 :: r).head? = some 32 ↔ (strtol num).2 = [] := by
  have hmem : 32 ∉ (strtol num).2 := fun h => hnum ((strtol_suffix num).subset h)
  cases hrest : (strtol num).2 with
  | nil => exact ⟨fun _ => rfl, fun _ => rfl⟩
  | cons x rest =>
    rw [hrest] at hmem
    refine ⟨fun h => ?_, fun h => (nomatch h)⟩
    exact absurd (Option.some.inj h) fun hx => hmem (hx ▸ List.mem_cons_self)

end CLib
