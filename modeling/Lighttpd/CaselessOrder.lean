import Lighttpd.Caseless
import Lighttpd.Lib.Compare

/-!
# The order of `buffer_caseless_compare`

Two bytes are brought to one case only when both are letters and their cases differ. So a character
between the two alphabets stands behind an upper-case letter and in front of a lower-case one. Texts
are in order except where three of them meet so (`Clashes`): then the comparison is no preorder on
these three (`caselessOrder_iff`).
-/

namespace Lighttpd

open CLib Compare

/-! ## Bytes -/

def upperByte (c : UInt8) : Prop := 65 ≤ c.toNat ∧ c.toNat ≤ 90

def lowerByte (c : UInt8) : Prop := 97 ≤ c.toNat ∧ c.toNat ≤ 122

/-- One of the characters between `Z` and `a`. -/
def betweenByte (c : UInt8) : Prop := 91 ≤ c.toNat ∧ c.toNat ≤ 96

theorem pairDiff_eq (a b : UInt8) : pairDiff a b =
    if (65 ≤ a.toNat ∧ a.toNat ≤ 90) ∧ 97 ≤ b.toNat ∧ b.toNat ≤ 122 then
      (a.toNat : Int) + 32 - b.toNat
    else if (97 ≤ a.toNat ∧ a.toNat ≤ 122) ∧ 65 ≤ b.toNat ∧ b.toNat ≤ 90 then
      (a.toNat : Int) - (b.toNat + 32)
    else charVal a - charVal b := by
  have hp := caselessPair_toNat a b
  rw [pairDiff, charVal_eq, charVal_eq, charVal_eq, charVal_eq]
  generalize (caselessPair a b).1.toNat = p at *
  generalize (caselessPair a b).2.toNat = q at *
  split at hp
  · next h =>
    obtain ⟨rfl, rfl⟩ := Prod.mk.inj hp
    rw [if_pos h, if_pos (by omega), if_pos (by omega)]
    omega
  · next h =>
    rw [if_neg h]
    split at hp
    · next h' =>
      obtain ⟨rfl, rfl⟩ := Prod.mk.inj hp
      rw [if_pos h', if_pos (by omega), if_pos (by omega)]
      omega
    · next h' =>
      obtain ⟨rfl, rfl⟩ := Prod.mk.inj hp
      rw [if_neg h']

theorem pairDiff_neg (a b : UInt8) : pairDiff b a = -pairDiff a b := by
  rw [pairDiff_eq, pairDiff_eq]
  split_ifs <;> omega

/-- An upper-case letter that is not before a lower-case one, and a character between the
alphabets. -/
def ByteClash (x y z : UInt8) : Prop :=
  upperByte x ∧ lowerByte y ∧ betweenByte z ∧ (tolower y).toNat ≤ (tolower x).toNat

theorem pairDiff_between {a b : UInt8} (h : betweenByte a ∨ betweenByte b) :
    pairDiff a b = charVal a - charVal b := by
  unfold betweenByte at h
  rw [pairDiff_eq, if_neg (by omega), if_neg (by omega)]

theorem pairDiff_fold {a b : UInt8} (ha : ¬ betweenByte a) (hb : ¬ betweenByte b) :
    pairDiff a b < 0 ↔ charVal (tolower a) < charVal (tolower b) := by
  have ha256 := a.toNat_lt
  have hb256 := b.toNat_lt
  have hla := toNat_tolower a
  have hlb := toNat_tolower b
  unfold betweenByte at ha hb
  rw [pairDiff_eq, charVal_eq, charVal_eq, charVal_eq, charVal_eq]
  generalize (tolower a).toNat = p at *
  generalize (tolower b).toNat = q at *
  split_ifs at hla <;> split_ifs at hlb <;> subst hla hlb <;> split_ifs <;> omega

theorem pairDiff_cases (a b : UInt8) : pairDiff a b = charVal a - charVal b ∨
    upperByte a ∧ lowerByte b ∧ pairDiff a b = (tolower a).toNat - (tolower b).toNat ∨
    lowerByte a ∧ upperByte b ∧ pairDiff a b = (tolower a).toNat - (tolower b).toNat := by
  unfold upperByte lowerByte
  rw [pairDiff_eq, toNat_tolower, toNat_tolower]
  by_cases h1 : (65 ≤ a.toNat ∧ a.toNat ≤ 90) ∧ 97 ≤ b.toNat ∧ b.toNat ≤ 122
  · rw [if_pos h1, if_pos h1.1, if_neg (by omega)]
    omega
  · rw [if_neg h1]
    by_cases h2 : (97 ≤ a.toNat ∧ a.toNat ≤ 122) ∧ 65 ≤ b.toNat ∧ b.toNat ≤ 90
    · rw [if_pos h2, if_neg (by omega), if_pos h2.2]
      omega
    · rw [if_neg h2]
      exact Or.inl rfl

theorem charVal_upper {c : UInt8} (h : upperByte c) : 65 ≤ charVal c ∧ charVal c ≤ 90 := by
  unfold upperByte at h
  rw [charVal_eq, if_pos (by omega)]
  omega

theorem charVal_lower {c : UInt8} (h : lowerByte c) : 97 ≤ charVal c ∧ charVal c ≤ 122 := by
  unfold lowerByte at h
  rw [charVal_eq, if_pos (by omega)]
  omega

theorem charVal_between {c : UInt8} (h : betweenByte c) : 91 ≤ charVal c ∧ charVal c ≤ 96 := by
  unfold betweenByte at h
  rw [charVal_eq, if_pos (by omega)]
  omega

theorem pairDiff_trans {a b c : UInt8} (hab : pairDiff a b < 0) (hbc : pairDiff b c < 0) :
    pairDiff a c < 0 ∨ ByteClash a c b ∨ ByteClash c b a ∨ ByteClash b a c := by
  by_cases hb : betweenByte b
  · have hvb := charVal_between hb
    rw [pairDiff_between (Or.inr hb)] at hab
    rw [pairDiff_between (Or.inl hb)] at hbc
    rcases pairDiff_cases a c with h | ⟨ha, hc, h⟩ | ⟨ha, hc, h⟩
    · left
      omega
    · by_cases hle : (tolower c).toNat ≤ (tolower a).toNat
      · exact Or.inr (Or.inl ⟨ha, hc, hb, hle⟩)
      · left
        omega
    · have := charVal_lower ha
      omega
  · by_cases ha : betweenByte a
    · have hva := charVal_between ha
      rw [pairDiff_between (Or.inl ha)] at hab
      rw [pairDiff_between (Or.inl ha)]
      rcases pairDiff_cases b c with h | ⟨hb', -, -⟩ | ⟨hb', hc, h⟩
      · left
        omega
      · have := charVal_upper hb'
        omega
      · exact Or.inr (Or.inr (Or.inl ⟨hc, hb', ha, by omega⟩))
    · by_cases hc : betweenByte c
      · have hvc := charVal_between hc
        rw [pairDiff_between (Or.inr hc)] at hbc
        rw [pairDiff_between (Or.inr hc)]
        rcases pairDiff_cases a b with h | ⟨-, hb', -⟩ | ⟨ha', hb', h⟩
        · left
          omega
        · have := charVal_lower hb'
          omega
        · exact Or.inr (Or.inr (Or.inr ⟨hb', ha', hc, by omega⟩))
      · rw [pairDiff_fold ha hb] at hab
        rw [pairDiff_fold hb hc] at hbc
        rw [pairDiff_fold ha hc]
        left
        omega

theorem pairDiff_lower_between {a b : UInt8} (ha : lowerByte a) (hb : betweenByte b) :
    0 < pairDiff a b := by
  unfold lowerByte at ha
  unfold betweenByte at hb
  rw [pairDiff_eq, charVal_eq, charVal_eq]
  split_ifs <;> omega

theorem pairDiff_upper_between {a b : UInt8} (ha : upperByte a) (hb : betweenByte b) :
    pairDiff a b < 0 := by
  unfold upperByte at ha
  unfold betweenByte at hb
  rw [pairDiff_eq, charVal_eq, charVal_eq]
  split_ifs <;> omega

theorem upper_lower_of_tolower_eq {a b : UInt8} (h : tolower a = tolower b) (hne : a ≠ b) :
    upperByte a ∧ lowerByte b ∨ lowerByte a ∧ upperByte b := by
  rw [← UInt8.toNat_inj, toNat_tolower, toNat_tolower] at h
  rw [Ne, ← UInt8.toNat_inj] at hne
  unfold upperByte lowerByte
  split_ifs at h <;> omega

theorem pairDiff_congr {a b c : UInt8} (hab : tolower a = tolower b)
    (hc : ¬ (betweenByte c ∧ a ≠ b)) : (pairDiff a c < 0 ↔ pairDiff b c < 0) := by
  by_cases hne : a = b
  · rw [hne]
  · have hc' : ¬ betweenByte c := fun h => hc ⟨h, hne⟩
    have hletters : ¬ betweenByte a ∧ ¬ betweenByte b := by
      have hcases := upper_lower_of_tolower_eq hab hne
      unfold upperByte lowerByte at hcases
      unfold betweenByte
      omega
    rw [pairDiff_fold hletters.1 hc', pairDiff_fold hletters.2 hc', hab]

theorem tolower_ne_between {a b : UInt8} (ha : upperByte a ∨ lowerByte a) (hb : betweenByte b) :
    tolower a ≠ tolower b := by
  intro h
  rw [← UInt8.toNat_inj, toNat_tolower, toNat_tolower] at h
  unfold upperByte lowerByte at ha
  unfold betweenByte at hb
  split_ifs at h <;> omega

/-! ## Texts -/

/-- The first text is in front of the second: its byte is the smaller one at the first place where
they differ, not only in case, or it ends there. -/
inductive Before : Bytes → Bytes → Prop
  | nil (d : UInt8) (t : Bytes) : Before [] (d :: t)
  | here {c d : UInt8} (s t : Bytes) (h : pairDiff c d < 0) : Before (c :: s) (d :: t)
  | there {c d : UInt8} {s t : Bytes} (h : tolower c = tolower d) (hst : Before s t) :
      Before (c :: s) (d :: t)

/-- Behind texts that agree but for case stand an upper-case letter, a lower-case letter, and a
character between the alphabets, and the first text is not in front of the second. -/
inductive Clashes : Bytes → Bytes → Bytes → Prop
  | here {x y z : UInt8} {s t : Bytes} (u : Bytes) (hx : upperByte x) (hy : lowerByte y)
      (hz : betweenByte z)
      (h : (tolower y).toNat < (tolower x).toNat ∨ tolower y = tolower x ∧ ¬ Before s t) :
      Clashes (x :: s) (y :: t) (z :: u)
  | there {x y z : UInt8} {s t u : Bytes} (hx : tolower x = tolower z) (hy : tolower y = tolower z)
      (h : Clashes s t u) : Clashes (x :: s) (y :: t) (z :: u)

theorem bufferCaselessCompare_neg (s t : Bytes) :
    bufferCaselessCompare t s = -bufferCaselessCompare s t := by
  induction s generalizing t with
  | nil => rw [bufferCaselessCompare_nil, bufferCaselessCompare_nil_right, Int.neg_neg]
  | cons a s ih =>
    cases t with
    | nil => rw [bufferCaselessCompare_nil, bufferCaselessCompare_nil_right]
    | cons b t =>
      rw [bufferCaselessCompare_cons, bufferCaselessCompare_cons]
      by_cases h : tolower a = tolower b
      · rw [if_pos h, if_pos h.symm, ih]
      · rw [if_neg h, if_neg (Ne.symm h), pairDiff_neg]

theorem before_iff {s t : Bytes} : Before s t ↔ bufferCaselessCompare s t < 0 := by
  constructor
  · intro h
    induction h with
    | nil d t =>
      rw [bufferCaselessCompare_nil, List.length_cons]
      omega
    | @here c d s t h =>
      have hne : tolower c ≠ tolower d := fun e => by
        have := pairDiff_eq_zero.mpr e
        omega
      rw [bufferCaselessCompare_cons, if_neg hne]
      exact h
    | there h _ ih => rwa [bufferCaselessCompare_cons, if_pos h]
  · intro h
    induction s generalizing t with
    | nil =>
      cases t with
      | nil => exact absurd h (by decide)
      | cons d t => exact .nil d t
    | cons c s ih =>
      cases t with
      | nil =>
        rw [bufferCaselessCompare_nil_right] at h
        omega
      | cons d t =>
        rw [bufferCaselessCompare_cons] at h
        split at h
        · next hcd => exact .there hcd (ih h)
        · exact .here s t h

theorem bufferCaselessCompare_trans {s t u : Bytes} (h1 : ¬ Clashes s u t) (h2 : ¬ Clashes u t s)
    (h3 : ¬ Clashes t s u) (hst : bufferCaselessCompare s t ≤ 0)
    (htu : bufferCaselessCompare t u ≤ 0) : bufferCaselessCompare s u ≤ 0 := by
  induction s generalizing t u with
  | nil =>
    rw [bufferCaselessCompare_nil]
    omega
  | cons a s ih =>
    cases t with
    | nil =>
      rw [bufferCaselessCompare_nil_right, List.length_cons] at hst
      omega
    | cons b t =>
      cases u with
      | nil =>
        rw [bufferCaselessCompare_nil_right, List.length_cons] at htu
        omega
      | cons c u =>
        rw [bufferCaselessCompare_cons] at hst htu ⊢
        by_cases hab : tolower a = tolower b
        · rw [if_pos hab] at hst
          by_cases hbc : tolower b = tolower c
          · -- the texts agree here: their rests decide
            have hac := hab.trans hbc
            rw [if_pos hbc] at htu
            rw [if_pos hac]
            exact ih (fun h => h1 (.there hab (hbc.symm) h))
              (fun h => h2 (.there hac.symm hab.symm h)) (fun h => h3 (.there hbc hac h)) hst htu
          · have hac : tolower a ≠ tolower c := fun h => hbc (hab.symm.trans h)
            rw [if_neg hbc] at htu
            rw [if_neg hac]
            have hneg : pairDiff b c < 0 := by
              have := mt pairDiff_eq_zero.mp hbc
              omega
            by_cases hbetween : betweenByte c ∧ a ≠ b
            · rcases upper_lower_of_tolower_eq hab hbetween.2 with ⟨-, hb⟩ | ⟨ha, hb⟩
              · have := pairDiff_lower_between hb hbetween.1
                omega
              · refine absurd (Clashes.here u hb ha hbetween.1 (Or.inr ⟨hab, ?_⟩)) h3
                rw [before_iff, bufferCaselessCompare_neg]
                omega
            · exact Int.le_of_lt ((pairDiff_congr hab hbetween).mpr hneg)
        · rw [if_neg hab] at hst
          have hab' : pairDiff a b < 0 := by
            have := mt pairDiff_eq_zero.mp hab
            omega
          by_cases hbc : tolower b = tolower c
          · have hac : tolower a ≠ tolower c := fun h => hab (h.trans hbc.symm)
            rw [if_pos hbc] at htu
            rw [if_neg hac]
            by_cases hbetween : betweenByte a ∧ b ≠ c
            · rcases upper_lower_of_tolower_eq hbc hbetween.2 with ⟨hb, -⟩ | ⟨hb, hc⟩
              · have := pairDiff_upper_between hb hbetween.1
                rw [pairDiff_neg] at this
                omega
              · refine absurd (Clashes.here s hc hb hbetween.1 (Or.inr ⟨hbc, ?_⟩)) h2
                rw [before_iff, bufferCaselessCompare_neg]
                omega
            · have hcongr := pairDiff_congr hbc hbetween
              have hba := pairDiff_neg a b
              have hca := pairDiff_neg a c
              have := mt pairDiff_eq_zero.mp hac
              omega
          · rw [if_neg hbc] at htu
            have hbc' : pairDiff b c < 0 := by
              have := mt pairDiff_eq_zero.mp hbc
              omega
            rcases pairDiff_trans hab' hbc' with h | ⟨hx, hy, hz, hle⟩ | ⟨hx, hy, hz, hle⟩ |
              ⟨hx, hy, hz, hle⟩
            · rw [if_neg fun e => by have := pairDiff_eq_zero.mpr e; omega]
              exact Int.le_of_lt h
            · by_cases hac : tolower a = tolower c
              · rw [if_pos hac]
                by_contra hpos
                refine h1 (Clashes.here t hx hy hz (Or.inr ⟨hac.symm, ?_⟩))
                rw [before_iff]
                omega
              · have hne := mt UInt8.toNat_inj.mp (Ne.symm hac)
                exact absurd (Clashes.here t hx hy hz (Or.inl (by omega))) h1
            · have hne := mt UInt8.toNat_inj.mp hbc
              exact absurd (Clashes.here s hx hy hz (Or.inl (by omega))) h2
            · have hne := mt UInt8.toNat_inj.mp hab
              exact absurd (Clashes.here u hx hy hz (Or.inl (by omega))) h3

theorem Clashes.compare {x y z : Bytes} (h : Clashes x y z) : bufferCaselessCompare x z < 0 ∧
    bufferCaselessCompare z y < 0 ∧ 0 ≤ bufferCaselessCompare x y := by
  induction h with
  | @here x y z s t u hx hy hz h =>
    have hxz := tolower_ne_between (Or.inl hx) hz
    have hyz := tolower_ne_between (Or.inr hy) hz
    rw [bufferCaselessCompare_cons, bufferCaselessCompare_cons, bufferCaselessCompare_cons,
      if_neg hxz, if_neg (Ne.symm hyz)]
    have h1 := pairDiff_upper_between hx hz
    have h2 := pairDiff_lower_between hy hz
    rw [pairDiff_neg y z]
    refine ⟨h1, by omega, ?_⟩
    rcases h with h | ⟨he, h⟩
    · rw [if_neg fun e => by rw [e] at h; omega, pairDiff_eq, if_pos ⟨hx, hy⟩]
      unfold upperByte at hx
      unfold lowerByte at hy
      rw [toNat_tolower, toNat_tolower, if_neg (by omega), if_pos hx] at h
      omega
    · rw [if_pos he.symm]
      rw [before_iff] at h
      omega
  | there hx hy _ ih =>
    rw [bufferCaselessCompare_cons, bufferCaselessCompare_cons, bufferCaselessCompare_cons,
      if_pos hx, if_pos hy.symm, if_pos (hx.trans hy.symm)]
    exact ih

theorem Clashes.letters {s t u : Bytes} (h : Clashes s t u) :
    (∃ c ∈ s, 65 ≤ c.toNat) ∧ (∃ c ∈ t, 65 ≤ c.toNat) ∧ ∃ c ∈ u, 65 ≤ c.toNat := by
  induction h with
  | here u hx hy hz =>
    unfold upperByte at hx
    unfold lowerByte at hy
    unfold betweenByte at hz
    exact ⟨⟨_, List.mem_cons_self, hx.1⟩, ⟨_, List.mem_cons_self, by omega⟩,
      ⟨_, List.mem_cons_self, by omega⟩⟩
  | there hx hy _ ih =>
    obtain ⟨⟨c, hc, hc'⟩, ⟨d, hd, hd'⟩, ⟨e, he, he'⟩⟩ := ih
    exact ⟨⟨c, List.mem_cons_of_mem _ hc, hc'⟩, ⟨d, List.mem_cons_of_mem _ hd, hd'⟩,
      ⟨e, List.mem_cons_of_mem _ he, he'⟩⟩

theorem Clashes.between {s t u : Bytes} (h : Clashes s t u) : ∃ c ∈ u, betweenByte c := by
  induction h with
  | here u hx hy hz => exact ⟨_, List.mem_cons_self, hz⟩
  | there hx hy _ ih =>
    obtain ⟨c, hc, hbetween⟩ := ih
    exact ⟨c, List.mem_cons_of_mem _ hc, hbetween⟩

/-! ## The order -/

theorem preorderOn_of_noClash {K : Bytes → Prop}
    (h : ∀ {x y z}, K x → K y → K z → ¬ Clashes x y z) : PreorderOn bufferCaselessCompare K := by
  constructor
  · intro s t _ _
    rw [bufferCaselessCompare_neg s t]
    omega
  · intro s t u hs ht hu
    exact bufferCaselessCompare_trans (h hs hu ht) (h hu ht hs) (h ht hs hu)

theorem preorderOn_notBetween :
    PreorderOn bufferCaselessCompare fun s => ∀ c ∈ s, ¬ betweenByte c := by
  refine preorderOn_of_noClash fun _ _ hz hclash => ?_
  obtain ⟨c, hc, hbetween⟩ := hclash.between
  exact hz c hc hbetween

/-- The comparison is a total preorder on the texts in `K`, two of which are equivalent when they
agree but for case; equivalent ones compare alike with every third. -/
structure CaselessOrder (K : Bytes → Prop) : Prop where
  preorder : PreorderOn bufferCaselessCompare K
  equal : ∀ {a b}, K a → K b →
    (bufferCaselessCompare a b = 0 ↔ a.map tolower = b.map tolower)
  alike : ∀ {a b c}, K a → K b → K c → bufferCaselessCompare a b = 0 →
    (bufferCaselessCompare a c).sign = (bufferCaselessCompare b c).sign

/-- **The comparison is a total preorder on three texts exactly when they do not clash.** -/
theorem caselessOrder_iff (a b c : Bytes) : CaselessOrder (· ∈ [a, b, c]) ↔
    ∀ x ∈ [a, b, c], ∀ y ∈ [a, b, c], ∀ z ∈ [a, b, c], ¬ Clashes x y z := by
  constructor
  · intro h x hx y hy z hz hclash
    obtain ⟨hxz, hzy, hxy⟩ := hclash.compare
    have hlt := h.preorder.lt_of_lt_of_le hx hz hy hxz (Int.le_of_lt hzy)
    omega
  · intro h
    have hpre : PreorderOn bufferCaselessCompare (· ∈ [a, b, c]) :=
      preorderOn_of_noClash fun hx hy hz => h _ hx _ hy _ hz
    exact ⟨hpre, fun _ _ => bufferCaselessCompare_eq_zero, fun ha hb hc => hpre.alike ha hb hc⟩

/-- `A` is in front of `_`, and `_` in front of `a`. -/
theorem not_caselessOrder : ¬ ∀ a b c : Bytes, CaselessOrder (· ∈ [a, b, c]) := by
  intro h
  have hlt := (h (ascii "A") (ascii "_") (ascii "a")).preorder.lt_of_lt_of_le
    (show ascii "A" ∈ _ by simp) (show ascii "_" ∈ _ by simp) (show ascii "a" ∈ _ by simp)
    (by decide) (by decide)
  exact absurd hlt (by decide)

/-! ## Numbers -/

theorem foldName_decimal (n : Nat) : foldName (decimal n) = decimal n := by
  have hdigit : ∀ i : Fin 256, isDigit (UInt8.ofNat i) = true →
      tolower (UInt8.ofNat i) = UInt8.ofNat i := by decide +kernel
  unfold foldName
  refine (List.map_congr_left fun c hc => ?_).trans (List.map_id _)
  have hsame := hdigit ⟨c.toNat, c.toNat_lt⟩
  rw [UInt8.ofNat_toNat] at hsame
  exact hsame (isDigit_of_mem_decimalNat hc)

theorem notBetween_decimal (n : Nat) : ∀ c ∈ decimal n, ¬ betweenByte c := by
  have hdigit : ∀ i : Fin 256, isDigit (UInt8.ofNat i) = true → ¬ (91 ≤ i.val ∧ i.val ≤ 96) := by
    decide +kernel
  intro c hc
  have hsame := hdigit ⟨c.toNat, c.toNat_lt⟩
  rw [UInt8.ofNat_toNat] at hsame
  exact hsame (isDigit_of_mem_decimalNat hc)

end Lighttpd
