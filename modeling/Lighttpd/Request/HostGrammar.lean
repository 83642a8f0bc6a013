import Lighttpd.Request.Hostname

/-!
# What the check of the host name accepts

The grammar of a `Host` field is written above `request_check_hostname`. The check accepts all of
it that is a name, and more: a label may end with a `-`, and anything but a port may stand behind
the `]` of an IPv6 address.
-/

namespace Lighttpd

open CLib

/-! ## The grammar -/

def labelByte (c : UInt8) : Bool := c == 45 || lightIsalnum c

/-- `domainlabel` -/
structure IsLabel (l : Bytes) : Prop where
  bytes : l.all labelByte = true
  first : l.head?.any lightIsalnum = true
  last : l.getLast?.any lightIsalnum = true

/-- `*( domainlabel "." ) toplabel` -/
def dotted (domains : List Bytes) (top : Bytes) : Bytes := domains.flatMap (· ++ [46]) ++ top

def IsHostname (s : Bytes) : Prop :=
  ∃ domains top, (∀ l ∈ domains ++ [top], IsLabel l) ∧
    (s = dotted domains top ∨ s = dotted domains top ++ [46])

def IsIpv4address (s : Bytes) : Prop :=
  ∃ domains top, (∀ l ∈ domains ++ [top], l ≠ [] ∧ l.all lightIsdigit = true) ∧
    domains.length = 3 ∧ s = dotted domains top

/-- The source leaves open what stands between the brackets. -/
def IsIpv6address (s : Bytes) : Prop :=
  ∃ a, s = 91 :: a ++ [93] ∧ ∀ c ∈ a, c = 58 ∨ lightIsxdigit c = true

/-- `[ ":" port ]` -/
def IsPort (p : Bytes) : Prop := p = [] ∨ ∃ d, p = 58 :: d ∧ d.all lightIsdigit = true

def IsHostport (s : Bytes) : Prop :=
  ∃ h p, s = h ++ p ∧ (IsHostname h ∨ IsIpv4address h ∨ IsIpv6address h) ∧ IsPort p

def hostByte (c : UInt8) : Bool :=
  lightIsalnum c || c == 45 || c == 46 || c == 58 || c == 91 || c == 93

/-! ## Bytes -/

theorem lightIsdigit_iff {c : UInt8} : lightIsdigit c = true ↔ 48 ≤ c.toNat ∧ c.toNat ≤ 57 := by
  simp only [lightIsdigit, isDigit, Bool.and_eq_true, decide_eq_true_eq, UInt8.le_iff_toNat_le]
  rfl

theorem lightIsalpha_iff {c : UInt8} : lightIsalpha c = true ↔
    65 ≤ c.toNat ∧ c.toNat ≤ 90 ∨ 97 ≤ c.toNat ∧ c.toNat ≤ 122 := by
  have hall : ∀ n : Fin 256, lightIsalpha (UInt8.ofNat n) = true ↔
      65 ≤ n.val ∧ n.val ≤ 90 ∨ 97 ≤ n.val ∧ n.val ≤ 122 := by decide +kernel
  have hc := hall ⟨c.toNat, c.toNat_lt⟩
  rwa [UInt8.ofNat_toNat] at hc

theorem lightIsxdigit_iff {c : UInt8} : lightIsxdigit c = true ↔ 48 ≤ c.toNat ∧ c.toNat ≤ 57 ∨
    65 ≤ c.toNat ∧ c.toNat ≤ 70 ∨ 97 ≤ c.toNat ∧ c.toNat ≤ 102 := by
  have hall : ∀ n : Fin 256, lightIsxdigit (UInt8.ofNat n) = true ↔ 48 ≤ n.val ∧ n.val ≤ 57 ∨
      65 ≤ n.val ∧ n.val ≤ 70 ∨ 97 ≤ n.val ∧ n.val ≤ 102 := by decide +kernel
  have hc := hall ⟨c.toNat, c.toNat_lt⟩
  rwa [UInt8.ofNat_toNat] at hc

theorem lightIsalnum_of_digit {c : UInt8} (h : lightIsdigit c = true) : lightIsalnum c = true := by
  simp [lightIsalnum, h]

theorem lightIsalnum_of_xdigit {c : UInt8} (h : lightIsxdigit c = true) :
    lightIsalnum c = true := by
  rw [lightIsxdigit_iff] at h
  rw [lightIsalnum, Bool.or_eq_true, lightIsdigit_iff, lightIsalpha_iff]
  omega

theorem ne_of_alnum {c : UInt8} (h : lightIsalnum c = true) :
    c ≠ 45 ∧ c ≠ 46 ∧ c ≠ 58 ∧ c ≠ 91 ∧ c ≠ 93 := by
  refine ⟨?_, ?_, ?_, ?_, ?_⟩ <;> rintro rfl <;> exact absurd h (by decide)

theorem labelByte_iff {c : UInt8} : labelByte c = true ↔ c = 45 ∨ lightIsalnum c = true := by
  simp [labelByte]

theorem labelByte_of_digit {c : UInt8} (h : lightIsdigit c = true) : labelByte c = true :=
  labelByte_iff.mpr (Or.inr (lightIsalnum_of_digit h))

theorem all_labelByte_of_digits {l : Bytes} (h : l.all lightIsdigit = true) :
    l.all labelByte = true :=
  List.all_eq_true.mpr fun c hc => labelByte_of_digit (List.all_eq_true.mp h c hc)

/-- A label the check accepts; its last byte may be a `-`. -/
structure LabelOk (l : Bytes) : Prop where
  bytes : l.all labelByte = true
  first : l.head?.any lightIsalnum = true

theorem LabelOk.ne_nil {l : Bytes} (h : LabelOk l) : l ≠ [] := by
  rintro rfl
  exact absurd h.first (by decide)

theorem LabelOk.of_digits {l : Bytes} (hne : l ≠ []) (h : l.all lightIsdigit = true) :
    LabelOk l := by
  refine ⟨all_labelByte_of_digits h, ?_⟩
  obtain ⟨c, t, rfl⟩ := List.exists_cons_of_ne_nil hne
  exact lightIsalnum_of_digit (List.all_eq_true.mp h c (by simp))

theorem labelOk_cons {c : UInt8} {t : Bytes} :
    LabelOk (c :: t) ↔ lightIsalnum c = true ∧ t.all labelByte = true := by
  constructor
  · rintro ⟨hb, hf⟩
    exact ⟨hf, (List.all_eq_true.mpr fun d hd =>
      List.all_eq_true.mp hb d (List.mem_cons_of_mem _ hd))⟩
  · rintro ⟨hc, ht⟩
    refine ⟨?_, hc⟩
    rw [List.all_cons, Bool.and_eq_true]
    exact ⟨labelByte_iff.mpr (Or.inr hc), ht⟩

/-! ## The scan over one label -/

def hostVerdict (s : Option HostScan) : Bool :=
  match s with
  | none => false
  | some s => !(s.isIp == some true && s.level != 3) && s.labelLen != 0

theorem checkName_eq (name : Bytes) :
    checkName name = hostVerdict (hostScan name.length name.reverse 0 ⟨.topLabel, 0, none, 0⟩) :=
  rfl

def domainByte (ip : Bool) (c : UInt8) : Bool := if ip then lightIsdigit c else labelByte c

variable {n : Nat}

theorem hostScan_domain_byte {ip : Bool} {c right : UInt8} {left : Bytes} (hc : c ≠ 46)
    (hleft : left ≠ []) (k level : Nat) :
    hostScan n (c :: left) right ⟨.domainLabel, k, some ip, level⟩ =
      if domainByte ip c then hostScan n left c ⟨.domainLabel, k + 1, some ip, level⟩ else none := by
  have hi : left.length ≠ 0 := by simpa using hleft
  cases ip with
  | true =>
    cases hd : lightIsdigit c <;>
      simp [hostScan, domainLabelStep, hc, domainByte, hd]
  | false =>
    have hlc : labelChar left.length c = labelByte c := by simp [labelChar, hi, labelByte]
    cases hd : labelByte c <;>
      simp [hostScan, domainLabelStep, hc, domainByte, hlc, hd]

theorem hostScan_domain_bytes (ip : Bool) {left : Bytes} (hleft : left ≠ []) (level : Nat) :
    ∀ {t : Bytes} (right : UInt8) (k : Nat), 46 ∉ t →
      hostScan n (t ++ left) right ⟨.domainLabel, k, some ip, level⟩ =
        if t.all (domainByte ip) then
          hostScan n left (t.getLast?.getD right) ⟨.domainLabel, k + t.length, some ip, level⟩
        else none
  | [], right, k, _ => by simp
  | c :: t, right, k, ht => by
    have hc : c ≠ 46 := fun e => ht (by simp [e])
    have ih := hostScan_domain_bytes ip hleft level (t := t) c (k + 1)
      fun hm => ht (List.mem_cons_of_mem _ hm)
    rw [List.cons_append, hostScan_domain_byte hc (by simp [hleft]), ih]
    have hlen : k + 1 + t.length = k + (c :: t).length := by rw [List.length_cons]; omega
    have hlast : t.getLast?.getD c = (c :: t).getLast?.getD right := by
      rw [List.getLast?_cons]
      rfl
    rw [hlen, hlast, List.all_cons]
    cases domainByte ip c <;> cases t.all (domainByte ip) <;> rfl

theorem hostScan_top_byte {c right : UInt8} {left : Bytes} (hc : c ≠ 46) (hleft : left ≠ [])
    (isIp : Option Bool) (k level : Nat) :
    hostScan n (c :: left) right ⟨.topLabel, k, isIp, level⟩ =
      if labelByte c then hostScan n left c
        ⟨.topLabel, k + 1, if isIp = none ∧ !lightIsdigit c then some false else isIp, level⟩
      else none := by
  have hi : left.length ≠ 0 := by simpa using hleft
  have hlc : labelChar left.length c = labelByte c := by simp [labelChar, hi, labelByte]
  cases hd : labelByte c with
  | false => simp [hostScan, topLabelStep, hc, hlc, hd]
  | true =>
    by_cases hip : isIp = none ∧ !lightIsdigit c
    · have : left.length ≠ 0 ∧ isIp = none ∧ (!lightIsdigit c) = true := ⟨hi, hip⟩
      simp only [hostScan, topLabelStep, hc, hlc, hd, if_pos hip, if_pos this]
      simp
    · have : ¬ (left.length ≠ 0 ∧ isIp = none ∧ (!lightIsdigit c) = true) := fun h => hip h.2
      simp only [hostScan, topLabelStep, hc, hlc, hd, if_neg hip, if_neg this]
      simp

theorem hostScan_top_bytes {left : Bytes} (hleft : left ≠ []) (level : Nat) :
    ∀ {t : Bytes} (right : UInt8) (isIp : Option Bool) (k : Nat), 46 ∉ t →
      hostScan n (t ++ left) right ⟨.topLabel, k, isIp, level⟩ =
        if t.all labelByte then
          hostScan n left (t.getLast?.getD right) ⟨.topLabel, k + t.length,
            if isIp = none ∧ !t.all lightIsdigit then some false else isIp, level⟩
        else none
  | [], right, isIp, k, _ => by simp
  | c :: t, right, isIp, k, ht => by
    have hc : c ≠ 46 := fun e => ht (by simp [e])
    have ih := fun isIp => hostScan_top_bytes hleft level (t := t) c isIp (k + 1)
      fun hm => ht (List.mem_cons_of_mem _ hm)
    rw [List.cons_append, hostScan_top_byte hc (by simp [hleft]), ih]
    have hlen : k + 1 + t.length = k + (c :: t).length := by rw [List.length_cons]; omega
    have hlast : t.getLast?.getD c = (c :: t).getLast?.getD right := by
      rw [List.getLast?_cons]
      rfl
    have hip : (if (if isIp = none ∧ !lightIsdigit c then some false else isIp) = none ∧
        !t.all lightIsdigit then some false
        else if isIp = none ∧ !lightIsdigit c then some false else isIp) =
        if isIp = none ∧ !(c :: t).all lightIsdigit then some false else isIp := by
      rw [List.all_cons]
      cases isIp <;> cases lightIsdigit c <;> cases t.all lightIsdigit <;> rfl
    rw [hlen, hlast, hip]
    simp only [List.all_cons, Bool.and_eq_true, ite_and]

/-! ## The scan over a name -/

theorem dotted_append_singleton (domains : List Bytes) (d top : Bytes) :
    dotted (domains ++ [d]) top = dotted domains d ++ 46 :: top := by
  simp [dotted]

theorem reverse_dotted_append_singleton (domains : List Bytes) (d top : Bytes) :
    (dotted (domains ++ [d]) top).reverse = top.reverse ++ 46 :: (dotted domains d).reverse := by
  simp [dotted_append_singleton]

theorem hostVerdict_first_domain {ip : Bool} {l : Bytes} (hl : 46 ∉ l) (right : UInt8)
    (level : Nat) :
    hostVerdict (hostScan n l.reverse right ⟨.domainLabel, 0, some ip, level⟩) = true ↔
      (LabelOk l ∧ (ip = true → l.all lightIsdigit = true)) ∧ (ip = true → level = 3) := by
  cases l with
  | nil =>
    constructor
    · intro h
      simp [hostScan, hostVerdict] at h
    · rintro ⟨⟨h, -⟩, -⟩
      exact absurd rfl h.ne_nil
  | cons c t =>
    have hc : c ≠ 46 := fun e => hl (by simp [e])
    have ht : 46 ∉ t.reverse := fun hm => hl (by simp [List.mem_reverse.mp hm])
    rw [List.reverse_cons, hostScan_domain_bytes ip (by simp) level right 0 ht, List.all_reverse]
    cases ip with
    | true =>
      have hdom : domainByte true = lightIsdigit := rfl
      rw [hdom]
      by_cases hall : (c :: t).all lightIsdigit = true
      · obtain ⟨hcd, htd⟩ : lightIsdigit c = true ∧ t.all lightIsdigit = true := by
          rwa [List.all_cons, Bool.and_eq_true] at hall
        have hok := LabelOk.of_digits (List.cons_ne_nil c t) hall
        rw [if_pos htd]
        simp [hostScan, domainLabelStep, hc, hostVerdict, hcd, hok, hall]
      · constructor
        · intro h
          refine absurd ?_ hall
          rw [List.all_cons, Bool.and_eq_true]
          by_cases htd : t.all lightIsdigit = true
          · rw [if_pos htd] at h
            refine ⟨?_, htd⟩
            by_contra hcd
            simp [hostScan, domainLabelStep, hc, hostVerdict, hcd] at h
          · rw [if_neg htd] at h
            cases h
        · rintro ⟨⟨-, h⟩, -⟩
          exact absurd (h rfl) hall
    | false =>
      have hdom : domainByte false = labelByte := rfl
      rw [hdom, labelOk_cons]
      cases hb : t.all labelByte <;> cases hca : lightIsalnum c <;>
        simp [hostScan, domainLabelStep, hc, hostVerdict, labelChar, hca]

theorem hostVerdict_domain {ip : Bool} {l : Bytes} (hl : 46 ∉ l) (left : Bytes) (right : UInt8)
    (level : Nat) :
    hostVerdict (hostScan n (l.reverse ++ 46 :: left) right ⟨.domainLabel, 0, some ip, level⟩) =
        true ↔
      (LabelOk l ∧ (ip = true → l.all lightIsdigit = true)) ∧
        hostVerdict (hostScan n left 46 ⟨.domainLabel, 0, some ip, level + 1⟩) = true := by
  have hrev : 46 ∉ l.reverse := fun hm => hl (List.mem_reverse.mp hm)
  rw [hostScan_domain_bytes ip (by simp) level right 0 hrev, List.all_reverse]
  cases l with
  | nil =>
    constructor
    · intro h
      simp [hostScan, domainLabelStep, hostVerdict] at h
    · rintro ⟨⟨h, -⟩, -⟩
      exact absurd rfl h.ne_nil
  | cons c t =>
    have hlast : (c :: t).reverse.getLast?.getD right = c := by simp
    rw [hlast]
    cases ip with
    | true =>
      have hdom : domainByte true = lightIsdigit := rfl
      rw [hdom]
      by_cases hall : (c :: t).all lightIsdigit = true
      · have hok := LabelOk.of_digits (List.cons_ne_nil c t) hall
        rw [if_pos hall]
        simp [hostScan, domainLabelStep, hok, hall]
      · rw [if_neg hall]
        constructor
        · intro h
          cases h
        · rintro ⟨⟨-, h⟩, -⟩
          exact absurd (h rfl) hall
    | false =>
      have hdom : domainByte false = labelByte := rfl
      have hbytes : (c :: t).all labelByte = true ↔ labelByte c = true ∧ t.all labelByte = true := by
        rw [List.all_cons, Bool.and_eq_true]
      rw [hdom, labelOk_cons]
      by_cases hb : (c :: t).all labelByte = true
      · rw [if_pos hb]
        obtain ⟨hcb, htb⟩ := hbytes.mp hb
        by_cases h45 : c = 45
        · have hca : lightIsalnum c = false := by rw [h45]; decide
          simp [hostScan, domainLabelStep, h45, hostVerdict]
          intro h
          exact absurd h (by decide)
        · have hca := (labelByte_iff.mp hcb).resolve_left h45
          simp only [hca, htb]
          simp [hostScan, domainLabelStep, h45]
      · rw [if_neg hb]
        constructor
        · intro h
          cases h
        · rintro ⟨⟨⟨hca, htb⟩, -⟩, -⟩
          exact absurd (hbytes.mpr ⟨labelByte_iff.mpr (Or.inr hca), htb⟩) hb

theorem hostVerdict_domains {ip : Bool} {d : Bytes} {domains : List Bytes} (right : UInt8)
    (level : Nat) (hdots : ∀ l ∈ domains ++ [d], 46 ∉ l) :
    hostVerdict (hostScan n (dotted domains d).reverse right ⟨.domainLabel, 0, some ip, level⟩) =
        true ↔
      (∀ l ∈ domains ++ [d], LabelOk l ∧ (ip = true → l.all lightIsdigit = true)) ∧
        (ip = true → level + domains.length = 3) := by
  induction domains using List.reverseRecOn generalizing d right level with
  | nil =>
    have hd : 46 ∉ d := hdots d (by simp)
    simpa [dotted] using hostVerdict_first_domain hd right level
  | append_singleton domains e ih =>
    have hd : 46 ∉ d := hdots d (by simp)
    have he : ∀ l ∈ domains ++ [e], 46 ∉ l := fun l hl => hdots l (by simp at hl ⊢; tauto)
    rw [reverse_dotted_append_singleton, hostVerdict_domain hd, ih 46 (level + 1) he]
    simp only [List.mem_append, List.mem_singleton, List.length_append, List.length_singleton]
    have hlen : level + 1 + domains.length = level + (domains.length + 1) := by omega
    rw [hlen]
    constructor
    · rintro ⟨h1, h2, h3⟩
      refine ⟨?_, h3⟩
      rintro l (hl | rfl)
      · exact h2 l hl
      · exact h1
    · rintro ⟨h1, h2⟩
      exact ⟨h1 d (Or.inr rfl), fun l hl => h1 l (Or.inl hl), h2⟩

/-- A name of labels the check accepts: an IP has four of them. -/
structure NameOk (domains : List Bytes) (top : Bytes) : Prop where
  labels : ∀ l ∈ domains ++ [top], LabelOk l
  ip : domains ≠ [] → top.all lightIsdigit = true →
    domains.length = 3 ∧ ∀ l ∈ domains, l.all lightIsdigit = true

theorem hostVerdict_only_top {top : Bytes} (hne : top ≠ []) (htop : 46 ∉ top) (right : UInt8) :
    hostVerdict (hostScan n top.reverse right ⟨.topLabel, 0, none, 0⟩) = true ↔ LabelOk top := by
  cases top with
  | nil => exact absurd rfl hne
  | cons c t =>
    have hc : c ≠ 46 := fun e => htop (by simp [e])
    have ht : 46 ∉ t.reverse := fun hm => htop (by simp [List.mem_reverse.mp hm])
    rw [List.reverse_cons, hostScan_top_bytes (by simp) 0 right none 0 ht, List.all_reverse,
      labelOk_cons]
    by_cases hb : t.all labelByte = true
    · rw [if_pos hb]
      cases hca : lightIsalnum c with
      | false => simp [hostScan, topLabelStep, hc, hostVerdict, labelChar, hca]
      | true =>
        have hip : ∀ p : Prop, [Decidable p] →
            (if p then some false else none : Option Bool) ≠ some true := by
          intro p _
          split <;> simp
        simp [hostScan, topLabelStep, hc, hostVerdict, labelChar, hca, hb]
    · rw [if_neg hb]
      constructor
      · intro h
        cases h
      · rintro ⟨-, h⟩
        exact absurd h hb

theorem hostVerdict_top {top : Bytes} (hne : top ≠ []) (htop : 46 ∉ top) (left : Bytes)
    (right : UInt8) (hn : left.length ≠ n - 1) :
    hostVerdict (hostScan n (top.reverse ++ 46 :: left) right ⟨.topLabel, 0, none, 0⟩) = true ↔
      LabelOk top ∧ hostVerdict (hostScan n left 46
        ⟨.domainLabel, 0, some (top.all lightIsdigit), 1⟩) = true := by
  have hrev : 46 ∉ top.reverse := fun hm => htop (List.mem_reverse.mp hm)
  rw [hostScan_top_bytes (by simp) 0 right none 0 hrev, List.all_reverse, List.all_reverse]
  obtain ⟨c, t, rfl⟩ := List.exists_cons_of_ne_nil hne
  have hlast : (c :: t).reverse.getLast?.getD right = c := by simp
  have hbytes : (c :: t).all labelByte = true ↔ labelByte c = true ∧ t.all labelByte = true := by
    rw [List.all_cons, Bool.and_eq_true]
  rw [hlast]
  by_cases hb : (c :: t).all labelByte = true
  · rw [if_pos hb, labelOk_cons]
    obtain ⟨hcb, htb⟩ := hbytes.mp hb
    by_cases hall : (c :: t).all lightIsdigit = true
    · obtain ⟨hcd, -⟩ : lightIsdigit c = true ∧ t.all lightIsdigit = true := by
        rwa [List.all_cons, Bool.and_eq_true] at hall
      have h45 : c ≠ 45 := (ne_of_alnum (lightIsalnum_of_digit hcd)).1
      simp [hostScan, topLabelStep, topLabelIsIp, hn, hcd, h45, hall, htb,
        lightIsalnum_of_digit hcd]
    · rw [Bool.not_eq_true] at hall
      cases hca : lightIsalnum c with
      | false => simp [hostScan, topLabelStep, topLabelIsIp, hn, hca, hall, hostVerdict]
      | true => simp [hostScan, topLabelStep, topLabelIsIp, hn, hca, hall, htb]
  · rw [if_neg hb]
    constructor
    · intro h
      cases h
    · rintro ⟨h, -⟩
      exact absurd h.bytes hb

theorem hostVerdict_name {domains : List Bytes} {top : Bytes} (hne : top ≠ [])
    (hdots : ∀ l ∈ domains ++ [top], 46 ∉ l) (right : UInt8)
    (hn : (dotted domains top).length ≤ n) :
    hostVerdict (hostScan n (dotted domains top).reverse right ⟨.topLabel, 0, none, 0⟩) = true ↔
      NameOk domains top := by
  rcases List.eq_nil_or_concat domains with rfl | ⟨domains, d, rfl⟩
  · have htop : 46 ∉ top := hdots top (by simp)
    have h : dotted [] top = top := rfl
    rw [h, hostVerdict_only_top hne htop]
    exact ⟨fun h => ⟨by simpa using h, fun h => absurd rfl h⟩, fun h => h.labels top (by simp)⟩
  · rw [List.concat_eq_append] at *
    have htop : 46 ∉ top := hdots top (by simp)
    have hd : ∀ l ∈ domains ++ [d], 46 ∉ l := fun l hl => hdots l (by simp at hl ⊢; tauto)
    have hlen : (dotted domains d).reverse.length ≠ n - 1 := by
      have hpos := List.length_pos_of_ne_nil hne
      rw [dotted_append_singleton, List.length_append, List.length_cons] at hn
      rw [List.length_reverse]
      omega
    rw [reverse_dotted_append_singleton, hostVerdict_top hne htop _ _ hlen,
      hostVerdict_domains 46 1 hd]
    constructor
    · rintro ⟨h1, h2, h3⟩
      refine ⟨?_, fun _ hip => ⟨?_, fun l hl => (h2 l hl).2 hip⟩⟩
      · intro l hl
        rcases List.mem_append.mp hl with hl | hl
        · exact (h2 l hl).1
        · rw [List.mem_singleton.mp hl]
          exact h1
      · have := h3 hip
        rw [List.length_append, List.length_singleton]
        omega
    · rintro ⟨h1, h2⟩
      refine ⟨h1 top (by simp), fun l hl => ⟨h1 l (List.mem_append_left _ hl), fun hip => ?_⟩,
        fun hip => ?_⟩
      · exact (h2 (by simp) hip).2 l hl
      · have := (h2 (by simp) hip).1
        rw [List.length_append, List.length_singleton] at this
        omega

/-! ## Names -/

theorem exists_dotted (s : Bytes) :
    ∃ domains top, s = dotted domains top ∧ ∀ l ∈ domains ++ [top], 46 ∉ l := by
  induction s with
  | nil => exact ⟨[], [], rfl, by simp⟩
  | cons c s ih =>
    obtain ⟨domains, top, rfl, hdots⟩ := ih
    by_cases hc : c = 46
    · refine ⟨[] :: domains, top, by simp [dotted, hc], ?_⟩
      intro l hl
      rcases List.mem_cons.mp hl with rfl | hl
      · simp
      · exact hdots l hl
    · cases domains with
      | nil =>
        have htop := hdots top (by simp)
        exact ⟨[], c :: top, rfl, by simp [htop, Ne.symm hc]⟩
      | cons d domains =>
        refine ⟨(c :: d) :: domains, top, by simp [dotted], ?_⟩
        intro l hl
        rcases List.mem_cons.mp hl with rfl | hl
        · simp [Ne.symm hc, hdots d (by simp)]
        · exact hdots l (List.mem_cons_of_mem _ hl)

theorem LabelOk.not_mem {l : Bytes} (h : LabelOk l) {c : UInt8} (hc : labelByte c = false) :
    c ∉ l := by
  intro hm
  have := List.all_eq_true.mp h.bytes c hm
  rw [hc] at this
  cases this

theorem NameOk.no_dots {domains : List Bytes} {top : Bytes} (h : NameOk domains top) :
    ∀ l ∈ domains ++ [top], 46 ∉ l := fun l hl => (h.labels l hl).not_mem (by decide)

theorem dotted_ne_nil {domains : List Bytes} {top : Bytes} (h : top ≠ []) :
    dotted domains top ≠ [] := by simp [dotted, h]

theorem checkName_iff {name : Bytes} (hne : name ≠ []) : checkName name = true ↔
    ∃ domains top, NameOk domains top ∧
      (name = dotted domains top ∨ name = dotted domains top ++ [46]) := by
  have plain : ∀ {domains : List Bytes} {top : Bytes}, top ≠ [] →
      (∀ l ∈ domains ++ [top], 46 ∉ l) →
      (checkName (dotted domains top) = true ↔ NameOk domains top) := fun hne hdots => by
    rw [checkName_eq]
    exact hostVerdict_name hne hdots 0 (Nat.le_refl _)
  have ended : ∀ {domains : List Bytes} {d : Bytes}, (∀ l ∈ domains ++ [d], 46 ∉ l) →
      (checkName (dotted domains d ++ [46]) = true ↔ d ≠ [] ∧ NameOk domains d) := by
    intro domains d hdots
    rw [checkName_eq, List.reverse_append]
    by_cases hnil : dotted domains d = []
    · have hd : d = [] := by
        by_contra hd
        exact dotted_ne_nil hd hnil
      rw [hd] at hnil ⊢
      simp [hnil, hostScan, topLabelStep, hostVerdict]
    · have hskip : hostScan (dotted domains d ++ [46]).length
          ([46].reverse ++ (dotted domains d).reverse) 0 ⟨.topLabel, 0, none, 0⟩ =
          hostScan (dotted domains d ++ [46]).length (dotted domains d).reverse 46
            ⟨.topLabel, 0, none, 0⟩ := by
        simp [hostScan, topLabelStep, hnil]
      rw [hskip]
      by_cases hd : d = []
      · subst hd
        rcases List.eq_nil_or_concat domains with rfl | ⟨domains, e, rfl⟩
        · exact absurd rfl hnil
        · rw [List.concat_eq_append] at *
          rw [dotted_append_singleton, List.reverse_append]
          simp [hostScan, topLabelStep, hostVerdict]
      · rw [hostVerdict_name hd hdots _ (by simp)]
        exact (and_iff_right hd).symm
  obtain ⟨domains, top, rfl, hdots⟩ := exists_dotted name
  constructor
  · intro h
    by_cases htop : top = []
    · subst htop
      rcases List.eq_nil_or_concat domains with rfl | ⟨domains, d, rfl⟩
      · exact absurd rfl hne
      · rw [List.concat_eq_append] at *
        rw [dotted_append_singleton] at h ⊢
        have hd := fun l hl => hdots l (List.mem_append_left _ hl)
        exact ⟨domains, d, ((ended hd).mp h).2, Or.inr rfl⟩
    · exact ⟨domains, top, (plain htop hdots).mp h, Or.inl rfl⟩
  · rintro ⟨domains', top', hok, he | he⟩
    · rw [he]
      exact (plain (hok.labels top' (by simp)).ne_nil hok.no_dots).mpr hok
    · rw [he]
      exact (ended hok.no_dots).mpr ⟨(hok.labels top' (by simp)).ne_nil, hok⟩

def labelsOf (s : Bytes) : List Bytes := (s.splitOn 46).filter (· ≠ [])

theorem splitOn_dotted {domains : List Bytes} {top : Bytes}
    (hdots : ∀ l ∈ domains ++ [top], 46 ∉ l) :
    (dotted domains top).splitOn 46 = domains ++ [top] := by
  induction domains with
  | nil => exact List.splitOn_eq_singleton (hdots top (by simp))
  | cons d domains ih =>
    have h : dotted (d :: domains) top = d ++ 46 :: dotted domains top := by simp [dotted]
    rw [h, List.splitOn_append_cons_self_of_not_mem (hdots d (by simp)),
      ih fun l hl => hdots l (List.mem_cons_of_mem _ hl)]
    rfl

theorem labelsOf_dotted {domains : List Bytes} {top : Bytes}
    (h : ∀ l ∈ domains ++ [top], l ≠ [] ∧ 46 ∉ l) :
    labelsOf (dotted domains top) = domains ++ [top] ∧
      labelsOf (dotted domains top ++ [46]) = domains ++ [top] := by
  have hfilter : (domains ++ [top]).filter (· ≠ []) = domains ++ [top] :=
    List.filter_eq_self.mpr fun l hl => by simpa using (h l hl).1
  constructor
  · rw [labelsOf, splitOn_dotted fun l hl => (h l hl).2, hfilter]
  · have hend : dotted domains top ++ [46] = dotted (domains ++ [top]) [] := by
      rw [dotted_append_singleton]
    have hdots : ∀ l ∈ domains ++ [top] ++ [[]], 46 ∉ l := by
      intro l hl
      rcases List.mem_append.mp hl with hl | hl
      · exact (h l hl).2
      · rw [List.mem_singleton.mp hl]
        simp
    rw [labelsOf, hend, splitOn_dotted hdots, List.filter_append, hfilter]
    simp

/-! ## The check on a buffer -/

/-- The bytes of an IPv6 address, with no more than seven colons. -/
structure Ipv6Ok (a : Bytes) : Prop where
  bytes : ∀ c ∈ a, c = 58 ∨ lightIsxdigit c = true
  colons : a.count 58 ≤ 7

theorem ipv6Rest_eq_some {s t : Bytes} {k : Nat} (hk : k ≤ 7) : ipv6Rest s k = some t ↔
    ∃ a, s = a ++ 93 :: t ∧ (∀ c ∈ a, c = 58 ∨ lightIsxdigit c = true) ∧ a.count 58 + k ≤ 7 := by
  induction s generalizing k with
  | nil => simp [ipv6Rest]
  | cons c s ih =>
    -- the address is empty, or starts with `c`
    have hcons : (∃ a, c :: s = a ++ 93 :: t ∧ (∀ c ∈ a, c = 58 ∨ lightIsxdigit c = true) ∧
        a.count 58 + k ≤ 7) ↔ (c = 93 ∧ s = t) ∨ ((c = 58 ∨ lightIsxdigit c = true) ∧
          ∃ a, s = a ++ 93 :: t ∧ (∀ c ∈ a, c = 58 ∨ lightIsxdigit c = true) ∧
            (c :: a).count 58 + k ≤ 7) := by
      constructor
      · rintro ⟨a, he, hb, hcount⟩
        cases a with
        | nil =>
          obtain ⟨rfl, rfl⟩ := List.cons.inj he
          exact Or.inl ⟨rfl, rfl⟩
        | cons d a =>
          obtain ⟨rfl, rfl⟩ := List.cons.inj he
          exact Or.inr ⟨hb _ (by simp), a, rfl, fun e he => hb e (by simp [he]), hcount⟩
      · rintro (⟨rfl, rfl⟩ | ⟨hc, a, rfl, hb, hcount⟩)
        · exact ⟨[], rfl, by simp, by simpa using hk⟩
        · refine ⟨c :: a, rfl, ?_, hcount⟩
          intro e he
          rcases List.mem_cons.mp he with rfl | he
          · exact hc
          · exact hb e he
    rw [hcons]
    unfold ipv6Rest
    by_cases h93 : c = 93
    · have h58 : ¬ (c = 58 ∨ lightIsxdigit c = true) := by
        rw [h93]
        decide
      rw [if_pos h93, or_iff_left fun h => h58 h.1, and_iff_right h93, Option.some_inj]
    · rw [if_neg h93]
      by_cases h58 : c = 58
      · subst h58
        by_cases hk7 : k + 1 > 7
        · rw [if_pos rfl, if_pos hk7]
          simp only [reduceCtorEq, h93, false_and, false_or, true_or, true_and, false_iff]
          rintro ⟨a, -, -, hcount⟩
          rw [List.count_cons_self] at hcount
          omega
        · rw [if_pos rfl, if_neg hk7, ih (by omega)]
          simp only [h93, false_and, false_or, true_or, true_and, List.count_cons_self]
          simp only [Nat.add_assoc, Nat.add_comm 1 k]
      · rw [if_neg h58]
        by_cases hx : lightIsxdigit c = true
        · rw [if_pos hx, ih hk]
          simp [h93, hx, List.count_cons_of_ne h58]
        · rw [if_neg hx]
          simp [h93, h58, hx]

theorem checkIpv6_iff {s : Bytes} : checkIpv6 s = true ↔ ∃ a t, s = a ++ 93 :: t ∧ Ipv6Ok a ∧
    (t.head? = some 58 → t.tail.all lightIsdigit = true) := by
  have hsome : ∀ t, ipv6Rest s 0 = some t ↔ ∃ a, s = a ++ 93 :: t ∧ Ipv6Ok a := by
    intro t
    rw [ipv6Rest_eq_some (Nat.zero_le 7)]
    exact exists_congr fun a => and_congr_right fun _ => ⟨fun h => ⟨h.1, h.2⟩, fun h => ⟨h.1, h.2⟩⟩
  have htail : ∀ t, ipv6Rest s 0 = some t →
      (checkIpv6 s = true ↔ (t.head? = some 58 → t.tail.all lightIsdigit = true)) := by
    intro t hr
    unfold checkIpv6
    rw [hr]
    cases t with
    | nil => simp
    | cons d t =>
      by_cases hd : d = 58
      · subst hd
        simp
      · simp [hd]
  constructor
  · intro h
    cases hr : ipv6Rest s 0 with
    | none =>
      rw [checkIpv6, hr] at h
      cases h
    | some t =>
      obtain ⟨a, hs, ha⟩ := (hsome t).mp hr
      exact ⟨a, t, hs, ha, (htail t hr).mp h⟩
  · rintro ⟨a, t, hs, ha, ht⟩
    exact (htail t ((hsome t).mpr ⟨a, hs, ha⟩)).mpr ht

def withoutDot (name : Bytes) : Bytes := if name.getLast? = some 46 then name.dropLast else name

theorem ptr_of_holds {b : Buffer} {s : Bytes} (h : b.Holds s) :
    ∃ rest, b.ptr = s ++ 0 :: rest := by
  refine ⟨b.ptr.drop b.used, ?_⟩
  have := List.take_append_drop b.used b.ptr
  rw [← Buffer.bytes, h] at this
  simpa using this.symm

variable {host : Buffer} {s name port : Bytes}

theorem stripDot_spec (h : host.Holds (name ++ port)) (hu : host.used = (name ++ port).length + 1)
    (hne : name ≠ []) (colon : Option Nat)
    (hcolon : colon = none ↔ port = []) :
    (stripDot host name.length colon).2 = (withoutDot name).length ∧
      ∃ rest, (stripDot host name.length colon).1.ptr = withoutDot name ++ port ++ 0 :: rest := by
  obtain ⟨rest, hptr⟩ := ptr_of_holds h
  obtain ⟨name', x, rfl⟩ := List.eq_nil_or_concat name |>.resolve_left hne
  rw [List.concat_eq_append] at *
  have hx : host.ptr[(name' ++ [x]).length - 1]? = some x := by
    rw [hptr]
    simp
  have hlast : (name' ++ [x]).getLast? = some x := by simp
  unfold stripDot withoutDot
  rw [hx, hlast]
  by_cases h46 : x = 46
  · subst h46
    rw [if_pos rfl, if_pos rfl]
    refine ⟨by simp, ?_⟩
    have hdrop : (host.ptr.take host.used).drop (name' ++ [46]).length = port ++ [0] := by
      rw [← Buffer.bytes, h, List.append_assoc, List.drop_left' rfl]
    cases hc : colon with
    | none =>
      have hp := hcolon.mp hc
      refine ⟨0 :: rest, ?_⟩
      simp [hptr, hp]
    | some c =>
      have hlen : (name' ++ [46]).length - 1 = name'.length := by simp
      have hrest : (name' ++ [46] ++ port ++ 0 :: rest).drop
          (name'.length + (port ++ [0]).length) = 0 :: rest := by
        rw [List.drop_left' (by simp)]
      have htake : (name' ++ [46] ++ port ++ 0 :: rest).take name'.length = name' := by
        simp [List.append_assoc]
      refine ⟨0 :: rest, ?_⟩
      simp only [hdrop, hlen]
      rw [memcpy, hptr, hrest, htake]
      simp
  · have hne46 : ¬ (some x = some (46 : UInt8)) := by simpa using h46
    rw [if_neg hne46, if_neg hne46]
    exact ⟨rfl, rest, by rw [hptr]⟩

theorem isCStr_withoutDot (h : IsCStr name) : IsCStr (withoutDot name) := by
  unfold withoutDot
  split
  · exact fun hm => h ((List.dropLast_sublist name).subset hm)
  · exact h

theorem requestCheckHostname_ipv6 (h : host.Holds (91 :: s)) (hu : host.used = s.length + 2)
    (hs : IsCStr s) : (requestCheckHostname host).2 = host ∧
      ((requestCheckHostname host).1 = 0 ↔ checkIpv6 s = true) := by
  obtain ⟨rest, hptr⟩ := ptr_of_holds h
  have hu0 : host.used ≠ 0 := by omega
  have hcstr : cstr (host.ptr.drop 1) = s := by
    rw [hptr]
    exact cstr_append_zero hs rest
  unfold requestCheckHostname
  rw [if_neg hu0, if_pos (by rw [hptr]; rfl), hcstr]
  refine ⟨rfl, ?_⟩
  cases checkIpv6 s <;> simp

theorem requestCheckHostname_name (h : host.Holds (name ++ port))
    (hu : host.used = (name ++ port).length + 1) (hs : IsCStr (name ++ port)) (hname : 58 ∉ name)
    (hport : port = [] ∨ port.head? = some 58) (hb : (name ++ port).head? ≠ some 91) :
    ((requestCheckHostname host).1 = 0 ↔ port.tail.all lightIsdigit = true ∧ name ≠ [] ∧
      withoutDot name ≠ [] ∧ checkName (withoutDot name) = true) ∧
    ((requestCheckHostname host).1 = 0 →
      (requestCheckHostname host).2.str = withoutDot name ++ port) := by
  obtain ⟨rest, hptr⟩ := ptr_of_holds h
  have hu0 : host.used ≠ 0 := by omega
  have hhead : host.ptr.head? ≠ some 91 := by
    rw [hptr]
    cases hnp : name ++ port with
    | nil => simp
    | cons c t =>
      rw [hnp] at hb
      exact hb
  have htake : host.ptr.take (host.used - 1) = name ++ port := take_of_holds h hu
  -- the first colon starts the port
  have hcolon : strchr (name ++ port) 58 = if port = [] then none else some name.length := by
    rcases hport with rfl | hp
    · simp [strchr_eq_none, hname]
    · obtain ⟨d, rfl⟩ : ∃ d, port = 58 :: d := by
        cases port with
        | nil => cases hp
        | cons c d => exact ⟨d, by rw [Option.some.inj hp]⟩
      simp [strchr_append_cons hname]
  have hdigits : (strchr (name ++ port) 58).any
      (fun c => !(cstr (host.ptr.drop (c + 1))).all lightIsdigit) =
        !port.tail.all lightIsdigit := by
    rw [hcolon]
    rcases hport with rfl | hp
    · simp
    · obtain ⟨d, rfl⟩ : ∃ d, port = 58 :: d := by
        cases port with
        | nil => cases hp
        | cons c d => exact ⟨d, by rw [Option.some.inj hp]⟩
      have hdrop : host.ptr.drop (name.length + 1) = d ++ 0 :: rest := by
        rw [hptr, List.append_assoc]
        exact drop_append_cons name 58 (d ++ 0 :: rest)
      have hd : IsCStr d := fun hm => hs (by simp [hm])
      simp [hdrop, cstr_append_zero hd]
  have hlen : (strchr (name ++ port) 58).getD (host.used - 1) = name.length := by
    rw [hcolon]
    split
    · next hp => simp [hu, hp]
    · rfl
  unfold requestCheckHostname
  rw [if_neg hu0, if_neg hhead]
  simp only [htake, hdigits, hlen]
  by_cases hpd : port.tail.all lightIsdigit = true
  · rw [hpd]
    by_cases hn : name = []
    · simp [hn]
    · have hn0 : name.length ≠ 0 := by simpa using hn
      obtain ⟨hslen, rest', hsptr⟩ := stripDot_spec h hu hn
        (strchr (name ++ port) 58) (by rw [hcolon]; split <;> simp [*])
      have hcs : IsCStr (withoutDot name ++ port) :=
        (isCStr_withoutDot hs.of_append_left).append hs.of_append_right
      have htake' : (stripDot host name.length (strchr (name ++ port) 58)).1.ptr.take
          (withoutDot name).length = withoutDot name := by
        rw [hsptr, List.append_assoc, List.take_left' rfl]
      simp only [Bool.not_true, Bool.false_eq_true, if_false, hslen, List.length_eq_zero_iff,
        if_neg hn]
      by_cases hw : withoutDot name = []
      · simp [hw]
      · rw [if_neg hw, htake']
        refine ⟨?_, fun _ => ?_⟩
        · cases checkName (withoutDot name) <;> simp [hn, hw]
        · rw [Buffer.str, hsptr]
          exact cstr_append_zero hcs rest'
  · rw [Bool.not_eq_true] at hpd
    simp [hpd]

/-! ## AcceptedHost names -/

theorem mem_dotted {domains : List Bytes} {top : Bytes} {c : UInt8} (h : c ∈ dotted domains top) :
    c = 46 ∨ ∃ l ∈ domains ++ [top], c ∈ l := by
  simp only [dotted, List.mem_append, List.mem_flatMap, List.mem_singleton] at h
  rcases h with ⟨l, hl, hc | hc⟩ | hc
  · exact Or.inr ⟨l, by simp [hl], hc⟩
  · exact Or.inl hc
  · exact Or.inr ⟨top, by simp, hc⟩

def endDots : List Bytes := [[], [46], [46, 46]]

structure AcceptedHost (s : Bytes) (domains : List Bytes) (top dots port : Bytes) : Prop where
  split : s = dotted domains top ++ dots ++ port
  name : NameOk domains top
  dots : dots ∈ endDots
  port : IsPort port

theorem getLast?_dotted {domains : List Bytes} {top : Bytes} (h : NameOk domains top) :
    (dotted domains top).getLast? ≠ some 46 := by
  intro he
  have htop : top ≠ [] := (h.labels top (by simp)).ne_nil
  rw [dotted, List.getLast?_append_of_ne_nil _ htop] at he
  exact h.no_dots top (by simp) (List.mem_of_getLast? he)

theorem withoutDot_append_dot (s : Bytes) : withoutDot (s ++ [46]) = s := by simp [withoutDot]

theorem withoutDot_dotted {domains : List Bytes} {top dots : Bytes} (h : NameOk domains top)
    (hdots : dots ∈ endDots) :
    withoutDot (dotted domains top ++ dots) = dotted domains top ++ dots.tail := by
  simp only [endDots, List.mem_cons, List.not_mem_nil, or_false] at hdots
  rcases hdots with rfl | rfl | rfl
  · rw [List.append_nil, withoutDot, if_neg (getLast?_dotted h)]
    simp
  · rw [withoutDot_append_dot]
    simp
  · have : dotted domains top ++ [46, 46] = dotted domains top ++ [46] ++ [46] := by simp
    rw [this, withoutDot_append_dot]
    rfl

theorem AcceptedHost.name_bytes {domains : List Bytes} {top dots port : Bytes}
    (h : AcceptedHost s domains top dots port) : ∀ c ∈ dotted domains top ++ dots,
      labelByte c = true ∨ c = 46 := by
  intro c hc
  rcases List.mem_append.mp hc with hc | hc
  · rcases mem_dotted hc with h46 | ⟨l, hl, hcl⟩
    · exact Or.inr h46
    · exact Or.inl (List.all_eq_true.mp (h.name.labels l hl).bytes c hcl)
  · have := h.dots
    simp only [endDots, List.mem_cons, List.not_mem_nil, or_false] at this
    rcases this with rfl | rfl | rfl
    · cases hc
    · exact Or.inr (List.mem_singleton.mp hc)
    · simp only [List.mem_cons, List.not_mem_nil, or_false, or_self] at hc
      exact Or.inr hc

theorem isPort_iff (port : Bytes) : IsPort port ↔
    (port = [] ∨ port.head? = some 58) ∧ port.tail.all lightIsdigit = true := by
  unfold IsPort
  cases port with
  | nil => simp
  | cons c d =>
    constructor
    · rintro (h | ⟨d', h, hd⟩)
      · cases h
      · obtain ⟨rfl, rfl⟩ := List.cons.inj h
        exact ⟨Or.inr rfl, hd⟩
    · rintro ⟨h | h, hd⟩
      · cases h
      · exact Or.inr ⟨d, by rw [Option.some.inj h], hd⟩

theorem requestCheckHostname_accepts (h : host.Holds s) (hu : host.used = s.length + 1)
    (hs : IsCStr s) (hb : s.head? ≠ some 91) :
    ((requestCheckHostname host).1 = 0 → ∃ domains top dots port,
      AcceptedHost s domains top dots port) ∧
    ∀ {domains : List Bytes} {top dots port : Bytes}, AcceptedHost s domains top dots port →
      (requestCheckHostname host).1 = 0 ∧
        (requestCheckHostname host).2.str = dotted domains top ++ dots.tail ++ port := by
  constructor
  · intro h0
    obtain ⟨name, port, rfl, hname, hport⟩ : ∃ name port, s = name ++ port ∧ 58 ∉ name ∧
        (port = [] ∨ port.head? = some 58) := by
      by_cases hm : (58 : UInt8) ∈ s
      · obtain ⟨a, b, hsplit, ha⟩ := List.eq_append_cons_of_mem hm
        exact ⟨a, 58 :: b, hsplit, ha, Or.inr rfl⟩
      · exact ⟨s, [], by simp, hm, Or.inl rfl⟩
    obtain ⟨hacc, -⟩ := requestCheckHostname_name h hu hs hname hport hb
    obtain ⟨hdigits, hne, hwne, hcheck⟩ := hacc.mp h0
    have hip : IsPort port := (isPort_iff port).mpr ⟨hport, hdigits⟩
    obtain ⟨domains, top, hok, hw⟩ := (checkName_iff hwne).mp hcheck
    by_cases hlast : name.getLast? = some 46
    · have hname' : name = withoutDot name ++ [46] := by
        rw [withoutDot, if_pos hlast]
        exact (List.dropLast_append_getLast? 46 hlast).symm
      rcases hw with hw | hw
      · exact ⟨domains, top, [46], port, by rw [hname', hw], hok, by simp [endDots], hip⟩
      · exact ⟨domains, top, [46, 46], port, by rw [hname', hw]; simp, hok, by simp [endDots], hip⟩
    · have hname' : withoutDot name = name := by rw [withoutDot, if_neg hlast]
      rw [hname'] at hw
      rcases hw with hw | hw
      · exact ⟨domains, top, [], port, by rw [hw, List.append_nil], hok, by simp [endDots], hip⟩
      · exact absurd (by rw [hw]; simp) hlast
  · intro domains top dots port hacc
    obtain ⟨hport, hdigits⟩ := (isPort_iff port).mp hacc.port
    obtain rfl := hacc.split
    have htop := (hacc.name.labels top (by simp)).ne_nil
    have hname : 58 ∉ dotted domains top ++ dots := by
      intro hm
      rcases hacc.name_bytes 58 hm with hc | hc
      · exact absurd hc (by decide)
      · exact absurd hc (by decide)
    obtain ⟨hiff, hstr⟩ := requestCheckHostname_name h hu hs hname hport hb
    have hw := withoutDot_dotted hacc.name hacc.dots
    have hwne : dotted domains top ++ dots.tail ≠ [] := by simp [dotted_ne_nil htop]
    have h0 : (requestCheckHostname host).1 = 0 := by
      refine hiff.mpr ⟨hdigits, by simp [dotted_ne_nil htop], ?_, ?_⟩
      · rw [hw]
        exact hwne
      · rw [hw, checkName_iff hwne]
        refine ⟨domains, top, hacc.name, ?_⟩
        have := hacc.dots
        simp only [endDots, List.mem_cons, List.not_mem_nil, or_false] at this
        rcases this with rfl | rfl | rfl <;> simp
    exact ⟨h0, by rw [hstr h0, hw]⟩

/-! ## Soundness -/

theorem IsLabel.ok {l : Bytes} (h : IsLabel l) : LabelOk l := ⟨h.bytes, h.first⟩

theorem IsLabel.last_ne {l : Bytes} (h : IsLabel l) : l.getLast? ≠ some 45 := by
  intro he
  have := h.last
  rw [he] at this
  exact absurd this (by decide)

theorem labels_of_host {h : Bytes} (hh : IsHostname h ∨ IsIpv4address h) :
    ∃ domains top, (h = dotted domains top ∨ h = dotted domains top ++ [46]) ∧
      ∀ l ∈ domains ++ [top], LabelOk l ∧ l.getLast? ≠ some 45 := by
  rcases hh with ⟨domains, top, hl, he⟩ | ⟨domains, top, hl, -, he⟩
  · exact ⟨domains, top, he, fun l hm => ⟨(hl l hm).ok, (hl l hm).last_ne⟩⟩
  · refine ⟨domains, top, Or.inl he, fun l hm => ⟨LabelOk.of_digits (hl l hm).1 (hl l hm).2, ?_⟩⟩
    intro h45
    have := List.all_eq_true.mp (hl l hm).2 45 (List.mem_of_getLast? h45)
    exact absurd this (by decide)

theorem name_bytes_of_host {h : Bytes} (hh : IsHostname h ∨ IsIpv4address h) :
    ∀ c ∈ h, labelByte c = true ∨ c = 46 := by
  obtain ⟨domains, top, he, hl⟩ := labels_of_host hh
  have hd : ∀ c ∈ dotted domains top, labelByte c = true ∨ c = 46 := by
    intro c hc
    rcases mem_dotted hc with h46 | ⟨l, hlm, hcl⟩
    · exact Or.inr h46
    · exact Or.inl (List.all_eq_true.mp (hl l hlm).1.bytes c hcl)
  intro c hc
  rcases he with rfl | rfl
  · exact hd c hc
  · rcases List.mem_append.mp hc with hc | hc
    · exact hd c hc
    · exact Or.inr (List.mem_singleton.mp hc)

theorem name_eq_of_port {a b p q : Bytes} (h : a ++ p = b ++ q) (ha : 58 ∉ a) (hb : 58 ∉ b)
    (hp : IsPort p) (hq : IsPort q) : a = b ∧ p = q := by
  have hstops : ∀ {p : Bytes}, IsPort p → StopsAt 58 p := by
    rintro p (rfl | ⟨d, rfl, -⟩)
    · exact Or.inl rfl
    · exact Or.inr ⟨d, rfl⟩
  exact append_inj_of_stopsAt ha hb (hstops hp) (hstops hq) h

theorem IsHostport.bytes {u : Bytes} (h : IsHostport u) : ∀ c ∈ u, hostByte c = true := by
  have hdigits : ∀ {d : Bytes}, d.all lightIsdigit = true → ∀ c ∈ d, hostByte c = true := by
    intro d hd c hc
    simp [hostByte, lightIsalnum_of_digit (List.all_eq_true.mp hd c hc)]
  have hname : ∀ {c : UInt8}, labelByte c = true ∨ c = 46 → hostByte c = true := by
    rintro c (hc | rfl)
    · rcases labelByte_iff.mp hc with rfl | hc
      · decide
      · simp [hostByte, hc]
    · decide
  obtain ⟨n, p, rfl, hn, hp⟩ := h
  intro c hc
  rcases List.mem_append.mp hc with hc | hc
  · rcases hn with hn | hn | ⟨a, rfl, ha⟩
    · exact hname (name_bytes_of_host (Or.inl hn) c hc)
    · exact hname (name_bytes_of_host (Or.inr hn) c hc)
    · simp only [List.cons_append, List.mem_cons, List.mem_append, List.not_mem_nil,
        or_false] at hc
      rcases hc with rfl | hc | rfl
      · decide
      · rcases ha c hc with rfl | hx
        · decide
        · simp [hostByte, lightIsalnum_of_xdigit hx]
      · decide
  · rcases hp with rfl | ⟨d, rfl, hd⟩
    · cases hc
    · rcases List.mem_cons.mp hc with rfl | hc
      · decide
      · exact hdigits hd c hc

/-- What the check leaves in the buffer of a host it accepts is in the grammar, and so in the
alphabet of hosts. -/
def SoundHost (host : Buffer) : Prop :=
  (requestCheckHostname host).1 = 0 →
    IsHostport (requestCheckHostname host).2.str ∧
      ∀ c ∈ (requestCheckHostname host).2.str, hostByte c = true

/-- Text behind the bracket of an IPv6 address that is not a port. -/
def TextBehindBracket (s : Bytes) : Prop :=
  ∃ a t, s = 91 :: (a ++ 93 :: t) ∧ Ipv6Ok a ∧ t ≠ [] ∧ t.head? ≠ some 58

/-- A name with a label that ends with a `-`, but is accepted otherwise. -/
def LabelEndsInHyphen (s : Bytes) : Prop :=
  ∃ domains top dots port, AcceptedHost s domains top dots port ∧
    ∃ l ∈ domains ++ [top], l.getLast? = some 45

theorem not_mem_ipv6 {a : Bytes} (h : ∀ c ∈ a, c = 58 ∨ lightIsxdigit c = true) : 93 ∉ a := by
  intro hm
  rcases h 93 hm with hc | hc <;> exact absurd hc (by decide)

theorem not_hostport_of_text {a t : Bytes} (ha : Ipv6Ok a) (hne : t ≠ [])
    (ht : t.head? ≠ some 58) : ¬ IsHostport (91 :: (a ++ 93 :: t)) := by
  rintro ⟨n, p, he, hn, hp⟩
  have hnp : ¬ IsPort t := fun h => ((isPort_iff t).mp h).1.elim hne ht
  have hhead : ∀ {n : Bytes}, IsHostname n ∨ IsIpv4address n → 91 :: (a ++ 93 :: t) ≠ n ++ p := by
    intro n hh he
    cases n with
    | nil =>
      rcases hp with rfl | ⟨d, rfl, -⟩
      · cases he
      · exact absurd (List.cons.inj he).1 (by decide)
    | cons c n =>
      have hc := name_bytes_of_host hh c (by simp)
      rw [← (List.cons.inj he).1] at hc
      exact absurd hc (by decide)
  rcases hn with hn | hn | ⟨a', rfl, ha'⟩
  · exact hhead (Or.inl hn) he
  · exact hhead (Or.inr hn) he
  · simp only [List.cons_append, List.cons.injEq, true_and, List.append_assoc,
      List.nil_append] at he
    obtain ⟨-, htail⟩ := append_inj_of_stopsAt (not_mem_ipv6 ha.bytes) (not_mem_ipv6 ha')
      (Or.inr ⟨t, rfl⟩) (Or.inr ⟨p, rfl⟩) he
    have htp : t = p := (List.cons.inj htail).2
    exact hnp (htp ▸ hp)

theorem not_hostport_of_hyphen {domains : List Bytes} {top dots port : Bytes}
    (h : AcceptedHost s domains top dots port) {l : Bytes} (hl : l ∈ domains ++ [top])
    (h45 : l.getLast? = some 45) : ¬ IsHostport (dotted domains top ++ dots.tail ++ port) := by
  rintro ⟨n, p, he, hn, hp⟩
  have hlabels := h.name.labels
  have hname : ∀ c ∈ dotted domains top ++ dots.tail, labelByte c = true ∨ c = 46 := by
    intro c hc
    refine h.name_bytes c ?_
    rcases List.mem_append.mp hc with hc | hc
    · exact List.mem_append_left _ hc
    · exact List.mem_append_right _ (List.mem_of_mem_tail hc)
  have hno : ∀ {n : Bytes}, (∀ c ∈ n, labelByte c = true ∨ c = 46) → 58 ∉ n := by
    intro n hn hm
    rcases hn 58 hm with hc | hc <;> exact absurd hc (by decide)
  have hn' : IsHostname n ∨ IsIpv4address n := by
    rcases hn with hn | hn | ⟨a, rfl, -⟩
    · exact Or.inl hn
    · exact Or.inr hn
    · -- a name does not start with a bracket
      have hne : dotted domains top ++ dots.tail ≠ [] := by
        simp [dotted_ne_nil (hlabels top (by simp)).ne_nil]
      obtain ⟨c, r, hcr⟩ := List.exists_cons_of_ne_nil hne
      rw [hcr] at he
      have hc := hname c (by simp [hcr])
      rw [(List.cons.inj he).1] at hc
      exact absurd hc (by decide)
  obtain ⟨rfl, -⟩ := name_eq_of_port he (hno hname) (hno (name_bytes_of_host hn')) h.port hp
  obtain ⟨domains', top', hor, hl'⟩ := labels_of_host hn'
  have key : ∀ {ds : List Bytes} {t : Bytes}, (∀ l ∈ ds ++ [t], LabelOk l) →
      labelsOf (dotted ds t) = ds ++ [t] ∧ labelsOf (dotted ds t ++ [46]) = ds ++ [t] :=
    fun h => labelsOf_dotted fun l hl => ⟨(h l hl).ne_nil, (h l hl).not_mem (by decide)⟩
  have h1 : labelsOf (dotted domains top ++ dots.tail) = domains ++ [top] := by
    have hd := h.dots
    simp only [endDots, List.mem_cons, List.not_mem_nil, or_false] at hd
    rcases hd with rfl | rfl | rfl
    · simpa using (key hlabels).1
    · simpa using (key hlabels).1
    · simpa using (key hlabels).2
  have h2 : labelsOf (dotted domains top ++ dots.tail) = domains' ++ [top'] := by
    rcases hor with he' | he'
    · rw [he']
      exact (key fun l hl => (hl' l hl).1).1
    · rw [he']
      exact (key fun l hl => (hl' l hl).1).2
  rw [h1] at h2
  exact (hl' l (h2 ▸ hl)).2 h45

/-- **Soundness of the check**: what is accepted is in the grammar, unless text stands behind a
bracket or a label ends with a `-`. -/
theorem soundHost_iff (h : host.Holds s) (hu : host.used = s.length + 1) (hs : IsCStr s) :
    SoundHost host ↔ ¬ TextBehindBracket s ∧ ¬ LabelEndsInHyphen s := by
  by_cases hb : s.head? = some 91
  · obtain ⟨s, rfl⟩ : ∃ t, s = 91 :: t := by
      cases s with
      | nil => cases hb
      | cons c t => exact ⟨t, by rw [Option.some.inj hb]⟩
    have hs' : IsCStr s := fun hm => hs (List.mem_cons_of_mem _ hm)
    obtain ⟨hbuf, hacc⟩ := requestCheckHostname_ipv6 h (by simpa using hu) hs'
    have hstr : (requestCheckHostname host).2.str = 91 :: s := by
      obtain ⟨rest, hptr⟩ := ptr_of_holds h
      rw [hbuf, Buffer.str, hptr]
      exact cstr_append_zero hs rest
    have hno : ¬ LabelEndsInHyphen (91 :: s) := by
      rintro ⟨domains, top, dots, port, hacc, -⟩
      have hne : dotted domains top ++ dots ≠ [] := by
        simp [dotted_ne_nil (hacc.name.labels top (by simp)).ne_nil]
      obtain ⟨c, r, hcr⟩ := List.exists_cons_of_ne_nil hne
      have he := hacc.split
      rw [hcr] at he
      have hc := hacc.name_bytes c (by simp [hcr])
      rw [← (List.cons.inj he).1] at hc
      exact absurd hc (by decide)
    rw [SoundHost, hacc, hstr, and_iff_left hno, checkIpv6_iff]
    constructor
    · rintro hsound ⟨a, t, he, ha, hne, ht⟩
      obtain rfl := (List.cons.inj he).2
      exact not_hostport_of_text ha hne ht (hsound ⟨a, t, rfl, ha, fun h => absurd h ht⟩).1
    · rintro hnot ⟨a, t, rfl, ha, ht⟩
      have hp : IsPort t := by
        by_cases hne : t = []
        · exact Or.inl hne
        · have h58 : t.head? = some 58 := by
            by_contra h58
            exact hnot ⟨a, t, rfl, ha, hne, h58⟩
          exact (isPort_iff t).mpr ⟨Or.inr h58, ht h58⟩
      have hport : IsHostport (91 :: (a ++ 93 :: t)) :=
        ⟨91 :: a ++ [93], t, by simp, Or.inr (Or.inr ⟨a, rfl, ha.bytes⟩), hp⟩
      exact ⟨hport, hport.bytes⟩
  · obtain ⟨hfwd, hbwd⟩ := requestCheckHostname_accepts h hu hs hb
    have hno : ¬ TextBehindBracket s := by
      rintro ⟨a, t, rfl, -⟩
      exact hb rfl
    rw [and_iff_right hno]
    constructor
    · rintro hsound ⟨domains, top, dots, port, hacc, l, hl, h45⟩
      obtain ⟨h0, hstr⟩ := hbwd hacc
      have := (hsound h0).1
      rw [hstr] at this
      exact not_hostport_of_hyphen hacc hl h45 this
    · intro hnot h0
      obtain ⟨domains, top, dots, port, hacc⟩ := hfwd h0
      have hlabel : ∀ l ∈ domains ++ [top], IsLabel l := by
        intro l hl
        have hok := hacc.name.labels l hl
        refine ⟨hok.bytes, hok.first, ?_⟩
        obtain ⟨l', c, hlc⟩ := (List.eq_nil_or_concat l).resolve_left hok.ne_nil
        rw [List.concat_eq_append] at hlc
        have hc := List.all_eq_true.mp hok.bytes c (by simp [hlc])
        have h45 : c ≠ 45 := by
          rintro rfl
          exact hnot ⟨domains, top, dots, port, hacc, l, hl, by simp [hlc]⟩
        rw [hlc]
        simpa using (labelByte_iff.mp hc).resolve_left h45
      have hport : IsHostport (dotted domains top ++ dots.tail ++ port) := by
        refine ⟨dotted domains top ++ dots.tail, port, rfl, Or.inl ⟨domains, top, hlabel, ?_⟩,
          hacc.port⟩
        have hd := hacc.dots
        simp only [endDots, List.mem_cons, List.not_mem_nil, or_false] at hd
        rcases hd with rfl | rfl | rfl
        · exact Or.inl (by simp)
        · exact Or.inl (by simp)
        · exact Or.inr rfl
      rw [(hbwd hacc).2]
      exact ⟨hport, hport.bytes⟩

def bracketHost : Buffer := ⟨ascii "[::1]/../x" ++ [0], 11, 0⟩

theorem soundHost_iff_bracket : SoundHost bracketHost ↔
    ¬ TextBehindBracket (ascii "[::1]/../x") ∧ ¬ LabelEndsInHyphen (ascii "[::1]/../x") :=
  @soundHost_iff bracketHost (ascii "[::1]/../x") rfl rfl (by decide)

/-- The path is accepted. -/
theorem not_soundHost_bracket : ¬ ∀ (host : Buffer) (s : Bytes), host.Holds s →
    host.used = s.length + 1 → IsCStr s → SoundHost host := by
  intro h
  have hsound := h bracketHost (ascii "[::1]/../x") rfl rfl (by decide)
  have hslash := (hsound (by decide +kernel)).2 47 (by decide +kernel)
  exact absurd hslash (by decide)

end Lighttpd
