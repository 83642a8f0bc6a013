import Lighttpd.Autothumb.UriBounds

/-!
# The documented formats of a thumbnail

Behind the `=` of a name the documentation knows a key of one to four characters, a quality `qN` and
a rotation `rNN`, joined by underscores in any order. `parse_uri` reads these only when the key
stands alone: it takes whatever stands first for the key, the digits behind `q` and `r` are not
terminated, and what is not of this form is refused only when it is too long.
-/

namespace Lighttpd

open CLib

/-! ## The documented form -/

structure UriFormat where
  key : Option Bytes
  quality : Option Nat
  degree : Option Nat

def IsKey (k : Bytes) : Prop := ∀ c ∈ k, c ∉ ascii "_qQrR"

instance (k : Bytes) : Decidable (IsKey k) := inferInstanceAs (Decidable (∀ c ∈ k, _))

structure UriFormat.Valid (f : UriFormat) : Prop where
  key : ∀ k ∈ f.key, IsKey k ∧ 1 ≤ k.length ∧ k.length ≤ 4
  quality : ∀ n ∈ f.quality, 1 ≤ n ∧ n ≤ 9
  degree : ∀ n ∈ f.degree, 1 ≤ n ∧ n ≤ 36

def qualityPart (n : Nat) : Bytes := [113, digitByte n]

def degreePart (n : Nat) : Bytes := [114, digitByte (n / 10), digitByte (n % 10)]

def UriFormat.parts (f : UriFormat) : List Bytes :=
  f.key.toList ++ f.quality.toList.map qualityPart ++ f.degree.toList.map degreePart

def UriFormat.Written (f : UriFormat) (params : Bytes) : Prop :=
  ∃ ts : List Bytes, ts.Perm f.parts ∧ params = [95].intercalate ts

/-- The text behind the `=` is of the documented form. -/
def DocumentedParams (params : Bytes) : Prop := ∃ f : UriFormat, f.Valid ∧ f.Written params

section Parts

variable {α : Type}

theorem intercalate_cons (sep t : List α) (ts : List (List α)) :
    sep.intercalate (t :: ts) = t ++ ts.flatMap (sep ++ ·) := by
  induction ts generalizing t with
  | nil => simp
  | cons u ts ih =>
    rw [List.intercalate_cons_cons, ih, List.flatMap_cons, List.append_assoc, List.append_assoc]

theorem intercalate_split (sep t : List α) (pre post : List (List α)) :
    sep.intercalate (pre ++ t :: post) =
      pre.flatMap (· ++ sep) ++ (t ++ post.flatMap (sep ++ ·)) := by
  induction pre with
  | nil => exact intercalate_cons sep t post
  | cons u pre ih =>
    rw [List.flatMap_cons, List.append_assoc, ← ih]
    cases pre with
    | nil => rw [List.cons_append, List.nil_append, List.intercalate_cons_cons]
    | cons v pre => rw [List.cons_append, List.cons_append, List.intercalate_cons_cons]

theorem length_intercalate_le (sep : List α) (ts : List (List α)) :
    (sep.intercalate ts).length ≤ (ts.map fun t => t.length + sep.length).sum := by
  cases ts with
  | nil => exact Nat.zero_le _
  | cons t ts =>
    have hsum : (ts.flatMap (sep ++ ·)).length = (ts.map fun t => t.length + sep.length).sum := by
      simp only [List.length_flatMap, List.length_append, Nat.add_comm sep.length]
    rw [intercalate_cons, List.length_append, hsum, List.map_cons, List.sum_cons]
    omega

theorem exists_part (sep : List α) {t : List α} {ts rest : List (List α)}
    (h : ts.Perm (t :: rest)) :
    ∃ front back, sep.intercalate ts = front ++ (t ++ back) ∧
      ∀ c ∈ back, c ∈ sep ∨ ∃ u ∈ rest, c ∈ u := by
  obtain ⟨pre, post, rfl⟩ := List.append_of_mem (h.mem_iff.mpr List.mem_cons_self)
  have hrest : (pre ++ post).Perm rest :=
    (List.perm_cons t).mp (List.perm_middle.symm.trans h)
  refine ⟨_, _, intercalate_split sep t pre post, fun c hc => ?_⟩
  obtain ⟨u, hu, hcu⟩ := List.mem_flatMap.mp hc
  rcases List.mem_append.mp hcu with hsep | hmem
  · exact Or.inl hsep
  · exact Or.inr ⟨u, hrest.subset (List.mem_append_right _ hu), hmem⟩

end Parts

/-! ## Numbers that take what is behind them -/

theorem numberRead_part {front back : Bytes} {c : UInt8} {ds : Bytes} (hback : c ∉ ds ++ back)
    (tail : Bytes) :
    numberRead (front ++ (c :: ds ++ back)) c ds.length tail =
      UInt32.ofInt (atoi (ds ++ tail)) := by
  unfold numberRead
  rw [List.cons_append, strrchr_append_cons front hback]
  dsimp only
  rw [drop_append_cons, if_neg (by rw [List.length_append]; omega), List.take_left' rfl]

theorem atoi_three {ds : Bytes} (h : Digits ds) (hv : digitsValue ds < 100) :
    atoi (ds ++ [51]) = 10 * digitsValue ds + 3 := by
  have hdigits : Digits (ds ++ [51]) := by
    refine ⟨by simp, fun c hc => ?_⟩
    rcases List.mem_append.mp hc with hc | hc
    · exact h.2 c hc
    · rw [List.mem_singleton.mp hc]
      rfl
  have hvalue := digitsValue_append_singleton ds 51
  have hthree : (51 : UInt8).toNat - 48 = 3 := rfl
  unfold atoi
  rw [strtol_digits hdigits, saturate_eq (by omega) (by omega)]
  dsimp only
  omega

theorem ne_of_three {ds : Bytes} (h : Digits ds) (hv : digitsValue ds < 100) (o : Bytes) :
    (if o = [] then UInt32.ofInt (atoi (ds ++ [51]))
      else UInt32.ofInt (atoi (ds ++ [51])) * 10).toNat ≠ 10 * digitsValue ds := by
  have hread : (UInt32.ofInt (atoi (ds ++ [51]))).toNat = 10 * digitsValue ds + 3 := by
    rw [atoi_three h hv]
    unfold UInt32.ofInt
    rw [UInt32.toNat_ofNat']
    omega
  split
  · omega
  · rw [UInt32.toNat_mul, hread, show (10 : UInt32).toNat = 10 from rfl]
    omega

theorem digits_qualityPart {n : Nat} (h : n ≤ 9) :
    Digits [digitByte n] ∧ digitsValue [digitByte n] = n := by
  have hn : n < 10 := by omega
  refine ⟨⟨by simp, fun c hc => ?_⟩, by simp [digitsValue, digitByte_toNat hn]⟩
  rw [List.mem_singleton.mp hc]
  exact isDigit_digitByte hn

theorem digits_degreePart {n : Nat} (h : n ≤ 36) :
    Digits [digitByte (n / 10), digitByte (n % 10)] ∧
      digitsValue [digitByte (n / 10), digitByte (n % 10)] = n := by
  have h1 : n / 10 < 10 := by omega
  have h2 : n % 10 < 10 := by omega
  constructor
  · refine ⟨by simp, fun c hc => ?_⟩
    rcases List.mem_pair.mp hc with rfl | rfl
    · exact isDigit_digitByte h1
    · exact isDigit_digitByte h2
  · simp only [digitsValue, List.foldl_cons, List.foldl_nil, digitByte_toNat h1, digitByte_toNat h2]
    omega

section Written

variable {f : UriFormat} {params : Bytes}

theorem IsKey.notMem {k : Bytes} (h : IsKey k) {c : UInt8} (hc : c ∈ ascii "_qQrR") : c ∉ k :=
  fun hmem => h c hmem hc

theorem UriFormat.Written.quality (hw : f.Written params) (hf : f.Valid) {n : Nat}
    (hn : f.quality = some n) : ∃ front back,
      params = front ++ (113 :: [digitByte n] ++ back) ∧ 113 ∉ [digitByte n] ++ back := by
  obtain ⟨ts, hperm, rfl⟩ := hw
  have hparts : f.parts.Perm
      (qualityPart n :: (f.key.toList ++ f.degree.toList.map degreePart)) := by
    unfold UriFormat.parts
    rw [hn, Option.toList_some, List.map_singleton, List.append_assoc]
    exact List.perm_middle
  obtain ⟨front, back, htext, hback⟩ := exists_part [95] (hperm.trans hparts)
  refine ⟨front, back, htext, fun hmem => ?_⟩
  have hdigit := (digits_qualityPart (hf.quality n hn).2).1
  rcases List.mem_append.mp hmem with hmem | hmem
  · exact hdigit.notMem rfl hmem
  · rcases hback 113 hmem with hsep | ⟨u, hu, hcu⟩
    · exact absurd hsep (by decide)
    · rcases List.mem_append.mp hu with hu | hu
      · exact (hf.key u (Option.mem_toList.mp hu)).1.notMem (by decide) hcu
      · obtain ⟨m, hm, rfl⟩ := List.mem_map.mp hu
        have hdigits := (digits_degreePart (hf.degree m (Option.mem_toList.mp hm)).2).1
        rcases List.mem_cons.mp hcu with hcu | hcu
        · exact absurd hcu (by decide)
        · exact hdigits.notMem rfl hcu

theorem UriFormat.Written.degree (hw : f.Written params) (hf : f.Valid) {n : Nat}
    (hn : f.degree = some n) : ∃ front back,
      params = front ++ (114 :: [digitByte (n / 10), digitByte (n % 10)] ++ back) ∧
        114 ∉ [digitByte (n / 10), digitByte (n % 10)] ++ back := by
  obtain ⟨ts, hperm, rfl⟩ := hw
  have hparts : f.parts.Perm
      (degreePart n :: (f.key.toList ++ f.quality.toList.map qualityPart)) := by
    unfold UriFormat.parts
    rw [hn, Option.toList_some, List.map_singleton]
    exact List.perm_append_singleton _ _
  obtain ⟨front, back, htext, hback⟩ := exists_part [95] (hperm.trans hparts)
  refine ⟨front, back, htext, fun hmem => ?_⟩
  have hdigits := (digits_degreePart (hf.degree n hn).2).1
  rcases List.mem_append.mp hmem with hmem | hmem
  · exact hdigits.notMem rfl hmem
  · rcases hback 114 hmem with hsep | ⟨u, hu, hcu⟩
    · exact absurd hsep (by decide)
    · rcases List.mem_append.mp hu with hu | hu
      · exact (hf.key u (Option.mem_toList.mp hu)).1.notMem (by decide) hcu
      · obtain ⟨m, hm, rfl⟩ := List.mem_map.mp hu
        have hdigit := (digits_qualityPart (hf.quality m (Option.mem_toList.mp hm)).2).1
        rcases List.mem_cons.mp hcu with hcu | hcu
        · exact absurd hcu (by decide)
        · exact hdigit.notMem rfl hcu

theorem UriFormat.Written.length_le (hw : f.Written params) (hf : f.Valid) :
    params.length ≤ MAX_SUFFIX_SIZE := by
  obtain ⟨ts, hperm, rfl⟩ := hw
  have hkey : (f.key.toList.map fun t => t.length + 1).sum ≤ 5 := by
    cases hk : f.key with
    | none => exact Nat.zero_le _
    | some k =>
      have := (hf.key k hk).2.2
      simp only [Option.toList_some, List.map_singleton, List.sum_singleton]
      omega
  have hquality : ((f.quality.toList.map qualityPart).map fun t => t.length + 1).sum ≤ 3 := by
    cases f.quality with
    | none => exact Nat.zero_le _
    | some n => exact Nat.le_refl _
  have hdegree : ((f.degree.toList.map degreePart).map fun t => t.length + 1).sum ≤ 4 := by
    cases f.degree with
    | none => exact Nat.zero_le _
    | some n => exact Nat.le_refl _
  calc ([95].intercalate ts).length
      ≤ (ts.map fun t => t.length + 1).sum := length_intercalate_le [95] ts
    _ = (f.parts.map fun t => t.length + 1).sum := (hperm.map _).sum_nat
    _ ≤ MAX_SUFFIX_SIZE := by
      unfold UriFormat.parts MAX_SUFFIX_SIZE
      rw [List.map_append, List.map_append, List.sum_append, List.sum_append]
      omega

theorem UriFormat.Written.key (hw : f.Written params) (hq : f.quality = none)
    (hd : f.degree = none) : params = f.key.getD [] := by
  obtain ⟨ts, hperm, rfl⟩ := hw
  unfold UriFormat.parts at hperm
  rw [hq, hd] at hperm
  cases hk : f.key with
  | none =>
    rw [hk] at hperm
    obtain rfl := List.Perm.eq_nil hperm
    rfl
  | some k =>
    rw [hk] at hperm
    obtain rfl := List.perm_singleton.mp hperm
    exact List.intercalate_singleton

end Written

/-! ## What a call gives -/

/-- The quality is 0 or from 10 to 90, and the rotation at most 360. -/
def InRange (fi : FileInfo) : Prop :=
  (fi.quality.toNat = 0 ∨ 10 ≤ fi.quality.toNat ∧ fi.quality.toNat ≤ 90) ∧
    fi.rotateDegree.toNat ≤ 360

structure AskedFor (f : UriFormat) (fi : FileInfo) : Prop where
  outer : fi.outerFormat.str [] = f.key.getD []
  quality : fi.quality.toNat = 10 * f.quality.getD 0
  degree : fi.rotateDegree.toNat = 10 * f.degree.getD 0

/-- The name has formats, `params`. -/
def HasParams (uri params : Bytes) : Prop :=
  ∃ stem ext, skipSlash uri = (stem ++ 61 :: params) ++ 46 :: ext ∧ 46 ∉ ext ∧ 61 ∉ stem

/-- Whatever uninitialised memory holds, the call comes to an end, numbers of an accepted URI are in
range, formats of the documented form give what they ask for, and others are refused. -/
def ParsedAsDocumented (uri : Bytes) : Prop :=
  ∀ g, ∃ ret fi, parseUri g uri fileInfoInit = some (ret, fi) ∧ (ret = 0 → InRange fi) ∧
    ∀ params, HasParams uri params →
      (∀ f : UriFormat, f.Valid → f.Written params → ret = 0 ∧ AskedFor f fi) ∧
      (¬ DocumentedParams params → ret < 0)

/-- Formats that are a key alone, perhaps an empty one, or that are too long. -/
def SimpleParams (params : Bytes) : Prop :=
  MAX_SUFFIX_SIZE < params.length ∨ IsKey params ∧ params.length ≤ 4

instance (params : Bytes) : Decidable (SimpleParams params) :=
  inferInstanceAs (Decidable (_ ∨ _))

/-- The parts fit, and the formats, if there are any, are simple. -/
def SimpleUri (uri : Bytes) : Prop :=
  Fits uri ∧ ∀ params, HasParams uri params → SimpleParams params

theorem name_unique {a b ext ext' : Bytes} (h : a ++ 46 :: ext = b ++ 46 :: ext') (he : 46 ∉ ext)
    (he' : 46 ∉ ext') : a = b := by
  have hpos := strrchr_append_cons a he
  rw [h, strrchr_append_cons b he'] at hpos
  exact (List.append_inj h (Option.some.inj hpos).symm).1

theorem params_unique {stem stem' params params' : Bytes}
    (h : stem ++ 61 :: params = stem' ++ 61 :: params') (hs : 61 ∉ stem) (hs' : 61 ∉ stem') :
    params = params' := by
  have hpos := strchr_append_cons (b := params) hs
  rw [h, strchr_append_cons hs'] at hpos
  exact (List.cons.inj (List.append_inj h (Option.some.inj hpos).symm).2).2

section Runs

variable {g : Residue} {uri name stem params ext : Bytes} {ret : Int} {fi : FileInfo}

theorem hasParams_iff (huri : skipSlash uri = (stem ++ 61 :: params) ++ 46 :: ext) (hext : 46 ∉ ext)
    (heq : 61 ∉ stem) (params' : Bytes) : HasParams uri params' ↔ params' = params := by
  constructor
  · rintro ⟨stem', ext', huri', hext', heq'⟩
    exact params_unique (name_unique (huri'.symm.trans huri) hext' hext) heq' heq
  · rintro rfl
    exact ⟨stem, ext, huri, hext, heq⟩

theorem not_hasParams (huri : skipSlash uri = name ++ 46 :: ext) (hext : 46 ∉ ext) (heq : 61 ∉ name)
    (params : Bytes) : ¬ HasParams uri params := by
  rintro ⟨stem', ext', huri', hext', -⟩
  rw [name_unique (huri.symm.trans huri') hext hext'] at heq
  exact heq (by simp)

theorem not_hasParams_of_no_dot (h : 46 ∉ skipSlash uri) (params : Bytes) :
    ¬ HasParams uri params := by
  rintro ⟨stem', ext', huri', -, -⟩
  rw [huri'] at h
  exact h (by simp)

theorem uriQuality_of_notMem (h : 95 ∉ params) : uriQuality g params = 0 := if_neg h

theorem uriDegree_of_notMem (h : 95 ∉ params) : uriDegree g params = 0 := if_neg h

theorem format_of_notMem (h : 95 ∉ params) : format params = params :=
  takeWhile_eq_of_notMem h

end Runs

/-! ## Simple formats are parsed -/

theorem IsKey.documented {k : Bytes} (h : IsKey k) (hlen : k.length ≤ 4) : DocumentedParams k := by
  by_cases hnil : k = []
  · subst hnil
    exact ⟨⟨none, none, none⟩, ⟨by simp, by simp, by simp⟩, [], List.Perm.refl _, rfl⟩
  · have hpos := List.length_pos_of_ne_nil hnil
    exact ⟨⟨some k, none, none⟩, ⟨by simp; exact ⟨h, by omega, hlen⟩, by simp, by simp⟩, [k],
      List.Perm.refl _, List.intercalate_singleton.symm⟩

theorem UriFormat.Written.of_isKey {f : UriFormat} {params : Bytes} (hw : f.Written params)
    (hf : f.Valid) (hkey : IsKey params) :
    f.quality = none ∧ f.degree = none ∧ params = f.key.getD [] := by
  have hq : f.quality = none := by
    cases hn : f.quality with
    | none => rfl
    | some n =>
      obtain ⟨front, back, rfl, -⟩ := hw.quality hf hn
      exact absurd (by simp) (hkey.notMem (c := 113) (by decide))
  have hd : f.degree = none := by
    cases hn : f.degree with
    | none => rfl
    | some n =>
      obtain ⟨front, back, rfl, -⟩ := hw.degree hf hn
      exact absurd (by simp) (hkey.notMem (c := 114) (by decide))
  exact ⟨hq, hd, hw.key hq hd⟩

theorem parsedAsDocumented_of_simple {uri : Bytes} (h : IsCStr uri) (hsimple : SimpleUri uri) :
    ParsedAsDocumented uri := by
  intro g
  obtain ⟨hfits, hparams⟩ := hsimple
  obtain ⟨⟨ret, fi⟩, hrun⟩ := Option.isSome_iff_exists.mp ((contained_fits h).mpr hfits g)
  refine ⟨ret, fi, hrun, ?_⟩
  rcases uri_cases uri with hdot | ⟨name, ext, huri, hext, heq⟩ |
    ⟨stem, params, ext, huri, hext, heq⟩
  · rw [parseUri_no_dot hdot] at hrun
    cases hrun
    exact ⟨fun hret => absurd hret (by decide),
      fun params hp => absurd hp (not_hasParams_of_no_dot hdot params)⟩
  · obtain ⟨hextlen, hroom⟩ := (fits_plain huri hext heq).1.mp hfits
    obtain ⟨-, -, hnamed⟩ := parseUri_plain h huri hext heq (Or.inr (by omega)) hrun
    refine ⟨fun _ => ⟨Or.inl ?_, ?_⟩,
      fun params hp => absurd hp (not_hasParams huri hext heq params)⟩
    · rw [hnamed.quality]
      rfl
    · rw [hnamed.degree]
      exact Nat.zero_le _
  · obtain ⟨more, -, hmore, hcase⟩ := parseUri_params h huri hext heq hrun
    rw [(fits_format huri hext heq).1] at hfits
    obtain ⟨-, hrest⟩ := hfits
    have hunique := hasParams_iff huri hext heq
    rcases hparams params ((hunique params).mpr rfl) with hlong | ⟨hkey, hlen⟩
    · -- too long, and refused
      have hret : ret = -2 := by
        rcases hcase with ⟨-, hret⟩ | ⟨hshort, -⟩
        · exact hret
        · rw [List.length_append] at hshort
          omega
      refine ⟨fun h0 => by omega, fun params' hp => ⟨fun f hf hw => ?_, fun _ => by omega⟩⟩
      obtain rfl := (hunique params').mp hp
      exact absurd (hw.length_le hf) (Nat.not_le_of_lt hlong)
    · -- a key alone
      obtain ⟨hroom, -⟩ := hrest.resolve_left (by unfold MAX_SUFFIX_SIZE; omega)
      rw [hmore, if_pos hroom, List.append_nil] at hcase
      obtain ⟨-, hret, -, hnamed⟩ := hcase.resolve_left (by unfold MAX_SUFFIX_SIZE; omega)
      have h95 := hkey.notMem (c := 95) (by decide)
      rw [format_of_notMem h95, uriQuality_of_notMem h95, uriDegree_of_notMem h95] at hnamed
      have hquality : fi.quality.toNat = 0 := by
        rw [hnamed.quality]
        split <;> rfl
      have hdegree : fi.rotateDegree.toNat = 0 := by
        rw [hnamed.degree]
        split <;> rfl
      refine ⟨fun _ => ⟨Or.inl hquality, by omega⟩, fun params' hp => ?_⟩
      obtain rfl := (hunique params').mp hp
      refine ⟨fun f hf hw => ⟨hret, ?_⟩, fun hno => absurd (hkey.documented hlen) hno⟩
      obtain ⟨hq, hd, hk⟩ := hw.of_isKey hf hkey
      exact ⟨by rw [hnamed.outer, hk], by rw [hquality, hq]; rfl, by rw [hdegree, hd]; rfl⟩

/-! ## Others are not -/

theorem UriFormat.Valid.isKey {f : UriFormat} (hf : f.Valid) : IsKey (f.key.getD []) := by
  cases hk : f.key with
  | none => exact fun c hc => absurd hc List.not_mem_nil
  | some k => exact (hf.key k hk).1

section Others

variable {uri stem params ext : Bytes} {f : UriFormat}

theorem ParsedAsDocumented.run (h : IsCStr uri) (hparsed : ParsedAsDocumented uri)
    (huri : skipSlash uri = (stem ++ 61 :: params) ++ 46 :: ext) (hext : 46 ∉ ext) (heq : 61 ∉ stem)
    (hlen : params.length ≤ MAX_SUFFIX_SIZE) (g : Residue) (hpast : g.pastFull = []) :
    DocumentedParams params ∧ ∃ fi, Named stem ext (format params) (uriQuality g params)
      (uriDegree g params) fi ∧ ∀ f : UriFormat, f.Valid → f.Written params → AskedFor f fi := by
  obtain ⟨ret, fi, hrun, -, hall⟩ := hparsed g
  obtain ⟨hdoc, hno⟩ := hall params ⟨stem, ext, huri, hext, heq⟩
  obtain ⟨more, -, hmore, hcase⟩ := parseUri_params h huri hext heq hrun
  have hnil : more = [] := by
    rw [hmore, hpast]
    exact ite_self _
  rw [hnil, List.append_nil] at hcase
  obtain ⟨-, hret, -, hnamed⟩ := hcase.resolve_left (by omega)
  refine ⟨?_, fi, hnamed, fun f hf hw => (hdoc f hf hw).2⟩
  by_contra hnot
  have := hno hnot
  omega

theorem IsKey.of_outer (hf : f.Valid) {fi : FileInfo}
    (houter : fi.outerFormat.str [] = format params) (hasked : AskedFor f fi)
    (h95 : 95 ∉ params) : IsKey params := by
  rw [hasked.outer, format_of_notMem h95] at houter
  exact houter ▸ hf.isKey

theorem ParsedAsDocumented.quality (hrun : ∀ g : Residue, g.pastFull = [] → ∃ fi,
      Named stem ext (format params) (uriQuality g params) (uriDegree g params) fi ∧
      ∀ f : UriFormat, f.Valid → f.Written params → AskedFor f fi)
    (hf : f.Valid) (hw : f.Written params) : f.quality = none := by
  cases hn : f.quality with
  | none => rfl
  | some n =>
    exfalso
    obtain ⟨fi, hnamed, hasked⟩ := hrun (digitResidue 1 (by decide) 51) rfl
    have hasked := hasked f hf hw
    obtain ⟨front, back, htext, hback⟩ := hw.quality hf hn
    obtain ⟨hdigits, hvalue⟩ := digits_qualityPart (hf.quality n hn).2
    have hle := (hf.quality n hn).2
    by_cases h95 : 95 ∈ params
    · have hread : uriQuality (digitResidue 1 (by decide) 51) params =
          UInt32.ofInt (atoi ([digitByte n] ++ [51])) := by
        unfold uriQuality
        rw [if_pos h95, digitResidue_tail (by decide) (by decide), htext]
        exact numberRead_part hback [51]
      have hquality := hasked.quality
      rw [hnamed.quality, hread, hn, Option.getD_some] at hquality
      exact ne_of_three hdigits (by omega) _ (by rw [hvalue]; exact hquality)
    · have hkey := IsKey.of_outer hf hnamed.outer hasked h95
      exact hkey.notMem (c := 113) (by decide) (by rw [htext]; simp)

theorem ParsedAsDocumented.degree (hrun : ∀ g : Residue, g.pastFull = [] → ∃ fi,
      Named stem ext (format params) (uriQuality g params) (uriDegree g params) fi ∧
      ∀ f : UriFormat, f.Valid → f.Written params → AskedFor f fi)
    (hf : f.Valid) (hw : f.Written params) : f.degree = none := by
  cases hn : f.degree with
  | none => rfl
  | some n =>
    exfalso
    obtain ⟨fi, hnamed, hasked⟩ := hrun (digitResidue 2 (by decide) 51) rfl
    have hasked := hasked f hf hw
    obtain ⟨front, back, htext, hback⟩ := hw.degree hf hn
    obtain ⟨hdigits, hvalue⟩ := digits_degreePart (hf.degree n hn).2
    have hle := (hf.degree n hn).2
    by_cases h95 : 95 ∈ params
    · have hread : uriDegree (digitResidue 2 (by decide) 51) params =
          UInt32.ofInt (atoi ([digitByte (n / 10), digitByte (n % 10)] ++ [51])) := by
        unfold uriDegree
        rw [if_pos h95, digitResidue_tail (by decide) (by decide), htext]
        exact numberRead_part hback [51]
      have hdegree := hasked.degree
      rw [hnamed.degree, hread, hn, Option.getD_some] at hdegree
      exact ne_of_three hdigits (by omega) _ (by rw [hvalue]; exact hdegree)
    · have hkey := IsKey.of_outer hf hnamed.outer hasked h95
      exact hkey.notMem (c := 114) (by decide) (by rw [htext]; simp)

end Others

theorem simple_of_parsedAsDocumented {uri : Bytes} (h : IsCStr uri)
    (hparsed : ParsedAsDocumented uri) : SimpleUri uri := by
  refine ⟨(contained_fits h).mp fun g => ?_, ?_⟩
  · obtain ⟨ret, fi, hrun, -⟩ := hparsed g
    rw [hrun]
    rfl
  · rintro params ⟨stem, ext, huri, hext, heq⟩
    by_cases hlong : MAX_SUFFIX_SIZE < params.length
    · exact Or.inl hlong
    · have hrun := hparsed.run h huri hext heq (Nat.le_of_not_lt hlong)
      obtain ⟨⟨f, hf, hw⟩, -⟩ := hrun ⟨.zero _, .zero _, [], []⟩ rfl
      have hq := ParsedAsDocumented.quality (fun g hpast => (hrun g hpast).2) hf hw
      have hd := ParsedAsDocumented.degree (fun g hpast => (hrun g hpast).2) hf hw
      right
      rw [hw.key hq hd]
      refine ⟨hf.isKey, ?_⟩
      cases hk : f.key with
      | none => exact Nat.zero_le _
      | some k => exact (hf.key k hk).2.2

/-- **A URI is parsed as documented** exactly when its parts fit and its formats, if there are any,
are a key alone, or too long. -/
theorem parsedAsDocumented_iff (uri : Bytes) (h : IsCStr uri) :
    ParsedAsDocumented uri ↔ SimpleUri uri :=
  ⟨simple_of_parsedAsDocumented h, parsedAsDocumented_of_simple h⟩

theorem parsedAsDocumented_iff_plain :
    ParsedAsDocumented (ascii "/a=sm.jpg") ↔ SimpleUri (ascii "/a=sm.jpg") :=
  parsedAsDocumented_iff (ascii "/a=sm.jpg") (by decide)

/-- The key, the quality 70 and the rotation 90. -/
theorem not_parsedAsDocumented_numbers :
    (UriFormat.mk (some (ascii "sm")) (some 7) (some 9)).Written (ascii "sm_q7_r09") ∧
      ¬ ParsedAsDocumented (ascii "/a=sm_q7_r09.jpg") := by
  refine ⟨⟨[ascii "sm", ascii "q7", ascii "r09"], by decide, by decide⟩, fun h => ?_⟩
  have hsimple := (simple_of_parsedAsDocumented (by decide) h).2 (ascii "sm_q7_r09")
    ⟨ascii "a", ascii "jpg", by decide, by decide, by decide⟩
  revert hsimple
  decide

end Lighttpd
