import Lighttpd.Autothumb.Common

/-!
# What `parse_uri` writes and reads

For which URIs every store of `parse_uri` stays inside its array, whatever uninitialised memory
holds (`Fits`), and for which the outcome does not depend on that memory (`ReadsOnlyUri`). The
numbers behind `q` and `r` are copied without a terminator when they fill the copied width, and
then `atoi` reads on: such a number is *open*.
-/

namespace Lighttpd

open CLib

/-! ## The conditions -/

/-- The number behind the last `c` fills the `k` copied characters, and `atoi` reads on. -/
def OpenNumber (params : Bytes) (c : UInt8) (k : Nat) : Prop :=
  match strrchr params c with
  | none => False
  | some i => k ≤ (params.drop (i + 1)).length ∧ NumeralOpen ((params.drop (i + 1)).take k)

instance (params : Bytes) (c : UInt8) (k : Nat) : Decidable (OpenNumber params c k) := by
  unfold OpenNumber
  split <;> infer_instance

/-- The numbers, which are read only when there is an underscore, end inside the URI. -/
def NumbersClosed (params : Bytes) : Prop :=
  95 ∈ params → ¬ OpenNumber params 113 1 ∧ ¬ OpenNumber params 114 2

instance (params : Bytes) : Decidable (NumbersClosed params) :=
  inferInstanceAs (Decidable (_ → _))

def closedQuality (params : Bytes) : UInt32 :=
  if 95 ∈ params then numberRead params 113 1 [] else 0

def closedDegree (params : Bytes) : UInt32 :=
  if 95 ∈ params then numberRead params 114 2 [] else 0

def PlainFits (name ext : Bytes) : Prop :=
  ext.length < FI_FILE_EXTENSION_SIZE ∧ name.length + ext.length + 1 < FI_FULL_FILENAME_SIZE

def FormatFits (stem params ext : Bytes) : Prop :=
  stem.length + params.length + 1 ≤ FI_FULL_FILENAME_SIZE ∧
  (MAX_SUFFIX_SIZE < params.length ∨
    stem.length + params.length + 1 < FI_FULL_FILENAME_SIZE ∧ params.length < MAX_SUFFIX_SIZE ∧
    ext.length < FI_FILE_EXTENSION_SIZE ∧ (format params ≠ [] → NumbersClosed params) ∧
    stem.length + (suffixText (format params) (closedQuality params) (closedDegree params)).length +
      ext.length + 1 < FI_FULL_FILENAME_SIZE)

instance (name ext : Bytes) : Decidable (PlainFits name ext) :=
  inferInstanceAs (Decidable (_ ∧ _))

instance (stem params ext : Bytes) : Decidable (FormatFits stem params ext) :=
  inferInstanceAs (Decidable (_ ∧ _))

/-- The URIs whose parts fit: there is no extension; or there are no formats and the name fits; or
the formats are too long and refused, or short enough, and the names built from them fit. -/
def Fits (uri : Bytes) : Prop :=
  match strrchr (skipSlash uri) 46 with
  | none => True
  | some dot =>
    let name := (skipSlash uri).take dot
    let ext := (skipSlash uri).drop (dot + 1)
    match strchr name 61 with
    | none => PlainFits name ext
    | some eq => FormatFits (name.take eq) (name.drop (eq + 1)) ext

instance (uri : Bytes) : Decidable (Fits uri) := by
  unfold Fits
  split
  · infer_instance
  · dsimp only
    split <;> infer_instance

/-- The numbers in the formats, if they are read, end inside the URI. -/
def ReadsOnlyUri (uri : Bytes) : Prop :=
  match strrchr (skipSlash uri) 46 with
  | none => True
  | some dot =>
    let name := (skipSlash uri).take dot
    match strchr name 61 with
    | none => True
    | some eq =>
      (name.drop (eq + 1)).length < MAX_SUFFIX_SIZE → NumbersClosed (name.drop (eq + 1))

instance (uri : Bytes) : Decidable (ReadsOnlyUri uri) := by
  unfold ReadsOnlyUri
  split
  · infer_instance
  · dsimp only
    split <;> infer_instance

/-! ## The parts of a URI -/

theorem fits_plain {uri name ext : Bytes} (huri : skipSlash uri = name ++ 46 :: ext)
    (hext : 46 ∉ ext) (heq : 61 ∉ name) :
    (Fits uri ↔ PlainFits name ext) ∧ ReadsOnlyUri uri := by
  have hdrop := drop_append_cons name 46 ext
  constructor
  · simp only [Fits, huri, strrchr_append_cons name hext, List.take_left', hdrop,
      strchr_eq_none.mpr heq]
  · simp only [ReadsOnlyUri, huri, strrchr_append_cons name hext, List.take_left',
      strchr_eq_none.mpr heq]

theorem fits_format {uri stem params ext : Bytes}
    (huri : skipSlash uri = (stem ++ 61 :: params) ++ 46 :: ext)
    (hext : 46 ∉ ext) (heq : 61 ∉ stem) :
    (Fits uri ↔ FormatFits stem params ext) ∧
      (ReadsOnlyUri uri ↔ (params.length < MAX_SUFFIX_SIZE → NumbersClosed params)) := by
  constructor
  · simp only [Fits, huri, strrchr_append_cons _ hext, List.take_left', drop_append_cons,
      strchr_append_cons heq]
  · simp only [ReadsOnlyUri, huri, strrchr_append_cons _ hext, List.take_left', drop_append_cons,
      strchr_append_cons heq]

theorem uri_cases (uri : Bytes) : 46 ∉ skipSlash uri ∨
    (∃ name ext, skipSlash uri = name ++ 46 :: ext ∧ 46 ∉ ext ∧ 61 ∉ name) ∨
    ∃ stem params ext, skipSlash uri = (stem ++ 61 :: params) ++ 46 :: ext ∧ 46 ∉ ext ∧
      61 ∉ stem := by
  by_cases hdot : 46 ∈ skipSlash uri
  · obtain ⟨name, ext, huri, hext⟩ := exists_split_last hdot
    by_cases heq : 61 ∈ name
    · obtain ⟨stem, params, rfl, hstem⟩ := List.eq_append_cons_of_mem heq
      exact Or.inr (Or.inr ⟨stem, params, ext, huri, hext, hstem⟩)
    · exact Or.inr (Or.inl ⟨name, ext, huri, hext, heq⟩)
  · exact Or.inl hdot

theorem isCStr_skipSlash {uri : Bytes} (h : IsCStr uri) : IsCStr (skipSlash uri) := by
  unfold skipSlash
  split
  · exact fun hm => h (List.mem_cons_of_mem _ hm)
  · exact h

theorem parseUri_no_dot {g : Residue} {uri : Bytes} (h : 46 ∉ skipSlash uri) :
    parseUri g uri fileInfoInit = some (-1, fileInfoInit) := by
  simp only [parseUri, strrchr_eq_none.mpr h]

theorem parseUri_dot {g : Residue} {uri name ext : Bytes} (hcstr : IsCStr uri)
    (huri : skipSlash uri = name ++ 46 :: ext) (hext : 46 ∉ ext) :
    (parseUri g uri fileInfoInit = none ∧ FI_FULL_FILENAME_SIZE < name.length) ∨
    ∃ full more, name.length ≤ FI_FULL_FILENAME_SIZE ∧ full.str [] = name ∧
      more = (if name.length < FI_FULL_FILENAME_SIZE then [] else cstr g.pastFull) ∧
      parseUri g uri fileInfoInit =
        uriOriginal g (name ++ more) ext { fileInfoInit with fullFilename := full } := by
  have hc := huri ▸ isCStr_skipSlash hcstr
  have hdrop := drop_append_cons name 46 ext
  have hparse : parseUri g uri fileInfoInit =
      ((Block.zero FI_FULL_FILENAME_SIZE).strncpy (name ++ 46 :: ext) name.length).bind fun full =>
        uriOriginal g (full.str g.pastFull) ext { fileInfoInit with fullFilename := full } := by
    simp only [parseUri, huri, strrchr_append_cons name hext, hdrop]
    rfl
  by_cases hlen : name.length ≤ FI_FULL_FILENAME_SIZE
  · obtain ⟨full, hfull⟩ := Block.exists_strncpy hlen (Block.zero FI_FULL_FILENAME_SIZE)
      (name ++ 46 :: ext)
    have hstr : ∀ past, full.str past =
        name ++ if name.length < FI_FULL_FILENAME_SIZE then [] else cstr past := by
      intro past
      split
      · next hlt => simpa using Block.str_strncpy_zero hfull hc (by simp) hlt past
      · next hge =>
        have hsize : name.length = FI_FULL_FILENAME_SIZE := by omega
        rw [Block.str_strncpy_full hfull hc (by simp), hsize]
        simp [Block.zero, ← hsize]
    refine Or.inr ⟨full, _, hlen, ?_, rfl, ?_⟩
    · simpa [cstr] using hstr []
    · rw [hparse, hfull, Option.bind_some, hstr]
  · refine Or.inl ⟨?_, by omega⟩
    rw [hparse]
    cases hfull : (Block.zero FI_FULL_FILENAME_SIZE).strncpy (name ++ 46 :: ext) name.length with
    | none => rfl
    | some full => exact absurd (Block.strncpy_le hfull) hlen

theorem parseUri_plain {g : Residue} {uri name ext : Bytes} {ret : Int} {fi : FileInfo}
    (h : IsCStr uri) (huri : skipSlash uri = name ++ 46 :: ext) (hext : 46 ∉ ext) (heq : 61 ∉ name)
    (hroom : g.pastFull = [] ∨ name.length < FI_FULL_FILENAME_SIZE)
    (hrun : parseUri g uri fileInfoInit = some (ret, fi)) :
    ret = 0 ∧ NamesFit name ext [] 0 0 ∧ Named name ext [] 0 0 fi := by
  have hc := huri ▸ isCStr_skipSlash h
  rcases parseUri_dot (g := g) h huri hext with ⟨hnone, -⟩ | ⟨full, more, -, -, hmore, hparse⟩
  · rw [hnone] at hrun
    cases hrun
  · have hnil : more = [] := by
      rw [hmore]
      split
      · rfl
      · next hfull =>
        rw [hroom.resolve_right hfull]
        rfl
    rw [hparse, hnil, List.append_nil] at hrun
    exact uriOriginal_plain_spec hc.of_append_left (fun hm => hc (by simp [hm])) heq hrun

theorem parseUri_params {g : Residue} {uri stem params ext : Bytes} {ret : Int} {fi : FileInfo}
    (h : IsCStr uri) (huri : skipSlash uri = (stem ++ 61 :: params) ++ 46 :: ext) (hext : 46 ∉ ext)
    (heq : 61 ∉ stem) (hrun : parseUri g uri fileInfoInit = some (ret, fi)) :
    ∃ more, stem.length + params.length + 1 ≤ FI_FULL_FILENAME_SIZE ∧
      more = (if stem.length + params.length + 1 < FI_FULL_FILENAME_SIZE then []
        else cstr g.pastFull) ∧
      (MAX_SUFFIX_SIZE < (params ++ more).length ∧ ret = -2 ∨
        (params ++ more).length < MAX_SUFFIX_SIZE ∧ ret = 0 ∧
        NamesFit stem ext (format (params ++ more)) (uriQuality g (params ++ more))
          (uriDegree g (params ++ more)) ∧
        Named stem ext (format (params ++ more)) (uriQuality g (params ++ more))
          (uriDegree g (params ++ more)) fi) := by
  have hc := huri ▸ isCStr_skipSlash h
  have hname : IsCStr (stem ++ 61 :: params) := hc.of_append_left
  have hlen : (stem ++ 61 :: params).length = stem.length + params.length + 1 := by
    simp only [List.length_append, List.length_cons]
    omega
  rcases parseUri_dot (g := g) h huri hext with ⟨hnone, -⟩ | ⟨full, more, hle, -, hmore, hparse⟩
  · rw [hnone] at hrun
    cases hrun
  · have hmc : IsCStr more := by
      rw [hmore]
      split
      · exact List.not_mem_nil
      · exact isCStr_cstr _
    rw [hparse, List.append_assoc, List.cons_append] at hrun
    rw [hlen] at hle hmore
    obtain ⟨-, hcase⟩ := uriOriginal_format_spec (by simpa using hname.append hmc)
      (fun hm => hc (by simp [hm])) heq hrun
    exact ⟨more, hle, hmore, hcase⟩

section Numbers

variable {params : Bytes} {c : UInt8} {k : Nat}

theorem numberRead_of_closed (h : ¬ OpenNumber params c k) (tail : Bytes) :
    numberRead params c k tail = numberRead params c k [] := by
  unfold OpenNumber at h
  unfold numberRead
  cases hc : strrchr params c with
  | none => rfl
  | some i =>
    simp only [hc] at h ⊢
    split
    · rfl
    · next hge =>
      have hclosed : ¬ NumeralOpen ((params.drop (i + 1)).take k) := fun ho =>
        h ⟨Nat.le_of_not_lt hge, ho⟩
      rw [atoi_append_of_closed hclosed, List.append_nil]

theorem uriQuality_of_closed (h : NumbersClosed params) (g : Residue) :
    uriQuality g params = closedQuality params := by
  unfold uriQuality closedQuality
  split
  · next hmem => exact numberRead_of_closed (h hmem).1 _
  · rfl

theorem uriDegree_of_closed (h : NumbersClosed params) (g : Residue) :
    uriDegree g params = closedDegree params := by
  unfold uriDegree closedDegree
  split
  · next hmem => exact numberRead_of_closed (h hmem).2 _
  · rfl

theorem toInt_ofInt {v : Int} (h1 : -2147483648 ≤ v) (h2 : v ≤ 2147483647) :
    (UInt32.ofInt v).toInt32.toInt = v := by
  have hnat : (UInt32.ofInt v).toNat = (v % 2 ^ 32).toNat := by
    unfold UInt32.ofInt
    rw [UInt32.toNat_ofNat']
    omega
  have h : (UInt32.ofInt v).toInt32.toInt = (UInt32.ofInt v).toBitVec.toInt := rfl
  rw [h, BitVec.toInt_eq_toNat_bmod, UInt32.toNat_toBitVec, hnat, Int.bmod_def]
  split <;> omega

theorem length_numberText_le {tag : String} (htag : (ascii tag).length = 2) {f : Bytes}
    (hf : f.length ≤ 2) : (numberText tag (UInt32.ofInt (atoi f))).length ≤ 5 := by
  have hv := natAbs_atoi_lt f
  have hpow := Nat.pow_le_pow_right (show 0 < 10 by decide) hf
  unfold numberText numberPart
  split
  · rw [toInt_ofInt (by omega) (by omega), List.length_append, htag]
    have hlen := length_decimalNat_le (k := 1) (n := (atoi f).natAbs) (by omega)
    unfold decimal
    split
    · rw [List.length_cons]
      omega
    · omega
  · simp

theorem length_numberRead_le {tag : String} (htag : (ascii tag).length = 2) (hk : k ≤ 2) :
    (numberText tag (numberRead params c k [])).length ≤ 5 := by
  unfold numberRead
  split
  · simp [numberText]
  · dsimp only
    refine length_numberText_le htag ?_
    split
    · omega
    · simp only [List.append_nil, List.length_take]
      omega

theorem suffixFits_closed (hlen : params.length < MAX_SUFFIX_SIZE) :
    SuffixFits (format params) (closedQuality params) (closedDegree params) := by
  have hq : (numberText "_q" (closedQuality params)).length ≤ 5 := by
    unfold closedQuality
    split
    · exact length_numberRead_le rfl (by omega)
    · simp [numberText]
  have hr : (numberText "_r" (closedDegree params)).length ≤ 5 := by
    unfold closedDegree
    split
    · exact length_numberRead_le rfl (by omega)
    · simp [numberText]
  have ho := format_length_le params
  unfold MAX_SUFFIX_SIZE at hlen
  refine ⟨by unfold MAX_SUFFIX_SIZE; omega, by unfold MAX_SUFFIX_SIZE; omega, ?_⟩
  unfold suffixText FI_SUFFIX_SIZE
  split
  · simp
  · have hu : (ascii "_").length = 1 := rfl
    simp only [List.length_append, hu]
    omega

theorem length_numberText_saturated {tag : String} (htag : (ascii tag).length = 2) {v : Int}
    (hv : v = 2147483647 ∨ v = -2147483648) :
    MAX_SUFFIX_SIZE ≤ (numberText tag (UInt32.ofInt v)).length := by
  have hpos : UInt32.ofInt v > 0 := by rcases hv with rfl | rfl <;> decide
  have hlen := lt_length_decimalNat (k := 9) (n := v.natAbs) (by rcases hv with rfl | rfl <;> decide)
  unfold numberText numberPart MAX_SUFFIX_SIZE
  rw [if_pos hpos, toInt_ofInt (by omega) (by omega), List.length_append, htag]
  unfold decimal
  split
  · rw [List.length_cons]
    omega
  · omega

theorem length_numberText_open {tag : String} (htag : (ascii tag).length = 2)
    (h : OpenNumber params c k) {j : Nat} (hj : 10 ≤ j) :
    MAX_SUFFIX_SIZE ≤ (numberText tag (numberRead params c k (List.replicate j 57))).length := by
  unfold OpenNumber at h
  unfold numberRead
  cases hc : strrchr params c with
  | none => simp [hc] at h
  | some i =>
    simp only [hc] at h ⊢
    rw [if_neg (Nat.not_lt.mpr h.1)]
    refine length_numberText_saturated htag ?_
    have hne : List.replicate j (57 : UInt8) ≠ [] := by
      intro e
      have := congrArg List.length e
      simp at this
      omega
    have hdigits : ∀ d ∈ List.replicate j (57 : UInt8), isDigit d = true := fun d hd => by
      rw [List.eq_of_mem_replicate hd]
      rfl
    rw [atoi_append_of_open h.2 hne hdigits]
    have hbig := le_digitsValue_append
      (splitSign (((params.drop (i + 1)).take k).dropWhile isSpace)).2 (List.replicate j 57)
    have hnines := digitsValue_nines j
    have hpow := Nat.pow_le_pow_right (show 0 < 10 by decide) hj
    unfold saturate
    split <;> omega

end Numbers

/-! ## Staying inside the arrays -/

/-- Whatever uninitialised memory holds, every store of `parse_uri` lands inside its array. -/
def Contained (uri : Bytes) : Prop := ∀ g, (parseUri g uri fileInfoInit).isSome

theorem contained_plain {uri name ext : Bytes} (h : IsCStr uri)
    (huri : skipSlash uri = name ++ 46 :: ext) (hext : 46 ∉ ext) (heq : 61 ∉ name) :
    Contained uri ↔ PlainFits name ext := by
  have hc := huri ▸ isCStr_skipSlash h
  have hname : IsCStr name := hc.of_append_left
  have hextc : IsCStr ext := fun hm => hc (by simp [hm])
  constructor
  · intro hall
    -- a terminator behind the array ends a name that fills it
    obtain ⟨⟨ret, fi⟩, hrun⟩ := Option.isSome_iff_exists.mp
      (hall ⟨.zero _, .zero _, [], []⟩)
    obtain ⟨-, hfits, -⟩ := parseUri_plain h huri hext heq (Or.inl rfl) hrun
    have hfull := hfits.full
    exact ⟨hfits.extension, by simpa [suffixText] using hfull⟩
  · rintro ⟨hlen, hfull⟩ g
    rcases parseUri_dot (g := g) h huri hext with ⟨-, hbig⟩ | ⟨full, more, -, -, hmore, hparse⟩
    · omega
    · have hnil : more = [] := by rw [hmore, if_pos (by omega)]
      obtain ⟨fi, hfi⟩ := uriOriginal_plain_of_fits g full hname hextc heq
        ⟨hlen, fun hn => absurd rfl hn, by simpa [suffixText] using hfull⟩
      rw [hparse, hnil, List.append_nil, hfi]
      rfl

def nines : Residue := ⟨.zero _, ⟨List.replicate MAX_SUFFIX_SIZE 57, by simp⟩, [], []⟩

theorem closed_of_nines {o params : Bytes} (h : SuffixFits o (uriQuality nines params)
    (uriDegree nines params)) : NumbersClosed params := by
  intro hmem
  have hq := h.quality
  have hr := h.degree
  unfold uriQuality at hq
  unfold uriDegree at hr
  rw [if_pos hmem] at hq hr
  have hq' : cstr (nines.arr2.bytes.drop 1 ++ nines.pastArr2) = List.replicate 11 57 := by decide
  have hr' : cstr (nines.arr2.bytes.drop 2 ++ nines.pastArr2) = List.replicate 10 57 := by decide
  rw [hq'] at hq
  rw [hr'] at hr
  exact ⟨fun ho => absurd hq (Nat.not_lt.mpr (length_numberText_open rfl ho (by decide))),
    fun ho => absurd hr (Nat.not_lt.mpr (length_numberText_open rfl ho (by decide)))⟩

theorem suffixText_of_closed {params : Bytes} (h : format params ≠ [] → NumbersClosed params)
    (g : Residue) : suffixText (format params) (uriQuality g params) (uriDegree g params) =
      suffixText (format params) (closedQuality params) (closedDegree params) := by
  by_cases ho : format params = []
  · simp [suffixText, ho]
  · rw [uriQuality_of_closed (h ho), uriDegree_of_closed (h ho)]

theorem contained_format {uri stem params ext : Bytes} (h : IsCStr uri)
    (huri : skipSlash uri = (stem ++ 61 :: params) ++ 46 :: ext) (hext : 46 ∉ ext)
    (heq : 61 ∉ stem) : Contained uri ↔ FormatFits stem params ext := by
  have hc := huri ▸ isCStr_skipSlash h
  have hname : IsCStr (stem ++ 61 :: params) := hc.of_append_left
  have hextc : IsCStr ext := fun hm => hc (by simp [hm])
  have hlen : (stem ++ 61 :: params).length = stem.length + params.length + 1 := by
    simp only [List.length_append, List.length_cons]
    omega
  constructor
  · intro hall
    obtain ⟨⟨ret, fi⟩, hrun⟩ := Option.isSome_iff_exists.mp (hall nines)
    obtain ⟨more, hsize, hmore, hcase⟩ := parseUri_params h huri hext heq hrun
    refine ⟨hsize, ?_⟩
    by_cases hlong : MAX_SUFFIX_SIZE < params.length
    · exact Or.inl hlong
    have hroom : stem.length + params.length + 1 < FI_FULL_FILENAME_SIZE := by
      by_contra hfull
      -- a name that fills its array is continued up to twelve characters of formats
      obtain ⟨⟨ret, fi⟩, hrun⟩ := Option.isSome_iff_exists.mp
        (hall ⟨.zero _, .zero _, [], List.replicate (MAX_SUFFIX_SIZE - params.length) 120⟩)
      obtain ⟨more, -, hmore, hcase⟩ := parseUri_params h huri hext heq hrun
      have hx : cstr (List.replicate (MAX_SUFFIX_SIZE - params.length) 120) =
          List.replicate (MAX_SUFFIX_SIZE - params.length) 120 :=
        cstr_eq_self fun hm => by cases List.eq_of_mem_replicate hm
      rw [if_neg hfull, hx] at hmore
      have hmlen : (params ++ more).length = MAX_SUFFIX_SIZE := by
        rw [hmore, List.length_append, List.length_replicate]
        omega
      rcases hcase with ⟨hcase, -⟩ | ⟨hcase, -⟩ <;> omega
    rw [if_pos hroom] at hmore
    rw [hmore, List.append_nil] at hcase
    obtain ⟨hshort, -, hfits, -⟩ := hcase.resolve_left fun hlong' => hlong hlong'.1
    have hclosed : format params ≠ [] → NumbersClosed params := fun ho =>
      closed_of_nines (hfits.suffix ho)
    have hfull := hfits.full
    rw [suffixText_of_closed hclosed] at hfull
    exact Or.inr ⟨hroom, hshort, hfits.extension, hclosed, hfull⟩
  · rintro ⟨hsize, hrest⟩ g
    rcases parseUri_dot (g := g) h huri hext with ⟨-, hbig⟩ | ⟨full, more, -, -, hmore, hparse⟩
    · omega
    · rw [hparse, List.append_assoc, List.cons_append]
      rcases hrest with hlong | ⟨hroom, hshort, hextlen, hclosed, hfull⟩
      · have hlong' : MAX_SUFFIX_SIZE < (params ++ more).length := by
          rw [List.length_append]
          omega
        obtain ⟨orig, horig⟩ := uriOriginal_refused g ext full heq
          (by unfold FI_ORIG_FILENAME_SIZE FI_FULL_FILENAME_SIZE at *; omega) hlong'
        rw [horig]
        rfl
      · have hnil : more = [] := by rw [hmore, if_pos (by omega)]
        have hfits : NamesFit stem ext (format params) (uriQuality g params)
            (uriDegree g params) := by
          refine ⟨hextlen, fun ho => ?_, by rw [suffixText_of_closed hclosed]; exact hfull⟩
          rw [uriQuality_of_closed (hclosed ho), uriDegree_of_closed (hclosed ho)]
          exact suffixFits_closed hshort
        obtain ⟨fi, hfi⟩ := uriOriginal_format_of_fits g full hname hextc heq
          (by unfold FI_ORIG_FILENAME_SIZE FI_FULL_FILENAME_SIZE at *; omega) hshort hfits
        rw [hnil, List.append_nil, hfi]
        rfl

theorem contained_fits {uri : Bytes} (h : IsCStr uri) : Contained uri ↔ Fits uri := by
  rcases uri_cases uri with hdot | ⟨name, ext, huri, hext, heq⟩ |
    ⟨stem, params, ext, huri, hext, heq⟩
  · refine ⟨fun _ => ?_, fun _ g => ?_⟩
    · simp only [Fits, strrchr_eq_none.mpr hdot]
    · rw [parseUri_no_dot hdot]
      rfl
  · rw [contained_plain h huri hext heq, (fits_plain huri hext heq).1]
  · rw [contained_format h huri hext heq, (fits_format huri hext heq).1]

/-- **Every store lands inside its array** for exactly the URIs whose parts fit. -/
theorem contained_iff_fits (uri : Bytes) (h : IsCStr uri) :
    (∀ g, (parseUri g uri fileInfoInit).isSome) ↔ Fits uri := contained_fits h

theorem contained_iff_fits_small : Contained (ascii "/group1/M00/a=small_r9.jpg") :=
  (contained_iff_fits (ascii "/group1/M00/a=small_r9.jpg") (by decide)).mpr (by decide)

/-- An extension of five letters runs over its array. -/
theorem not_contained_long_extension : ¬ Contained (ascii "/photo.jpegx") := by
  intro h
  have hrun := h ⟨.zero _, .zero _, [], []⟩
  revert hrun
  decide +kernel

/-! ## Depending on the URI alone -/

/-- What a call of `parse_uri` hands back: the code, the numbers, the suffix and the name. -/
def uriOutcome (r : Int × FileInfo) : Int × UInt32 × UInt32 × Bytes × Bytes :=
  (r.1, r.2.quality, r.2.rotateDegree, r.2.suffix.str [], r.2.fullFilename.str [])

/-- There is one outcome, whatever uninitialised memory holds. -/
def Determined (uri : Bytes) : Prop :=
  ∃ out, ∀ g, (parseUri g uri fileInfoInit).map uriOutcome = some out

theorem Determined.contained {uri : Bytes} (h : Determined uri) : Contained uri := by
  obtain ⟨out, hout⟩ := h
  intro g
  have := hout g
  cases hrun : parseUri g uri fileInfoInit with
  | none => simp [hrun] at this
  | some r => rfl

/-- The outcome for a name with the parts `stem`, `o`, `q`, `r` and `ext`. -/
def namedOutcome (stem ext o : Bytes) (q r : UInt32) : Int × UInt32 × UInt32 × Bytes × Bytes :=
  (0, (if o = [] then q else q * 10), (if o = [] then r else r * 10), suffixText o q r,
    stem ++ suffixText o q r ++ ascii "." ++ ext)

theorem Named.outcome {stem ext o : Bytes} {q r : UInt32} {fi : FileInfo}
    (h : Named stem ext o q r fi) : uriOutcome (0, fi) = namedOutcome stem ext o q r := by
  simp only [uriOutcome, namedOutcome, h.quality, h.degree, h.suffix, h.full]

/-- Memory in which the digit `d` follows the first `k` characters of the second array. -/
def digitResidue (k : Nat) (hk : k < MAX_SUFFIX_SIZE) (d : UInt8) : Residue :=
  ⟨.zero _, ⟨List.replicate k 0 ++ d :: List.replicate (MAX_SUFFIX_SIZE - 1 - k) 0, by
    simp only [List.length_append, List.length_cons, List.length_replicate]
    omega⟩, [], []⟩

theorem digitResidue_tail {k : Nat} (hk : k < MAX_SUFFIX_SIZE) {d : UInt8} (hd : d ≠ 0) :
    cstr ((digitResidue k hk d).arr2.bytes.drop k ++ (digitResidue k hk d).pastArr2) = [d] := by
  have hdrop : (List.replicate k (0 : UInt8) ++
      d :: List.replicate (MAX_SUFFIX_SIZE - 1 - k) 0).drop k =
      d :: List.replicate (MAX_SUFFIX_SIZE - 1 - k) 0 := List.drop_left' (by simp)
  simp only [digitResidue, hdrop, List.append_nil]
  cases h : MAX_SUFFIX_SIZE - 1 - k <;> simp [cstr, hd, List.replicate_succ]

theorem numberRead_open_ne {params : Bytes} {c : UInt8} {k : Nat} (hk : k ≤ 2)
    (h : OpenNumber params c k) : numberRead params c k [51] ≠ numberRead params c k [52] := by
  unfold OpenNumber at h
  unfold numberRead
  cases hc : strrchr params c with
  | none => simp [hc] at h
  | some i =>
    simp only [hc] at h ⊢
    rw [if_neg (Nat.not_lt.mpr h.1), if_neg (Nat.not_lt.mpr h.1)]
    have hdigit : ∀ x, isDigit x = true → ∀ d ∈ [x], isDigit d = true := by
      intro x hx d hd
      rwa [List.mem_singleton.mp hd]
    rw [atoi_append_of_open h.2 (by simp) (hdigit 51 rfl),
      atoi_append_of_open h.2 (by simp) (hdigit 52 rfl)]
    rw [digitsValue_append_singleton, digitsValue_append_singleton]
    have hlen : ((params.drop (i + 1)).take k).length ≤ 2 := by
      rw [List.length_take]
      omega
    have hv := digitsValue_open_lt h.2
    have hpow := Nat.pow_le_pow_right (show 0 < 10 by decide) hlen
    generalize digitsValue (splitSign (((params.drop (i + 1)).take k).dropWhile isSpace)).2 = v
      at hv
    generalize (splitSign (((params.drop (i + 1)).take k).dropWhile isSpace)).1 = minus
    have hvalue : ∀ d : Nat, d ≤ 9 → (UInt32.ofInt (saturate (if minus
        then -((10 * v + d : Nat) : Int) else (10 * v + d : Nat)))).toInt32.toInt =
        if minus then -((10 * v + d : Nat) : Int) else (10 * v + d : Nat) := by
      intro d hd
      have hsmall : (10 * v + d : Nat) < 1010 := by omega
      generalize (10 * v + d : Nat) = w at hsmall
      have hlow : -2147483648 ≤ if minus then -(w : Int) else w := by split <;> omega
      have hhigh : (if minus then -(w : Int) else w) ≤ 2147483647 := by split <;> omega
      rw [saturate_eq hlow hhigh, toInt_ofInt hlow hhigh]
    intro heq
    have hint := congrArg (·.toInt32.toInt) heq
    have h3 : (51 : UInt8).toNat - 48 = 3 := rfl
    have h4 : (52 : UInt8).toNat - 48 = 4 := rfl
    simp only [h3, h4] at hint
    rw [hvalue 3 (by decide), hvalue 4 (by decide)] at hint
    split at hint <;> omega

theorem Determined.numbers {uri stem params ext : Bytes} (h : IsCStr uri) (hdet : Determined uri)
    (huri : skipSlash uri = (stem ++ 61 :: params) ++ 46 :: ext) (hext : 46 ∉ ext)
    (heq : 61 ∉ stem) (hshort : params.length < MAX_SUFFIX_SIZE) (ho : format params = [])
    (g g' : Residue) :
    uriQuality g params = uriQuality g' params ∧ uriDegree g params = uriDegree g' params := by
  obtain ⟨-, hrest⟩ := (contained_format h huri hext heq).mp hdet.contained
  obtain ⟨hroom, -⟩ := hrest.resolve_left (by omega)
  obtain ⟨out, hout⟩ := hdet
  have hrun : ∀ g, out.2.1 = uriQuality g params ∧ out.2.2.1 = uriDegree g params := by
    intro g
    obtain ⟨⟨ret, fi⟩, hsome, hval⟩ := Option.map_eq_some_iff.mp (hout g)
    obtain ⟨more, -, hmore, hcase⟩ := parseUri_params h huri hext heq hsome
    rw [hmore, if_pos hroom, List.append_nil] at hcase
    obtain ⟨-, rfl, -, hnamed⟩ := hcase.resolve_left (by omega)
    rw [← hval, hnamed.outcome]
    simp [namedOutcome, ho]
  exact ⟨(hrun g).1.symm.trans (hrun g').1, (hrun g).2.symm.trans (hrun g').2⟩

theorem closed_of_determined {uri stem params ext : Bytes} (h : IsCStr uri)
    (hdet : Determined uri) (huri : skipSlash uri = (stem ++ 61 :: params) ++ 46 :: ext)
    (hext : 46 ∉ ext) (heq : 61 ∉ stem) (hshort : params.length < MAX_SUFFIX_SIZE) :
    NumbersClosed params := by
  by_cases ho : format params = []
  · intro hmem
    have hnumbers := hdet.numbers h huri hext heq hshort ho
    constructor
    · intro hopen
      have hq := (hnumbers (digitResidue 1 (by decide) 51) (digitResidue 1 (by decide) 52)).1
      unfold uriQuality at hq
      rw [if_pos hmem, if_pos hmem, digitResidue_tail (by decide) (by decide),
        digitResidue_tail (by decide) (by decide)] at hq
      exact numberRead_open_ne (by decide) hopen hq
    · intro hopen
      have hr := (hnumbers (digitResidue 2 (by decide) 51) (digitResidue 2 (by decide) 52)).2
      unfold uriDegree at hr
      rw [if_pos hmem, if_pos hmem, digitResidue_tail (by decide) (by decide),
        digitResidue_tail (by decide) (by decide)] at hr
      exact numberRead_open_ne (by decide) hopen hr
  · obtain ⟨-, hrest⟩ := (contained_format h huri hext heq).mp hdet.contained
    obtain ⟨-, -, -, hclosed, -⟩ := hrest.resolve_left (by omega)
    exact hclosed ho

/-- **The outcome is a function of the URI** exactly when its parts fit and the numbers in its
formats, if they are read, end inside it. -/
theorem determined_iff (uri : Bytes) (h : IsCStr uri) :
    Determined uri ↔ Fits uri ∧ ReadsOnlyUri uri := by
  have hcontained := contained_fits h
  rcases uri_cases uri with hdot | ⟨name, ext, huri, hext, heq⟩ |
    ⟨stem, params, ext, huri, hext, heq⟩
  · have hreads : ReadsOnlyUri uri := by simp only [ReadsOnlyUri, strrchr_eq_none.mpr hdot]
    refine ⟨fun hdet => ⟨hcontained.mp hdet.contained, hreads⟩,
      fun _ => ⟨uriOutcome (-1, fileInfoInit), fun g => ?_⟩⟩
    rw [parseUri_no_dot hdot]
    rfl
  · refine ⟨fun hdet => ⟨hcontained.mp hdet.contained, (fits_plain huri hext heq).2⟩, ?_⟩
    rintro ⟨hfits, -⟩
    obtain ⟨-, hroom⟩ := (fits_plain huri hext heq).1.mp hfits
    refine ⟨namedOutcome name ext [] 0 0, fun g => ?_⟩
    obtain ⟨⟨ret, fi⟩, hsome⟩ := Option.isSome_iff_exists.mp (hcontained.mpr hfits g)
    obtain ⟨rfl, -, hnamed⟩ := parseUri_plain h huri hext heq (Or.inr (by omega)) hsome
    rw [hsome, Option.map_some, hnamed.outcome]
  · refine ⟨fun hdet => ⟨hcontained.mp hdet.contained, (fits_format huri hext heq).2.mpr
      (closed_of_determined h hdet huri hext heq)⟩, ?_⟩
    rintro ⟨hfits, hreads⟩
    have hlen : (stem ++ 61 :: params).length = stem.length + params.length + 1 := by
      simp only [List.length_append, List.length_cons]
      omega
    obtain ⟨hsize, hrest⟩ := (fits_format huri hext heq).1.mp hfits
    have hclosed := (fits_format huri hext heq).2.mp hreads
    rcases hrest with hlong | ⟨hroom, hshort, hextlen, hclosed', hfull⟩
    · refine ⟨(-2, 0, 0, [], stem ++ 61 :: params), fun g => ?_⟩
      rcases parseUri_dot (g := g) h huri hext with ⟨-, hbig⟩ | ⟨full, more, -, hfull, -, hparse⟩
      · omega
      · have hlong' : MAX_SUFFIX_SIZE < (params ++ more).length := by
          rw [List.length_append]
          omega
        obtain ⟨orig, horig⟩ := uriOriginal_refused g ext full heq
          (by unfold FI_ORIG_FILENAME_SIZE FI_FULL_FILENAME_SIZE at *; omega) hlong'
        rw [hparse, List.append_assoc, List.cons_append, horig, Option.map_some, ← hfull]
        simp [uriOutcome, fileInfoInit]
    · refine ⟨namedOutcome stem ext (format params) (closedQuality params) (closedDegree params),
        fun g => ?_⟩
      obtain ⟨⟨ret, fi⟩, hsome⟩ := Option.isSome_iff_exists.mp (hcontained.mpr hfits g)
      obtain ⟨more, -, hmore, hcase⟩ := parseUri_params h huri hext heq hsome
      rw [hmore, if_pos hroom, List.append_nil] at hcase
      obtain ⟨-, rfl, -, hnamed⟩ := hcase.resolve_left (by omega)
      rw [uriQuality_of_closed (hclosed hshort), uriDegree_of_closed (hclosed hshort)] at hnamed
      rw [hsome, Option.map_some, hnamed.outcome]

theorem determined_iff_thumbnail : Determined (ascii "/group1/M00/a=small_r9.jpg") :=
  (determined_iff (ascii "/group1/M00/a=small_r9.jpg") (by decide)).mpr (by decide)

/-- The quality read from `a=b_q7.jpg` depends on the byte behind the copied digit. -/
theorem not_determined_quality : ¬ ∀ g g',
    (parseUri g (ascii "/a=b_q7.jpg") fileInfoInit).map uriOutcome =
      (parseUri g' (ascii "/a=b_q7.jpg") fileInfoInit).map uriOutcome := by
  intro h
  have hsame := h ⟨.zero _, .zero _, [], []⟩ (digitResidue 1 (by decide) 51)
  revert hsame
  decide +kernel

end Lighttpd
