import Lighttpd.Lib.Numeral

/-!
# `autothumb/common.c`: `parse_uri`

The name of a thumbnail, `base=format_qN_rNN.ext`, is taken apart and put together again as the
name it is stored under. The function copies pieces of the URI between arrays of fixed size; a copy
that leaves its array has no value. `Residue` is what uninitialised memory happens to hold: the
local arrays, and the memory behind the two arrays that can end up without a terminator. `size_t`,
`int` and `long` have 32 bits.
-/

namespace Lighttpd

open CLib

def FI_FILE_EXTENSION_SIZE : Nat := 5
def FI_FULL_FILENAME_SIZE : Nat := 128
def FI_ORIG_FILENAME_SIZE : Nat := 128
def FI_OUTER_FORMAT_SIZE : Nat := 16
def FI_INNER_FORMAT_SIZE : Nat := 32
def FI_SUFFIX_SIZE : Nat := 32
def MAX_SUFFIX_SIZE : Nat := 12

/-- `file_info_t` -/
structure FileInfo where
  rotateDegree : UInt32
  quality : UInt32
  fileExtension : Block FI_FILE_EXTENSION_SIZE
  fullFilename : Block FI_FULL_FILENAME_SIZE
  origFilename : Block FI_ORIG_FILENAME_SIZE
  outerFormat : Block FI_OUTER_FORMAT_SIZE
  innerFormat : Block FI_INNER_FORMAT_SIZE
  suffix : Block FI_SUFFIX_SIZE
  createTimestamp : Int
  deriving DecidableEq

def fileInfoInit : FileInfo where
  rotateDegree := 0
  quality := 0
  fileExtension := .zero _
  fullFilename := .zero _
  origFilename := .zero _
  outerFormat := .zero _
  innerFormat := .zero _
  suffix := .zero _
  createTimestamp := 0

/-- The uninitialised memory a call of `parse_uri` meets. -/
structure Residue where
  arr1 : Block MAX_SUFFIX_SIZE
  arr2 : Block MAX_SUFFIX_SIZE
  pastArr2 : Bytes
  pastFull : Bytes

structure UriState where
  fi : FileInfo
  arr1 : Block MAX_SUFFIX_SIZE
  arr2 : Block MAX_SUFFIX_SIZE

/-- `p1 = strrchr(arr1, c)`, and if found `strncpy(arr2, p1 + 1, k)` and `atoi(arr2)`; `old` is the
value otherwise. -/
def uriNumber (past : Bytes) (st : UriState) (c : UInt8) (k : Nat) (old : UInt32) :
    Option (UriState × UInt32) :=
  match strrchr (st.arr1.str []) c with
  | none => some (st, old)
  | some i => do
    let arr2 ← st.arr2.strncpy ((st.arr1.str []).drop (i + 1)) k
    some ({ st with arr2 := arr2 }, UInt32.ofInt (atoi (arr2.str past)))

/-- The format, quality and rotation in `arr1`. -/
def uriParams (past : Bytes) (st : UriState) : Option UriState :=
  match strchr (st.arr1.str []) 95 with
  | none => do
    let outer ← st.fi.outerFormat.strcpy (st.arr1.str [])
    some { st with fi := { st.fi with outerFormat := outer } }
  | some i => do
    let outer ← st.fi.outerFormat.strncpy (st.arr1.str []) i
    let (st, quality) ← uriNumber past { st with fi := { st.fi with outerFormat := outer } } 113 1
      st.fi.quality
    let (st, degree) ← uriNumber past { st with fi := { st.fi with quality := quality } } 114 2
      st.fi.rotateDegree
    some { st with fi := { st.fi with rotateDegree := degree } }

/-- `sprintf(arr, "_q%d", v)`; the `size_t` is printed as an `int`. -/
def numberPart (tag : String) (v : UInt32) : Bytes := ascii tag ++ decimal v.toInt32.toInt

/-- `*arr = '\0'; if (v > 0) sprintf(arr, tag "%d", v);` -/
def printNumber (arr : Block MAX_SUFFIX_SIZE) (tag : String) (v : UInt32) :
    Option (Block MAX_SUFFIX_SIZE) := do
  let arr ← arr.store 0 [0]
  if v > 0 then arr.strcpy (numberPart tag v) else some arr

/-- `if (*(fi->outer_format) != '\0')`: the suffix of a formatted picture. A number that is not
printed is 0, which the multiplication leaves. -/
def uriSuffix (st : UriState) : Option FileInfo :=
  if st.fi.outerFormat.str [] = [] then some st.fi
  else do
    let arr1 ← printNumber st.arr1 "_q" st.fi.quality
    let arr2 ← printNumber st.arr2 "_r" st.fi.rotateDegree
    let suffix ← st.fi.suffix.strcpy
      (ascii "_" ++ st.fi.outerFormat.str [] ++ arr1.str [] ++ arr2.str [])
    some { st.fi with
      suffix := suffix, quality := st.fi.quality * 10, rotateDegree := st.fi.rotateDegree * 10 }

/-- The part behind the formats: extension, suffix and the two names. The second `sprintf` reads
the name it overwrites. -/
def uriNames (ext : Bytes) (st : UriState) : Option (Int × FileInfo) := do
  let extension ← st.fi.fileExtension.strcpy ext
  let fi ← uriSuffix { st with fi := { st.fi with fileExtension := extension } }
  let orig := fi.origFilename.str []
  let full ← fi.fullFilename.strcpy
    (orig ++ fi.suffix.str [] ++ ascii "." ++ fi.fileExtension.str [])
  let origFull ← fi.origFilename.strcpy (orig ++ ascii "." ++ fi.fileExtension.str [])
  some (0, { fi with fullFilename := full, origFilename := origFull })

/-- The original name and the formats in `name`, the part of the URI before its extension. -/
def uriOriginal (g : Residue) (name ext : Bytes) (fi : FileInfo) : Option (Int × FileInfo) :=
  match strchr name 61 with
  | none => do
    let outer ← fi.outerFormat.store 0 [0]
    let suffix ← fi.suffix.store 0 [0]
    let orig ← fi.origFilename.strcpy name
    let fi := { fi with outerFormat := outer, suffix := suffix, origFilename := orig }
    uriNames ext { fi := fi, arr1 := g.arr1, arr2 := g.arr2 }
  | some eq => do
    let orig ← fi.origFilename.strncpy name eq
    let fi := { fi with origFilename := orig }
    let params := name.drop (eq + 1)
    if params.length > MAX_SUFFIX_SIZE then some (-2, fi)
    else do
      let arr1 ← g.arr1.strcpy params
      let st ← uriParams g.pastArr2 { fi := fi, arr1 := arr1, arr2 := g.arr2 }
      uriNames ext st

def skipSlash (uri : Bytes) : Bytes :=
  match uri with
  | 47 :: rest => rest
  | _ => uri

/-- The return value and the structure at `fi`. -/
def parseUri (g : Residue) (uri : Bytes) (fi : FileInfo) : Option (Int × FileInfo) :=
  let uri := skipSlash uri
  match strrchr uri 46 with
  | none => some (-1, fi)
  | some dot => do
    let full ← fi.fullFilename.strncpy uri dot
    uriOriginal g (full.str g.pastFull) (uri.drop (dot + 1)) { fi with fullFilename := full }

/-! ## The suffix and the names -/

def numberText (tag : String) (v : UInt32) : Bytes := if v > 0 then numberPart tag v else []

/-- The suffix of a picture with format `o`, quality `q` and rotation `r`. -/
def suffixText (o : Bytes) (q r : UInt32) : Bytes :=
  if o = [] then [] else ascii "_" ++ o ++ numberText "_q" q ++ numberText "_r" r

theorem isCStr_numberText {tag : String} (htag : IsCStr (ascii tag)) (v : UInt32) :
    IsCStr (numberText tag v) := by
  unfold numberText numberPart
  split
  · exact htag.append (isCStr_decimal _)
  · exact List.not_mem_nil

theorem isCStr_suffixText {o : Bytes} (ho : IsCStr o) (q r : UInt32) :
    IsCStr (suffixText o q r) := by
  unfold suffixText
  split
  · exact List.not_mem_nil
  · exact ((IsCStr.append (by decide) ho).append (isCStr_numberText (by decide) q)).append
      (isCStr_numberText (by decide) r)

theorem printNumber_of_fits {tag : String} {v : UInt32}
    (h : (numberText tag v).length < MAX_SUFFIX_SIZE) (arr : Block MAX_SUFFIX_SIZE) :
    ∃ arr', printNumber arr tag v = some arr' := by
  obtain ⟨a, ha⟩ := Block.exists_store 0 (s := [0]) (by decide) arr
  unfold printNumber
  simp only [ha, Option.bind_eq_bind, Option.bind_some]
  unfold numberText at h
  split
  · next hv =>
    rw [if_pos hv] at h
    exact Block.exists_strcpy h a
  · exact ⟨a, rfl⟩

theorem printNumber_spec {arr arr' : Block MAX_SUFFIX_SIZE} {tag : String} {v : UInt32}
    (htag : IsCStr (ascii tag)) (h : printNumber arr tag v = some arr') :
    (numberText tag v).length < MAX_SUFFIX_SIZE ∧ ∀ past, arr'.str past = numberText tag v := by
  unfold printNumber at h
  obtain ⟨a, ha, h⟩ := Option.bind_eq_some_iff.mp h
  unfold numberText
  split at h
  · next hv =>
    rw [if_pos hv]
    exact ⟨Block.strcpy_lt h, Block.str_strcpy h (htag.append (isCStr_decimal _))⟩
  · next hv =>
    cases h
    rw [if_neg hv]
    refine ⟨by decide, fun past => ?_⟩
    rw [Block.str, Block.store_bytes ha]
    simp [cstr]

/-- What the three calls of `sprintf` for the suffix need. -/
structure SuffixFits (o : Bytes) (q r : UInt32) : Prop where
  quality : (numberText "_q" q).length < MAX_SUFFIX_SIZE
  degree : (numberText "_r" r).length < MAX_SUFFIX_SIZE
  all : (suffixText o q r).length < FI_SUFFIX_SIZE

theorem uriSuffix_of_fits (st : UriState) {o : Bytes} (ho : st.fi.outerFormat.str [] = o)
    (h : o ≠ [] → SuffixFits o st.fi.quality st.fi.rotateDegree) :
    ∃ fi, uriSuffix st = some fi := by
  unfold uriSuffix
  rw [ho]
  split
  · exact ⟨_, rfl⟩
  · next hne =>
    obtain ⟨arr1, h1⟩ := printNumber_of_fits (h hne).quality st.arr1
    obtain ⟨arr2, h2⟩ := printNumber_of_fits (h hne).degree st.arr2
    have hs1 := (printNumber_spec (by decide) h1).2 []
    have hs2 := (printNumber_spec (by decide) h2).2 []
    have hall := (h hne).all
    rw [suffixText, if_neg hne] at hall
    obtain ⟨suffix, h3⟩ := Block.exists_strcpy hall st.fi.suffix
    simp only [h1, h2, hs1, hs2, h3, Option.bind_eq_bind, Option.bind_some]
    exact ⟨_, rfl⟩

theorem uriSuffix_spec (st : UriState) {fi : FileInfo} {o : Bytes}
    (ho : st.fi.outerFormat.str [] = o) (hsuffix : st.fi.suffix.str [] = [])
    (h : uriSuffix st = some fi) :
    (o ≠ [] → SuffixFits o st.fi.quality st.fi.rotateDegree) ∧
      fi.suffix.str [] = suffixText o st.fi.quality st.fi.rotateDegree ∧
      ∃ suffix, fi = { st.fi with
        suffix := suffix
        quality := if o = [] then st.fi.quality else st.fi.quality * 10
        rotateDegree := if o = [] then st.fi.rotateDegree else st.fi.rotateDegree * 10 } := by
  unfold uriSuffix at h
  rw [ho] at h
  split at h
  · next hnil =>
    cases h
    refine ⟨fun hn => absurd hnil hn, ?_, st.fi.suffix, by simp [hnil]⟩
    rw [hsuffix, suffixText, if_pos hnil]
  · next hne =>
    obtain ⟨arr1, h1, h⟩ := Option.bind_eq_some_iff.mp h
    obtain ⟨arr2, h2, h⟩ := Option.bind_eq_some_iff.mp h
    obtain ⟨suffix, h3, h⟩ := Option.bind_eq_some_iff.mp h
    cases h
    obtain ⟨hq, hs1⟩ := printNumber_spec (by decide) h1
    obtain ⟨hr, hs2⟩ := printNumber_spec (by decide) h2
    have hcstr : IsCStr o := ho ▸ isCStr_cstr _
    have htext : suffixText o st.fi.quality st.fi.rotateDegree = ascii "_" ++ o ++
        numberText "_q" st.fi.quality ++ numberText "_r" st.fi.rotateDegree := if_neg hne
    rw [hs1, hs2, ← htext] at h3
    exact ⟨fun _ => ⟨hq, hr, Block.strcpy_lt h3⟩,
      Block.str_strcpy h3 (isCStr_suffixText hcstr _ _) [], suffix, by simp [hne]⟩

/-- What the last part of `parse_uri` needs: room for the extension, the suffix and the name. -/
structure NamesFit (stem ext o : Bytes) (q r : UInt32) : Prop where
  extension : ext.length < FI_FILE_EXTENSION_SIZE
  suffix : o ≠ [] → SuffixFits o q r
  full : stem.length + (suffixText o q r).length + ext.length + 1 < FI_FULL_FILENAME_SIZE

structure Named (stem ext o : Bytes) (q r : UInt32) (fi : FileInfo) : Prop where
  extension : fi.fileExtension.str [] = ext
  outer : fi.outerFormat.str [] = o
  suffix : fi.suffix.str [] = suffixText o q r
  full : fi.fullFilename.str [] = stem ++ suffixText o q r ++ ascii "." ++ ext
  orig : fi.origFilename.str [] = stem ++ ascii "." ++ ext
  quality : fi.quality = if o = [] then q else q * 10
  degree : fi.rotateDegree = if o = [] then r else r * 10

section Names

variable {ext stem o : Bytes} {st : UriState}

theorem uriNames_of_fits (hext : IsCStr ext) (horig : st.fi.origFilename.str [] = stem)
    (ho : st.fi.outerFormat.str [] = o) (hsuffix : st.fi.suffix.str [] = [])
    (h : NamesFit stem ext o st.fi.quality st.fi.rotateDegree) :
    ∃ fi, uriNames ext st = some (0, fi) := by
  obtain ⟨extension, he⟩ := Block.exists_strcpy h.extension st.fi.fileExtension
  have hestr := Block.str_strcpy he hext []
  obtain ⟨fi, hfi⟩ := uriSuffix_of_fits
    { st with fi := { st.fi with fileExtension := extension } } ho h.suffix
  obtain ⟨-, hsuf, suffix, hfields⟩ := uriSuffix_spec
    { st with fi := { st.fi with fileExtension := extension } } ho hsuffix hfi
  have horig' : fi.origFilename.str [] = stem := by rw [hfields]; exact horig
  have hext' : fi.fileExtension.str [] = ext := by rw [hfields]; exact hestr
  have hfull := h.full
  have hdot : (ascii ".").length = 1 := rfl
  obtain ⟨full, h1⟩ := Block.exists_strcpy (b := fi.fullFilename)
    (s := stem ++ suffixText o st.fi.quality st.fi.rotateDegree ++ ascii "." ++ ext)
    (by simp only [List.length_append, hdot]; omega)
  obtain ⟨orig, h2⟩ := Block.exists_strcpy (b := fi.origFilename) (s := stem ++ ascii "." ++ ext)
    (by
      simp only [List.length_append, hdot, FI_ORIG_FILENAME_SIZE, FI_FULL_FILENAME_SIZE] at hfull ⊢
      omega)
  unfold uriNames
  simp only [he, hfi, horig', hext', hsuf, h1, h2, Option.bind_eq_bind, Option.bind_some]
  exact ⟨_, rfl⟩

theorem uriNames_spec {ret : Int} {fi : FileInfo}
    (hext : IsCStr ext) (horig : st.fi.origFilename.str [] = stem)
    (ho : st.fi.outerFormat.str [] = o) (hsuffix : st.fi.suffix.str [] = [])
    (h : uriNames ext st = some (ret, fi)) :
    ret = 0 ∧ NamesFit stem ext o st.fi.quality st.fi.rotateDegree ∧
      Named stem ext o st.fi.quality st.fi.rotateDegree fi := by
  have hstem : IsCStr stem := horig ▸ isCStr_cstr _
  have hocstr : IsCStr o := ho ▸ isCStr_cstr _
  unfold uriNames at h
  obtain ⟨extension, he, h⟩ := Option.bind_eq_some_iff.mp h
  obtain ⟨fi1, hfi, h⟩ := Option.bind_eq_some_iff.mp h
  obtain ⟨full, h1, h⟩ := Option.bind_eq_some_iff.mp h
  obtain ⟨orig, h2, h⟩ := Option.bind_eq_some_iff.mp h
  cases h
  obtain ⟨hfits, hsuf, suffix, hfields⟩ := uriSuffix_spec
    { st with fi := { st.fi with fileExtension := extension } } ho hsuffix hfi
  have hestr := Block.str_strcpy he hext []
  have horig' : fi1.origFilename.str [] = stem := by rw [hfields]; exact horig
  have hext' : fi1.fileExtension.str [] = ext := by rw [hfields]; exact hestr
  have hdot : IsCStr (ascii ".") := by decide
  rw [horig', hsuf, hext'] at h1
  rw [horig', hext'] at h2
  have hlen := Block.strcpy_lt h1
  simp only [List.length_append, show (ascii ".").length = 1 from rfl] at hlen
  have hsufc := isCStr_suffixText hocstr st.fi.quality st.fi.rotateDegree
  refine ⟨rfl, ⟨Block.strcpy_lt he, hfits, by omega⟩, ?_⟩
  exact
    { extension := hext'
      outer := by rw [hfields]; exact ho
      suffix := hsuf
      full := Block.str_strcpy h1 (((hstem.append hsufc).append hdot).append hext) []
      orig := Block.str_strcpy h2 ((hstem.append hdot).append hext) []
      quality := by rw [hfields]
      degree := by rw [hfields] }

end Names

/-! ## The formats -/

/-- The value read for the number behind the last `c`, when `tail` follows the `k` copied
characters in the array. -/
def numberRead (params : Bytes) (c : UInt8) (k : Nat) (tail : Bytes) : UInt32 :=
  match strrchr params c with
  | none => 0
  | some i =>
    let field := params.drop (i + 1)
    UInt32.ofInt (atoi (if field.length < k then field else field.take k ++ tail))

def format (params : Bytes) : Bytes := params.takeWhile (· != 95)

def uriQuality (g : Residue) (params : Bytes) : UInt32 :=
  if 95 ∈ params then numberRead params 113 1 (cstr (g.arr2.bytes.drop 1 ++ g.pastArr2)) else 0

def uriDegree (g : Residue) (params : Bytes) : UInt32 :=
  if 95 ∈ params then numberRead params 114 2 (cstr (g.arr2.bytes.drop 2 ++ g.pastArr2)) else 0

theorem format_length_le (params : Bytes) : (format params).length ≤ params.length :=
  (List.takeWhile_prefix _).length_le

theorem uriNumber_eq (past : Bytes) (st : UriState) {params : Bytes} (hp : st.arr1.str [] = params)
    {c : UInt8} {k : Nat} (hk : k ≤ MAX_SUFFIX_SIZE) {old : UInt32} (hold : old = 0) :
    ∃ arr2, uriNumber past st c k old = some ({ st with arr2 := arr2 },
        numberRead params c k (cstr (st.arr2.bytes.drop k ++ past))) ∧
      arr2.bytes.drop k = st.arr2.bytes.drop k := by
  have hcstr : IsCStr params := hp ▸ isCStr_cstr _
  unfold uriNumber numberRead
  rw [hp]
  cases strrchr params c with
  | none => exact ⟨st.arr2, by rw [hold], rfl⟩
  | some i =>
    obtain ⟨arr2, h⟩ := Block.exists_strncpy hk st.arr2 (params.drop (i + 1))
    have hfield : IsCStr (params.drop (i + 1)) := fun hm => hcstr (List.mem_of_mem_drop hm)
    have hstr : arr2.str past = if (params.drop (i + 1)).length < k then params.drop (i + 1)
        else (params.drop (i + 1)).take k ++ cstr (st.arr2.bytes.drop k ++ past) := by
      split
      · next hlt => exact Block.str_strncpy_short h hfield hlt past
      · next hge => exact Block.str_strncpy_full h hfield (Nat.le_of_not_lt hge) past
    refine ⟨arr2, ?_, ?_⟩
    · simp only [h, hstr, Option.bind_eq_bind, Option.bind_some]
    · rw [Block.strncpy_bytes h, List.drop_left' (Block.length_strncpy _ _)]

theorem uriParams_eq (past : Bytes) (st : UriState) {params : Bytes} (hp : st.arr1.str [] = params)
    (hlen : params.length < MAX_SUFFIX_SIZE) (houter : st.fi.outerFormat = .zero _)
    (hq : st.fi.quality = 0) (hr : st.fi.rotateDegree = 0) :
    ∃ st', uriParams past st = some st' ∧ st'.fi.outerFormat.str [] = format params ∧
      st'.fi.origFilename = st.fi.origFilename ∧ st'.fi.suffix = st.fi.suffix ∧
      st'.fi.quality = (if 95 ∈ params
        then numberRead params 113 1 (cstr (st.arr2.bytes.drop 1 ++ past)) else 0) ∧
      st'.fi.rotateDegree = if 95 ∈ params
        then numberRead params 114 2 (cstr (st.arr2.bytes.drop 2 ++ past)) else 0 := by
  have hcstr : IsCStr params := hp ▸ isCStr_cstr _
  have hsize : MAX_SUFFIX_SIZE < FI_OUTER_FORMAT_SIZE := by decide
  unfold uriParams
  rw [hp]
  by_cases hmem : 95 ∈ params
  · obtain ⟨a, b, hab, ha⟩ := List.eq_append_cons_of_mem hmem
    have hformat : format params = a := by
      rw [hab, format, takeWhile_append_of_notMem ha, List.takeWhile_cons_of_neg (by decide),
        List.append_nil]
    have hle : a.length ≤ params.length := by simp [hab]
    obtain ⟨outer, hout⟩ := Block.exists_strncpy (k := a.length) (by omega)
      (Block.zero FI_OUTER_FORMAT_SIZE) params
    have houtstr : outer.str [] = a := by
      rw [Block.str_strncpy_zero hout hcstr hle (by omega), hab]
      simp
    have hchr : strchr params 95 = some a.length := by rw [hab, strchr_append_cons ha]
    obtain ⟨arr2, h1, hdrop⟩ := uriNumber_eq past
      { st with fi := { st.fi with outerFormat := outer } } (c := 113) (k := 1) hp (by decide) hq
    obtain ⟨arr2', h2, -⟩ := uriNumber_eq (c := 114) (k := 2) past
      ({ st with
        fi := { st.fi with
          outerFormat := outer
          quality := numberRead params 113 1 (cstr (st.arr2.bytes.drop 1 ++ past)) }
        arr2 := arr2 }) hp (by decide) hr
    have hdrop2 : arr2.bytes.drop 2 = st.arr2.bytes.drop 2 := by
      have := congrArg (List.drop 1) hdrop
      simpa [List.drop_drop] using this
    simp only [hdrop2] at h2
    simp only [hchr, houter, hout, h1, h2, Option.bind_eq_bind, Option.bind_some]
    refine ⟨_, rfl, by rw [hformat]; exact houtstr, rfl, rfl, ?_, ?_⟩
    · simp [hmem]
    · simp [hmem]
  · obtain ⟨outer, hout⟩ := Block.exists_strcpy (s := params) (by omega)
      (Block.zero FI_OUTER_FORMAT_SIZE)
    have hformat : format params = params := takeWhile_eq_of_notMem hmem
    simp only [strchr_eq_none.mpr hmem, houter, hout, Option.bind_eq_bind, Option.bind_some]
    refine ⟨_, rfl, ?_, rfl, rfl, ?_, ?_⟩
    · rw [hformat]
      exact Block.str_strcpy hout hcstr []
    · simp [hmem, hq]
    · simp [hmem, hr]

section Original

variable {g : Residue} {name ext stem params : Bytes} {full : Block FI_FULL_FILENAME_SIZE}

theorem uriOriginal_plain_of_fits (g : Residue) (full : Block FI_FULL_FILENAME_SIZE)
    (hname : IsCStr name) (hext : IsCStr ext) (heq : 61 ∉ name)
    (h : NamesFit name ext [] 0 0) :
    ∃ fi, uriOriginal g name ext { fileInfoInit with fullFilename := full } = some (0, fi) := by
  have hlen : name.length < FI_ORIG_FILENAME_SIZE := by
    have := h.full
    unfold FI_ORIG_FILENAME_SIZE FI_FULL_FILENAME_SIZE at *
    omega
  obtain ⟨outer, h1⟩ := Block.exists_store 0 (s := [0]) (by decide)
    (Block.zero FI_OUTER_FORMAT_SIZE)
  obtain ⟨suffix, h2⟩ := Block.exists_store 0 (s := [0]) (by decide)
    (Block.zero FI_SUFFIX_SIZE)
  obtain ⟨orig, h3⟩ := Block.exists_strcpy hlen (Block.zero FI_ORIG_FILENAME_SIZE)
  have ho : outer.str [] = [] := by
    rw [Block.str, Block.store_bytes h1]
    simp [cstr]
  have hs : suffix.str [] = [] := by
    rw [Block.str, Block.store_bytes h2]
    simp [cstr]
  unfold uriOriginal
  simp only [strchr_eq_none.mpr heq, fileInfoInit, h1, h2, h3, Option.bind_eq_bind,
    Option.bind_some]
  exact uriNames_of_fits hext (Block.str_strcpy h3 hname []) ho hs h

theorem uriOriginal_plain_spec {ret : Int} {fi : FileInfo} (hname : IsCStr name)
    (hext : IsCStr ext) (heq : 61 ∉ name)
    (h : uriOriginal g name ext { fileInfoInit with fullFilename := full } = some (ret, fi)) :
    ret = 0 ∧ NamesFit name ext [] 0 0 ∧ Named name ext [] 0 0 fi := by
  unfold uriOriginal at h
  simp only [strchr_eq_none.mpr heq, fileInfoInit] at h
  obtain ⟨outer, h1, h⟩ := Option.bind_eq_some_iff.mp h
  obtain ⟨suffix, h2, h⟩ := Option.bind_eq_some_iff.mp h
  obtain ⟨orig, h3, h⟩ := Option.bind_eq_some_iff.mp h
  have ho : outer.str [] = [] := by
    rw [Block.str, Block.store_bytes h1]
    simp [cstr]
  have hs : suffix.str [] = [] := by
    rw [Block.str, Block.store_bytes h2]
    simp [cstr]
  exact uriNames_spec hext (Block.str_strcpy h3 hname []) ho hs h

theorem uriOriginal_refused (g : Residue) (ext : Bytes) (full : Block FI_FULL_FILENAME_SIZE)
    (heq : 61 ∉ stem) (hstem : stem.length ≤ FI_ORIG_FILENAME_SIZE)
    (hparams : MAX_SUFFIX_SIZE < params.length) :
    ∃ orig, uriOriginal g (stem ++ 61 :: params) ext { fileInfoInit with fullFilename := full } =
      some (-2, { fileInfoInit with fullFilename := full, origFilename := orig }) := by
  obtain ⟨orig, h1⟩ := Block.exists_strncpy hstem (Block.zero FI_ORIG_FILENAME_SIZE)
    (stem ++ 61 :: params)
  have hdrop := drop_append_cons stem 61 params
  refine ⟨orig, ?_⟩
  unfold uriOriginal
  simp only [strchr_append_cons heq, fileInfoInit, h1, hdrop, Option.bind_eq_bind,
    Option.bind_some]
  rw [if_pos hparams]

theorem uriOriginal_format_of_fits (g : Residue) (full : Block FI_FULL_FILENAME_SIZE)
    (hname : IsCStr (stem ++ 61 :: params)) (hext : IsCStr ext)
    (heq : 61 ∉ stem) (hstem : stem.length ≤ FI_ORIG_FILENAME_SIZE)
    (hparams : params.length < MAX_SUFFIX_SIZE)
    (h : NamesFit stem ext (format params) (uriQuality g params) (uriDegree g params)) :
    ∃ fi, uriOriginal g (stem ++ 61 :: params) ext { fileInfoInit with fullFilename := full } =
      some (0, fi) := by
  obtain ⟨orig, h1⟩ := Block.exists_strncpy hstem (Block.zero FI_ORIG_FILENAME_SIZE)
    (stem ++ 61 :: params)
  have hdrop := drop_append_cons stem 61 params
  obtain ⟨arr1, h2⟩ := Block.exists_strcpy hparams g.arr1
  have hpc : IsCStr params := fun hm => hname (by simp [hm])
  have horig : orig.str [] = stem := by
    have hfull := h.full
    rw [Block.str_strncpy_zero h1 hname (by simp)
      (by unfold FI_FULL_FILENAME_SIZE FI_ORIG_FILENAME_SIZE at *; omega)]
    simp
  obtain ⟨st, h3, ho, hso, hss, hq, hr⟩ := uriParams_eq g.pastArr2
    ({ fi := { fileInfoInit with fullFilename := full, origFilename := orig }
       arr1 := arr1, arr2 := g.arr2 })
    (Block.str_strcpy h2 hpc []) hparams rfl rfl rfl
  unfold uriOriginal
  simp only [fileInfoInit] at h3
  simp only [strchr_append_cons heq, fileInfoInit, h1, hdrop, Option.bind_eq_bind,
    Option.bind_some, if_neg (Nat.not_lt.mpr (Nat.le_of_lt hparams)), h2, h3]
  have horig' : st.fi.origFilename.str [] = stem := hso ▸ horig
  have hsuffix : st.fi.suffix.str [] = [] := hss ▸ Block.str_zero_nil
  have hq' : st.fi.quality = uriQuality g params := hq
  have hr' : st.fi.rotateDegree = uriDegree g params := hr
  exact uriNames_of_fits hext horig' ho hsuffix (hq' ▸ hr' ▸ h)

theorem uriOriginal_format_spec {ret : Int} {fi : FileInfo} (hname : IsCStr (stem ++ 61 :: params))
    (hext : IsCStr ext) (heq : 61 ∉ stem)
    (h : uriOriginal g (stem ++ 61 :: params) ext { fileInfoInit with fullFilename := full } =
      some (ret, fi)) :
    stem.length ≤ FI_ORIG_FILENAME_SIZE ∧
    (MAX_SUFFIX_SIZE < params.length ∧ ret = -2 ∨
      params.length < MAX_SUFFIX_SIZE ∧ ret = 0 ∧
      NamesFit stem ext (format params) (uriQuality g params) (uriDegree g params) ∧
      Named stem ext (format params) (uriQuality g params) (uriDegree g params) fi) := by
  have hdrop := drop_append_cons stem 61 params
  unfold uriOriginal at h
  simp only [strchr_append_cons heq, fileInfoInit, hdrop] at h
  obtain ⟨orig, h1, h⟩ := Option.bind_eq_some_iff.mp h
  refine ⟨Block.strncpy_le h1, ?_⟩
  split at h
  · next hlong =>
    cases h
    exact Or.inl ⟨hlong, rfl⟩
  · obtain ⟨arr1, h2, h⟩ := Option.bind_eq_some_iff.mp h
    have hparams := Block.strcpy_lt h2
    have hpc : IsCStr params := fun hm => hname (by simp [hm])
    have hsc : IsCStr stem := hname.of_append_left
    obtain ⟨st, h3, ho, hso, hss, hq, hr⟩ := uriParams_eq g.pastArr2
      ({ fi := { fileInfoInit with fullFilename := full, origFilename := orig }
         arr1 := arr1, arr2 := g.arr2 })
      (Block.str_strcpy h2 hpc []) hparams rfl rfl rfl
    simp only [fileInfoInit] at h3
    simp only [h3, Option.bind_eq_bind, Option.bind_some] at h
    have horig : orig.str [] = stem := by
      rw [Block.str_strncpy_full h1 hname (by simp)]
      simp [Block.zero, cstr_zeros]
    have horig' : st.fi.origFilename.str [] = stem := hso ▸ horig
    have hsuffix : st.fi.suffix.str [] = [] := hss ▸ Block.str_zero_nil
    have hq' : st.fi.quality = uriQuality g params := hq
    have hr' : st.fi.rotateDegree = uriDegree g params := hr
    obtain ⟨hret, hfits, hnamed⟩ := uriNames_spec hext horig' ho hsuffix h
    rw [hq', hr'] at hfits hnamed
    exact Or.inr ⟨hparams, hret, hfits, hnamed⟩

end Original

/-! ## What is left alone -/

theorem uriNumber_fi {past : Bytes} {st st' : UriState} {c : UInt8} {k : Nat} {old v : UInt32}
    (h : uriNumber past st c k old = some (st', v)) : st'.fi = st.fi := by
  unfold uriNumber at h
  split at h
  · cases h
    rfl
  · obtain ⟨arr2, -, h⟩ := Option.bind_eq_some_iff.mp h
    cases h
    rfl

theorem uriParams_stamp {past : Bytes} {st st' : UriState} (h : uriParams past st = some st') :
    st'.fi.createTimestamp = st.fi.createTimestamp := by
  unfold uriParams at h
  split at h
  · obtain ⟨outer, -, h⟩ := Option.bind_eq_some_iff.mp h
    cases h
    rfl
  · obtain ⟨outer, -, h⟩ := Option.bind_eq_some_iff.mp h
    obtain ⟨⟨st1, quality⟩, h1, h⟩ := Option.bind_eq_some_iff.mp h
    obtain ⟨⟨st2, degree⟩, h2, h⟩ := Option.bind_eq_some_iff.mp h
    cases h
    simp only [uriNumber_fi h2, uriNumber_fi h1]

theorem uriSuffix_stamp (st : UriState) {fi : FileInfo} (h : uriSuffix st = some fi) :
    fi.createTimestamp = st.fi.createTimestamp := by
  unfold uriSuffix at h
  split at h
  · cases h
    rfl
  · obtain ⟨arr1, -, h⟩ := Option.bind_eq_some_iff.mp h
    obtain ⟨arr2, -, h⟩ := Option.bind_eq_some_iff.mp h
    obtain ⟨suffix, -, h⟩ := Option.bind_eq_some_iff.mp h
    cases h
    rfl

theorem uriNames_stamp {ext : Bytes} {st : UriState} {ret : Int} {fi : FileInfo}
    (h : uriNames ext st = some (ret, fi)) :
    ret = 0 ∧ fi.createTimestamp = st.fi.createTimestamp := by
  unfold uriNames at h
  obtain ⟨extension, -, h⟩ := Option.bind_eq_some_iff.mp h
  obtain ⟨fi1, h1, h⟩ := Option.bind_eq_some_iff.mp h
  obtain ⟨full, -, h⟩ := Option.bind_eq_some_iff.mp h
  obtain ⟨orig, -, h⟩ := Option.bind_eq_some_iff.mp h
  cases h
  have hstamp : fi1.createTimestamp = st.fi.createTimestamp :=
    uriSuffix_stamp { st with fi := { st.fi with fileExtension := extension } } h1
  exact ⟨rfl, hstamp⟩

/-- `parse_uri` leaves the time alone, and in a refused URI everything the converter looks at. -/
theorem parseUri_leaves {g : Residue} {uri : Bytes} {fi fi' : FileInfo} {ret : Int}
    (h : parseUri g uri fi = some (ret, fi')) :
    fi'.createTimestamp = fi.createTimestamp ∧
      (ret ≠ 0 → fi'.quality = fi.quality ∧ fi'.rotateDegree = fi.rotateDegree ∧
        fi'.outerFormat = fi.outerFormat ∧ fi'.innerFormat = fi.innerFormat) := by
  simp only [parseUri] at h
  split at h
  · cases h
    simp
  · obtain ⟨full, -, h⟩ := Option.bind_eq_some_iff.mp h
    unfold uriOriginal at h
    split at h
    · obtain ⟨outer, -, h⟩ := Option.bind_eq_some_iff.mp h
      obtain ⟨suffix, -, h⟩ := Option.bind_eq_some_iff.mp h
      obtain ⟨orig, -, h⟩ := Option.bind_eq_some_iff.mp h
      obtain ⟨rfl, hstamp⟩ := uriNames_stamp h
      exact ⟨hstamp, fun hne => absurd rfl hne⟩
    · obtain ⟨orig, -, h⟩ := Option.bind_eq_some_iff.mp h
      simp only at h
      split at h
      · cases h
        simp
      · obtain ⟨arr1, -, h⟩ := Option.bind_eq_some_iff.mp h
        obtain ⟨st, h1, h⟩ := Option.bind_eq_some_iff.mp h
        obtain ⟨rfl, hstamp⟩ := uriNames_stamp h
        exact ⟨hstamp.trans (uriParams_stamp h1), fun hne => absurd rfl hne⟩

end Lighttpd
