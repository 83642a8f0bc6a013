import Lighttpd.Fastdfs.Subrequest
import Lighttpd.Request.Parse

/-!
# `mod_fastdfs.c`: the name of a resized picture

The loops over the sizes and the types at the front of `mod_fastdfs_subrequest`. For the size `*` a
name is read as `<stem>_<height>_<width><type>`: the path is cut where it stands, at up to three
places, and each way out puts the characters back. Only the first type that is the end of the name
is tried, the search for `_` goes through the type too, and what is checked is a copy of at most 19
characters, which may be empty. So the names that are read as they are written are those of
`ResizeReadable` (`namesAsSaid_iff`).
-/

namespace Lighttpd

open CLib

/-- `b->ptr[i] = c` -/
def Buffer.poke (b : Buffer) (i : Nat) (c : UInt8) : Buffer := { b with ptr := b.ptr.set i c }

/-- `is_numeric(str, strlen(str))` -/
def isNumeric (str : Bytes) : Bool := str.all isDigit

/-- `snprintf(.., 20, "%s", str)` -/
def snprintf20 (str : Bytes) : Bytes := (cstr str).take 19

/-- `con->physical.rel_path` and the variables that the loops set. -/
structure NameParse where
  relPath : Buffer
  orgialPath : Buffer
  fileHw : Buffer
  fileExt : Buffer
  ext : Bytes
  isCovert : Bool
  isBreak : Bool
  deriving DecidableEq, Repr

section Code

variable [Malloc]

def nameParseInit (relPath : Buffer) : NameParse :=
  ⟨relPath, bufferInit, bufferInit, bufferInit, [], false, false⟩

def NameParse.stop (n : NameParse) (relPath : Buffer) : NameParse :=
  { n with relPath := relPath, isCovert := false, isBreak := true }

/-- The size is `*` and the name ends with the type `value`. -/
def splitName (value : Buffer) (n : NameParse) : NameParse :=
  let n := { n with ext := cstr (value.ptr.drop 1) }
  let path := n.relPath
  let cut := path.used - value.used
  match strrchr path.str 95 with
  | none => n.stop path
  | some slash0 =>
    let path := path.poke cut 0
    let width := snprintf20 (path.ptr.drop (slash0 + 1))
    if ¬ isNumeric width then n.stop (path.poke cut 46)
    else
      let path := (path.poke cut 46).poke slash0 0
      match strrchr path.str 95 with
      | none => n.stop (path.poke slash0 95)
      | some slash1 =>
        let height := snprintf20 (path.ptr.drop (slash1 + 1))
        if ¬ isNumeric height then n.stop (path.poke slash0 95)
        else
          let path := path.poke slash0 95
          let fileExt := bufferCopyString n.fileExt (some (cstr (path.ptr.drop slash1)))
          let path := path.poke slash1 0
          let orgialPath := bufferCopyString n.orgialPath (some path.str)
          let orgialPath := bufferAppendStringBuffer orgialPath value
          let path := (path.poke slash1 95).poke cut 0
          let fileHw := bufferCopyString n.fileHw (some (cstr (path.ptr.drop slash1)))
          { n with
            relPath := path.poke cut 46
            orgialPath := orgialPath
            fileHw := fileHw
            fileExt := fileExt
            isCovert := true }

/-- The loop over the types for the size `*`. -/
def anySizeLoop (n : NameParse) : List DataString → NameParse
  | [] => n
  | ds :: rest =>
    if ds.value.used = 0 then anySizeLoop n rest
    else if bufferIsEqualRightLen n.relPath ds.value (ds.value.used - 1) then splitName ds.value n
    else anySizeLoop n rest

def oneSizeLoop (filesize : Buffer) (n : NameParse) : List DataString → NameParse
  | [] => n
  | ds :: rest =>
    if ds.value.used = 0 then oneSizeLoop filesize n rest
    else
      let fileExt := bufferCopyStringBuffer n.fileExt filesize
      let fileExt := bufferAppendStringBuffer fileExt ds.value
      let n := { n with fileExt := fileExt }
      if bufferIsEqualRightLen n.relPath fileExt (fileExt.used - 1) then
        let stem := n.relPath.ptr.take (n.relPath.used - fileExt.used)
        let orgialPath := bufferCopyStringLen n.orgialPath (some stem)
        { n with
          ext := cstr (ds.value.ptr.drop 1)
          orgialPath := bufferAppendStringBuffer orgialPath ds.value
          isCovert := true }
      else oneSizeLoop filesize n rest

def sizesLoop (filetypes : List DataString) (n : NameParse) :
    List DataString → NameParse × Option Buffer
  | [] => (n, none)
  | filesize :: rest =>
    if filesize.value.used = 0 then sizesLoop filetypes n rest
    else
      let n :=
        if strcaseeq filesize.value.ptr (ascii "*") then anySizeLoop n filetypes
        else oneSizeLoop filesize.value n filetypes
      if n.isCovert ∨ n.isBreak then (n, some filesize.value) else sizesLoop filetypes n rest

/-- The settings `filesizes`, `filetypes` and `enable`. -/
structure FastdfsNames where
  filesizes : Arr DataString
  filetypes : Arr DataString
  enable : Bool

def nameLoops (conf : FastdfsNames) (relPath : Buffer) : NameParse × Option Buffer :=
  sizesLoop conf.filetypes.elements (nameParseInit relPath) conf.filesizes.elements

/-- The conversion for the rest of the function, if it is enabled. -/
def nameConversion (conf : FastdfsNames) (relPath : Buffer) : Option Conversion :=
  let (n, filesize) := nameLoops conf relPath
  if n.isCovert ∧ conf.enable then
    let fileHw :=
      if n.fileHw.used = 0 then
        match filesize with
        | some filesize => bufferCopyStringBuffer n.fileHw filesize
        | none => n.fileHw
      else n.fileHw
    some ⟨n.orgialPath, fileHw, n.fileExt, n.ext⟩
  else none

end Code

/-! ## Names of resized pictures -/

structure IsNumber (s : Bytes) : Prop where
  nonempty : s ≠ []
  digits : ∀ c ∈ s, isDigit c = true

/-- The name is `<stem>_<height>_<width><ext>` with a configured extension. -/
structure ResizedName (exts : List Bytes) (name stem height width ext : Bytes) : Prop where
  name : name = stem ++ 95 :: (height ++ 95 :: (width ++ ext))
  height : IsNumber height
  width : IsNumber width
  ext : ext ∈ exts

def IsResized (exts : List Bytes) (name : Bytes) : Prop :=
  ∃ stem height width ext, ResizedName exts name stem height width ext

/-- The path is as it was, and a name of a resized picture, and no other one, is taken apart. -/
structure NamesAsSaid (exts : List Bytes) (name : Bytes) (relPath : Buffer) (n : NameParse) :
    Prop where
  relPath : n.relPath = relPath
  covert : n.isCovert = true ↔ IsResized exts name
  parts : n.isCovert = true → ∃ stem height width ext,
    ResizedName exts name stem height width ext ∧ n.orgialPath.Text (stem ++ ext) ∧
      n.fileHw.Text (95 :: (height ++ 95 :: width))

/-! ## One type -/

/-- What of the type is not read as a part of the width: nothing, if there is a `_` in it. -/
def behindWidth (ext : Bytes) : Bytes := if 95 ∈ ext then [] else ext

/-- The last two fields, and what is checked of them are digits. -/
structure LooksResizedAs (name ext stem height width : Bytes) : Prop where
  name : name = stem ++ 95 :: (height ++ 95 :: (width ++ behindWidth ext))
  height_notMem : 95 ∉ height
  width_notMem : 95 ∉ width
  height : isNumeric (height.take 19) = true
  width : isNumeric (width.take 19) = true

def LooksResized (name ext : Bytes) : Prop :=
  ∃ stem height width, LooksResizedAs name ext stem height width

section Split

theorem set_middle {α : Type} (a : List α) (c d : α) (b : List α) :
    (a ++ c :: b).set a.length d = a ++ d :: b := by
  rw [List.set_append_right _ _ (Nat.le_refl _), Nat.sub_self]
  rfl

theorem underscore_notMem {s : Bytes} (h : ∀ c ∈ s, isDigit c = true) : (95 : UInt8) ∉ s :=
  fun hmem => absurd (h 95 hmem) (by decide)

theorem isNumeric_take {s : Bytes} (h : ∀ c ∈ s, isDigit c = true) (k : Nat) :
    isNumeric (s.take k) = true :=
  List.all_eq_true.mpr fun c hc => h c (List.mem_of_mem_take hc)

theorem behindWidth_of_notMem {ext : Bytes} (h : 95 ∉ ext) : behindWidth ext = ext := if_neg h

theorem ResizedName.looks {exts : List Bytes} {name stem height width ext : Bytes}
    (h : ResizedName exts name stem height width ext) (hext : 95 ∉ ext) :
    LooksResizedAs name ext stem height width where
  name := by rw [behindWidth_of_notMem hext, h.name]
  height_notMem := underscore_notMem h.height.digits
  width_notMem := underscore_notMem h.width.digits
  height := isNumeric_take h.height.digits 19
  width := isNumeric_take h.width.digits 19

theorem isCStr_parts {a b : Bytes} {c : UInt8} (h : IsCStr (a ++ c :: b)) : IsCStr a ∧ IsCStr b :=
  ⟨h.of_append_left, fun hmem => h.of_append_right (List.mem_cons_of_mem c hmem)⟩

/-- The path with the name, and the end of the name where the type begins. -/
structure AtType (path value : Buffer) (name base ext rest : Bytes) : Prop where
  ptr : path.ptr = name ++ 0 :: rest
  used : path.used = name.length + 1
  split : name = base ++ 46 :: ext
  noNul : IsCStr name
  value : value.Text (46 :: ext)

variable {path value : Buffer} {name base ext rest : Bytes}

theorem AtType.cut (h : AtType path value name base ext rest) :
    path.used - value.used = base.length := by
  rw [h.used, h.value.used, h.split, List.length_append, List.length_cons]
  omega

theorem AtType.str (h : AtType path value name base ext rest) : path.str = name := by
  show cstr path.ptr = name
  rw [h.ptr]
  exact cstr_append_zero h.noNul rest

theorem AtType.restored (h : AtType path value name base ext rest) :
    (path.poke base.length 0).poke base.length 46 = path := by
  have hptr : path.ptr = base ++ 46 :: (ext ++ 0 :: rest) := by
    rw [h.ptr, h.split, List.append_assoc]
    rfl
  unfold Buffer.poke
  dsimp only
  rw [List.set_set, hptr, set_middle, ← hptr]

theorem restored_middle {a b : Bytes} {c d : UInt8} (h : path.ptr = a ++ c :: b) :
    (path.poke a.length d).poke a.length c = path := by
  unfold Buffer.poke
  dsimp only
  rw [List.set_set, h, set_middle, ← h]

theorem cut_str {a b : Bytes} {c : UInt8} (h : path.ptr = a ++ c :: b) (ha : IsCStr a) :
    (path.poke a.length 0).str = a := by
  show cstr (path.ptr.set a.length 0) = a
  rw [h, set_middle, cstr_append_zero ha]

theorem cut_field {a s b : Bytes} {c d : UInt8} (h : path.ptr = (a ++ d :: s) ++ c :: b)
    (hs : IsCStr s) : cstr ((path.poke (a ++ d :: s).length 0).ptr.drop (a.length + 1)) = s := by
  show cstr ((path.ptr.set (a ++ d :: s).length 0).drop (a.length + 1)) = s
  rw [h, set_middle, List.append_assoc, List.cons_append, drop_append_cons]
  exact cstr_append_zero hs _

theorem AtType.cutPtr (h : AtType path value name base ext rest) :
    (path.poke base.length 0).ptr = base ++ 0 :: (ext ++ 0 :: rest) := by
  have hptr : path.ptr = base ++ 46 :: (ext ++ 0 :: rest) := by
    rw [h.ptr, h.split, List.append_assoc]
    rfl
  show path.ptr.set base.length 0 = _
  rw [hptr, set_middle]

theorem mem_type : (95 : UInt8) ∈ 46 :: ext ↔ 95 ∈ ext := by
  rw [List.mem_cons, or_iff_right (by decide)]

theorem AtType.exists_lastField (h : AtType path value name base ext rest) (hmem : 95 ∈ name) :
    ∃ front width, name = front ++ 95 :: (width ++ behindWidth (46 :: ext)) ∧ 95 ∉ width := by
  by_cases hext : (95 : UInt8) ∈ 46 :: ext
  · obtain ⟨front, width, hname, hwidth⟩ := exists_split_last hmem
    refine ⟨front, width, ?_, hwidth⟩
    rw [behindWidth, if_pos hext, List.append_nil]
    exact hname
  · have hbase : 95 ∈ base := by
      rw [h.split] at hmem
      exact (List.mem_append.mp hmem).resolve_right hext
    obtain ⟨front, width, hsplit, hwidth⟩ := exists_split_last hbase
    refine ⟨front, width, ?_, hwidth⟩
    rw [behindWidth, if_neg hext, h.split, hsplit, List.append_assoc]
    rfl

theorem notMem_behindWidth {width : Bytes} (hwidth : 95 ∉ width) (ext : Bytes) :
    95 ∉ width ++ behindWidth ext := by
  intro hmem
  rcases List.mem_append.mp hmem with hmem | hmem
  · exact hwidth hmem
  · unfold behindWidth at hmem
    split at hmem
    · cases hmem
    · next hext => exact hext hmem

theorem AtType.lastField_mem (h : AtType path value name base ext rest) {front width : Bytes}
    (hname : name = front ++ 95 :: (width ++ behindWidth (46 :: ext))) (hwidth : 95 ∉ width)
    (hext : 95 ∈ ext) : ∃ middle, ext = middle ++ 95 :: width ∧ front = base ++ 46 :: middle := by
  rw [behindWidth, if_pos (mem_type.mpr hext), List.append_nil, h.split] at hname
  obtain ⟨middle, width', rfl, hwidth'⟩ := exists_split_last hext
  have hwhole : (base ++ 46 :: middle) ++ 95 :: width' = front ++ 95 :: width := by
    rw [← hname, List.append_assoc]
    rfl
  obtain ⟨hfront, hlast⟩ := split_last_unique hwidth' hwidth hwhole
  exact ⟨middle, by rw [hlast], hfront.symm⟩

theorem AtType.lastField_notMem (h : AtType path value name base ext rest) {front width : Bytes}
    (hname : name = front ++ 95 :: (width ++ behindWidth (46 :: ext))) (hext : 95 ∉ ext) :
    base = front ++ 95 :: width := by
  have hnone : ¬ (95 : UInt8) ∈ 46 :: ext := fun hmem => hext (mem_type.mp hmem)
  rw [behindWidth, if_neg hnone, h.split, ← List.cons_append, ← List.append_assoc] at hname
  exact List.append_cancel_right hname

theorem AtType.width_eq (h : AtType path value name base ext rest) {front width : Bytes}
    (hname : name = front ++ 95 :: (width ++ behindWidth (46 :: ext))) (hwidth : 95 ∉ width) :
    cstr ((path.poke base.length 0).ptr.drop (front.length + 1)) = width := by
  have hcstr : IsCStr width := (isCStr_parts (hname ▸ h.noNul)).2.of_append_left
  rw [h.cutPtr]
  by_cases hext : 95 ∈ ext
  · obtain ⟨middle, rfl, rfl⟩ := h.lastField_mem hname hwidth hext
    have hptr : base ++ 0 :: ((middle ++ 95 :: width) ++ 0 :: rest) =
        (base ++ 0 :: middle) ++ 95 :: (width ++ 0 :: rest) := by
      simp only [List.append_assoc, List.cons_append]
    have hlen : (base ++ 46 :: middle).length = (base ++ 0 :: middle).length := by simp
    rw [hptr, hlen, drop_append_cons]
    exact cstr_append_zero hcstr rest
  · rw [h.lastField_notMem hname hext, List.append_assoc, List.cons_append, drop_append_cons]
    exact cstr_append_zero hcstr _

theorem AtType.fileHw_eq (h : AtType path value name base ext rest) {stem height width : Bytes}
    (hlooks : LooksResizedAs name (46 :: ext) stem height width) :
    cstr ((path.poke base.length 0).ptr.drop stem.length) = 95 :: (height ++ 95 :: width) ∨
      95 ∈ ext ∧ 95 ∉ (cstr ((path.poke base.length 0).ptr.drop stem.length)).tail := by
  have hname : name = (stem ++ 95 :: height) ++ 95 :: (width ++ behindWidth (46 :: ext)) := by
    rw [hlooks.name, List.append_assoc]
    rfl
  have hfields : IsCStr (95 :: (height ++ 95 :: width)) := by
    have hall := hlooks.name ▸ h.noNul
    have hassoc : 95 :: (height ++ 95 :: (width ++ behindWidth (46 :: ext))) =
        (95 :: (height ++ 95 :: width)) ++ behindWidth (46 :: ext) := by
      simp only [List.append_assoc, List.cons_append]
    exact (hassoc ▸ hall.of_append_right).of_append_left
  rw [h.cutPtr]
  by_cases hext : 95 ∈ ext
  · obtain ⟨middle, rfl, hfront⟩ := h.lastField_mem hname hlooks.width_notMem hext
    rcases List.append_eq_append_iff.mp hfront with ⟨a, rfl, hrest⟩ | ⟨a, rfl, hrest⟩
    · -- the height begins in front of the type
      cases a with
      | nil => exact absurd (List.cons.inj hrest).1 (by decide)
      | cons c a =>
        obtain ⟨rfl, rfl⟩ := List.cons.inj hrest
        have ha : IsCStr (95 :: a) := (isCStr_parts (h.split ▸ h.noNul)).1.of_append_right
        rw [List.append_assoc, List.drop_left' rfl, cstr_append_zero ha]
        exact .inr ⟨hext, fun hmem => hlooks.height_notMem (List.mem_append_left _ hmem)⟩
    · -- both fields are in the type
      cases a with
      | nil => exact absurd (List.cons.inj hrest).1 (by decide)
      | cons c a =>
        obtain ⟨rfl, hmiddle⟩ := List.cons.inj hrest
        obtain rfl : middle = a ++ 95 :: height := hmiddle
        have hptr : base ++ 0 :: (((a ++ 95 :: height) ++ 95 :: width) ++ 0 :: rest) =
            (base ++ 0 :: a) ++ ((95 :: (height ++ 95 :: width)) ++ 0 :: rest) := by
          simp only [List.append_assoc, List.cons_append]
        have hlen : (base ++ 46 :: a).length = (base ++ 0 :: a).length := by simp
        rw [hptr, hlen, List.drop_left' rfl, cstr_append_zero hfields]
        exact .inl rfl
  · left
    have hptr : base ++ 0 :: (ext ++ 0 :: rest) =
        stem ++ ((95 :: (height ++ 95 :: width)) ++ 0 :: (ext ++ 0 :: rest)) := by
      rw [h.lastField_notMem hname hext]
      simp only [List.append_assoc, List.cons_append]
    rw [hptr, List.drop_left' rfl, cstr_append_zero hfields]

end Split

section OneType

variable [Malloc] {n : NameParse} {value : Buffer} {name base ext rest : Bytes}

theorem splitName_stop (h : AtType n.relPath value name base ext rest)
    (hlooks : ¬ LooksResized name (46 :: ext)) :
    (splitName value n).relPath = n.relPath ∧ (splitName value n).isCovert = false := by
  unfold splitName
  dsimp only
  rw [h.cut, h.str]
  by_cases hmem : (95 : UInt8) ∈ name
  · obtain ⟨front, width, hname, hwidth⟩ := h.exists_lastField hmem
    have hwidths := h.width_eq hname hwidth
    have hptr : n.relPath.ptr =
        front ++ 95 :: ((width ++ behindWidth (46 :: ext)) ++ 0 :: rest) := by
      rw [h.ptr, hname, List.append_assoc]
      rfl
    rw [hname, strrchr_append_cons front (notMem_behindWidth hwidth _)]
    simp only [snprintf20, hwidths, h.restored]
    by_cases hnum : isNumeric (width.take 19) = true
    · rw [if_neg (not_not.mpr hnum)]
      have hfront : IsCStr front := (isCStr_parts (hname ▸ h.noNul)).1
      rw [cut_str hptr hfront]
      by_cases hmem' : (95 : UInt8) ∈ front
      · obtain ⟨stem, height, rfl, hheight⟩ := exists_split_last hmem'
        rw [strrchr_append_cons stem hheight]
        dsimp only
        simp only [cut_field hptr (isCStr_parts hfront).2, restored_middle hptr]
        by_cases hnum' : isNumeric (height.take 19) = true
        · refine absurd ⟨stem, height, width, ?_, hheight, hwidth, hnum', hnum⟩ hlooks
          rw [hname, List.append_assoc]
          rfl
        · rw [if_pos hnum']
          exact ⟨rfl, rfl⟩
      · rw [strrchr_eq_none.mpr hmem']
        dsimp only
        rw [restored_middle hptr]
        exact ⟨rfl, rfl⟩
    · rw [if_pos hnum]
      exact ⟨rfl, rfl⟩
  · rw [strrchr_eq_none.mpr hmem]
    exact ⟨rfl, rfl⟩

theorem splitName_looks (h : AtType n.relPath value name base ext rest)
    {stem height width : Bytes} (hlooks : LooksResizedAs name (46 :: ext) stem height width) :
    (splitName value n).relPath = n.relPath ∧ (splitName value n).isCovert = true ∧
      (splitName value n).orgialPath.Text (stem ++ 46 :: ext) ∧
      (splitName value n).fileHw.Text
        (cstr ((n.relPath.poke base.length 0).ptr.drop stem.length)) := by
  have hname : name = (stem ++ 95 :: height) ++ 95 :: (width ++ behindWidth (46 :: ext)) := by
    rw [hlooks.name, List.append_assoc]
    rfl
  have hwidths := h.width_eq hname hlooks.width_notMem
  have hfront : IsCStr (stem ++ 95 :: height) := (isCStr_parts (hname ▸ h.noNul)).1
  have hptr : n.relPath.ptr =
      (stem ++ 95 :: height) ++ 95 :: ((width ++ behindWidth (46 :: ext)) ++ 0 :: rest) := by
    rw [h.ptr, hname, List.append_assoc]
    rfl
  have hptr' : n.relPath.ptr =
      stem ++ 95 :: (height ++ 95 :: ((width ++ behindWidth (46 :: ext)) ++ 0 :: rest)) := by
    rw [hptr, List.append_assoc]
    rfl
  have hheights := cut_field hptr (isCStr_parts hfront).2
  have hstem := cut_str hptr' (isCStr_parts hfront).1
  unfold splitName
  dsimp only
  rw [h.cut, h.str, hname, strrchr_append_cons _ (notMem_behindWidth hlooks.width_notMem _)]
  simp only [snprintf20, hwidths, h.restored]
  rw [if_neg (not_not.mpr hlooks.width), cut_str hptr hfront,
    strrchr_append_cons stem hlooks.height_notMem]
  simp only [hheights, restored_middle hptr, restored_middle hptr', h.restored, hstem]
  rw [if_neg (not_not.mpr hlooks.height)]
  exact ⟨rfl, rfl, text_bufferAppendStringBuffer (text_bufferCopyString _ _) h.value,
    text_bufferCopyString _ _⟩

end OneType

/-! ## The loops -/

/-- The size is `*`, and the types begin with a dot. -/
structure AnySize (conf : FastdfsNames) (exts : List Bytes) : Prop where
  sizes : ∃ size, conf.filesizes.elements = [size] ∧ size.value.Text (ascii "*")
  types : List.Forall₂ (fun ds ext => ds.value.Text ext ∧ IsCStr ext ∧ ∃ e, ext = 46 :: e)
    conf.filetypes.elements exts

def firstType (exts : List Bytes) (name : Bytes) : Option Bytes :=
  exts.find? fun ext => ext.isSuffixOf name

section Loops

theorem bufferIsEqualRightLen_iff {b value : Buffer} {name ext : Bytes} (hb : b.Text name)
    (hname : IsCStr name) (hvalue : value.Text ext) (hext : IsCStr ext) (hne : ext ≠ []) :
    bufferIsEqualRightLen b value (value.used - 1) = true ↔ ext <:+ name := by
  have hlen : value.used - 1 = ext.length := by
    rw [hvalue.used]
    rfl
  have hpos : ext.length ≠ 0 := fun h0 => hne (List.length_eq_zero_iff.mp h0)
  have hused : ¬ (b.used = 0 ∨ value.used = 0) := by
    rw [hb.used, hvalue.used]
    omega
  unfold bufferIsEqualRightLen
  rw [hlen, if_neg hpos, if_neg hused, hb.used, Nat.add_sub_cancel]
  by_cases hshort : name.length < ext.length
  · rw [if_pos hshort]
    refine ⟨nofun, fun hsuffix => ?_⟩
    exact absurd hsuffix.length_le (Nat.not_le_of_lt hshort)
  · rw [if_neg hshort]
    obtain ⟨rest, hrest⟩ : (name ++ [0]) <+: b.ptr := hb.holds ▸ List.take_prefix _ _
    obtain ⟨rest', hrest'⟩ : (ext ++ [0]) <+: value.ptr := hvalue.holds ▸ List.take_prefix _ _
    have hleft : (b.ptr.drop (name.length - ext.length)).take ext.length =
        name.drop (name.length - ext.length) := by
      rw [← hrest, List.append_assoc, List.drop_append_of_le_length (Nat.sub_le _ _)]
      exact List.take_left' (by rw [List.length_drop]; omega)
    have hright : (value.ptr.drop (ext.length - ext.length)).take ext.length = ext := by
      rw [Nat.sub_self, List.drop_zero, ← hrest', List.append_assoc]
      exact List.take_left' rfl
    rw [hleft, hright, cstr_eq_self hext,
      cstr_eq_self fun hmem => hname (List.mem_of_mem_drop hmem), beq_iff_eq,
      List.suffix_iff_eq_drop, eq_comm]

variable [Malloc] {conf : FastdfsNames} {exts : List Bytes} {name : Bytes} {relPath : Buffer}

theorem anySizeLoop_spec {types : List DataString}
    (htypes : List.Forall₂ (fun ds ext => ds.value.Text ext ∧ IsCStr ext ∧ ∃ e, ext = 46 :: e)
      types exts) {n : NameParse} (hn : n.relPath.Text name) (hname : IsCStr name) :
    (firstType exts name = none ∧ anySizeLoop n types = n) ∨
      ∃ base e value, firstType exts name = some (46 :: e) ∧ value.Text (46 :: e) ∧
        name = base ++ 46 :: e ∧ anySizeLoop n types = splitName value n := by
  induction htypes with
  | nil => exact .inl ⟨rfl, rfl⟩
  | @cons ds ext types exts hds htypes ih =>
    obtain ⟨hvalue, hext, e, rfl⟩ := hds
    have hused : ds.value.used ≠ 0 := by
      rw [hvalue.used]
      omega
    have hfits := bufferIsEqualRightLen_iff hn hname hvalue hext (List.cons_ne_nil 46 e)
    unfold anySizeLoop firstType
    rw [if_neg hused]
    by_cases hsuffix : 46 :: e <:+ name
    · have hfirst := List.isSuffixOf_iff_suffix.mpr hsuffix
      simp only [if_pos (hfits.mpr hsuffix), List.find?_cons, hfirst]
      obtain ⟨base, hbase⟩ := hsuffix
      exact .inr ⟨base, e, _, rfl, hvalue, hbase.symm, rfl⟩
    · have hfirst : (46 :: e).isSuffixOf name = false :=
        Bool.eq_false_iff.mpr fun h => hsuffix (List.isSuffixOf_iff_suffix.mp h)
      have hskip : ¬ bufferIsEqualRightLen n.relPath ds.value (ds.value.used - 1) = true :=
        fun h => hsuffix (hfits.mp h)
      simp only [if_neg hskip, List.find?_cons, hfirst]
      exact ih

theorem AnySize.nameLoops (h : AnySize conf exts) (relPath : Buffer) :
    (Lighttpd.nameLoops conf relPath).1 =
      anySizeLoop (nameParseInit relPath) conf.filetypes.elements := by
  obtain ⟨size, hsizes, htext⟩ := h.sizes
  have hused : size.value.used ≠ 0 := by
    rw [htext.used]
    omega
  have hstar : strcaseeq size.value.ptr (ascii "*") = true := by
    have hstr : cstr size.value.ptr = ascii "*" := htext.str (by decide)
    unfold strcaseeq
    rw [hstr]
    decide
  unfold Lighttpd.nameLoops
  rw [hsizes, sizesLoop, if_neg hused, if_pos hstar]
  dsimp only
  split
  · rfl
  · rfl

omit [Malloc] in
theorem IsResized.suffix (h : IsResized exts name) : ∃ ext ∈ exts, ext <:+ name := by
  obtain ⟨stem, height, width, ext, h⟩ := h
  refine ⟨ext, h.ext, stem ++ 95 :: (height ++ 95 :: width), ?_⟩
  rw [h.name]
  simp only [List.append_assoc, List.cons_append]

/-- The names that the loops read as they are written: for the first type that is the end of the
name, a name of a resized picture is one with this type, which has no `_`; and another name does not
look like one, with fields that are empty or digits in the first 19 characters only. -/
def ResizeReadable (exts : List Bytes) (name : Bytes) : Prop :=
  ∀ ext, firstType exts name = some ext →
    (IsResized exts name →
      95 ∉ ext ∧ ∃ stem height width, ResizedName exts name stem height width ext) ∧
    (¬ IsResized exts name → ¬ LooksResized name ext)

omit [Malloc] in
theorem atType_of_text {path value : Buffer} {base e : Bytes} (hpath : path.Text name)
    (hname : IsCStr name) (hvalue : value.Text (46 :: e)) (hsplit : name = base ++ 46 :: e) :
    ∃ rest, AtType path value name base e rest := by
  obtain ⟨rest, hrest⟩ : (name ++ [0]) <+: path.ptr := hpath.holds ▸ List.take_prefix _ _
  refine ⟨rest, ?_, hpath.used, hsplit, hname, hvalue⟩
  rw [← hrest, List.append_assoc]
  rfl

omit [Malloc] in
theorem not_parts_of_mem {base e rest stem height width : Bytes} {value : Buffer} {n : NameParse}
    (h : AtType n.relPath value name base e rest)
    (hlooks : LooksResizedAs name (46 :: e) stem height width) (hmem : 95 ∈ e)
    {stem' height' width' ext' : Bytes} (hname : ResizedName exts name stem' height' width' ext')
    (horgial : stem ++ 46 :: e = stem' ++ ext')
    (hhw : cstr ((n.relPath.poke base.length 0).ptr.drop stem.length) =
      95 :: (height' ++ 95 :: width')) : False := by
  rcases h.fileHw_eq hlooks with hboth | ⟨-, hnot⟩
  · -- the type is counted twice
    rw [hboth] at hhw
    have hfields := congrArg List.length hhw
    have hlong := congrArg List.length horgial
    have hsplit := congrArg List.length (hname.name.symm.trans hlooks.name)
    rw [behindWidth, if_pos (mem_type.mpr hmem), List.append_nil] at hsplit
    simp only [List.length_append, List.length_cons] at hfields hlong hsplit
    omega
  · rw [hhw] at hnot
    exact hnot (List.mem_append_right _ List.mem_cons_self)

/-- **When the names of resized pictures are read as they are written**, for any types. -/
theorem namesAsSaid_iff (h : AnySize conf exts) (hrel : relPath.Text name) (hname : IsCStr name) :
    NamesAsSaid exts name relPath (nameLoops conf relPath).1 ↔ ResizeReadable exts name := by
  rw [h.nameLoops]
  rcases anySizeLoop_spec h.types (show (nameParseInit relPath).relPath.Text name from hrel) hname
    with ⟨hnone, hrun⟩ | ⟨base, e, value, hfirst, hvalue, hsplit, hrun⟩
  · -- no type is the end of the name
    have hnot : ¬ IsResized exts name := fun hresized => by
      obtain ⟨ext, hext, hsuffix⟩ := hresized.suffix
      have := List.find?_eq_none.mp hnone ext hext
      exact this (List.isSuffixOf_iff_suffix.mpr hsuffix)
    rw [hrun]
    refine ⟨fun _ ext hfirst => ?_, fun _ => ⟨rfl, ⟨nofun, fun hr => absurd hr hnot⟩, nofun⟩⟩
    rw [hnone] at hfirst
    cases hfirst
  · obtain ⟨rest, hat⟩ := atType_of_text
      (show (nameParseInit relPath).relPath.Text name from hrel) hname hvalue hsplit
    have hext : 46 :: e ∈ exts := List.mem_of_find?_eq_some hfirst
    rw [hrun]
    constructor
    · intro hsaid ext hfirst'
      obtain rfl := Option.some.inj (hfirst.symm.trans hfirst')
      refine ⟨fun hresized => ?_, fun hnot hlooks => ?_⟩
      · have hcovert := hsaid.covert.mpr hresized
        obtain ⟨stem', height', width', ext', hname', horgial', hhw'⟩ := hsaid.parts hcovert
        obtain ⟨stem, height, width, hlooks⟩ : LooksResized name (46 :: e) := by
          by_contra hnot
          rw [(splitName_stop hat hnot).2] at hcovert
          cases hcovert
        obtain ⟨-, -, horgial, hhw⟩ := splitName_looks hat hlooks
        have hstem := horgial.unique horgial'
        have hfields := hhw.unique hhw'
        have hmem : 95 ∉ e := fun hmem => not_parts_of_mem hat hlooks hmem hname' hstem hfields
        refine ⟨fun hm => hmem (mem_type.mp hm), stem, height', width', ?_, hname'.height,
          hname'.width, hext⟩
        rw [(hat.fileHw_eq hlooks).resolve_right fun hor => hmem hor.1] at hfields
        obtain ⟨hh, hw⟩ := split_last_unique hlooks.width_notMem
          (underscore_notMem hname'.width.digits) (List.cons.inj hfields).2
        rw [hlooks.name, behindWidth_of_notMem fun hm => hmem (mem_type.mp hm), hh, hw]
      · obtain ⟨stem, height, width, hlooks⟩ := hlooks
        exact hnot (hsaid.covert.mp (splitName_looks hat hlooks).2.1)
    · intro hreadable
      obtain ⟨hwhen, hunless⟩ := hreadable _ hfirst
      by_cases hresized : IsResized exts name
      · obtain ⟨hnotMem, stem, height, width, hparts⟩ := hwhen hresized
        have hlooks := hparts.looks hnotMem
        obtain ⟨hpath, hcovert, horgial, hhw⟩ := splitName_looks hat hlooks
        rw [(hat.fileHw_eq hlooks).resolve_right fun hor => hnotMem (mem_type.mpr hor.1)] at hhw
        exact ⟨hpath, ⟨fun _ => hresized, fun _ => hcovert⟩, fun _ =>
          ⟨stem, height, width, _, hparts, horgial, hhw⟩⟩
      · obtain ⟨hpath, hcovert⟩ := splitName_stop hat (hunless hresized)
        have hfalse : ¬ (splitName value (nameParseInit relPath)).isCovert = true := by
          rw [hcovert]
          exact Bool.false_ne_true
        exact ⟨hpath, ⟨fun hc => absurd hc hfalse, fun hr => absurd hr hresized⟩,
          fun hc => absurd hc hfalse⟩

def AllNamesAsSaid : Prop :=
  ∀ conf exts relPath name, AnySize conf exts → relPath.Text name → IsCStr name →
    NamesAsSaid exts name relPath (nameLoops conf relPath).1

end Loops

section Pictures

/-- The size `*` and the type `.jpg`. -/
def anyJpg : FastdfsNames where
  filesizes := oneString (ascii "0") (ascii "*")
  filetypes := oneString (ascii "0") (ascii ".jpg")
  enable := true

theorem anySize_anyJpg : AnySize anyJpg [ascii ".jpg"] where
  sizes := ⟨_, rfl, rfl, rfl⟩
  types := .cons ⟨⟨rfl, rfl⟩, by decide, ascii "jpg", rfl⟩ .nil

/-- Two fields without a digit are read as a height and a width. -/
theorem not_allNamesAsSaid_empty : ¬ @AllNamesAsSaid zeroMalloc := by
  let _ : Malloc := zeroMalloc
  intro h
  have hsaid := h anyJpg [ascii ".jpg"] (textBuffer (ascii "/a__.jpg")) (ascii "/a__.jpg")
    anySize_anyJpg (text_textBuffer _) (by decide)
  obtain ⟨stem, height, width, ext, hname⟩ := hsaid.covert.mp (by decide)
  obtain rfl := List.mem_singleton.mp hname.ext
  have hfields : ascii "/a__" ++ ascii ".jpg" =
      (stem ++ 95 :: (height ++ 95 :: width)) ++ ascii ".jpg" := by
    rw [List.append_assoc, List.cons_append, List.append_assoc, List.cons_append]
    exact hname.name
  have hsplit : ascii "/a_" ++ 95 :: [] = (stem ++ 95 :: height) ++ 95 :: width := by
    rw [List.append_assoc]
    exact List.append_cancel_right hfields
  obtain ⟨-, hwidth⟩ :=
    split_last_unique List.not_mem_nil (underscore_notMem hname.width.digits) hsplit
  exact hname.width.nonempty hwidth.symm

/-- A name with a height and a width. -/
theorem namesAsSaid_iff_jpg :
    letI : Malloc := zeroMalloc
    NamesAsSaid [ascii ".jpg"] (ascii "/a_10_20.jpg") (textBuffer (ascii "/a_10_20.jpg"))
      (nameLoops anyJpg (textBuffer (ascii "/a_10_20.jpg"))).1 := by
  let _ : Malloc := zeroMalloc
  have hparts : ResizedName [ascii ".jpg"] (ascii "/a_10_20.jpg") (ascii "/a") (ascii "10")
      (ascii "20") (ascii ".jpg") :=
    ⟨by decide, ⟨by decide, by decide⟩, ⟨by decide, by decide⟩, List.mem_cons_self⟩
  refine (namesAsSaid_iff anySize_anyJpg (text_textBuffer _) (by decide)).mpr fun ext hfirst => ?_
  obtain rfl : ascii ".jpg" = ext := Option.some.inj hfirst
  exact ⟨fun _ => ⟨by decide, _, _, _, hparts⟩, fun hnot => absurd ⟨_, _, _, _, hparts⟩ hnot⟩

end Pictures

end Lighttpd
