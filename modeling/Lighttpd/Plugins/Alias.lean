import Lighttpd.Array
import Lighttpd.PhysicalPath

/-!
# `mod_alias.c`: a part of the URL space somewhere else

An alias replaces a beginning of the path, compared byte by byte, by its target. Below the target
everything is as in the URL; only where the two meet a segment is put together, and that one may be
`..` (`aliasStays_iff`).

`p->conf` is a parameter.
-/

namespace Lighttpd

open CLib Segments

section Handler

variable [Malloc]

/-- `uri` and `uriLen` are `uri_ptr` and `uri_len`. -/
def aliasMatches (forceLowercase : Bool) (uri : Bytes) (uriLen : Int) (ds : DataString) : Bool :=
  let aliasLen : Int := ds.key.used - 1
  if aliasLen > uriLen then false
  else if ds.key.used = 0 then false
  else if forceLowercase then strncaseeq aliasLen.toNat uri ds.key.ptr
  else strneq aliasLen.toNat uri ds.key.ptr

/-- The alias that is taken, if any; a pointer in front of the path has no value. -/
def aliasFor (aliases : Arr DataString) (forceLowercase : Bool) (ph : Physical) :
    Option (Option DataString) :=
  if ph.basedir.used < 2 then none
  else
    let basedirLen := ph.basedir.used - 1 - 1
    let uriLen : Int := ph.path.used - 1 - basedirLen
    some (aliases.elements.find? (aliasMatches forceLowercase (ph.path.ptr.drop basedirLen) uriLen))

/-- The paths and `srv->tmp_buf`. -/
def modAliasPhysicalHandler (aliases : Arr DataString) (forceLowercase : Bool) (ph : Physical)
    (tmpBuf : Buffer) : Option (Physical × Buffer) :=
  if ph.path.used = 0 then some (ph, tmpBuf)
  else do
    match ← aliasFor aliases forceLowercase ph with
    | none => some (ph, tmpBuf)
    | some ds =>
      let uri := ph.path.ptr.drop (ph.basedir.used - 1 - 1)
      let tmpBuf := bufferCopyStringBuffer tmpBuf ds.value
      let tmpBuf := bufferAppendString tmpBuf (some (cstr (uri.drop (ds.key.used - 1))))
      some (⟨bufferCopyStringBuffer ph.path tmpBuf, bufferCopyStringBuffer ph.basedir ds.value⟩,
        tmpBuf)

end Handler

/-! ## Where the new path leads -/

/-- The directory a target names: the target itself for a key that ends with a slash, the target up
to its last slash for another one. Relative targets are relative to `cwd`. -/
def aliasDirectory (cwd : List Bytes) (key target : Bytes) : List Bytes :=
  if key.getLast? = some 47 then resolvePath 47 46 cwd target
  else (frontSegments target).foldl (push 46) (startOf 47 cwd target)

/-- Every segment behind those of the target leads to its directory or below. -/
def StaysInTarget (cwd : List Bytes) (key target path : Bytes) : Prop :=
  ∃ segs, path.splitOn 47 = frontSegments target ++ segs ∧
    Below 46 (aliasDirectory cwd key target)
      ((frontSegments target).foldl (push 46) (startOf 47 cwd path)) segs

/-- Where the end of the target and `rest`, the URL behind the key, meet: behind a key with a slash
the target ends with one, too, or nothing comes; behind another key they do not form a `..`, or the
directory is the root. Nothing at all does not stand for `cwd` in front of an absolute path. -/
def SeamHolds (cwd : List Bytes) (key target rest : Bytes) : Prop :=
  if key.getLast? = some 47 then Special 46 (lastSegment target) ∨ rest = []
  else (lastSegment target ++ (rest.splitOn 47).headD [] ≠ [46, 46] ∨
      aliasDirectory cwd key target = []) ∧
    (target = [] → rest.head? = some 47 → cwd = [])

section Seam

variable {cwd : List Bytes} {key target front rest first : Bytes} {segs : List Bytes}

theorem staysInTarget_iff_below (hrest : rest.splitOn 47 = first :: segs) :
    StaysInTarget cwd key target (target ++ rest) ↔
      Below 46 (aliasDirectory cwd key target)
        ((frontSegments target).foldl (push 46) (startOf 47 cwd (target ++ rest)))
        ((lastSegment target ++ first) :: segs) := by
  have hsplit := splitOn_append (splitOn_front target) hrest
  constructor
  · rintro ⟨segs', heq, hbelow⟩
    rw [hsplit] at heq
    rwa [← List.append_cancel_left heq] at hbelow
  · exact fun hbelow => ⟨_, hsplit, hbelow⟩

theorem staysInTarget_slash (hslash : key.getLast? = some 47)
    (hnormal : IsNormal 47 46 (front ++ 47 :: rest)) :
    StaysInTarget cwd key target (target ++ rest) ↔
      Special 46 (lastSegment target) ∨ rest = [] := by
  obtain ⟨first, segs, hrest⟩ := List.exists_cons_of_ne_nil (List.splitOn_ne_nil 47 rest)
  have hup : ∀ seg ∈ segs, seg ≠ [46, 46] := by
    have hcons : IsNormal 47 46 ((front ++ [47]) ++ rest) := by simpa using hnormal
    exact hcons.noUp hrest
  have hfirst := hnormal.first hrest
  have hrelative : ¬ (target = [] ∧ rest.head? = some 47) := by
    rintro ⟨-, hhead⟩
    obtain ⟨rest', rfl⟩ := List.head?_eq_some_iff.mp hhead
    rw [splitOn_sep_cons] at hrest
    have hnil : first = [] := (List.cons.inj hrest).1.symm
    rcases hfirst with ⟨-, h⟩ | h
    · cases h
    · exact h (Or.inl hnil)
  have hdir : aliasDirectory cwd key target =
      push 46 ((frontSegments target).foldl (push 46) (startOf 47 cwd target))
        (lastSegment target) := by
    rw [aliasDirectory, if_pos hslash, resolvePath, splitOn_front, List.foldl_append]
    rfl
  rw [staysInTarget_iff_below hrest, below_cons, startOf_relative hrelative, hdir,
    and_iff_left_of_imp fun h => below_of_noUp h hup]
  rcases hfirst with ⟨rfl, rfl⟩ | hordinary
  · rw [List.append_nil]
    exact ⟨fun _ => Or.inr rfl, fun _ => List.prefix_rfl⟩
  · have hne : rest ≠ [] := by
      rintro rfl
      rw [List.splitOn_nil] at hrest
      exact hordinary (Or.inl (List.cons.inj hrest).1.symm)
    rw [prefix_push_append hordinary, or_iff_left hne]

theorem staysInTarget_noSlash (hslash : key.getLast? ≠ some 47)
    (hnormal : IsNormal 47 46 (front ++ rest)) :
    StaysInTarget cwd key target (target ++ rest) ↔
      (lastSegment target ++ (rest.splitOn 47).headD [] ≠ [46, 46] ∨
        aliasDirectory cwd key target = []) ∧
      (target = [] → rest.head? = some 47 → cwd = []) := by
  obtain ⟨first, segs, hrest⟩ := List.exists_cons_of_ne_nil (List.splitOn_ne_nil 47 rest)
  have hup := hnormal.noUp hrest
  have hdir : aliasDirectory cwd key target =
      (frontSegments target).foldl (push 46) (startOf 47 cwd target) := if_neg hslash
  rw [staysInTarget_iff_below hrest, below_cons, hrest, List.headD_cons]
  by_cases habsolute : target = [] ∧ rest.head? = some 47
  · obtain ⟨rfl, hhead⟩ := habsolute
    obtain ⟨rest', rfl⟩ := List.head?_eq_some_iff.mp hhead
    rw [splitOn_sep_cons] at hrest
    obtain ⟨rfl, -⟩ := List.cons.inj hrest
    -- the target is empty: the walk starts at the root
    have hcwd : aliasDirectory cwd key [] = cwd := hdir
    have hroot : (frontSegments []).foldl (push 46) (startOf 47 cwd ([] ++ 47 :: rest')) = [] := rfl
    have hseam : lastSegment [] ++ [] ≠ [46, 46] := by decide
    have hstay : push 46 [] (lastSegment [] ++ []) = [] := rfl
    rw [hcwd, hroot, hstay, List.prefix_nil]
    constructor
    · exact fun h => ⟨Or.inl hseam, fun _ _ => h.1⟩
    · rintro ⟨-, hnil⟩
      obtain rfl := hnil rfl rfl
      exact ⟨rfl, below_root segs⟩
  · have hcwd : target = [] → rest.head? = some 47 → cwd = [] :=
      fun h h' => absurd ⟨h, h'⟩ habsolute
    rw [startOf_relative habsolute, hdir, and_iff_left hcwd,
      and_iff_left_of_imp fun h => below_of_noUp h hup]
    by_cases hseam : lastSegment target ++ first = [46, 46]
    · rw [hseam, prefix_push_up]
      exact ⟨Or.inr, fun h => h.resolve_left fun h => h rfl⟩
    · exact ⟨fun _ => Or.inl hseam, fun _ => prefix_push List.prefix_rfl hseam⟩

/-- **The seam decides**: `front` is what the key matched. -/
theorem staysInTarget_iff (hnormal : IsNormal 47 46 (front ++ rest))
    (hkey : key.getLast? = some 47 → front.getLast? = some 47) :
    StaysInTarget cwd key target (target ++ rest) ↔ SeamHolds cwd key target rest := by
  unfold SeamHolds
  by_cases hslash : key.getLast? = some 47
  · obtain ⟨front', rfl⟩ := List.getLast?_eq_some_iff.mp (hkey hslash)
    rw [List.append_assoc, List.singleton_append] at hnormal
    rw [if_pos hslash]
    exact staysInTarget_slash hslash hnormal
  · rw [if_neg hslash]
    exact staysInTarget_noSlash hslash hnormal

end Seam

/-! ## What a key matches -/

theorem strncaseeq_getElem : ∀ {n i : Nat} {a b : Bytes}, strncaseeq n a b = true → i < n →
    (∀ j < i, a[j]? ≠ some 0) → ∃ x y, a[i]? = some x ∧ b[i]? = some y ∧ tolower x = tolower y
  | 0, _, _, _, _, hi, _ => by omega
  | _ + 1, _, [], _, h, _, _ => by simp [strncaseeq] at h
  | _ + 1, _, _ :: _, [], h, _, _ => by simp [strncaseeq] at h
  | n + 1, i, x :: a, y :: b, h, hi, hzero => by
    simp only [strncaseeq, Bool.and_eq_true, beq_iff_eq, Bool.or_eq_true] at h
    obtain ⟨heq, h⟩ := h
    cases i with
    | zero => exact ⟨x, y, rfl, rfl, heq⟩
    | succ i =>
      have hx : x ≠ 0 := fun h0 => hzero 0 (by omega) (by simp [h0])
      have hrest := h.resolve_left hx
      obtain ⟨x', y', hx', hy', heq'⟩ := strncaseeq_getElem hrest (Nat.lt_of_succ_lt_succ hi)
        fun j hj => hzero (j + 1) (by omega)
      exact ⟨x', y', hx', hy', heq'⟩

theorem matched_slash {n : Nat} {u m key : Bytes} (h : strncaseeq n (u ++ 0 :: m) key = true)
    (hcstr : IsCStr u) (hle : n ≤ u.length + 1) (hslash : (key.take n).getLast? = some 47) :
    n ≠ 0 ∧ (u ++ 0 :: m)[n - 1]? = some 47 := by
  rw [List.getLast?_take] at hslash
  by_cases h0 : n = 0
  · rw [if_pos h0] at hslash
    cases hslash
  have hnul : ∀ j < n - 1, (u ++ 0 :: m)[j]? ≠ some 0 := by
    intro j hj hzero
    rw [List.getElem?_append_left (by omega)] at hzero
    exact hcstr (List.mem_of_getElem? hzero)
  obtain ⟨x, y, hx, hy, heq⟩ := strncaseeq_getElem h (show n - 1 < n by omega) hnul
  rw [if_neg h0, hy, Option.some_or] at hslash
  obtain rfl : y = 47 := Option.some.inj hslash
  have hx47 : x = 47 := (tolower_eq (by decide)).mp (heq.trans rfl)
  exact ⟨h0, by rw [hx, hx47]⟩

theorem aliasMatches_front {forceLowercase : Bool} {ds : DataString} {t behind : Bytes}
    (ht : Simplified t)
    (h : aliasMatches forceLowercase (t ++ 0 :: behind) t.length ds = true) :
    ds.key.used - 1 ≤ t.length ∧
    ∃ front, IsNormal 47 46 (front ++ cstr ((t ++ 0 :: behind).drop (ds.key.used - 1))) ∧
      (ds.key.text.getLast? = some 47 → front.getLast? = some 47) := by
  unfold aliasMatches at h
  dsimp only at h
  have hlen : ¬ ((ds.key.used : Int) - 1 > t.length) := fun hgt => by simp [hgt] at h
  have hused : ds.key.used ≠ 0 := fun h0 => by simp [h0] at h
  have hnat : ((ds.key.used : Int) - 1).toNat = ds.key.used - 1 := by omega
  rw [if_neg hlen, if_neg hused, hnat] at h
  have hmatch : strncaseeq (ds.key.used - 1) (t ++ 0 :: behind) ds.key.ptr = true := by
    cases forceLowercase with
    | true => exact h
    | false => exact strncaseeq_of_strneq h
  refine ⟨by omega, ?_⟩
  obtain ⟨u, hnormal, hcstr, htext⟩ := ht
  by_cases hle : ds.key.used - 1 ≤ u.length
  · obtain ⟨m, hm⟩ : ∃ m, t ++ 0 :: behind = u ++ 0 :: m := by
      rcases htext with rfl | rfl
      · exact ⟨behind, rfl⟩
      · exact ⟨0 :: behind, by simp⟩
    have hrest : IsCStr (u.drop (ds.key.used - 1)) := fun hmem => hcstr (List.mem_of_mem_drop hmem)
    rw [hm] at hmatch ⊢
    rw [List.drop_append_of_le_length hle, cstr_append_zero hrest]
    refine ⟨u.take (ds.key.used - 1), by rwa [List.take_append_drop], fun hslash => ?_⟩
    obtain ⟨h0, hget⟩ := matched_slash hmatch hcstr (by omega) hslash
    rw [List.getElem?_append_left (by omega)] at hget
    rw [List.getLast?_take, if_neg h0, hget, Option.some_or]
  · -- the NUL behind an empty path was compared, too
    rcases htext with rfl | rfl
    · omega
    · rw [List.length_append, List.length_singleton] at hlen
      have hn : ds.key.used - 1 = u.length + 1 := by omega
      rw [List.append_assoc, List.singleton_append] at hmatch ⊢
      rw [hn, drop_append_cons]
      refine ⟨u, by simpa [cstr] using hnormal, fun hslash => ?_⟩
      obtain ⟨-, hget⟩ := matched_slash hmatch hcstr (by omega) hslash
      rw [hn, Nat.add_sub_cancel, List.getElem?_append_right (Nat.le_refl _)] at hget
      simp at hget

section Handler

variable [Malloc]

theorem modAliasPhysicalHandler_text {aliases : Arr DataString} {forceLowercase : Bool}
    {ph ph' : Physical} {tmpBuf tmpBuf' : Buffer} {ds : DataString}
    (hfor : aliasFor aliases forceLowercase ph = some (some ds)) (hused : ph.path.used ≠ 0)
    (hrun : modAliasPhysicalHandler aliases forceLowercase ph tmpBuf = some (ph', tmpBuf')) :
    ph'.path.text = ds.value.text ++
      cstr ((ph.path.ptr.drop (ph.basedir.used - 1 - 1)).drop (ds.key.used - 1)) := by
  simp only [modAliasPhysicalHandler, if_neg hused, hfor, Option.bind_eq_bind,
    Option.bind_some] at hrun
  obtain ⟨rfl, -⟩ := Prod.mk.inj (Option.some.inj hrun)
  generalize cstr ((ph.path.ptr.drop (ph.basedir.used - 1 - 1)).drop (ds.key.used - 1)) = rest
  have htext : (bufferAppendString (bufferCopyStringBuffer tmpBuf ds.value) (some rest)).Text
      (ds.value.text ++ rest) := by
    by_cases hvalue : ds.value.used = 0
    · have hreset : (bufferCopyStringBuffer tmpBuf ds.value).used = 0 := by
        rw [bufferCopyStringBuffer, if_pos hvalue]
        exact bufferReset_used tmpBuf
      have hempty : ds.value.text = [] := by simp [Buffer.text, hvalue]
      rw [hempty, List.nil_append]
      exact text_bufferAppendString_unused hreset rest
    · exact (text_bufferAppendString (text_bufferCopyStringBuffer tmpBuf hvalue) rest).1
  have hcopy := text_bufferCopyStringBuffer ph.path (show (bufferAppendString
    (bufferCopyStringBuffer tmpBuf ds.value) (some rest)).used ≠ 0 by rw [htext.used]; omega)
  rw [hcopy.text_eq, htext.text_eq]

/-- **An alias stays in its target** exactly if the seam holds: for every path that
`buffer_path_simplify` can produce, every list of aliases and every document root. -/
theorem aliasStays_iff (cwd : List Bytes) {dest : PathDest} {src uriPath : Buffer} {s : Bytes}
    {ret : Int} (hsrc : src.Terminated s) (huri : bufferPathSimplify dest src = some (ret, uriPath))
    {aliases : Arr DataString} {forceLowercase : Bool} {ph ph' : Physical}
    {docRoot relPath tmpBuf tmpBuf' : Buffer} {ds : DataString} :
    let rel := physicalRelPath forceLowercase relPath uriPath
    let physical := physicalPath ph docRoot rel
    aliasFor aliases forceLowercase physical = some (some ds) →
    modAliasPhysicalHandler aliases forceLowercase physical tmpBuf = some (ph', tmpBuf') →
    (StaysInTarget cwd ds.key.text ds.value.text ph'.path.text ↔
      SeamHolds cwd ds.key.text ds.value.text (cstr (rel.ptr.drop (ds.key.used - 1)))) := by
  intro rel physical hfor hrun
  obtain ⟨huriUsed, huriText, -⟩ := bufferPathSimplify_simplified hsrc huri
  obtain ⟨t, hrel, ht, -⟩ := text_physicalRelPath forceLowercase relPath huriUsed huriText
  have hbase : 2 ≤ physical.basedir.used := by
    by_contra hlt
    simp [aliasFor, show physical.basedir.used < 2 by omega] at hfor
  obtain ⟨root, hpath, hbasedir⟩ := physicalPath_text hrel ht hbase
  obtain ⟨behind, hptr⟩ := hpath.ptr_eq
  obtain ⟨behind', hrelPtr⟩ := hrel.ptr_eq
  have huriPtr : physical.path.ptr.drop (physical.basedir.used - 1 - 1) = t ++ 0 :: behind := by
    rw [hbasedir, hptr, List.append_assoc]
    exact List.drop_left' rfl
  have hlen : (physical.path.used : Int) - 1 - (physical.basedir.used - 1 - 1 : Nat) =
      t.length := by
    rw [hbasedir, hpath.used, List.length_append]
    omega
  have hmatch : aliasMatches forceLowercase (t ++ 0 :: behind) t.length ds = true := by
    unfold aliasFor at hfor
    rw [if_neg (by omega)] at hfor
    have hfind := List.find?_some (Option.some.inj hfor)
    rwa [huriPtr, hlen] at hfind
  obtain ⟨hle, front, hnormal, hkey⟩ := aliasMatches_front ht hmatch
  -- the relative path has the same text behind the key
  have hrest : cstr (rel.ptr.drop (ds.key.used - 1)) =
      cstr ((t ++ 0 :: behind).drop (ds.key.used - 1)) := by
    rw [hrelPtr, List.drop_append_of_le_length hle, List.drop_append_of_le_length hle,
      cstr_append_nul, cstr_append_nul]
  have hused : physical.path.used ≠ 0 := by
    rw [hpath.used]
    omega
  rw [modAliasPhysicalHandler_text hfor hused hrun, huriPtr, hrest]
  exact staysInTarget_iff hnormal hkey

end Handler

/-- `alias.url = ("/foo" => "/var/foo/")` -/
def fooAlias : Arr DataString := oneString (ascii "/foo") (ascii "/var/foo/")

/-- The path in a request, of which the document root is `/srv`. -/
def srvPath [Malloc] (uriPath : Buffer) : Physical :=
  physicalPath ⟨bufferInit, bufferInit⟩ ⟨ascii "/srv" ++ [0], 5, 1⟩
    (physicalRelPath false bufferInit uriPath)

theorem fooAlias_run {uri path rest : Bytes} : letI : Malloc := zeroMalloc
    ((bufferPathSimplify (.buffer bufferInit) ⟨uri ++ [0], uri.length + 1, 1⟩).bind fun r =>
      (modAliasPhysicalHandler fooAlias false (srvPath r.2) bufferInit).bind fun r' =>
        (aliasFor fooAlias false (srvPath r.2)).map fun ds => (r'.1.path.text,
          cstr ((physicalRelPath false bufferInit r.2).ptr.drop 4), ds.isSome)) =
      some (path, rest, true) →
    ∃ ret uriPath ph' tmpBuf' ds, bufferPathSimplify (.buffer bufferInit)
        ⟨uri ++ [0], uri.length + 1, 1⟩ = some (ret, uriPath) ∧
      aliasFor fooAlias false (srvPath uriPath) = some (some ds) ∧
      modAliasPhysicalHandler fooAlias false (srvPath uriPath) bufferInit = some (ph', tmpBuf') ∧
      ph'.path.text = path ∧
      cstr ((physicalRelPath false bufferInit uriPath).ptr.drop 4) = rest := by
  let _ : Malloc := zeroMalloc
  intro h
  obtain ⟨⟨ret, uriPath⟩, huri, h⟩ := Option.bind_eq_some_iff.mp h
  obtain ⟨⟨ph', tmpBuf'⟩, hrun, h⟩ := Option.bind_eq_some_iff.mp h
  obtain ⟨found, hfor, h⟩ := Option.map_eq_some_iff.mp h
  simp only [Prod.mk.injEq] at h
  obtain ⟨hpath, hrest, hsome⟩ := h
  obtain ⟨ds, rfl⟩ := Option.isSome_iff_exists.mp hsome
  exact ⟨ret, uriPath, ph', tmpBuf', ds, huri, hfor, hrun, hpath, hrest⟩

/-- `/foo../x` is `/var/foo/../x`. -/
theorem not_aliasStays_fooDots : letI : Malloc := zeroMalloc
    ∃ ret uriPath ph' tmpBuf' ds, bufferPathSimplify (.buffer bufferInit)
        ⟨ascii "/foo../x" ++ [0], 9, 1⟩ = some (ret, uriPath) ∧
      aliasFor fooAlias false (srvPath uriPath) = some (some ds) ∧
      modAliasPhysicalHandler fooAlias false (srvPath uriPath) bufferInit = some (ph', tmpBuf') ∧
      ¬ StaysInTarget [] (ascii "/foo") (ascii "/var/foo/") ph'.path.text := by
  let _ : Malloc := zeroMalloc
  obtain ⟨ret, uriPath, ph', tmpBuf', ds, huri, hfor, hrun, hpath, -⟩ :=
    @fooAlias_run (ascii "/foo../x") (ascii "/var/foo/../x") (ascii "../x") (by decide +kernel)
  refine ⟨ret, uriPath, ph', tmpBuf', ds, huri, hfor, hrun, ?_⟩
  rw [hpath]
  rintro ⟨segs, hsplit, hbelow⟩
  obtain rfl : segs = [ascii "..", ascii "x"] := by
    have hall : (ascii "/var/foo/../x").splitOn 47 =
        frontSegments (ascii "/var/foo/") ++ [ascii "..", ascii "x"] := by decide +kernel
    exact List.append_cancel_left (hsplit.symm.trans hall)
  have hup := (below_cons.mp hbelow).1
  revert hup
  decide +kernel

theorem aliasStays_iff_fooFile : letI : Malloc := zeroMalloc
    ∃ ret uriPath ph' tmpBuf' ds, bufferPathSimplify (.buffer bufferInit)
        ⟨ascii "/foo/./x" ++ [0], 9, 1⟩ = some (ret, uriPath) ∧
      aliasFor fooAlias false (srvPath uriPath) = some (some ds) ∧
      modAliasPhysicalHandler fooAlias false (srvPath uriPath) bufferInit = some (ph', tmpBuf') ∧
      StaysInTarget [] ds.key.text ds.value.text ph'.path.text := by
  let _ : Malloc := zeroMalloc
  obtain ⟨ret, uriPath, ph', tmpBuf', ds, huri, hfor, hrun, -, hrest⟩ :=
    @fooAlias_run (ascii "/foo/./x") (ascii "/var/foo//x") (ascii "/x") (by decide +kernel)
  refine ⟨ret, uriPath, ph', tmpBuf', ds, huri, hfor, hrun, ?_⟩
  have hsrc : (⟨ascii "/foo/./x" ++ [0], 9, 1⟩ : Buffer).Terminated (ascii "/foo/./x") :=
    ⟨by decide, ⟨[], by decide⟩, by decide⟩
  have hds : ds =
      ⟨0, ⟨ascii "/foo" ++ [0], 5, 1⟩, ⟨ascii "/var/foo/" ++ [0], 10, 1⟩, false, false⟩ := by
    have hfor' := hfor
    unfold aliasFor at hfor'
    by_cases hbase : (srvPath uriPath).basedir.used < 2
    · rw [if_pos hbase] at hfor'
      cases hfor'
    · rw [if_neg hbase] at hfor'
      exact List.mem_singleton.mp (List.mem_of_find?_eq_some (Option.some.inj hfor'))
  rw [aliasStays_iff [] hsrc huri hfor hrun]
  subst hds
  show SeamHolds [] (ascii "/foo") (ascii "/var/foo/")
    (cstr ((physicalRelPath false bufferInit uriPath).ptr.drop 4))
  rw [hrest]
  unfold SeamHolds
  decide +kernel

end Lighttpd
