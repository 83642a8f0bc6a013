import Lighttpd.PathBounds
import Lighttpd.Plugins.Userdir
import Lighttpd.UrlCoding

/-!
# `response.c`: from the URI of a request to a file name

`http_response_prepare` cuts the URI, decodes its path, simplifies it and appends it to the document
root. It decodes first: whatever is escaped, the name stays below the document root
(`prepareStrings_stays`). The hooks in between are those that go on; the document root is what they
leave.
-/

namespace Lighttpd

open CLib Segments

/-- `con->uri`, without scheme and authority. -/
structure UriStrings where
  query : Buffer
  pathRaw : Buffer
  path : Buffer

section Strings

variable [Malloc]

/-- "their might be a fragment which has to be cut away" -/
def cutFragment (uri : Buffer) : Buffer :=
  match strchr uri.str 35 with
  | some n => { uri with ptr := uri.ptr.set n 0, used := n + 1 }
  | none => uri

def splitQuery (uri : Buffer) (strings : UriStrings) : UriStrings :=
  match strchr uri.str 63 with
  | some n =>
    { strings with
      query := bufferCopyString strings.query (some (uri.str.drop (n + 1)))
      pathRaw := bufferCopyStringLen strings.pathRaw (some (uri.ptr.take n)) }
  | none =>
    { strings with
      query := bufferReset strings.query
      pathRaw := bufferCopyStringBuffer strings.pathRaw uri }

/-- "remove path-modifiers"; `OPTIONS *` has no path. -/
def sanitisePath (isOptions : Bool) (tmpBuf : Buffer) (strings : UriStrings) : Option UriStrings :=
  if isOptions ∧ strings.pathRaw.ptr[0]? = some 42 ∧ strings.pathRaw.ptr[1]? = some 0 then
    some { strings with path := bufferCopyStringBuffer strings.path strings.pathRaw }
  else do
    let (tmpBuf, _) ← bufferUrldecodePath (bufferCopyStringBuffer tmpBuf strings.pathRaw)
    let (_, path) ← bufferPathSimplify (.buffer strings.path) tmpBuf
    some { strings with path := path }

/-- The strings, and the file name unless `OPTIONS *` is answered at once. -/
def prepareStrings (isOptions forceLowercase : Bool) (docRoot uri tmpBuf relPath : Buffer)
    (ph : Physical) (strings : UriStrings) : Option (UriStrings × Option Physical) := do
  let strings ← sanitisePath isOptions tmpBuf (splitQuery (cutFragment uri) strings)
  if isOptions ∧ strings.path.ptr[0]? = some 42 ∧ strings.pathRaw.ptr[1]? = some 0 then
    some (strings, none)
  else
    some (strings, physicalPath ph docRoot (physicalRelPath forceLowercase relPath strings.path))

end Strings

def rawPathOf (uri : Bytes) : Bytes := (uri.takeWhile (· != 35)).takeWhile (· != 63)

def pathOf (uri : Bytes) : Bytes :=
  normalForm 47 46 ((urldecoded false (rawPathOf uri)).dropWhile (· == 32))

theorem takeWhile_strchr {s : Bytes} {c : UInt8} {n : Nat} (h : strchr s c = some n) :
    s.takeWhile (· != c) = s.take n := by
  obtain ⟨a, b, rfl, ha, rfl⟩ := strchr_eq_some h
  rw [takeWhile_append_of_notMem ha, List.take_left' rfl]
  simp

theorem isCStr_takeWhile {s : Bytes} (h : IsCStr s) (p : UInt8 → Bool) : IsCStr (s.takeWhile p) :=
  fun h0 => h (List.takeWhile_prefix p |>.subset h0)

theorem staysBelow_append (cwd : List Bytes) (d : Bytes) {path : Bytes} (h : IsNormal 47 46 path) :
    StaysBelow cwd d (withSlash d ++ path.tail) := by
  obtain ⟨rest, rfl⟩ : ∃ rest, path = 47 :: rest := by
    cases path with
    | nil => exact absurd h.head (by simp)
    | cons x rest => exact ⟨rest, by rw [Option.some.inj h.head]⟩
  obtain ⟨first, segs, hsplit⟩ := List.exists_cons_of_ne_nil (List.splitOn_ne_nil 47 rest)
  have hfirst := IsNormal.first (p := []) h hsplit
  have hup : ∀ seg ∈ rest.splitOn 47, seg ≠ [46, 46] := by
    rw [hsplit]
    intro seg hseg
    rcases List.mem_cons.mp hseg with rfl | hseg
    · rcases hfirst with ⟨rfl, -⟩ | hordinary
      · decide
      · exact fun hup => hordinary (Or.inr (Or.inr hup))
    · exact IsNormal.noUp (p := [47]) h hsplit seg hseg
  refine ⟨rest.splitOn 47, splitOn_withSlash d rest, below_of_noUp ?_ hup⟩
  have hstart : startOf 47 cwd (withSlash d ++ rest) = startOf 47 cwd d := by
    by_cases hd : d = []
    · subst hd
      refine startOf_relative fun hhead => ?_
      obtain ⟨rest', rfl⟩ := List.head?_eq_some_iff.mp hhead.2
      rcases hfirst with ⟨-, hnil⟩ | hordinary
      · cases hnil
      · rw [List.splitOn_cons_eq_if_modifyHead, if_pos (beq_self_eq_true _)] at hsplit
        exact hordinary (Or.inl (List.cons.inj hsplit).1.symm)
    · unfold withSlash
      split
      · rw [List.append_assoc, startOf_append cwd hd]
      · rw [startOf_append cwd hd]
  rw [List.tail_cons, hstart, resolvePath]
  rcases frontSegments_withSlash d with heq | heq
  · rw [heq]
  · rw [heq, List.foldl_append, List.foldl_cons, List.foldl_nil, push_empty]

section Results

variable [Malloc] {uri docRoot : Buffer} {u d : Bytes}

omit [Malloc] in
theorem text_cutFragment (h : uri.Text u) (hu : IsCStr u) :
    (cutFragment uri).Text (u.takeWhile (· != 35)) := by
  unfold cutFragment
  rw [h.str hu]
  cases hn : strchr u 35 with
  | none => rwa [takeWhile_eq_of_notMem (strchr_eq_none.mp hn)]
  | some n =>
    have hlt := strchr_lt hn
    obtain ⟨behind, hptr⟩ := h.ptr_eq
    have hlength : n < uri.ptr.length := by
      rw [hptr, List.length_append]
      omega
    rw [takeWhile_strchr hn]
    constructor
    · show (uri.ptr.set n 0).take (n + 1) = u.take n ++ [0]
      rw [take_set_self hlength, hptr, List.take_append_of_le_length (Nat.le_of_lt hlt)]
    · show n + 1 = (u.take n).length + 1
      rw [List.length_take, Nat.min_eq_left (Nat.le_of_lt hlt)]

omit [Malloc] in
theorem Buffer.Text.used_ne_zero {b : Buffer} {t : Bytes} (h : b.Text t) : b.used ≠ 0 := by
  rw [h.used]
  exact Nat.succ_ne_zero _

theorem text_splitQuery (h : uri.Text u) (hu : IsCStr u) (strings : UriStrings) :
    (splitQuery uri strings).pathRaw.Text (u.takeWhile (· != 63)) := by
  unfold splitQuery
  rw [h.str hu]
  cases hn : strchr u 63 with
  | none =>
    have hcopy := text_bufferCopyStringBuffer strings.pathRaw h.used_ne_zero
    rwa [h.text_eq, ← takeWhile_eq_of_notMem (strchr_eq_none.mp hn)] at hcopy
  | some n =>
    obtain ⟨behind, hptr⟩ := h.ptr_eq
    have htake : uri.ptr.take n = u.take n := by
      rw [hptr, List.take_append_of_le_length (Nat.le_of_lt (strchr_lt hn))]
    rw [takeWhile_strchr hn, ← htake]
    exact text_bufferCopyStringLen _ _

/-- What `buffer_path_simplify` makes of a string, blank or not. -/
theorem str_bufferPathSimplify {dest : PathDest} {src b : Buffer} {s : Bytes} {ret : Int}
    (h : src.Terminated s) (hrun : bufferPathSimplify dest src = some (ret, b)) :
    b.str = normalForm 47 46 (s.dropWhile (· == 32)) := by
  by_cases hblank : s.dropWhile (· == 32) = []
  · rcases bufferPathSimplify_spaces dest h hblank with ⟨hnone, -⟩ | ⟨b', hb', hstr, -⟩
    · rw [hnone] at hrun
      cases hrun
    · obtain ⟨-, rfl⟩ := Prod.mk.inj (Option.some.inj (hb'.symm.trans hrun))
      rw [hblank, hstr]
      rfl
  · obtain ⟨b', hb', -, -, hterm⟩ := bufferPathSimplify_terminated dest h hblank
    obtain ⟨-, rfl⟩ := Prod.mk.inj (Option.some.inj (hb'.symm.trans hrun))
    exact hterm.str

/-- The path of a URI that is not `OPTIONS *`. -/
theorem sanitisePath_text {isOptions : Bool} {tmpBuf : Buffer} {strings strings' : UriStrings}
    (h : strings.pathRaw.Text (rawPathOf u)) (hu : IsCStr (rawPathOf u))
    (hrun : sanitisePath isOptions tmpBuf strings = some strings')
    (hpath : ¬ (isOptions ∧ strings'.path.ptr[0]? = some 42 ∧ strings'.pathRaw.ptr[1]? = some 0)) :
    strings'.path.used ≠ 0 ∧ Simplified strings'.path.text ∧ cstr strings'.path.text = pathOf u := by
  have hcopy := fun b => text_bufferCopyStringBuffer b h.used_ne_zero
  rw [h.text_eq] at hcopy
  unfold sanitisePath at hrun
  split at hrun
  · next hstar =>
    obtain rfl := Option.some.inj hrun
    obtain ⟨behind, hptr⟩ := h.ptr_eq
    obtain ⟨behind', hptr'⟩ := (hcopy strings.path).ptr_eq
    refine absurd ⟨hstar.1, ?_, hstar.2.2⟩ hpath
    cases hr : rawPathOf u with
    | nil => simp [hptr, hr] at hstar
    | cons x r =>
      rw [hr] at hptr hptr'
      simpa [hptr, hptr'] using hstar.2.1
  · simp only [Option.bind_eq_bind, Option.bind_eq_some_iff] at hrun
    obtain ⟨⟨decoded, accesses⟩, hdecode, ⟨ret, path⟩, hsimplify, hrun⟩ := hrun
    obtain rfl := Option.some.inj hrun
    obtain ⟨behind, hptr⟩ := (hcopy tmpBuf).ptr_eq
    obtain ⟨_, _, hdecode', -, htext⟩ := bufferUrldecodeInternal_spec false hptr hu
    obtain ⟨rfl, rfl⟩ := Prod.mk.inj (Option.some.inj (hdecode.symm.trans hdecode'))
    have hterm : decoded.Terminated (urldecoded false (rawPathOf u)) :=
      ⟨isCStr_urldecoded false hu, ⟨[], by rw [List.append_nil, htext.holds]⟩, htext.wf⟩
    obtain ⟨hused, hsimplified, hstr⟩ := bufferPathSimplify_simplified hterm hsimplify
    exact ⟨hused, hsimplified, hstr.symm.trans (str_bufferPathSimplify hterm hsimplify)⟩

theorem str_physicalPath (hroot : docRoot.Text d) (hd : IsCStr d) (forceLowercase : Bool)
    (ph : Physical) (relPath : Buffer) {path : Buffer} (hused : path.used ≠ 0)
    (hpath : Simplified path.text) :
    IsNormal 47 46 (lowered forceLowercase (cstr path.text)) ∧
    (physicalPath ph docRoot (physicalRelPath forceLowercase relPath path)).path.str =
      withSlash d ++ (lowered forceLowercase (cstr path.text)).tail := by
  obtain ⟨t, hnormal, ht, z, hz, htext⟩ : ∃ t, IsNormal 47 46 t ∧ IsCStr t ∧
      ∃ z, (z = [] ∨ z = [0]) ∧ path.text = t ++ z := by
    obtain ⟨t, hnormal, ht, htext | htext⟩ := hpath
    · exact ⟨t, hnormal, ht, [], Or.inl rfl, by rw [htext, List.append_nil]⟩
    · exact ⟨t, hnormal, ht, [0], Or.inr rfl, htext⟩
  have hcstr : cstr path.text = t := by
    rcases hz with rfl | rfl
    · rw [htext, List.append_nil, cstr_eq_self ht]
    · rw [htext, cstr_append_zero ht]
  have hcopy := text_bufferCopyStringBuffer relPath hused
  rw [htext] at hcopy
  have hlowered : IsNormal 47 46 (lowered forceLowercase t) ∧ IsCStr (lowered forceLowercase t) ∧
      (physicalRelPath forceLowercase relPath path).Text (lowered forceLowercase t ++ z) := by
    cases forceLowercase with
    | false => exact ⟨hnormal, ht, hcopy⟩
    | true => exact ⟨hnormal.map (fun x => tolower_eq (by decide)) fun x => tolower_eq (by decide),
        isCStr_map_tolower ht, text_bufferToLower hcopy ht hz⟩
  rw [hcstr]
  generalize lowered forceLowercase t = name at hlowered ⊢
  generalize physicalRelPath forceLowercase relPath path = rel at hlowered ⊢
  obtain ⟨hname, hcstr', hrel⟩ := hlowered
  refine ⟨hname, ?_⟩
  obtain ⟨v, rfl⟩ : ∃ v, name = 47 :: v := by
    cases name with
    | nil => exact absurd hname.head (by simp)
    | cons x v => exact ⟨v, by rw [Option.some.inj hname.head]⟩
  obtain ⟨behind, hptr⟩ := hrel.ptr_eq
  have hcond : rel.used ≠ 0 ∧ rel.ptr.head? = some 47 := by
    rw [hptr]
    exact ⟨hrel.used_ne_zero, rfl⟩
  have htail : (rel.ptr.drop 1).take (rel.used - 2) = v ++ z := by
    have hlength : rel.used - 2 = (v ++ z).length := by
      rw [hrel.used, List.cons_append, List.length_cons]
      omega
    rw [hptr, hlength, List.cons_append, List.cons_append, List.drop_one, List.tail_cons]
    exact List.take_left' rfl
  have hslash := text_bufferAppendSlash
    (text_bufferCopyStringBuffer ph.path hroot.used_ne_zero)
  rw [hroot.text_eq] at hslash
  have happend := text_bufferAppendStringLen hslash (v ++ z)
  obtain ⟨behind', hptr'⟩ := happend.ptr_eq
  have hall : IsCStr (withSlash d ++ v) := by
    refine IsCStr.append ?_ (IsCStr.of_append_right (s := [47]) hcstr')
    unfold withSlash
    split
    · exact hd.append (by decide)
    · exact hd
  unfold physicalPath
  simp only [if_pos hcond, htail, Buffer.str, hptr', List.tail_cons]
  rw [← List.append_assoc, List.append_assoc]
  rcases hz with rfl | rfl
  · exact cstr_append_zero hall _
  · exact cstr_append_zero hall _

/-- **A request stays below the document root**, however its URI is written: the name of the file
is the path that is meant, behind the document root, and no segment leads out of it. -/
theorem prepareStrings_stays (cwd : List Bytes) (huri : uri.Text u) (hu : IsCStr u)
    (hroot : docRoot.Text d) (hd : IsCStr d) {isOptions forceLowercase : Bool}
    {tmpBuf relPath : Buffer} {ph ph' : Physical} {strings strings' : UriStrings}
    (hrun : prepareStrings isOptions forceLowercase docRoot uri tmpBuf relPath ph strings =
      some (strings', some ph')) :
    ph'.path.str = withSlash d ++ (lowered forceLowercase (pathOf u)).tail ∧
      StaysBelow cwd d ph'.path.str := by
  have hcut := text_cutFragment huri hu
  have hraw := text_splitQuery hcut (isCStr_takeWhile hu _) strings
  have hrawCstr : IsCStr (rawPathOf u) := isCStr_takeWhile (isCStr_takeWhile hu _) _
  unfold prepareStrings at hrun
  simp only [Option.bind_eq_bind, Option.bind_eq_some_iff] at hrun
  obtain ⟨sanitised, hsanitise, hrun⟩ := hrun
  split at hrun
  · cases hrun
  · next hpath =>
    obtain ⟨rfl, hph⟩ := Prod.mk.inj (Option.some.inj hrun)
    obtain rfl := Option.some.inj hph
    obtain ⟨hused, hsimplified, htext⟩ := sanitisePath_text hraw hrawCstr hsanitise hpath
    obtain ⟨hnormal, hstr⟩ := str_physicalPath hroot hd forceLowercase ph relPath hused hsimplified
    rw [htext] at hnormal hstr
    rw [hstr]
    exact ⟨rfl, staysBelow_append cwd d hnormal⟩

end Results

def noStrings : UriStrings := ⟨bufferInit, bufferInit, bufferInit⟩

theorem prepareStrings_stays_dots : letI : Malloc := zeroMalloc
    ∃ strings ph, prepareStrings false false (textBuffer (ascii "/srv"))
        (textBuffer (ascii "/%2e%2e/../a?q#f")) bufferInit bufferInit ⟨bufferInit, bufferInit⟩
        noStrings = some (strings, some ph) ∧
      ph.path.str = ascii "/srv/a" ∧ StaysBelow [] (ascii "/srv") ph.path.str := by
  let _ : Malloc := zeroMalloc
  have hrun : ((prepareStrings false false (textBuffer (ascii "/srv"))
      (textBuffer (ascii "/%2e%2e/../a?q#f")) bufferInit bufferInit ⟨bufferInit, bufferInit⟩
      noStrings).bind (·.2)).isSome = true := by decide +kernel
  obtain ⟨ph, hph⟩ := Option.isSome_iff_exists.mp hrun
  obtain ⟨⟨strings, named⟩, hprepare, rfl⟩ := Option.bind_eq_some_iff.mp hph
  obtain ⟨hstr, hstays⟩ := prepareStrings_stays [] (text_textBuffer _) (by decide)
    (text_textBuffer _) (by decide) hprepare
  refine ⟨strings, ph, hprepare, ?_, hstays⟩
  rw [hstr]
  decide +kernel

end Lighttpd
