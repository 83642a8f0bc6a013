import Lighttpd.Base
import Lighttpd.PhysicalPath
import Lighttpd.StatCache

/-!
# `response.c`: the part of a path behind a file

When a name of `physical.path` is no directory, `http_response_prepare` cuts the path at its
slashes, from the right and not within `physical.basedir`, until `stat_cache_get_entry` knows what
is left. What was cut off becomes `request.pathinfo`, and `uri.path` is shortened by as many
characters: that `uri.path` ends like `physical.path` is not checked. So the path is split as it
should be exactly if `uri.path` ends with what was cut off (`splits_iff`).
-/

namespace Lighttpd

open CLib

/-! ## The code -/

/-- The paths of the connection, and `srv->tmp_buf`. -/
structure SplitPaths where
  path : Buffer
  basedir : Buffer
  uriPath : Buffer
  pathinfo : Buffer
  tmpBuf : Buffer
  httpStatus : Nat
  deriving DecidableEq, Repr

/-- The variables of the loop, with `physical.path`; the pointers point into `tmp_buf`. -/
structure PathinfoLoop where
  slash : Option Nat
  pathinfo : Option Nat
  path : Buffer
  tmpBuf : Buffer

section Code

variable [Malloc]

/-- The body of the loop; `stat` is `stat_cache_get_entry`. -/
def pathinfoRound (stat : Bytes → Option StatCacheEntry) (l : PathinfoLoop) :
    PathinfoLoop × Option StatCacheEntry :=
  let path := match l.slash with
    | some slash => bufferCopyStringLen l.path (some (l.tmpBuf.ptr.take slash))
    | none => bufferCopyStringBuffer l.path l.tmpBuf
  match stat path.text with
  | some sce => ({ l with path := path }, some sce)
  | none =>
    let ptr := match l.pathinfo with
      | some pathinfo => l.tmpBuf.ptr.set pathinfo 0
      | none => l.tmpBuf.ptr
    let slash := strrchr (cstr ptr) 47
    -- restore '/'
    let ptr := match l.pathinfo with
      | some pathinfo => ptr.set pathinfo 47
      | none => ptr
    let pathinfo := match slash with
      | some slash => some slash
      | none => l.pathinfo
    (⟨slash, pathinfo, path, { l.tmpBuf with ptr := ptr }⟩, none)

def pathinfoLoop (stat : Bytes → Option StatCacheEntry) (basedirUsed : Nat) :
    Nat → PathinfoLoop → Option (PathinfoLoop × Option StatCacheEntry)
  | 0, _ => none
  | fuel + 1, l =>
    match pathinfoRound stat l with
    | (l, some sce) => some (l, some sce)
    | (l, none) =>
      match l.slash with
      | some slash =>
        if slash > (basedirUsed + 2 ^ 32 - 2) % 2 ^ 32 then pathinfoLoop stat basedirUsed fuel l
        else some (l, none)
      | none => some (l, none)

/-- `used -= n`, and the new terminator; in front of the block or behind it is no value. -/
def shortenPath (b : Buffer) (n : Nat) : Option Buffer :=
  let used := (b.used + 2 ^ 32 - n) % 2 ^ 32
  let last := (used + 2 ^ 32 - 1) % 2 ^ 32
  if last < b.ptr.length then some { b with ptr := b.ptr.set last 0, used := used } else none

/-- The part of `http_response_prepare` behind `ENOTDIR`: it returns, or goes on. -/
def splitPathinfo (stat : Bytes → Option StatCacheEntry) (followSymlink : Bool) (con : SplitPaths) :
    Option (Option HandlerT × SplitPaths) := do
  let tmpBuf := bufferCopyStringBuffer con.tmpBuf con.path
  let (l, sce) ← pathinfoLoop stat con.basedir.used (tmpBuf.used + 1) ⟨none, none, con.path, tmpBuf⟩
  let con := { con with path := l.path, tmpBuf := l.tmpBuf }
  match sce with
  | none => some (some .finished, { con with httpStatus := 404, path := bufferReset con.path })
  | some sce =>
    if ¬ S_ISREG sce.st.stMode then
      some (some .finished, { con with httpStatus := 404, path := bufferReset con.path })
    else if sce.isSymlink ∧ ¬ followSymlink then
      some (some .finished, { con with httpStatus := 403, path := bufferReset con.path })
    else
      match l.pathinfo with
      | none => some (none, con)
      | some pathinfo =>
        let rest := cstr (l.tmpBuf.ptr.drop pathinfo)
        let uriPath ← shortenPath con.uriPath rest.length
        some (none, { con with
          pathinfo := bufferCopyString con.pathinfo (some rest), uriPath := uriPath })

end Code

/-! ## Where a path is cut -/

/-- The path as a whole, or a slash behind `basedir`. -/
def IsCut (basedir path : Bytes) (i : Nat) : Prop :=
  i = path.length ∨ path[i]? = some 47 ∧ basedir ≠ [] ∧ basedir.length ≤ i

/-- `stat_cache_get_entry` knows the path up to `i`, and no longer part of it. -/
structure LongestKnown (stat : Bytes → Option StatCacheEntry) (basedir path : Bytes) (i : Nat)
    (sce : StatCacheEntry) : Prop where
  cut : IsCut basedir path i
  known : stat (path.take i) = some sce
  longest : ∀ j, IsCut basedir path j → i < j → stat (path.take j) = none

/-! ## The loop -/

theorem strrchr_eq_some {s : Bytes} {c : UInt8} {i : Nat} (h : strrchr s c = some i) :
    s[i]? = some c ∧ i < s.length ∧ ∀ j, i < j → s[j]? ≠ some c := by
  have hmem : c ∈ s := by
    by_contra hnot
    rw [strrchr_eq_none.mpr hnot] at h
    nomatch h
  obtain ⟨a, b, rfl, hb⟩ := exists_split_last hmem
  rw [strrchr_append_cons a hb] at h
  obtain rfl := Option.some.inj h
  refine ⟨by simp, by simp, fun j hj hget => hb ?_⟩
  rw [List.getElem?_append_right (by omega)] at hget
  obtain ⟨d, hd⟩ : ∃ d, j - a.length = d + 1 := ⟨j - a.length - 1, by omega⟩
  rw [hd, List.getElem?_cons_succ] at hget
  exact List.mem_of_getElem? hget

/-- The loop is at `i`: there is the last slash, or the whole path is tried. -/
structure AtCut (path : Bytes) (l : PathinfoLoop) (i : Nat) : Prop where
  text : l.tmpBuf.Text path
  pointers : i = path.length ∧ l.slash = none ∧ l.pathinfo = none ∨
    path[i]? = some 47 ∧ l.slash = some i ∧ l.pathinfo = some i

def LoopEnd (stat : Bytes → Option StatCacheEntry) (basedir path : Bytes)
    (r : PathinfoLoop × Option StatCacheEntry) : Prop :=
  match r.2 with
  | some sce => ∃ i, LongestKnown stat basedir path i sce ∧ AtCut path r.1 i ∧
      r.1.path.Text (path.take i)
  | none => ∀ i, IsCut basedir path i → stat (path.take i) = none

section Loop

variable [Malloc] {stat : Bytes → Option StatCacheEntry} {basedir path : Bytes} {l : PathinfoLoop}
  {i : Nat}

omit [Malloc] in
theorem AtCut.le (h : AtCut path l i) : i ≤ path.length := by
  rcases h.pointers with ⟨rfl, -⟩ | ⟨hget, -⟩
  · exact Nat.le_refl _
  · exact Nat.le_of_lt (List.getElem?_eq_some_iff.mp hget).1

theorem pathinfoRound_spec (hpath : IsCStr path) (h : AtCut path l i) : ∃ cut tmpBuf,
    cut.Text (path.take i) ∧ tmpBuf.Text path ∧ pathinfoRound stat l =
      match stat (path.take i) with
      | some sce => ({ l with path := cut }, some sce)
      | none => (⟨strrchr (path.take i) 47, match strrchr (path.take i) 47 with
          | some slash => some slash
          | none => l.pathinfo, cut, tmpBuf⟩, none) := by
  obtain ⟨behind, hptr⟩ := h.text.ptr_eq
  rcases h.pointers with ⟨rfl, hslash, hinfo⟩ | ⟨hget, hslash, hinfo⟩
  · have hcut : (bufferCopyStringBuffer l.path l.tmpBuf).Text path := by
      have hcopy := text_bufferCopyStringBuffer l.path
        (show l.tmpBuf.used ≠ 0 by rw [h.text.used]; omega)
      rwa [h.text.text_eq] at hcopy
    refine ⟨_, l.tmpBuf, by rwa [List.take_length], h.text, ?_⟩
    unfold pathinfoRound
    rw [hslash, hinfo, List.take_length]
    dsimp only
    rw [hcut.text_eq, hptr, cstr_append_zero hpath, ← hptr]
  · have hlt : i < path.length := (List.getElem?_eq_some_iff.mp hget).1
    have htake : l.tmpBuf.ptr.take i = path.take i := by
      rw [hptr, List.take_append_of_le_length (Nat.le_of_lt hlt)]
    have hcut := text_bufferCopyStringLen l.path (path.take i)
    -- the path ends at the slash while the one before is looked for
    have hterm : cstr (l.tmpBuf.ptr.set i 0) = path.take i := by
      have hset : l.tmpBuf.ptr.set i 0 = path.take i ++ 0 :: l.tmpBuf.ptr.drop (i + 1) := by
        rw [List.set_eq_take_append_cons_drop, if_pos (by simp [hptr]; omega), htake]
      rw [hset, cstr_append_zero fun hmem => hpath (List.mem_of_mem_take hmem)]
    have hrestore : (l.tmpBuf.ptr.set i 0).set i 47 = l.tmpBuf.ptr := by
      rw [List.set_set]
      obtain ⟨hlen, hat⟩ : ∃ hlen : i < l.tmpBuf.ptr.length, l.tmpBuf.ptr[i] = 47 :=
        List.getElem?_eq_some_iff.mp (by rw [hptr, List.getElem?_append_left hlt, hget])
      exact hat ▸ List.set_getElem_self hlen
    refine ⟨_, l.tmpBuf, hcut, h.text, ?_⟩
    unfold pathinfoRound
    rw [hslash, hinfo]
    dsimp only
    rw [htake, hcut.text_eq, hterm, hrestore]

omit [Malloc] in
theorem behind_basedir {slash used : Nat} (hused : used = basedir.length + 1)
    (hbase : used < 2 ^ 32) (hslash : slash < 2 ^ 32) :
    slash > (used + 2 ^ 32 - 2) % 2 ^ 32 ↔ basedir ≠ [] ∧ basedir.length ≤ slash := by
  cases basedir with
  | nil =>
    rw [List.length_nil] at hused
    subst hused
    simp only [ne_eq, not_true_eq_false, false_and, iff_false]
    omega
  | cons c basedir =>
    rw [List.length_cons] at hused ⊢
    have hsub : (used + 2 ^ 32 - 2) % 2 ^ 32 = used - 2 := by omega
    rw [hsub, and_iff_right (List.cons_ne_nil _ _)]
    omega

/-- **The loop ends** at the longest part of the path that is known, if there is one. -/
theorem pathinfoLoop_spec {used fuel : Nat} (hused : used = basedir.length + 1)
    (hbase : used < 2 ^ 32) (hpath : IsCStr path) (hsmall : path.length < 2 ^ 32)
    (h : AtCut path l i) (hcut : IsCut basedir path i)
    (hlong : ∀ j, IsCut basedir path j → i < j → stat (path.take j) = none) (hfuel : i < fuel) :
    ∃ r, pathinfoLoop stat used fuel l = some r ∧ LoopEnd stat basedir path r := by
  induction fuel generalizing l i with
  | zero => omega
  | succ fuel ih =>
    obtain ⟨cut, tmpBuf, htext, htmp, hround⟩ := @pathinfoRound_spec _ stat path l i hpath h
    have hle := h.le
    rw [pathinfoLoop, hround]
    cases hstat : stat (path.take i) with
    | some sce => exact ⟨_, rfl, i, ⟨hcut, hstat, hlong⟩, ⟨h.text, h.pointers⟩, htext⟩
    | none =>
      have hfrom : ∀ j, IsCut basedir path j → i ≤ j → stat (path.take j) = none := by
        intro j hj hij
        rcases Nat.lt_or_eq_of_le hij with hlt | rfl
        · exact hlong j hj hlt
        · exact hstat
      cases hslash : strrchr (path.take i) 47 with
      | none =>
        refine ⟨_, rfl, fun j hj => ?_⟩
        rcases Nat.lt_or_ge j i with hji | hij
        · rcases hj with rfl | ⟨hget, -⟩
          · omega
          · refine absurd ?_ (strrchr_eq_none.mp hslash)
            exact List.mem_of_getElem? (by rw [List.getElem?_take_of_lt hji, hget])
        · exact hfrom j hj hij
      | some slash =>
        obtain ⟨hget, hlt, hlast⟩ := strrchr_eq_some hslash
        rw [List.length_take] at hlt
        have hslashi : slash < i := by omega
        rw [List.getElem?_take_of_lt hslashi] at hget
        -- between the slash and `i` there is no other place
        have hbetween : ∀ j, IsCut basedir path j → slash < j → stat (path.take j) = none := by
          intro j hj hsj
          rcases Nat.lt_or_ge j i with hji | hij
          · rcases hj with rfl | ⟨hgetj, -⟩
            · omega
            · exact absurd (by rw [List.getElem?_take_of_lt hji, hgetj]) (hlast j hsj)
          · exact hfrom j hj hij
        have hbehind := @behind_basedir basedir slash used hused hbase (by omega)
        dsimp only
        by_cases hgo : slash > (used + 2 ^ 32 - 2) % 2 ^ 32
        · rw [if_pos hgo]
          exact ih ⟨htmp, Or.inr ⟨hget, rfl, rfl⟩⟩ (Or.inr ⟨hget, hbehind.mp hgo⟩) hbetween
            (by omega)
        · rw [if_neg hgo]
          refine ⟨_, rfl, fun j hj => ?_⟩
          rcases Nat.lt_or_ge slash j with hsj | hjs
          · exact hbetween j hj hsj
          · rcases hj with rfl | ⟨-, hne, hbj⟩
            · omega
            · exact absurd (hbehind.mpr ⟨hne, Nat.le_trans hbj hjs⟩) hgo

end Loop

/-! ## The split -/

/-- The paths in front of the loop: `physical.path` is below `physical.basedir`. -/
structure HoldsPaths (con : SplitPaths) (path basedir uriPath : Bytes) : Prop where
  pathText : con.path.Text path
  pathStr : IsCStr path
  basedirText : con.basedir.Text basedir
  below : basedir <+: path
  uriText : con.uriPath.Text uriPath
  size_t : con.path.used < 2 ^ 32 ∧ con.uriPath.used < 2 ^ 32

/-- The new paths are the old one in two parts, and `uri.path` without the second one. -/
structure PathSplit (path basedir uriPath : Bytes) (con : SplitPaths) : Prop where
  whole : con.path.text ++ con.pathinfo.text = path
  below : basedir <+: con.path.text
  slash : con.pathinfo.text = [] ∨ con.pathinfo.text.head? = some 47
  uri : ∃ uri, con.uriPath.Text uri ∧ uri ++ con.pathinfo.text = uriPath

/-- The loop ends, nothing is written outside of a block, and a path that is taken is split. -/
def Splits [Malloc] (stat : Bytes → Option StatCacheEntry) (followSymlink : Bool) (con : SplitPaths)
    (path basedir uriPath : Bytes) : Prop :=
  ∃ r, splitPathinfo stat followSymlink con = some r ∧
    (r.1 = none → PathSplit path basedir uriPath r.2)

/-- What is cut off at `i` is at the end of `uri.path`; where nothing is, `request.pathinfo` is
empty before. -/
def RestFits (con : SplitPaths) (path uriPath : Bytes) (i : Nat) : Prop :=
  if i = path.length then con.pathinfo.text = [] else path.drop i <:+ uriPath

theorem text_shortenPath {b : Buffer} {s t : Bytes} (hb : b.Text (s ++ t))
    (hsize : b.used < 2 ^ 32) :
    ∃ b', shortenPath b t.length = some b' ∧ b'.Text s := by
  obtain ⟨behind, hptr⟩ := hb.ptr_eq
  have hused := hb.used
  rw [List.length_append] at hused
  have hnew : (b.used + 2 ^ 32 - t.length) % 2 ^ 32 = s.length + 1 := by omega
  have hlast : (s.length + 1 + 2 ^ 32 - 1) % 2 ^ 32 = s.length := by omega
  have hlt : s.length < b.ptr.length := by
    simp only [hptr, List.length_append, List.length_cons]
    omega
  unfold shortenPath
  dsimp only
  rw [hnew, hlast, if_pos hlt]
  refine ⟨_, rfl, @Buffer.text_of_ptr _ s (b.ptr.drop (s.length + 1)) ?_ rfl⟩
  rw [List.set_eq_take_append_cons_drop, if_pos hlt, hptr, List.append_assoc, List.take_left' rfl]

theorem LongestKnown.unique {stat : Bytes → Option StatCacheEntry} {basedir path : Bytes}
    {i j : Nat} {sce sce' : StatCacheEntry} (h : LongestKnown stat basedir path i sce)
    (h' : LongestKnown stat basedir path j sce') : i = j ∧ sce = sce' := by
  rcases Nat.lt_trichotomy i j with hij | rfl | hji
  · exact absurd ((h.longest j h'.cut hij).symm.trans h'.known) nofun
  · exact ⟨rfl, Option.some.inj (h.known.symm.trans h'.known)⟩
  · exact absurd ((h'.longest i h.cut hji).symm.trans h.known) nofun

theorem IsCut.below {basedir path : Bytes} {i : Nat} (h : IsCut basedir path i)
    (hbelow : basedir <+: path) : basedir <+: path.take i := by
  refine List.prefix_take_iff.mpr ⟨hbelow, ?_⟩
  rcases h with rfl | ⟨-, -, hle⟩
  · exact hbelow.length_le
  · exact hle

section Split

variable [Malloc] {con : SplitPaths} {path basedir uriPath : Bytes}

/-- **One run**: where the longest known part is a file, what is cut off must fit. -/
theorem splits_iff_fits (h : HoldsPaths con path basedir uriPath)
    (stat : Bytes → Option StatCacheEntry) (followSymlink : Bool) :
    Splits stat followSymlink con path basedir uriPath ↔
      ∀ i sce, LongestKnown stat basedir path i sce → S_ISREG sce.st.stMode = true →
        (sce.isSymlink = true → followSymlink = true) → RestFits con path uriPath i := by
  have hpathUsed := h.pathText.used
  have hbaseUsed := h.basedirText.used
  have hle := h.below.length_le
  have hsize := h.size_t
  have htmp : (bufferCopyStringBuffer con.tmpBuf con.path).Text path := by
    have hcopy := text_bufferCopyStringBuffer con.tmpBuf (show con.path.used ≠ 0 by omega)
    rwa [h.pathText.text_eq] at hcopy
  have hstart : AtCut path ⟨none, none, con.path, bufferCopyStringBuffer con.tmpBuf con.path⟩
      path.length := ⟨htmp, Or.inl ⟨rfl, rfl, rfl⟩⟩
  have hlong : ∀ j, IsCut basedir path j → path.length < j → stat (path.take j) = none := by
    rintro j (rfl | ⟨hget, -⟩) hj
    · omega
    · have := (List.getElem?_eq_some_iff.mp hget).1
      omega
  have hfuel : path.length < (bufferCopyStringBuffer con.tmpBuf con.path).used + 1 := by
    rw [htmp.used]
    omega
  obtain ⟨⟨l, found⟩, hloop, hend⟩ := pathinfoLoop_spec hbaseUsed (by omega) h.pathStr (by omega)
    hstart (Or.inl rfl) hlong hfuel
  unfold Splits splitPathinfo
  dsimp only
  rw [hloop, Option.bind_eq_bind, Option.bind_some]
  cases found with
  | none =>
    refine iff_of_true ⟨_, rfl, nofun⟩ fun i sce hknown => ?_
    exact absurd ((hend i hknown.cut).symm.trans hknown.known) nofun
  | some sce =>
    obtain ⟨i, hknown, hat, htext⟩ := hend
    dsimp only
    by_cases hreg : S_ISREG sce.st.stMode = true
    · rw [if_neg (not_not.mpr hreg)]
      by_cases hlink : sce.isSymlink = true ∧ ¬ followSymlink = true
      · rw [if_pos hlink]
        refine iff_of_true ⟨_, rfl, nofun⟩ fun j sce' hknown' _ hfollow => ?_
        obtain ⟨rfl, rfl⟩ := hknown.unique hknown'
        exact absurd (hfollow hlink.1) hlink.2
      · rw [if_neg hlink]
        have hfollow : sce.isSymlink = true → followSymlink = true := by
          intro hsym
          by_contra hnot
          exact hlink ⟨hsym, hnot⟩
        have hrest : (∀ j sce', LongestKnown stat basedir path j sce' →
            S_ISREG sce'.st.stMode = true → (sce'.isSymlink = true → followSymlink = true) →
              RestFits con path uriPath j) ↔ RestFits con path uriPath i := by
          constructor
          · exact fun hall => hall i sce hknown hreg hfollow
          · intro hfits j sce' hknown' _ _
            obtain ⟨rfl, rfl⟩ := hknown.unique hknown'
            exact hfits
        rw [hrest]
        have hbelow := hknown.cut.below h.below
        unfold RestFits
        rcases hat.pointers with ⟨rfl, -, hinfo⟩ | ⟨hget, -, hinfo⟩
        · -- the whole path
          rw [List.take_length] at htext hbelow
          rw [if_pos rfl, hinfo]
          constructor
          · rintro ⟨r, hr, hsplit⟩
            obtain rfl := Option.some.inj hr
            have hwhole := (hsplit rfl).whole
            rw [htext.text_eq] at hwhole
            exact List.self_eq_append_right.mp hwhole.symm
          · intro hempty
            refine ⟨_, rfl, fun _ => ⟨?_, ?_, Or.inl hempty, uriPath, h.uriText, ?_⟩⟩
            · rw [htext.text_eq, hempty, List.append_nil]
            · rwa [htext.text_eq]
            · rw [hempty, List.append_nil]
        · have hlt : i < path.length := (List.getElem?_eq_some_iff.mp hget).1
          have hcstr : cstr (l.tmpBuf.ptr.drop i) = path.drop i := by
            obtain ⟨behind, hptr⟩ := hat.text.ptr_eq
            rw [hptr, List.drop_append_of_le_length (Nat.le_of_lt hlt)]
            exact cstr_append_zero (fun hmem => h.pathStr (List.mem_of_mem_drop hmem)) _
          rw [if_neg (by omega), hinfo]
          dsimp only
          rw [hcstr]
          constructor
          · rintro ⟨r, hr, hsplit⟩
            obtain ⟨uri, -, hrun⟩ := Option.bind_eq_some_iff.mp hr
            obtain rfl := Option.some.inj hrun
            obtain ⟨uri', -, heq⟩ := (hsplit rfl).uri
            rw [(text_bufferCopyString _ _).text_eq] at heq
            exact ⟨uri', heq⟩
          · rintro ⟨uri, huri⟩
            obtain ⟨uriPath', hshort, hshortText⟩ :=
              @text_shortenPath _ uri (path.drop i) (huri.symm ▸ h.uriText) hsize.2
            rw [hshort, Option.bind_eq_bind, Option.bind_some]
            have hinfoText := (text_bufferCopyString con.pathinfo (path.drop i)).text_eq
            refine ⟨_, rfl, fun _ => ⟨?_, ?_, Or.inr ?_, uri, hshortText, ?_⟩⟩
            · rw [htext.text_eq, hinfoText, List.take_append_drop]
            · rwa [htext.text_eq]
            · rw [hinfoText, List.head?_drop, hget]
            · rw [hinfoText, huri]
    · rw [if_pos hreg]
      refine iff_of_true ⟨_, rfl, nofun⟩ fun j sce' hknown' hreg' => ?_
      obtain ⟨rfl, rfl⟩ := hknown.unique hknown'
      exact absurd hreg' hreg

def onlyFile (name p : Bytes) : Option StatCacheEntry :=
  if p = name then some ⟨bufferInit, bufferInit, ⟨0o100644, 1, 5, 0⟩, 0, false, bufferInit⟩
  else none

omit [Malloc] in
theorem longestKnown_onlyFile {i : Nat} (hcut : IsCut basedir path i) :
    LongestKnown (onlyFile (path.take i)) basedir path i
      ⟨bufferInit, bufferInit, ⟨0o100644, 1, 5, 0⟩, 0, false, bufferInit⟩ := by
  refine ⟨hcut, if_pos rfl, fun j hj hij => if_neg fun heq => ?_⟩
  have hle : j ≤ path.length := by
    rcases hj with rfl | ⟨hget, -⟩
    · exact Nat.le_refl _
    · exact Nat.le_of_lt (List.getElem?_eq_some_iff.mp hget).1
  have hlen := congrArg List.length heq
  rw [List.length_take, List.length_take] at hlen
  omega

/-- **The path is split as it should be** in a run exactly if what is cut off fits, and whatever is
known of the disk exactly if what may be cut off fits. -/
theorem splits_iff (h : HoldsPaths con path basedir uriPath) :
    (∀ stat followSymlink, Splits stat followSymlink con path basedir uriPath ↔
      ∀ i sce, LongestKnown stat basedir path i sce → S_ISREG sce.st.stMode = true →
        (sce.isSymlink = true → followSymlink = true) → RestFits con path uriPath i) ∧
    ((∀ stat followSymlink, Splits stat followSymlink con path basedir uriPath) ↔
      ∀ i, IsCut basedir path i → RestFits con path uriPath i) := by
  have hrun := splits_iff_fits h
  refine ⟨hrun, fun hall i hcut => ?_, fun hfits stat followSymlink => ?_⟩
  · exact (hrun (onlyFile (path.take i)) false).mp (hall _ _) i _ (longestKnown_onlyFile hcut)
      (by decide) nofun
  · exact (hrun stat followSymlink).mpr fun i sce hknown _ _ => hfits i hknown.cut

omit [Malloc] in
/-- What is behind `basedir` is a part of `uri.path`: so it is for the paths under a document root,
and for those of `mod_alias` and `mod_userdir`. -/
theorem restFits_of_suffix {rel : Bytes} (hpath : path = basedir ++ rel) (hrel : rel <:+ uriPath)
    (hempty : con.pathinfo.text = []) {i : Nat} (hcut : IsCut basedir path i) :
    RestFits con path uriPath i := by
  unfold RestFits
  by_cases hi : i = path.length
  · rw [if_pos hi]
    exact hempty
  · rw [if_neg hi]
    obtain ⟨-, -, hle⟩ := hcut.resolve_left hi
    obtain ⟨d, rfl⟩ := Nat.exists_eq_add_of_le hle
    rw [hpath, List.drop_append, List.drop_of_length_le (by omega), List.nil_append,
      Nat.add_sub_cancel_left]
    exact (List.drop_suffix d rel).trans hrel

end Split

/-! ## Requests for `/srv/www/a.php` -/

/-- A new request; `path` is the path behind the document root `/srv/www/`. -/
def phpPaths (path uriPath : String) : SplitPaths where
  path := textBuffer (ascii "/srv/www/" ++ ascii path)
  basedir := textBuffer (ascii "/srv/www/")
  uriPath := textBuffer (ascii uriPath)
  pathinfo := bufferInit
  tmpBuf := bufferInit
  httpStatus := 0

theorem holdsPaths_phpPaths {path uriPath : String} (hstr : IsCStr (ascii path))
    (hsize : (ascii path).length < 2 ^ 16 ∧ (ascii uriPath).length < 2 ^ 16) :
    HoldsPaths (phpPaths path uriPath) (ascii "/srv/www/" ++ ascii path) (ascii "/srv/www/")
      (ascii uriPath) where
  pathText := text_textBuffer _
  pathStr := by
    intro hmem
    rcases List.mem_append.mp hmem with hroot | hpath
    · exact absurd hroot (by decide)
    · exact hstr hpath
  basedirText := text_textBuffer _
  below := List.prefix_append _ _
  uriText := text_textBuffer _
  size_t := by
    have hroot : (ascii "/srv/www/").length = 9 := by decide
    simp only [phpPaths, textBuffer, List.length_append, hroot]
    omega

theorem splits_iff_info : letI : Malloc := zeroMalloc
    Splits (onlyFile (ascii "/srv/www/a.php")) false (phpPaths "a.php/info" "/a.php/info")
      (ascii "/srv/www/a.php/info") (ascii "/srv/www/") (ascii "/a.php/info") := by
  let _ : Malloc := zeroMalloc
  have hpaths := @holdsPaths_phpPaths "a.php/info" "/a.php/info" (by decide) (by decide)
  refine (splits_iff hpaths).2.mpr (fun i hcut => ?_) _ _
  exact restFits_of_suffix rfl ⟨ascii "/", by decide⟩ rfl hcut

/-- A path that was put into lower case: the end of `uri.path` is `/Foo`. And a path from another
module, of which more is cut off than `uri.path` has. -/
theorem not_splits_others : letI : Malloc := zeroMalloc
    ¬ Splits (onlyFile (ascii "/srv/www/a.php")) false (phpPaths "a.php/foo" "/a.php/Foo")
        (ascii "/srv/www/a.php/foo") (ascii "/srv/www/") (ascii "/a.php/Foo") ∧
      splitPathinfo (onlyFile (ascii "/srv/www/a.php")) false
        (phpPaths "a.php/info" "/x") = none := by
  let _ : Malloc := zeroMalloc
  refine ⟨fun hsplits => ?_, by decide +kernel⟩
  have hpaths := @holdsPaths_phpPaths "a.php/foo" "/a.php/Foo" (by decide) (by decide)
  have hcut : IsCut (ascii "/srv/www/") (ascii "/srv/www/a.php/foo") 14 :=
    Or.inr (by decide)
  have hfits := (splits_iff_fits hpaths _ false).mp hsplits 14 _ (longestKnown_onlyFile hcut)
    (by decide) nofun
  revert hfits
  unfold RestFits
  decide

end Lighttpd
