import Lighttpd.Array
import Lighttpd.Base
import Lighttpd.PhysicalPath

/-!
# `mod_userdir.c`: the directories of the users

The name between `/~` and the next slash becomes a directory below `userdir.basepath`. Its
characters are checked, but `..` consists of such characters (`userdirStays_iff`).

`p->conf`, `getpwnam` and the check whether a path is a directory are parameters. The redirect of a
path without a second slash is left out.
-/

namespace Lighttpd

open CLib Segments

/-- `p->conf` -/
structure UserdirConf where
  path : Buffer
  basepath : Buffer
  excludeUser : Arr DataString
  includeUser : Arr DataString
  letterhomes : Bool

/-- What `mod_userdir_docroot_handler` writes to: `con->physical.path`, `p->username` and
`p->temp_path`. -/
structure UserdirBuffers where
  path : Buffer
  username : Buffer
  tempPath : Buffer

section Handler

variable [Malloc] (conf : UserdirConf)

/-- The name in the path, or how the request goes on without one. -/
def userdirName (uriPath : Buffer) : Except HandlerT Bytes :=
  if uriPath.used = 0 then .error .goOn
  else if conf.path.used = 0 then .error .goOn
  else if uriPath.ptr[0]? ≠ some 47 ∨ uriPath.ptr[1]? ≠ some 126 then .error .goOn
  else
    match strchr (cstr (uriPath.ptr.drop 2)) 47 with
    | none => .error .finished
    | some n => if n = 0 then .error .goOn else .ok ((uriPath.ptr.drop 2).take n)

/-- `[-_a-zA-Z0-9.]` -/
def nameChar (c : UInt8) : Bool :=
  c == 45 || c == 95 || c == 46 || (97 ≤ c && c ≤ 122) || (65 ≤ c && c ≤ 90) || (48 ≤ c && c ≤ 57)

def userdirAllowed (getpwnam : Bytes → Option Bytes) (username : Buffer) : Bool :=
  if bufferIsEmpty conf.basepath && (getpwnam username.str).isNone then false
  else if conf.excludeUser.elements.any fun ds => bufferIsEqual ds.value username then false
  else if conf.includeUser.used ≠ 0 ∧
      ¬ conf.includeUser.elements.any fun ds => bufferIsEqual ds.value username then false
  else bufferIsEmpty conf.basepath || username.str.all nameChar

def userdirHome (getpwnam : Bytes → Option Bytes) (forceLowercase : Bool)
    (tempPath username : Buffer) : Buffer × Buffer :=
  if bufferIsEmpty conf.basepath then
    (bufferCopyString tempPath (getpwnam username.str), username)
  else
    let username := if forceLowercase then bufferToLower username else username
    let tempPath := bufferAppendSlash (bufferCopyStringBuffer tempPath conf.basepath)
    let tempPath :=
      if conf.letterhomes then
        bufferAppendSlash (bufferAppendStringLen tempPath (some (username.ptr.take 1)))
      else tempPath
    (bufferAppendStringBuffer tempPath username, username)

def userdirRest (relPath : Buffer) : Option Bytes :=
  (strchr (cstr (relPath.ptr.drop 2)) 47).map fun n => (cstr (relPath.ptr.drop 2)).drop (n + 1)

/-- The last component says whether `physical.path` is set. -/
def modUserdirDocrootHandler (getpwnam : Bytes → Option Bytes) (isDir : Bytes → Bool)
    (forceLowercase : Bool) (uriPath relPath : Buffer) (bufs : UserdirBuffers) :
    HandlerT × UserdirBuffers × Bool :=
  match userdirName conf uriPath with
  | .error r => (r, bufs, false)
  | .ok name =>
    let username := bufferCopyStringLen bufs.username (some name)
    if ¬ userdirAllowed conf getpwnam username then
      (.goOn, { bufs with username := username }, false)
    else
      let (tempPath, username) := userdirHome conf getpwnam forceLowercase bufs.tempPath username
      let tempPath := bufferAppendStringBuffer (bufferAppendSlash tempPath) conf.path
      if bufferIsEmpty conf.basepath ∧ ¬ isDir tempPath.str then
        (.goOn, { bufs with username := username, tempPath := tempPath }, false)
      else
        let tempPath := bufferAppendString (bufferAppendSlash tempPath) (userdirRest relPath)
        (.goOn, ⟨bufferCopyStringBuffer bufs.path tempPath, username, bufferReset tempPath⟩, true)

end Handler

/-! ## The path of a user -/

/-- Every segment behind those of the base path leads to its directory or below. -/
def StaysBelow (cwd : List Bytes) (base path : Bytes) : Prop :=
  ∃ segs, path.splitOn 47 = frontSegments (withSlash base) ++ segs ∧
    Below 46 (resolvePath 47 46 cwd base)
      ((frontSegments (withSlash base)).foldl (push 46) (startOf 47 cwd path)) segs

/-- The name is not `..`, and `userdir.path` climbs no more levels than name and letter are deep. -/
def UserdirHolds (cwd : List Bytes) (conf : UserdirConf) (name : Bytes) : Prop :=
  resolvePath 47 46 cwd conf.basepath.text = [] ∨
    (name ≠ [46, 46] ∧ climb 46 (conf.path.text.splitOn 47) ≤
      (if name = [46] then 0 else 1) +
        (if conf.letterhomes ∧ name.head? ≠ some 46 then 1 else 0))

def letterSegments (letterhomes : Bool) (name : Bytes) : List Bytes :=
  if letterhomes then [name.take 1] else []

/-- The text of `p->temp_path`. -/
def userdirText (letterhomes : Bool) (base name path rest : Bytes) : Bytes :=
  withSlash base ++ (if letterhomes then name.take 1 ++ [47] else []) ++ name ++
    47 :: (withSlash path ++ rest)

section Text

variable {letterhomes : Bool} {base name path rest : Bytes}

theorem splitOn_userdirText (hname : 47 ∉ name) :
    (userdirText letterhomes base name path rest).splitOn 47 =
      frontSegments (withSlash base) ++ (letterSegments letterhomes name ++ name ::
        (frontSegments (withSlash path) ++ rest.splitOn 47)) := by
  have hletter : 47 ∉ name.take 1 := fun h => hname (List.mem_of_mem_take h)
  unfold userdirText letterSegments
  rw [List.append_assoc, List.append_assoc, splitOn_withSlash]
  cases letterhomes with
  | false =>
    simp only [Bool.false_eq_true, if_false, List.nil_append]
    rw [List.splitOn_append_cons_self_of_not_mem hname, splitOn_withSlash]
  | true =>
    simp only [if_true, List.append_assoc, List.singleton_append]
    rw [List.splitOn_append_cons_self_of_not_mem hletter,
      List.splitOn_append_cons_self_of_not_mem hname, splitOn_withSlash]

theorem climb_userdir (hname : name ≠ []) (segs : List Bytes) :
    climb 46 (letterSegments letterhomes name ++ name :: segs) = 0 ↔
      name ≠ [46, 46] ∧ climb 46 segs ≤ (if name = [46] then 0 else 1) +
        (if letterhomes ∧ name.head? ≠ some 46 then 1 else 0) := by
  by_cases hone : name = [46]
  · subst hone
    have hstay : climb 46 (letterSegments letterhomes [46] ++ [46] :: segs) = climb 46 segs := by
      cases letterhomes with
      | false => rfl
      | true => rfl
    simp [hstay]
  by_cases htwo : name = [46, 46]
  · subst htwo
    have hup : climb 46 (letterSegments letterhomes [46, 46] ++ [46, 46] :: segs) =
        climb 46 segs + 1 := by
      cases letterhomes with
      | false => rfl
      | true => rfl
    simp [hup]
  have hsegs : climb 46 (name :: segs) = climb 46 segs - 1 := by
    rw [climb, if_neg (not_or.mpr ⟨hname, hone⟩), if_neg htwo]
  obtain ⟨c, cs, rfl⟩ := List.exists_cons_of_ne_nil hname
  rw [and_iff_right htwo, if_neg hone]
  by_cases hletter : letterhomes = true ∧ (c :: cs).head? ≠ some 46
  · obtain ⟨rfl, hhead⟩ := hletter
    have hc : c ≠ 46 := fun h => hhead (by rw [h]; rfl)
    have hdown : climb 46 ([c] :: (c :: cs) :: segs) = climb 46 ((c :: cs) :: segs) - 1 := by
      rw [climb, if_neg (by simp [hc]), if_neg (by simp)]
    have hall : letterSegments true (c :: cs) ++ (c :: cs) :: segs = [c] :: (c :: cs) :: segs := rfl
    rw [if_pos ⟨rfl, hhead⟩, hall, hdown, hsegs]
    omega
  · have hstay : climb 46 (letterSegments letterhomes (c :: cs) ++ (c :: cs) :: segs) =
        climb 46 ((c :: cs) :: segs) := by
      cases letterhomes with
      | false => rfl
      | true =>
        have hc : c = 46 := by
          by_contra hc
          exact hletter ⟨rfl, fun h => hc (Option.some.inj h)⟩
        rw [hc]
        rfl
    rw [if_neg hletter, hstay, hsegs]
    omega

theorem resolve_userdir (cwd : List Bytes) (hname : 47 ∉ name) (hne : name ≠ []) :
    (frontSegments (withSlash base)).foldl (push 46)
      (startOf 47 cwd (userdirText letterhomes base name path rest)) =
      resolvePath 47 46 cwd base := by
  have hstart : startOf 47 cwd (userdirText letterhomes base name path rest) =
      startOf 47 cwd base := by
    obtain ⟨c, cs, rfl⟩ := List.exists_cons_of_ne_nil hne
    have hc : c ≠ 47 := fun h => hname (by simp [h])
    by_cases hbase : base = []
    · subst hbase
      cases letterhomes with
      | false => simp [startOf, userdirText, withSlash, hc]
      | true => simp [startOf, userdirText, withSlash, hc]
    · obtain ⟨b, bs, rfl⟩ := List.exists_cons_of_ne_nil hbase
      have hslash : ∃ more, withSlash (b :: bs) = b :: more := by
        unfold withSlash
        split
        · exact ⟨bs ++ [47], rfl⟩
        · exact ⟨bs, rfl⟩
      obtain ⟨more, hmore⟩ := hslash
      rw [userdirText, hmore]
      rfl
  rw [hstart, resolvePath]
  rcases frontSegments_withSlash base with heq | heq
  · rw [heq]
  · rw [heq, List.foldl_append, List.foldl_cons, List.foldl_nil, push_empty]

/-- **What is behind the home decides nothing** as long as it has no `..`. -/
theorem staysBelow_iff (cwd : List Bytes) (hname : 47 ∉ name) (hne : name ≠ [])
    (hrest : ∀ seg ∈ rest.splitOn 47, seg ≠ [46, 46]) :
    StaysBelow cwd base (userdirText letterhomes base name path rest) ↔
      resolvePath 47 46 cwd base = [] ∨ (name ≠ [46, 46] ∧ climb 46 (path.splitOn 47) ≤
        (if name = [46] then 0 else 1) +
          (if letterhomes ∧ name.head? ≠ some 46 then 1 else 0)) := by
  have hclimb : climb 46 (path.splitOn 47) = climb 46 (frontSegments (withSlash path)) := by
    rcases frontSegments_withSlash path with heq | heq
    · rw [heq]
    · rw [heq, climb_concat_nil]
  have hsplit := @splitOn_userdirText letterhomes base name path rest hname
  rw [← List.cons_append, ← List.append_assoc (letterSegments letterhomes name)] at hsplit
  have hstays : StaysBelow cwd base (userdirText letterhomes base name path rest) ↔
      Below 46 (resolvePath 47 46 cwd base) (resolvePath 47 46 cwd base)
        ((letterSegments letterhomes name ++ name :: frontSegments (withSlash path)) ++
          rest.splitOn 47) := by
    unfold StaysBelow
    rw [resolve_userdir cwd hname hne]
    constructor
    · rintro ⟨segs, heq, hbelow⟩
      rw [hsplit] at heq
      rwa [← List.append_cancel_left heq] at hbelow
    · exact fun hbelow => ⟨_, hsplit, hbelow⟩
  have hhome : Below 46 (resolvePath 47 46 cwd base) (resolvePath 47 46 cwd base)
      (letterSegments letterhomes name ++ name :: frontSegments (withSlash path)) ↔
      resolvePath 47 46 cwd base = [] ∨ climb 46 (letterSegments letterhomes name ++
        name :: frontSegments (withSlash path)) = 0 := by
    have hiff := @below_iff_climb UInt8 _ 46 (resolvePath 47 46 cwd base)
      (letterSegments letterhomes name ++ name :: frontSegments (withSlash path)) []
    rwa [List.append_nil, List.length_nil, Nat.le_zero] at hiff
  rw [hstays, below_append, and_iff_left_of_imp, hhome, climb_userdir hne, hclimb]
  exact fun h => below_of_noUp (h _ List.prefix_rfl (by simp)) hrest

end Text

/-! ## The handler -/

theorem userdirName_ok {conf : UserdirConf} {uriPath : Buffer} {name : Bytes}
    (h : userdirName conf uriPath = .ok name) :
    name ≠ [] ∧ 47 ∉ name ∧ IsCStr name ∧ 2 ≤ uriPath.str.length := by
  unfold userdirName at h
  split at h
  · cases h
  split at h
  · cases h
  split at h
  · cases h
  next hstart =>
    rw [not_or, not_not, not_not] at hstart
    obtain ⟨h0, h1⟩ := hstart
    obtain ⟨m, hm⟩ : ∃ m, uriPath.ptr = 47 :: 126 :: m := by
      match hptr : uriPath.ptr with
      | [] => simp [hptr] at h0
      | [x] => simp [hptr] at h1
      | x :: y :: m =>
        simp only [hptr, List.getElem?_cons_zero, List.getElem?_cons_succ, Option.some.injEq]
          at h0 h1
        exact ⟨m, by rw [h0, h1]⟩
    have hstr : 2 ≤ uriPath.str.length := by simp [Buffer.str, hm, cstr]
    rw [hm] at h
    simp only [List.drop_succ_cons, List.drop_zero] at h
    split at h
    · cases h
    next n hn =>
      split at h
      · cases h
      next hn0 =>
        obtain rfl := Except.ok.inj h
        obtain ⟨a, b, hab, ha, rfl⟩ := strchr_eq_some hn
        have htake : m.take a.length = a := by
          have hprefix : a <+: m :=
            (hab ▸ List.prefix_append a (47 :: b)).trans (List.takeWhile_prefix _)
          exact (List.prefix_iff_eq_take.mp hprefix).symm
        rw [htake]
        refine ⟨fun hnil => hn0 (by rw [hnil]; rfl), ha, ?_, hstr⟩
        exact IsCStr.of_append_left (hab ▸ isCStr_cstr m)

theorem userdirRest_noUp {relPath : Buffer} {t : Bytes} (hrel : relPath.Text t)
    (ht : Simplified t) (hlen : 2 ≤ (cstr t).length) :
    ∀ seg ∈ ((userdirRest relPath).getD []).splitOn 47, seg ≠ [46, 46] := by
  obtain ⟨u, hnormal, hcstr, htext⟩ := ht
  obtain ⟨behind, hptr⟩ := hrel.ptr_eq
  obtain ⟨m, hm⟩ : ∃ m, relPath.ptr = u ++ 0 :: m := by
    rcases htext with rfl | rfl
    · exact ⟨behind, hptr⟩
    · exact ⟨0 :: behind, by rw [hptr, List.append_assoc]; rfl⟩
  have hu : cstr t = u := by
    rcases htext with rfl | rfl
    · exact cstr_eq_self hcstr
    · exact cstr_append_zero hcstr []
  rw [hu] at hlen
  obtain ⟨x, y, u', rfl⟩ : ∃ x y u', u = x :: y :: u' := by
    match u, hlen with
    | x :: y :: u', _ => exact ⟨x, y, u', rfl⟩
  have hu' : IsCStr u' := fun h => hcstr (List.mem_cons_of_mem _ (List.mem_cons_of_mem _ h))
  have hrest : cstr (relPath.ptr.drop 2) = u' := by
    rw [hm]
    exact cstr_append_zero hu' m
  unfold userdirRest
  rw [hrest]
  cases hn : strchr u' 47 with
  | none =>
    intro seg hseg
    simp only [Option.map_none, Option.getD_none, List.splitOn_nil, List.mem_singleton] at hseg
    rw [hseg]
    decide
  | some n =>
    obtain ⟨a, b, rfl, -, rfl⟩ := strchr_eq_some hn
    simp only [Option.map_some, Option.getD_some]
    rw [drop_append_cons]
    obtain ⟨first, segs, hb⟩ := List.exists_cons_of_ne_nil (List.splitOn_ne_nil 47 b)
    have hsplit : x :: y :: (a ++ 47 :: b) = (x :: y :: a) ++ 47 :: b := rfl
    rw [hsplit] at hnormal
    have hfirst : first ≠ [46, 46] := by
      rcases hnormal.first hb with ⟨rfl, -⟩ | hordinary
      · decide
      · exact fun h => hordinary (Or.inr (Or.inr h))
    have hup : ∀ seg ∈ segs, seg ≠ [46, 46] := by
      have hcons : IsNormal 47 46 (((x :: y :: a) ++ [47]) ++ b) := by simpa using hnormal
      exact hcons.noUp hb
    rw [hb]
    intro seg hseg
    rcases List.mem_cons.mp hseg with rfl | hseg
    · exact hfirst
    · exact hup seg hseg

section Handler

variable [Malloc]

def lowered (forceLowercase : Bool) (name : Bytes) : Bytes :=
  if forceLowercase then name.map tolower else name

omit [Malloc] in
theorem lowered_not_mem {forceLowercase : Bool} {name : Bytes} (h : 47 ∉ name) :
    47 ∉ lowered forceLowercase name := by
  cases forceLowercase with
  | false => exact h
  | true =>
    intro hmem
    obtain ⟨x, hx, hx47⟩ := List.mem_map.mp hmem
    exact h ((tolower_eq (by decide)).mp hx47 ▸ hx)

omit [Malloc] in
theorem lowered_ne_nil {forceLowercase : Bool} {name : Bytes} (h : name ≠ []) :
    lowered forceLowercase name ≠ [] := by
  cases forceLowercase with
  | false => exact h
  | true => exact fun hnil => h (List.map_eq_nil_iff.mp hnil)

omit [Malloc] in
theorem lowered_dots (forceLowercase : Bool) (name : Bytes) :
    (lowered forceLowercase name = [46] ↔ name = [46]) ∧
      (lowered forceLowercase name = [46, 46] ↔ name = [46, 46]) ∧
      ((lowered forceLowercase name).head? = some 46 ↔ name.head? = some 46) := by
  have hdot : ∀ x, tolower x = 46 ↔ x = 46 := fun x => tolower_eq (by decide)
  cases forceLowercase with
  | false => exact ⟨Iff.rfl, Iff.rfl, Iff.rfl⟩
  | true =>
    match name with
    | [] => simp [lowered]
    | [x] => simp [lowered, hdot]
    | [x, y] => simp [lowered, hdot]
    | x :: y :: z :: more => simp [lowered, hdot]

omit [Malloc] in
theorem withSlash_cons (c : Bytes) : withSlash (47 :: c) = 47 :: withSlash c := by
  by_cases hc : c = []
  · subst hc
    rfl
  · exact withSlash_append [47] hc

omit [Malloc] in
theorem withSlash_name (a : Bytes) {name : Bytes} (hname : 47 ∉ name) (hne : name ≠ []) :
    withSlash (a ++ name) = a ++ name ++ [47] := by
  have hlast : name.getLast? ≠ some 47 := fun h => hname (List.mem_of_getLast? h)
  rw [withSlash_append a hne, withSlash, if_pos ⟨hne, hlast⟩, List.append_assoc]

theorem text_userdirHome {conf : UserdirConf} (getpwnam : Bytes → Option Bytes)
    (forceLowercase : Bool) (tempPath : Buffer) {username : Buffer} {name : Bytes}
    (hbase : bufferIsEmpty conf.basepath = false) (huser : username.Text name)
    (hcstr : IsCStr name) (hname : 47 ∉ name) (hne : name ≠ []) :
    (userdirHome conf getpwnam forceLowercase tempPath username).1.Text
      (withSlash conf.basepath.text ++
        (if conf.letterhomes then (lowered forceLowercase name).take 1 ++ [47] else []) ++
        lowered forceLowercase name) := by
  have huser' : (if forceLowercase then bufferToLower username else username).Text
      (lowered forceLowercase name) := by
    cases forceLowercase with
    | false => exact huser
    | true =>
      have hlower := text_bufferToLower (z := []) (by rwa [List.append_nil]) hcstr (Or.inl rfl)
      rwa [List.append_nil] at hlower
  have hused : conf.basepath.used ≠ 0 := by simpa [bufferIsEmpty] using hbase
  have hslash := text_bufferAppendSlash (text_bufferCopyStringBuffer tempPath hused)
  obtain ⟨behind, hptr⟩ := huser'.ptr_eq
  have hname' : 47 ∉ lowered forceLowercase name := lowered_not_mem hname
  have hne' : lowered forceLowercase name ≠ [] := lowered_ne_nil hne
  have htake : (if forceLowercase then bufferToLower username else username).ptr.take 1 =
      (lowered forceLowercase name).take 1 := by
    rw [hptr]
    exact List.take_append_of_le_length (List.length_pos_iff.mpr hne')
  simp only [userdirHome, hbase, Bool.false_eq_true, if_false]
  cases hletter : conf.letterhomes with
  | false =>
    simp only [Bool.false_eq_true, if_false, List.append_nil]
    exact text_bufferAppendStringBuffer hslash huser'
  | true =>
    have hfirst : 47 ∉ (lowered forceLowercase name).take 1 :=
      fun h => hname' (List.mem_of_mem_take h)
    have hfirst' : (lowered forceLowercase name).take 1 ≠ [] := by
      simp [hne']
    have hhome := text_bufferAppendSlash (text_bufferAppendStringLen hslash
      ((lowered forceLowercase name).take 1))
    rw [withSlash_name _ hfirst hfirst'] at hhome
    simp only [if_true, htake]
    rw [← List.append_assoc (withSlash conf.basepath.text)]
    exact text_bufferAppendStringBuffer hhome huser'

theorem modUserdirDocrootHandler_text {conf : UserdirConf} {getpwnam : Bytes → Option Bytes}
    {isDir : Bytes → Bool} {forceLowercase : Bool} {uriPath relPath : Buffer}
    {bufs bufs' : UserdirBuffers} {r : HandlerT} (hbase : bufferIsEmpty conf.basepath = false)
    (hrun : modUserdirDocrootHandler conf getpwnam isDir forceLowercase uriPath relPath bufs =
      (r, bufs', true)) :
    ∃ name, userdirName conf uriPath = .ok name ∧
      bufs'.path.text = userdirText conf.letterhomes conf.basepath.text
        (lowered forceLowercase name) conf.path.text ((userdirRest relPath).getD []) := by
  unfold modUserdirDocrootHandler at hrun
  cases hname : userdirName conf uriPath with
  | error r' =>
    rw [hname] at hrun
    cases hrun
  | ok name =>
    obtain ⟨hne, hsep, hcstr, -⟩ := userdirName_ok hname
    have hhome := text_userdirHome getpwnam forceLowercase bufs.tempPath hbase
      (text_bufferCopyStringLen bufs.username name) hcstr hsep hne
    rw [hname] at hrun
    dsimp only at hrun
    split at hrun
    · cases hrun
    generalize userdirHome conf getpwnam forceLowercase bufs.tempPath
      (bufferCopyStringLen bufs.username (some name)) = home at hrun hhome
    obtain ⟨tempPath, username⟩ := home
    simp only [hbase, Bool.false_eq_true, false_and, if_false] at hrun
    simp only [Prod.mk.injEq, and_true] at hrun
    obtain ⟨-, rfl⟩ := hrun
    -- the slashes around `userdir.path`, and the rest
    have hpath := text_bufferAppendStringBuffer_take (text_bufferAppendSlash hhome) conf.path
    rw [withSlash_name _ (lowered_not_mem hsep) (lowered_ne_nil hne)] at hpath
    have hslash := text_bufferAppendSlash hpath
    rw [List.append_assoc _ [47], List.singleton_append, withSlash_append _ (List.cons_ne_nil _ _),
      withSlash_cons] at hslash
    have hall : (bufferAppendString (bufferAppendSlash
        (bufferAppendStringBuffer (bufferAppendSlash tempPath) conf.path))
        (userdirRest relPath)).Text (userdirText conf.letterhomes conf.basepath.text
          (lowered forceLowercase name) conf.path.text ((userdirRest relPath).getD [])) := by
      cases userdirRest relPath with
      | none =>
        rw [Option.getD_none, userdirText, List.append_nil]
        exact hslash
      | some rest =>
        have happend := (text_bufferAppendString hslash rest).1
        rw [List.append_assoc] at happend
        exact happend
    have hcopy := text_bufferCopyStringBuffer bufs.path
      (show (bufferAppendString _ (userdirRest relPath)).used ≠ 0 by rw [hall.used]; omega)
    exact ⟨name, rfl, hcopy.text_eq.trans hall.text_eq⟩

/-- **A user's path stays below the base path** exactly if the name is not `..` and `userdir.path`
does not climb out: for every path that `buffer_path_simplify` can produce. -/
theorem userdirStays_iff (cwd : List Bytes) {dest : PathDest} {src uriPath : Buffer} {s : Bytes}
    {ret : Int} (hsrc : src.Terminated s) (huri : bufferPathSimplify dest src = some (ret, uriPath))
    {conf : UserdirConf} (hbase : bufferIsEmpty conf.basepath = false)
    {getpwnam : Bytes → Option Bytes} {isDir : Bytes → Bool} {forceLowercase : Bool}
    {relPath : Buffer} {bufs bufs' : UserdirBuffers} {r : HandlerT}
    (hrun : modUserdirDocrootHandler conf getpwnam isDir forceLowercase uriPath
      (physicalRelPath forceLowercase relPath uriPath) bufs = (r, bufs', true)) :
    ∃ name, userdirName conf uriPath = .ok name ∧
      (StaysBelow cwd conf.basepath.text bufs'.path.text ↔ UserdirHolds cwd conf name) := by
  obtain ⟨name, hname, htext⟩ := modUserdirDocrootHandler_text hbase hrun
  obtain ⟨hne, hsep, hcstr, hstr⟩ := userdirName_ok hname
  obtain ⟨huriUsed, huriText, huriStr⟩ := bufferPathSimplify_simplified hsrc huri
  obtain ⟨t, hrel, ht, hlen⟩ := text_physicalRelPath forceLowercase relPath huriUsed huriText
  rw [huriStr] at hstr
  have hrest := userdirRest_noUp hrel ht (by rw [hlen]; exact hstr)
  obtain ⟨hone, htwo, hhead⟩ := lowered_dots forceLowercase name
  refine ⟨name, hname, ?_⟩
  rw [htext, staysBelow_iff cwd (lowered_not_mem hsep) (lowered_ne_nil hne) hrest, UserdirHolds]
  simp only [ne_eq, hone, htwo, hhead]

end Handler

/-- `userdir.basepath = "/home"`, `userdir.path = "html"` -/
def homeConf : UserdirConf where
  path := ⟨ascii "html" ++ [0], 5, 1⟩
  basepath := ⟨ascii "/home" ++ [0], 6, 1⟩
  excludeUser := arrayInit
  includeUser := arrayInit
  letterhomes := false

def homeBuffers : UserdirBuffers := ⟨bufferInit, bufferInit, bufferInit⟩

def homeRun [Malloc] (uriPath : Buffer) : HandlerT × UserdirBuffers × Bool :=
  modUserdirDocrootHandler homeConf (fun _ => none) (fun _ => true) false uriPath
    (physicalRelPath false bufferInit uriPath) homeBuffers

theorem homeRun_path {uri path name : Bytes} : letI : Malloc := zeroMalloc
    (bufferPathSimplify (.buffer bufferInit) ⟨uri ++ [0], uri.length + 1, 1⟩).map (fun r =>
      ((homeRun r.2).2.1.path.text, (homeRun r.2).2.2, (userdirName homeConf r.2).toOption)) =
      some (path, true, some name) →
    ∃ ret uriPath r bufs', bufferPathSimplify (.buffer bufferInit)
        ⟨uri ++ [0], uri.length + 1, 1⟩ = some (ret, uriPath) ∧
      homeRun uriPath = (r, bufs', true) ∧ bufs'.path.text = path ∧
      (userdirName homeConf uriPath).toOption = some name := by
  let _ : Malloc := zeroMalloc
  intro h
  obtain ⟨⟨ret, uriPath⟩, huri, h⟩ := Option.map_eq_some_iff.mp h
  simp only [Prod.mk.injEq] at h
  obtain ⟨hpath, hset, hname⟩ := h
  exact ⟨ret, uriPath, (homeRun uriPath).1, (homeRun uriPath).2.1, huri, by rw [← hset], hpath,
    hname⟩

/-- `/~../x` is `/home/../html/x`. -/
theorem not_userdirStays_dots : letI : Malloc := zeroMalloc
    ∃ ret uriPath r bufs', bufferPathSimplify (.buffer bufferInit)
        ⟨ascii "/~../x" ++ [0], 7, 1⟩ = some (ret, uriPath) ∧
      homeRun uriPath = (r, bufs', true) ∧
      ¬ StaysBelow [] (ascii "/home") bufs'.path.text := by
  let _ : Malloc := zeroMalloc
  obtain ⟨ret, uriPath, r, bufs', huri, hrun, hpath, -⟩ :=
    @homeRun_path (ascii "/~../x") (ascii "/home/../html/x") (ascii "..") (by decide +kernel)
  refine ⟨ret, uriPath, r, bufs', huri, hrun, ?_⟩
  rw [hpath]
  rintro ⟨segs, hsplit, hbelow⟩
  obtain rfl : segs = [ascii "..", ascii "html", ascii "x"] := by
    have hall : (ascii "/home/../html/x").splitOn 47 =
        frontSegments (withSlash (ascii "/home")) ++ [ascii "..", ascii "html", ascii "x"] := by
      decide +kernel
    exact List.append_cancel_left (hsplit.symm.trans hall)
  have hup := (below_cons.mp hbelow).1
  revert hup
  decide +kernel

theorem userdirStays_iff_joe : letI : Malloc := zeroMalloc
    ∃ ret uriPath r bufs', bufferPathSimplify (.buffer bufferInit)
        ⟨ascii "/~joe/x" ++ [0], 8, 1⟩ = some (ret, uriPath) ∧
      homeRun uriPath = (r, bufs', true) ∧
      StaysBelow [] homeConf.basepath.text bufs'.path.text := by
  let _ : Malloc := zeroMalloc
  obtain ⟨ret, uriPath, r, bufs', huri, hrun, -, hjoe⟩ :=
    @homeRun_path (ascii "/~joe/x") (ascii "/home/joe/html/x") (ascii "joe") (by decide +kernel)
  refine ⟨ret, uriPath, r, bufs', huri, hrun, ?_⟩
  have hsrc : (⟨ascii "/~joe/x" ++ [0], 8, 1⟩ : Buffer).Terminated (ascii "/~joe/x") :=
    ⟨by decide, ⟨[], by decide⟩, by decide⟩
  obtain ⟨name, hname, hiff⟩ := userdirStays_iff [] hsrc huri rfl hrun
  rw [hname] at hjoe
  obtain rfl := Option.some.inj hjoe
  rw [hiff]
  right
  decide +kernel

end Lighttpd
