import Lighttpd.Lib.Numeral
import Lighttpd.Plugins.Rewrite
import Mathlib.Data.List.DropRight

/-!
# The templates of `mod_rewrite.c`

`process_rewrite_rules` puts the groups of the match, and those of the enclosing condition, into the
template of the rule. `pcre_exec` has room for ten groups and returns 0 where a later one takes
part, and the code takes this number for that of the groups. So the URL is what the template says
exactly if this does not happen, or every group that the template names is empty
(`rewritesAsSaid_iff`).
-/

namespace Lighttpd

open CLib

/-! ## PCRE -/

/-- A match: where the groups are in the subject, group 0 first; `none` takes no part. -/
structure PcreMatch where
  subject : Bytes
  groups : List (Option (Nat × Nat))
  deriving DecidableEq, Repr

def PcreMatch.count (m : PcreMatch) : Nat := (m.groups.rdropWhile Option.isNone).length

/-- The text of a group; it is empty if the group takes no part or does not exist. -/
def PcreMatch.group (m : PcreMatch) (d : Nat) : Bytes :=
  match m.groups[d]? with
  | some (some (first, last)) => (m.subject.drop first).take (last - first)
  | _ => []

/-- What `pcre_exec` returns for a match, and the vector: it has room for ten pairs. -/
def pcreExec (m : PcreMatch) : Int × List (Int × Int) :=
  (if m.count ≤ 10 then m.count else 0,
    (m.groups.take 10).map fun group =>
      match group with
      | some (first, last) => (first, last)
      | none => (-1, -1))

/-- `pcre_get_substring_list` -/
def pcreGetSubstringList (subject : Bytes) (ovector : List (Int × Int)) (stringcount : Nat) :
    List Bytes :=
  (ovector.take stringcount).map fun pair =>
    (subject.drop pair.1.toNat).take (pair.2 - pair.1).toNat

/-- `cond_cache_t` of the enclosing condition. -/
structure CondCapture where
  patterncount : Int
  ovector : List (Int × Int)
  compValue : Bytes

def condCapture : Option PcreMatch → CondCapture
  | none => ⟨0, [], []⟩
  | some m => ⟨(pcreExec m).1, (pcreExec m).2, m.subject⟩

section Code

variable [Malloc]

def configAppendCondMatchBuffer (cache : CondCapture) (buf : Buffer) (n : Nat) : Buffer :=
  if (n : Int) ≥ cache.patterncount then buf
  else
    let pair := cache.ovector.getD n (0, 0)
    bufferAppendStringLen buf
      (some ((cache.compValue.drop pair.1.toNat).take (pair.2 - pair.1).toNat))

/-- What is done for `$` or `%`, which is `c`, and the character behind it. -/
def rewriteReplace (list : List Bytes) (n : Nat) (context : Option CondCapture) (uri : Buffer)
    (c d : UInt8) : Buffer :=
  let num := d.toNat - 48
  if ¬ isDigit d then bufferAppendStringLen uri (some (if c = d then [c] else [c, d]))
  else if c = 36 then
    if num < n then bufferAppendString uri (some (cstr (list.getD num []))) else uri
  else
    match context with
    | none => uri
    | some cache => configAppendCondMatchBuffer cache uri num

/-- The loop over the template, up to its last character; `start` is behind what is copied. -/
def rewriteLoop (list : List Bytes) (n : Nat) (context : Option CondCapture) (pattern : Bytes) :
    Nat → Nat → Nat → Buffer → Option (Nat × Buffer)
  | 0, _, _, _ => none
  | fuel + 1, k, start, uri =>
    if k + 1 < pattern.length then do
      let c ← pattern[k]?
      let d ← pattern[k + 1]?
      if c = 36 ∨ c = 37 then
        let uri := bufferAppendStringLen uri (some ((pattern.drop start).take (k - start)))
        let uri := rewriteReplace list n context uri c d
        rewriteLoop list n context pattern fuel (k + 2) (k + 2) uri
      else rewriteLoop list n context pattern fuel (k + 1) start uri
    else some (start, uri)

/-- `process_rewrite_rules`, for a rule that matches: the new `request.uri`. -/
def rewriteExpand (m : PcreMatch) (context : Option CondCapture) (value uri : Buffer) :
    Option Buffer := do
  let (n, ovec) := pcreExec m
  let list := pcreGetSubstringList m.subject ovec n.toNat
  let pattern := value.ptr.take (value.used - 1)
  let uri := bufferReset uri
  let (start, uri) ← rewriteLoop list n.toNat context pattern (pattern.length + 1) 0 0 uri
  some (bufferAppendStringLen uri (some (pattern.drop start)))

end Code

/-! ## What a template says -/

/-- `$d` is a group of the match and `%d` one of the condition, `$$` and `%%` are one character. All
else is kept; a `$` or `%` is taken together with what follows it. -/
def templateText (group cond : Nat → Bytes) : Bytes → Bytes
  | c :: d :: rest =>
    if c = 36 ∨ c = 37 then
      (if isDigit d then (if c = 36 then group else cond) (d.toNat - 48)
        else if d = c then [c] else [c, d]) ++ templateText group cond rest
    else c :: templateText group cond (d :: rest)
  | rest => rest

def templateRefs : Bytes → List (UInt8 × Nat)
  | c :: d :: rest =>
    if c = 36 ∨ c = 37 then
      (if isDigit d then [(c, d.toNat - 48)] else []) ++ templateRefs rest
    else templateRefs (d :: rest)
  | _ => []

/-! ## What the code sees of the groups -/

namespace PcreMatch

/-- The groups are there for the code if there is room for all that take part. -/
def seen (m : PcreMatch) (d : Nat) : Bytes := if m.count ≤ 10 then m.group d else []

variable {m : PcreMatch} {d : Nat}

theorem count_le (m : PcreMatch) : m.count ≤ m.groups.length :=
  (List.rdropWhile_prefix Option.isNone m.groups).length_le

theorem group_of_count_le (h : m.count ≤ d) : m.group d = [] := by
  have hsplit : m.groups.rdropWhile Option.isNone ++ m.groups.rtakeWhile Option.isNone = m.groups :=
    List.rdropWhile_append_rtakeWhile
  have hget : m.groups[d]? = (m.groups.rtakeWhile Option.isNone)[d - m.count]? := by
    conv_lhs => rw [← hsplit]
    exact List.getElem?_append_right h
  unfold group
  rw [hget]
  cases hlast : (m.groups.rtakeWhile Option.isNone)[d - m.count]? with
  | none => rfl
  | some g =>
    have hnone := List.mem_rtakeWhile_imp (List.mem_of_getElem? hlast)
    rw [Option.isNone_iff_eq_none.mp hnone]

theorem slice_ovector (hd : d < m.count) (hcount : m.count ≤ 10) : ∃ pair : Int × Int,
    (pcreExec m).2[d]? = some pair ∧
      (m.subject.drop pair.1.toNat).take (pair.2 - pair.1).toNat = m.group d := by
  have hlt : d < m.groups.length := Nat.lt_of_lt_of_le hd m.count_le
  have hget : m.groups[d]? = some m.groups[d] := List.getElem?_eq_getElem hlt
  unfold pcreExec group
  dsimp only
  rw [List.getElem?_map, List.getElem?_take_of_lt (by omega), hget, Option.map_some]
  refine ⟨_, rfl, ?_⟩
  cases m.groups[d] with
  | none => rfl
  | some g =>
    obtain ⟨first, last⟩ := g
    dsimp only
    rw [Int.toNat_natCast, show ((last : Int) - first).toNat = last - first by omega]

theorem getD_substringList (m : PcreMatch) (d : Nat) :
    (if d < (pcreExec m).1.toNat then
      (pcreGetSubstringList m.subject (pcreExec m).2 (pcreExec m).1.toNat).getD d []
    else []) = m.seen d := by
  unfold seen
  by_cases hcount : m.count ≤ 10
  · have hn : (pcreExec m).1.toNat = m.count := by
      unfold pcreExec
      dsimp only
      rw [if_pos hcount, Int.toNat_natCast]
    rw [hn, if_pos hcount]
    by_cases hd : d < m.count
    · obtain ⟨pair, hget, hslice⟩ := slice_ovector hd hcount
      rw [if_pos hd, pcreGetSubstringList, List.getD_eq_getElem?_getD, List.getElem?_map,
        List.getElem?_take_of_lt hd, hget, Option.map_some, Option.getD_some, hslice]
    · rw [if_neg hd, group_of_count_le (Nat.not_lt.mp hd)]
  · have hn : (pcreExec m).1.toNat = 0 := by
      unfold pcreExec
      dsimp only
      rw [if_neg hcount]
      rfl
    rw [hn, if_neg (Nat.not_lt_zero d), if_neg hcount]

end PcreMatch

/-- The groups of the enclosing condition, if there is one, and what the code sees of them. -/
def condGroup : Option (Option PcreMatch) → Nat → Bytes
  | some (some m) => m.group
  | _ => fun _ => []

def condSeen : Option (Option PcreMatch) → Nat → Bytes
  | some (some m) => m.seen
  | _ => fun _ => []

section Expansion

variable [Malloc] {uri : Buffer} {t : Bytes}

theorem shows_configAppendCondMatchBuffer (h : uri.Shows t) (match' : Option PcreMatch) (d : Nat) :
    (configAppendCondMatchBuffer (condCapture match') uri d).Shows
      (t ++ condSeen (some match') d) := by
  unfold configAppendCondMatchBuffer
  cases match' with
  | none =>
    have hnone : (d : Int) ≥ (condCapture none).patterncount := Int.natCast_nonneg d
    rw [if_pos hnone]
    exact (List.append_nil t).symm ▸ h
  | some m =>
    have hseen : condSeen (some (some m)) d = m.seen d := rfl
    rw [hseen, PcreMatch.seen]
    by_cases hcount : m.count ≤ 10
    · have hn : (condCapture (some m)).patterncount = m.count := if_pos hcount
      rw [if_pos hcount]
      by_cases hd : d < m.count
      · obtain ⟨pair, hget, hslice⟩ := PcreMatch.slice_ovector hd hcount
        have hpair : (condCapture (some m)).ovector.getD d (0, 0) = pair := by
          rw [List.getD_eq_getElem?_getD]
          exact congrArg (Option.getD · (0, 0)) hget
        rw [if_neg (by rw [hn]; omega), hpair, ← hslice]
        exact shows_bufferAppendStringLen h _
      · rw [if_pos (by rw [hn]; omega), PcreMatch.group_of_count_le (Nat.not_lt.mp hd),
          List.append_nil]
        exact h
    · have hn : (condCapture (some m)).patterncount = 0 := if_neg hcount
      rw [if_neg hcount, if_pos (by rw [hn]; omega), List.append_nil]
      exact h

theorem shows_rewriteReplace (h : uri.Shows t) (m : PcreMatch)
    (context : Option (Option PcreMatch)) {c d : UInt8} (hc : c = 36 ∨ c = 37) :
    (rewriteReplace (pcreGetSubstringList m.subject (pcreExec m).2 (pcreExec m).1.toNat)
      (pcreExec m).1.toNat (context.map condCapture) uri c d).Shows
      (t ++ if isDigit d then
          (if c = 36 then fun d => cstr (m.seen d) else condSeen context) (d.toNat - 48)
        else if d = c then [c] else [c, d]) := by
  unfold rewriteReplace
  dsimp only
  by_cases hdigit : isDigit d = true
  · rw [if_neg (not_not.mpr hdigit), if_pos hdigit]
    rcases hc with rfl | rfl
    · rw [if_pos rfl, if_pos rfl, ← m.getD_substringList]
      by_cases hlt : d.toNat - 48 < (pcreExec m).1.toNat
      · rw [if_pos hlt, if_pos hlt]
        exact shows_bufferAppendString h _
      · rw [if_neg hlt, if_neg hlt]
        exact (List.append_nil t).symm ▸ h
    · rw [if_neg (by decide), if_neg (by decide)]
      cases context with
      | none => exact (List.append_nil t).symm ▸ h
      | some match' => exact shows_configAppendCondMatchBuffer h match' _
  · rw [if_pos hdigit, if_neg hdigit]
    have hcomm : (if d = c then [c] else [c, d]) = if c = d then [c] else [c, d] :=
      if_congr eq_comm rfl rfl
    rw [hcomm]
    exact shows_bufferAppendStringLen h _

/-- **The loop**: what is copied, what is not copied yet, and what the rest of the template says. -/
theorem rewriteLoop_spec (m : PcreMatch) (context : Option (Option PcreMatch)) (pattern : Bytes)
    {fuel k start : Nat} (h : uri.Shows t) (hstart : start ≤ k) (hk : k ≤ pattern.length)
    (hfuel : pattern.length < fuel + k) : ∃ start' uri',
      rewriteLoop (pcreGetSubstringList m.subject (pcreExec m).2 (pcreExec m).1.toNat)
        (pcreExec m).1.toNat (context.map condCapture) pattern fuel k start uri =
          some (start', uri') ∧
      (bufferAppendStringLen uri' (some (pattern.drop start'))).Shows
        (t ++ (pattern.drop start).take (k - start) ++
          templateText (fun d => cstr (m.seen d)) (condSeen context) (pattern.drop k)) := by
  induction fuel generalizing k start uri t with
  | zero => omega
  | succ fuel ih =>
    unfold rewriteLoop
    by_cases hmore : k + 1 < pattern.length
    · have hlt : k < pattern.length := Nat.lt_of_succ_lt hmore
      have hc : pattern[k]? = some pattern[k] := List.getElem?_eq_getElem hlt
      have hd : pattern[k + 1]? = some pattern[k + 1] := List.getElem?_eq_getElem hmore
      have hdrop : pattern.drop k = pattern[k] :: pattern[k + 1] :: pattern.drop (k + 2) := by
        rw [List.drop_eq_getElem_cons hlt, List.drop_eq_getElem_cons hmore]
      rw [if_pos hmore, hc, hd, Option.bind_eq_bind, Option.bind_some, Option.bind_some, hdrop,
        templateText]
      generalize pattern[k + 1] = d at *
      generalize hchar : pattern[k] = c at *
      by_cases hspecial : c = 36 ∨ c = 37
      · -- the run of other characters is copied first
        have hrun := shows_bufferAppendStringLen h ((pattern.drop start).take (k - start))
        have hpiece := shows_rewriteReplace hrun m context hspecial (d := d)
        obtain ⟨start', uri', hloop, hshows⟩ :=
          ih hpiece (Nat.le_refl (k + 2)) (by omega) (by omega)
        refine ⟨start', uri', ?_, ?_⟩
        · rw [if_pos hspecial]
          exact hloop
        · rw [Nat.sub_self, List.take_zero, List.append_nil, List.append_assoc] at hshows
          rw [if_pos hspecial]
          exact hshows
      · obtain ⟨start', uri', hloop, hshows⟩ :=
          @ih _ _ (k + 1) start h (Nat.le_succ_of_le hstart) hmore.le (by omega)
        have htake : (pattern.drop start).take (k + 1 - start) =
            (pattern.drop start).take (k - start) ++ [c] := by
          have hget : (pattern.drop start)[k - start]? = some c := by
            rw [List.getElem?_drop, Nat.add_sub_cancel' hstart, hc]
          rw [Nat.sub_add_comm hstart, List.take_add_one, hget]
          rfl
        have hnext : pattern.drop (k + 1) = d :: pattern.drop (k + 2) :=
          (List.cons.inj ((List.drop_eq_getElem_cons hlt).symm.trans hdrop)).2
        refine ⟨start', uri', ?_, ?_⟩
        · rw [if_neg hspecial]
          exact hloop
        · rw [htake, hnext, List.append_assoc, List.append_assoc] at hshows
          rw [if_neg hspecial, List.append_assoc]
          exact hshows
    · -- at most the last character is left, which is copied with the run in front of it
      have hlast : templateText (fun d => cstr (m.seen d)) (condSeen context) (pattern.drop k) =
          pattern.drop k := by
        have hlen : (pattern.drop k).length ≤ 1 := by
          rw [List.length_drop]
          omega
        match hrest : pattern.drop k, hlen with
        | [], _ => rfl
        | [c], _ => rfl
      have hwhole : (pattern.drop start).take (k - start) ++ pattern.drop k =
          pattern.drop start := by
        have hsplit := List.take_append_drop (k - start) (pattern.drop start)
        rwa [List.drop_drop, Nat.add_sub_cancel' hstart] at hsplit
      rw [if_neg hmore]
      refine ⟨start, uri, rfl, ?_⟩
      rw [hlast, List.append_assoc, hwhole]
      exact shows_bufferAppendStringLen h _

theorem rewriteExpand_shows (m : PcreMatch) (context : Option (Option PcreMatch)) {value : Buffer}
    {template : Bytes} (hvalue : value.Text template) (uri : Buffer) : ∃ uri',
      rewriteExpand m (context.map condCapture) value uri = some uri' ∧
      uri'.Shows (templateText (fun d => cstr (m.seen d)) (condSeen context) template) := by
  have htake : value.ptr.take (value.used - 1) = template := take_of_holds hvalue.holds hvalue.used
  obtain ⟨start, uri', hloop, hshows⟩ := rewriteLoop_spec m context template
    (shows_bufferReset uri) (Nat.le_refl 0) (Nat.zero_le _)
    (show template.length < template.length + 1 + 0 by omega)
  refine ⟨_, ?_, hshows⟩
  unfold rewriteExpand
  dsimp only
  rw [htake, hloop]
  rfl

theorem rewriteExpand_rewriteUri (m : PcreMatch) (context : Option (Option PcreMatch))
    {value : Buffer} {template : Bytes} (hvalue : value.Text template) (uri : Buffer) : ∃ uri',
      rewriteExpand m (context.map condCapture) value uri = some uri' ∧
      uri'.Shows (rewriteUri (context.map fun match' => condSeen (some match'))
        (pcreGetSubstringList m.subject (pcreExec m).2 (pcreExec m).1.toNat) template) := by
  obtain ⟨uri', hrun, hshows⟩ := rewriteExpand_shows m context hvalue uri
  refine ⟨uri', hrun, ?_⟩
  convert hshows using 1
  clear hshows hrun hvalue
  have hlist : ∀ d, (pcreGetSubstringList m.subject (pcreExec m).2
      (pcreExec m).1.toNat).getD d [] = m.seen d := by
    intro d
    rw [← m.getD_substringList]
    split
    · rfl
    · next hge =>
      have hlen : (pcreGetSubstringList m.subject (pcreExec m).2
          (pcreExec m).1.toNat).length ≤ d := by
        rw [pcreGetSubstringList, List.length_map, List.length_take]
        omega
      rw [List.getD_eq_getElem?_getD, List.getElem?_eq_none hlen, Option.getD_none]
  induction template using templateText.induct with
  | case1 c d rest hspecial ih =>
    rw [rewriteUri, templateText, if_pos hspecial, if_pos hspecial, ih]
    congr 1
    unfold rewriteReference
    by_cases hdigit : isDigit d = true
    · have hrange : 48 ≤ d ∧ d ≤ 57 := by simpa [isDigit] using hdigit
      have hnum : (d - 48).toNat = d.toNat - 48 := UInt8.toNat_sub_of_le _ _ hrange.1
      rw [if_neg (not_not.mpr hrange), if_pos hdigit, hnum, hlist]
      rcases hspecial with rfl | rfl
      · rw [if_pos rfl, if_pos rfl]
      · rw [if_neg (by decide), if_neg (by decide)]
        cases context with
        | none => rfl
        | some match' => rfl
    · have hrange : ¬ (48 ≤ d ∧ d ≤ 57) := by simpa [isDigit] using hdigit
      rw [if_pos hrange, if_neg hdigit]
      exact if_congr eq_comm rfl rfl
  | case2 c d rest hspecial ih =>
    rw [rewriteUri, templateText, if_neg hspecial, if_neg hspecial, ih]
  | case3 template hshort =>
    rcases template with _ | ⟨c, _ | ⟨d, rest⟩⟩
    · rfl
    · rfl
    · exact absurd rfl (hshort c d rest)

end Expansion

def plainTemplateText (group cond : Nat → Bytes) : Bytes → Bytes
  | c :: d :: rest =>
    if (c = 36 ∨ c = 37) ∧ isDigit d then
      (if c = 36 then group else cond) (d.toNat - 48) ++ plainTemplateText group cond rest
    else if (c = 36 ∨ c = 37) ∧ d = c then c :: plainTemplateText group cond rest
    else c :: plainTemplateText group cond (d :: rest)
  | rest => rest

theorem plain_cons {group cond : Nat → Bytes} {c : UInt8} (hc : ¬ (c = 36 ∨ c = 37))
    {rest : Bytes} : plainTemplateText group cond (c :: rest) =
      c :: plainTemplateText group cond rest := by
  cases rest with
  | nil => rfl
  | cons d rest =>
    have hno : ¬ ((c = 36 ∨ c = 37) ∧ isDigit d = true) := fun hand => hc hand.1
    have hno' : ¬ ((c = 36 ∨ c = 37) ∧ d = c) := fun hand => hc hand.1
    rw [plainTemplateText, if_neg hno, if_neg hno']

theorem templateText_eq_plain (group cond : Nat → Bytes) {template : Bytes}
    (hmixed : ∀ pre c d post, template = pre ++ c :: d :: post → (c = 36 ∨ c = 37) →
      (d = 36 ∨ d = 37) → c = d) :
    templateText group cond template = plainTemplateText group cond template := by
  induction template using templateText.induct with
  | case1 c d rest hspecial ih =>
    have hrest := ih fun pre x y post hsplit =>
      hmixed (c :: d :: pre) x y post (by rw [hsplit]; rfl)
    rw [templateText, plainTemplateText, if_pos hspecial, hrest]
    by_cases hdigit : isDigit d = true
    · have hboth : (c = 36 ∨ c = 37) ∧ isDigit d = true := ⟨hspecial, hdigit⟩
      rw [if_pos hdigit, if_pos hboth]
    · have hno : ¬ ((c = 36 ∨ c = 37) ∧ isDigit d = true) := fun hand => hdigit hand.2
      rw [if_neg hdigit, if_neg hno]
      by_cases hsame : d = c
      · have hboth : (c = 36 ∨ c = 37) ∧ d = c := ⟨hspecial, hsame⟩
        rw [if_pos hsame, if_pos hboth, List.singleton_append]
      · have hno' : ¬ ((c = 36 ∨ c = 37) ∧ d = c) := fun hand => hsame hand.2
        rw [if_neg hsame, if_neg hno', plain_cons fun hd =>
          hsame (hmixed [] c d rest rfl hspecial hd).symm]
        rfl
  | case2 c d rest hspecial ih =>
    have hrest := ih fun pre x y post hsplit =>
      hmixed (c :: pre) x y post (by rw [hsplit]; rfl)
    rw [templateText, if_neg hspecial, hrest, plain_cons hspecial]
  | case3 template hshort =>
    rcases template with _ | ⟨c, _ | ⟨d, rest⟩⟩
    · rfl
    · rfl
    · exact absurd rfl (hshort c d rest)

/-! ## When the template is followed -/

theorem append_eq_append_of_prefix {p p' r r' : Bytes} (hp : p <+: p') (hr : r.length ≤ r'.length) :
    p ++ r = p' ++ r' ↔ p = p' ∧ r = r' := by
  constructor
  · intro heq
    have hlen := congrArg List.length heq
    rw [List.length_append, List.length_append] at hlen
    have hple := hp.length_le
    have hpp := hp.eq_of_length (by omega)
    subst hpp
    exact ⟨rfl, List.append_cancel_left heq⟩
  · rintro ⟨rfl, rfl⟩
    rfl

section Templates

variable {g g' c c' : Nat → Bytes}

theorem templateText_eq_iff (hg : ∀ d, g d <+: g' d) (hc : ∀ d, c d <+: c' d) (template : Bytes) :
    (templateText g c template).length ≤ (templateText g' c' template).length ∧
      (templateText g c template = templateText g' c' template ↔
        ∀ ref ∈ templateRefs template,
          (if ref.1 = 36 then g else c) ref.2 = (if ref.1 = 36 then g' else c') ref.2) := by
  induction template using templateRefs.induct with
  | case1 x y rest hspecial ih =>
    obtain ⟨hle, hiff⟩ := ih
    rw [templateText, templateText, templateRefs, if_pos hspecial, if_pos hspecial,
      if_pos hspecial]
    by_cases hdigit : isDigit y = true
    · have hpiece : (if x = 36 then g else c) (y.toNat - 48) <+:
          (if x = 36 then g' else c') (y.toNat - 48) := by
        split
        · exact hg _
        · exact hc _
      rw [if_pos hdigit, if_pos hdigit, if_pos hdigit, append_eq_append_of_prefix hpiece hle, hiff,
        List.singleton_append, List.forall_mem_cons, List.length_append, List.length_append]
      exact ⟨Nat.add_le_add hpiece.length_le hle, Iff.rfl⟩
    · rw [if_neg hdigit, if_neg hdigit, if_neg hdigit,
        append_eq_append_of_prefix List.prefix_rfl hle, and_iff_right rfl, hiff, List.nil_append,
        List.length_append, List.length_append]
      exact ⟨Nat.add_le_add_left hle _, Iff.rfl⟩
  | case2 x y rest hspecial ih =>
    obtain ⟨hle, hiff⟩ := ih
    rw [templateText, templateText, templateRefs, if_neg hspecial, if_neg hspecial,
      if_neg hspecial, List.cons_inj_right, hiff, List.length_cons, List.length_cons]
    exact ⟨Nat.succ_le_succ hle, Iff.rfl⟩
  | case3 template hshort =>
    rcases template with _ | ⟨x, _ | ⟨y, rest⟩⟩
    · exact ⟨Nat.le_refl _, iff_of_true rfl nofun⟩
    · exact ⟨Nat.le_refl _, iff_of_true rfl nofun⟩
    · exact absurd rfl (hshort x y rest)

end Templates

/-- The text of a group gets into the URL as a string; there is room for all groups that take part,
or the group is empty. -/
def GroupFits (m : PcreMatch) (d : Nat) : Prop :=
  m.group d = [] ∨ m.count ≤ 10 ∧ IsCStr (m.group d)

def CondGroupFits (context : Option (Option PcreMatch)) (d : Nat) : Prop :=
  ∀ m, context = some (some m) → m.group d = [] ∨ m.count ≤ 10

def RewritesAsSaid [Malloc] (m : PcreMatch) (context : Option (Option PcreMatch))
    (value uri : Buffer) (template : Bytes) : Prop :=
  ∃ uri', rewriteExpand m (context.map condCapture) value uri = some uri' ∧
    uri'.Shows (templateText m.group (condGroup context) template)

theorem cstr_prefix (s : Bytes) : cstr s <+: s := List.takeWhile_prefix _

theorem groupFits_iff (m : PcreMatch) (d : Nat) :
    cstr (m.seen d) = m.group d ↔ GroupFits m d := by
  unfold GroupFits PcreMatch.seen
  by_cases hcount : m.count ≤ 10
  · rw [if_pos hcount, and_iff_right hcount]
    constructor
    · intro heq
      rw [← heq]
      exact Or.inr (isCStr_cstr _)
    · rintro (hempty | hstr)
      · rw [hempty]
        rfl
      · exact cstr_eq_self hstr
  · rw [if_neg hcount, or_iff_left fun hand => hcount hand.1]
    exact eq_comm

theorem condGroupFits_iff (context : Option (Option PcreMatch)) (d : Nat) :
    condSeen context d = condGroup context d ↔ CondGroupFits context d := by
  unfold CondGroupFits
  match context with
  | none => exact iff_of_true rfl nofun
  | some none => exact iff_of_true rfl nofun
  | some (some m) =>
    show m.seen d = m.group d ↔ _
    unfold PcreMatch.seen
    constructor
    · intro heq m' hm
      obtain rfl : m = m' := Option.some.inj (Option.some.inj hm)
      by_cases hcount : m.count ≤ 10
      · exact Or.inr hcount
      · rw [if_neg hcount] at heq
        exact Or.inl heq.symm
    · intro hfits
      by_cases hcount : m.count ≤ 10
      · rw [if_pos hcount]
      · rw [if_neg hcount, (hfits m rfl).resolve_right hcount]

section Result

variable [Malloc]

/-- **The URL is what the template says** exactly if what the template names fits. -/
theorem rewritesAsSaid_iff (m : PcreMatch) (context : Option (Option PcreMatch)) {value : Buffer}
    {template : Bytes} (hvalue : value.Text template) (uri : Buffer) :
    RewritesAsSaid m context value uri template ↔
      ∀ ref ∈ templateRefs template,
        if ref.1 = 36 then GroupFits m ref.2 else CondGroupFits context ref.2 := by
  obtain ⟨uri', hrun, hshows⟩ := rewriteExpand_shows m context hvalue uri
  have hseen : ∀ d, cstr (m.seen d) <+: m.group d := by
    intro d
    unfold PcreMatch.seen
    split
    · exact cstr_prefix _
    · exact List.nil_prefix
  have hcond : ∀ d, condSeen context d <+: condGroup context d := by
    intro d
    match context with
    | none => exact List.prefix_rfl
    | some none => exact List.prefix_rfl
    | some (some m') =>
      show m'.seen d <+: m'.group d
      unfold PcreMatch.seen
      split
      · exact List.prefix_rfl
      · exact List.nil_prefix
  have hsame : RewritesAsSaid m context value uri template ↔
      templateText (fun d => cstr (m.seen d)) (condSeen context) template =
        templateText m.group (condGroup context) template := by
    constructor
    · rintro ⟨uri'', hrun', hshows'⟩
      obtain rfl := Option.some.inj (hrun.symm.trans hrun')
      exact hshows.unique hshows'
    · intro heq
      exact ⟨uri', hrun, heq ▸ hshows⟩
  rw [hsame, (templateText_eq_iff hseen hcond template).2]
  refine forall₂_congr fun ref _ => ?_
  by_cases hdollar : ref.1 = 36
  · rw [if_pos hdollar, if_pos hdollar, if_pos hdollar]
    exact groupFits_iff m ref.2
  · rw [if_neg hdollar, if_neg hdollar, if_neg hdollar]
    exact condGroupFits_iff context ref.2

end Result

/-! ## Two rules -/

theorem rewriteExpand_rewriteUri_id : letI : Malloc := zeroMalloc
    ∃ uri, rewriteExpand ⟨ascii "/id/42", [some (0, 6), some (4, 6)]⟩ none
      (textBuffer (ascii "/?id=$1")) bufferInit = some uri ∧ uri.Shows (ascii "/?id=42") :=
  @rewriteExpand_rewriteUri zeroMalloc ⟨ascii "/id/42", [some (0, 6), some (4, 6)]⟩ none _ _
    (text_textBuffer (ascii "/?id=$1")) bufferInit

/-- `"^/id/([0-9]+)$" => "/index.php?id=$1"` -/
theorem rewritesAsSaid_iff_id : letI : Malloc := zeroMalloc
    RewritesAsSaid ⟨ascii "/id/42", [some (0, 6), some (4, 6)]⟩ none
      (textBuffer (ascii "/index.php?id=$1")) bufferInit (ascii "/index.php?id=$1") := by
  let _ : Malloc := zeroMalloc
  refine (rewritesAsSaid_iff _ none (text_textBuffer _) bufferInit).mpr ?_
  have hrefs : templateRefs (ascii "/index.php?id=$1") = [(36, 1)] := by decide +kernel
  rw [hrefs, List.forall_mem_singleton, if_pos rfl]
  exact Or.inr (by decide +kernel)

/-- `"^/(.)(.)(.)(.)(.)(.)(.)(.)(.)(.)$" => "/x?$1"`, for `/abcdefghij` -/
theorem not_rewritesAsSaid_tenGroups : letI : Malloc := zeroMalloc
    ¬ RewritesAsSaid ⟨ascii "/abcdefghij",
        some (0, 11) :: (List.range 10).map fun i => some (i + 1, i + 2)⟩ none
      (textBuffer (ascii "/x?$1")) bufferInit (ascii "/x?$1") := by
  let _ : Malloc := zeroMalloc
  rintro ⟨uri', hrun, hshows⟩
  obtain ⟨uri'', hrun', hshows'⟩ := rewriteExpand_shows ⟨ascii "/abcdefghij",
    some (0, 11) :: (List.range 10).map fun i => some (i + 1, i + 2)⟩ none
    (text_textBuffer (ascii "/x?$1")) bufferInit
  obtain rfl := Option.some.inj (hrun.symm.trans hrun')
  have heq := hshows'.unique hshows
  revert heq
  decide +kernel

end Lighttpd
