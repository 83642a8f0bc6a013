import Lighttpd.ArrayHistory
import Lighttpd.CaselessOrder
import Lighttpd.Fastcgi.ResponseHeader
import Lighttpd.Plugins.Alias
import Mathlib.Data.List.Find

/-!
# Aliases that never match

The handler takes the first alias, in the order of the configuration, whose key the path begins
with. So one that begins with the key of an earlier one is never taken (`neverChosen_iff`). The
check looks for such pairs along the index of the array, which is in the order of
`buffer_caseless_compare`; there it stops at the first key that does not begin with the earlier one,
byte by byte. What it reports is right, but not every alias that is never taken is reported
(`modAliasSetDefaults_iff`).
-/

namespace Lighttpd

open CLib Compare

/-! ## The check -/

/-- The inner loop, over the index behind `front`, which is the key of the alias at `i`. -/
def aliasHidden (a : Arr DataString) (i : Nat) (front : Buffer) : List Nat → Option Bool
  | [] => some false
  | k :: sorted => do
    let ds ← (← a.data[k]?)
    let key := ds.key
    if key.used < front.used then some false
    else if key.ptr.take (front.used - 1) ≠ front.ptr.take (front.used - 1) then some false
    else if i < k then some true
    else aliasHidden a i front sorted

def aliasesHidden (a : Arr DataString) : List Nat → Option Bool
  | [] => some false
  | i :: sorted => do
    let ds ← (← a.data[i]?)
    if ← aliasHidden a i ds.key sorted then some true else aliasesHidden a sorted

/-- `mod_alias_set_defaults`, on the lists of the contexts. -/
def modAliasSetDefaults : List (Arr DataString) → Option HandlerT
  | [] => some .goOn
  | a :: contexts => do
    if a.used ≥ 2 then
      if ← aliasesHidden a (a.sorted.take a.used) then some .error
      else modAliasSetDefaults contexts
    else modAliasSetDefaults contexts

/-! ## Which alias is taken -/

/-- The path begins with the key; `forceLowercase` does not look at case. -/
def keyMatches (forceLowercase : Bool) (key uri : Bytes) : Bool :=
  if forceLowercase then (foldName key).isPrefixOf (foldName uri) else key.isPrefixOf uri

/-- The key of the alias at `i`. -/
def Arr.keyText (a : Arr DataString) (i : Nat) : Bytes :=
  match a.elements[i]? with
  | some ds => ds.key.text
  | none => []

/-- A list of aliases, as the configuration makes it: the keys are strings. -/
structure AliasList (a : Arr DataString) : Prop where
  wf : a.WF
  keys : ∀ ds ∈ a.elements, ∃ key, IsCStr key ∧ ds.key.Text key

/-- `uri` is what the handler looks at: the path from the slash on that `basedir` ends with. -/
def LooksAt (ph : Physical) (uri : Bytes) : Prop :=
  IsCStr uri ∧ ∃ root, ph.path.Text (root ++ uri) ∧ ph.basedir.used = root.length + 2

/-- The handler does not get to the alias at `k` with a path that begins with its key. -/
def NeverChosen (a : Arr DataString) (forceLowercase : Bool) (k : Nat) : Prop :=
  ∀ ph uri, LooksAt ph uri → keyMatches forceLowercase (a.keyText k) uri = true →
    ∃ i < k, ∃ ds, a.elements[i]? = some ds ∧ aliasFor a forceLowercase ph = some (some ds)

section Keys

variable {forceLowercase : Bool} {front key uri : Bytes}

theorem keyMatches_of_front (h : key <+: uri) : keyMatches forceLowercase key uri = true := by
  cases forceLowercase with
  | false => exact List.isPrefixOf_iff_prefix.mpr h
  | true => exact List.isPrefixOf_iff_prefix.mpr (h.map tolower)

theorem keyMatches_trans (h : keyMatches forceLowercase front key = true)
    (h' : keyMatches forceLowercase key uri = true) :
    keyMatches forceLowercase front uri = true := by
  cases forceLowercase with
  | false =>
    exact List.isPrefixOf_iff_prefix.mpr
      ((List.isPrefixOf_iff_prefix.mp h).trans (List.isPrefixOf_iff_prefix.mp h'))
  | true =>
    exact List.isPrefixOf_iff_prefix.mpr
      ((List.isPrefixOf_iff_prefix.mp h).trans (List.isPrefixOf_iff_prefix.mp h'))

theorem length_of_keyMatches (h : keyMatches forceLowercase key uri = true) :
    key.length ≤ uri.length := by
  cases forceLowercase with
  | false => exact (List.isPrefixOf_iff_prefix.mp h).length_le
  | true =>
    have hle := (List.isPrefixOf_iff_prefix.mp h).length_le
    unfold foldName at hle
    rwa [List.length_map, List.length_map] at hle

theorem strncaseeq_comm (n : Nat) (a b : Bytes) : strncaseeq n a b = strncaseeq n b a := by
  induction n generalizing a b with
  | zero => rw [strncaseeq, strncaseeq]
  | succ n ih =>
    cases a with
    | nil => cases b <;> rfl
    | cons x a =>
      cases b with
      | nil => rfl
      | cons y b =>
        rw [strncaseeq, strncaseeq, ih a b, BEq.comm]
        by_cases hxy : tolower x = tolower y
        · have hzero : (x == 0) = (y == 0) := by
            rw [Bool.eq_iff_iff, beq_iff_eq, beq_iff_eq, ← tolower_eq (by decide), hxy,
              tolower_eq (by decide)]
          rw [hzero]
        · have hne : (tolower y == tolower x) = false := beq_eq_false_iff_ne.mpr fun h => hxy h.symm
          rw [hne, Bool.false_and, Bool.false_and]

theorem aliasMatches_eq {ds : DataString} (hkey : ds.key.Text key) (hstr : IsCStr key)
    (uri behind : Bytes) : aliasMatches forceLowercase (uri ++ 0 :: behind) uri.length ds =
      keyMatches forceLowercase key uri := by
  obtain ⟨m, hptr⟩ := hkey.ptr_eq
  have hlen : (ds.key.used : Int) - 1 = key.length := by
    rw [hkey.used]
    omega
  unfold aliasMatches
  dsimp only
  rw [hlen]
  by_cases hle : key.length ≤ uri.length
  · rw [if_neg (by omega), if_neg (by rw [hkey.used]; omega), Int.toNat_natCast, hptr]
    cases forceLowercase with
    | false =>
      have hfront : key <+: uri ++ 0 :: behind ↔ key <+: uri :=
        ⟨fun h => List.prefix_of_prefix_length_le h (List.prefix_append uri _) hle,
          fun h => h.trans (List.prefix_append uri _)⟩
      rw [if_neg (by decide), Bool.eq_iff_iff, strneq_comm, strneq_length hstr, hfront]
      exact List.isPrefixOf_iff_prefix.symm
    | true =>
      rw [if_pos rfl, Bool.eq_iff_iff, strncaseeq_append_of_le _ _ hle, strncaseeq_comm,
        strncaseeq_append_of_le _ _ (Nat.le_refl _), strncaseeq_front hstr]
      exact List.isPrefixOf_iff_prefix.symm
  · rw [if_pos (by omega)]
    exact (Bool.eq_false_iff.mpr fun h => hle (length_of_keyMatches h)).symm

end Keys

section Handler

variable {a : Arr DataString} {forceLowercase : Bool} {i k : Nat}

theorem AliasList.alias (h : AliasList a) (hk : k < a.used) : ∃ ds,
    a.data[k]? = some (some ds) ∧ a.elements[k]? = some ds ∧ IsCStr (a.keyText k) ∧
      ds.key.Text (a.keyText k) := by
  obtain ⟨ds, hslot⟩ := h.wf.live k hk
  have hget : a.elements[k]? = some ds := (Arr.getElem?_elements h.wf).mpr ⟨hk, hslot⟩
  obtain ⟨key, hstr, hkey⟩ := h.keys ds (List.mem_of_getElem? hget)
  have htext : a.keyText k = key := by
    unfold Arr.keyText
    rw [hget]
    exact hkey.text_eq
  rw [htext]
  exact ⟨ds, hslot, hget, hstr, hkey⟩

theorem AliasList.aliasFor (h : AliasList a) {ph : Physical} {uri : Bytes}
    (hlook : LooksAt ph uri) :
    aliasFor a forceLowercase ph = some (a.elements.find? fun ds =>
      keyMatches forceLowercase ds.key.text uri) := by
  obtain ⟨-, root, hpath, hbase⟩ := hlook
  obtain ⟨behind, hptr⟩ := hpath.ptr_eq
  have hdrop : ph.path.ptr.drop (ph.basedir.used - 1 - 1) = uri ++ 0 :: behind := by
    rw [hptr, hbase, List.append_assoc]
    exact List.drop_left' (by omega)
  have hlen : (ph.path.used : Int) - 1 - (ph.basedir.used - 1 - 1 : Nat) = uri.length := by
    rw [hpath.used, hbase, List.length_append]
    omega
  unfold Lighttpd.aliasFor
  rw [if_neg (by omega)]
  dsimp only
  rw [hdrop, hlen]
  refine congrArg some (List.find?_congr fun ds hds => ?_)
  obtain ⟨key, hstr, hkey⟩ := h.keys ds hds
  rw [aliasMatches_eq hkey hstr, hkey.text_eq]

theorem looksAt_key {key : Bytes} (hstr : IsCStr key) :
    LooksAt ⟨textBuffer key, textBuffer [47]⟩ key :=
  ⟨hstr, [], text_textBuffer key, rfl⟩

/-- **An alias is never taken exactly if its key begins with that of an earlier one.** -/
theorem neverChosen_iff (h : AliasList a) (hk : k < a.used) : NeverChosen a forceLowercase k ↔
    ∃ i < k, keyMatches forceLowercase (a.keyText i) (a.keyText k) = true := by
  obtain ⟨-, -, -, hstr, -⟩ := h.alias hk
  constructor
  · intro hnever
    -- the path is the key itself
    obtain ⟨i, hik, ds, hget, hfor⟩ :=
      hnever _ _ (looksAt_key hstr) (keyMatches_of_front List.prefix_rfl)
    rw [h.aliasFor (looksAt_key hstr)] at hfor
    have hmatch := List.find?_some (Option.some.inj hfor)
    refine ⟨i, hik, ?_⟩
    rwa [show a.keyText i = ds.key.text by rw [Arr.keyText, hget]]
  · rintro ⟨i, hik, hmatch⟩ ph uri hlook huri
    obtain ⟨ds, -, hget, -, hkey⟩ := h.alias (Nat.lt_trans hik hk)
    have hearlier : keyMatches forceLowercase ds.key.text uri = true := by
      rw [hkey.text_eq]
      exact keyMatches_trans hmatch huri
    rw [h.aliasFor hlook]
    have hfound : (a.elements.find? fun ds =>
        keyMatches forceLowercase ds.key.text uri).isSome = true :=
      List.find?_isSome.mpr ⟨ds, List.mem_of_getElem? hget, hearlier⟩
    obtain ⟨first, hfirst⟩ := Option.isSome_iff_exists.mp hfound
    obtain ⟨-, j, hj, hat, hbefore⟩ := List.find?_eq_some_iff_getElem.mp hfirst
    have hji : j ≤ i := by
      by_contra hlt
      obtain ⟨hi, hds⟩ := List.getElem?_eq_some_iff.mp hget
      have hnot := hbefore i (by omega)
      rw [hds, hearlier] at hnot
      nomatch hnot
    refine ⟨j, by omega, first, ?_, congrArg some hfirst⟩
    rw [List.getElem?_eq_getElem hj, hat]

end Handler

/-! ## What the check finds -/

/-- The alias at `i` hides one that stands behind it in the index, and all between begin with its
key. -/
def HiddenBehind (key : Nat → Bytes) (i : Nat) (sorted : List Nat) : Prop :=
  ∃ mid k post, sorted = mid ++ k :: post ∧ i < k ∧ ∀ m ∈ mid ++ [k], key i <+: key m

def HiddenInIndex (key : Nat → Bytes) (sorted : List Nat) : Prop :=
  ∃ pre i post, sorted = pre ++ i :: post ∧ HiddenBehind key i post

section Index

variable {key : Nat → Bytes} {i k : Nat} {sorted : List Nat}

theorem hiddenBehind_cons : HiddenBehind key i (k :: sorted) ↔
    key i <+: key k ∧ (i < k ∨ HiddenBehind key i sorted) := by
  constructor
  · rintro ⟨mid, m, post, hsplit, him, hall⟩
    cases mid with
    | nil =>
      obtain ⟨rfl, rfl⟩ := List.cons.inj hsplit
      exact ⟨hall k List.mem_cons_self, Or.inl him⟩
    | cons x mid =>
      obtain ⟨rfl, rfl⟩ := List.cons.inj hsplit
      obtain ⟨hk, hrest⟩ := List.forall_mem_cons.mp hall
      exact ⟨hk, Or.inr ⟨mid, m, post, rfl, him, hrest⟩⟩
  · rintro ⟨hk, him | ⟨mid, m, post, rfl, him, hall⟩⟩
    · exact ⟨[], k, sorted, rfl, him, List.forall_mem_singleton.mpr hk⟩
    · exact ⟨k :: mid, m, post, rfl, him, List.forall_mem_cons.mpr ⟨hk, hall⟩⟩

theorem hiddenInIndex_cons : HiddenInIndex key (i :: sorted) ↔
    HiddenBehind key i sorted ∨ HiddenInIndex key sorted := by
  constructor
  · rintro ⟨pre, j, post, hsplit, hhidden⟩
    cases pre with
    | nil =>
      obtain ⟨rfl, rfl⟩ := List.cons.inj hsplit
      exact Or.inl hhidden
    | cons x pre =>
      obtain ⟨rfl, rfl⟩ := List.cons.inj hsplit
      exact Or.inr ⟨pre, j, post, rfl, hhidden⟩
  · rintro (hhidden | ⟨pre, j, post, rfl, hhidden⟩)
    · exact ⟨[], i, sorted, rfl, hhidden⟩
    · exact ⟨i :: pre, j, post, rfl, hhidden⟩

end Index

section Check

variable {a : Arr DataString} {i k : Nat} {sorted : List Nat}

theorem continues_iff {front key : Buffer} {s t : Bytes} (hfront : front.Text s)
    (hkey : key.Text t) :
    s <+: t ↔ ¬ key.used < front.used ∧
      ¬ key.ptr.take (front.used - 1) ≠ front.ptr.take (front.used - 1) := by
  obtain ⟨m, hm⟩ := hfront.ptr_eq
  obtain ⟨n, hn⟩ := hkey.ptr_eq
  have htake : front.ptr.take (front.used - 1) = s := by
    rw [hm, hfront.used, Nat.add_sub_cancel, List.take_left' rfl]
  rw [htake, hfront.used, hkey.used, hn, Nat.add_sub_cancel, not_not]
  constructor
  · intro hprefix
    have hle := hprefix.length_le
    rw [List.take_append_of_le_length hle]
    exact ⟨by omega, (List.prefix_iff_eq_take.mp hprefix).symm⟩
  · rintro ⟨hle, heq⟩
    rw [List.take_append_of_le_length (by omega)] at heq
    exact heq ▸ List.take_prefix _ _

theorem aliasHidden_spec (h : AliasList a) {front : Buffer} (hfront : front.Text (a.keyText i))
    (hsorted : ∀ k ∈ sorted, k < a.used) : ∃ hidden,
    aliasHidden a i front sorted = some hidden ∧
      (hidden = true ↔ HiddenBehind a.keyText i sorted) := by
  induction sorted with
  | nil =>
    refine ⟨false, rfl, iff_of_false Bool.false_ne_true ?_⟩
    rintro ⟨mid, k, post, hsplit, -⟩
    exact absurd hsplit.symm (List.append_ne_nil_of_right_ne_nil _ (List.cons_ne_nil _ _))
  | cons k sorted ih =>
    obtain ⟨hk, hrest⟩ := List.forall_mem_cons.mp hsorted
    obtain ⟨ds, hdata, -, -, hkey⟩ := h.alias hk
    rw [aliasHidden, hdata, hiddenBehind_cons, continues_iff hfront hkey]
    show ∃ hidden, (if ds.key.used < front.used then some false else _) = some hidden ∧ _
    by_cases hshort : ds.key.used < front.used
    · rw [if_pos hshort]
      exact ⟨false, rfl, iff_of_false Bool.false_ne_true fun hand => hand.1.1 hshort⟩
    by_cases hdiffer : ds.key.ptr.take (front.used - 1) ≠ front.ptr.take (front.used - 1)
    · rw [if_neg hshort, if_pos hdiffer]
      exact ⟨false, rfl, iff_of_false Bool.false_ne_true fun hand => hand.1.2 hdiffer⟩
    rw [if_neg hshort, if_neg hdiffer]
    by_cases hik : i < k
    · rw [if_pos hik]
      exact ⟨true, rfl, iff_of_true rfl ⟨⟨hshort, hdiffer⟩, Or.inl hik⟩⟩
    · rw [if_neg hik]
      obtain ⟨hidden, hrun, hiff⟩ := ih hrest
      refine ⟨hidden, hrun, hiff.trans ⟨fun hmore => ⟨⟨hshort, hdiffer⟩, Or.inr hmore⟩, ?_⟩⟩
      exact fun hand => hand.2.resolve_left hik

theorem aliasesHidden_spec (h : AliasList a) (hsorted : ∀ k ∈ sorted, k < a.used) : ∃ hidden,
    aliasesHidden a sorted = some hidden ∧ (hidden = true ↔ HiddenInIndex a.keyText sorted) := by
  induction sorted with
  | nil =>
    refine ⟨false, rfl, iff_of_false Bool.false_ne_true ?_⟩
    rintro ⟨pre, i, post, hsplit, -⟩
    exact absurd hsplit.symm (List.append_ne_nil_of_right_ne_nil _ (List.cons_ne_nil _ _))
  | cons i sorted ih =>
    obtain ⟨hi, hrest⟩ := List.forall_mem_cons.mp hsorted
    obtain ⟨ds, hdata, -, -, hkey⟩ := h.alias hi
    obtain ⟨inner, hinner, hinnerIff⟩ := aliasHidden_spec h hkey hrest
    obtain ⟨hidden, hrun, hiff⟩ := ih hrest
    rw [aliasesHidden, hdata, hiddenInIndex_cons, ← hinnerIff, ← hiff]
    simp only [Option.bind_eq_bind, Option.bind_some]
    rw [hinner, Option.bind_some]
    cases inner with
    | true => exact ⟨true, rfl, iff_of_true rfl (Or.inl rfl)⟩
    | false => exact ⟨hidden, hrun, by simp⟩

theorem AliasList.sorted_lt (h : AliasList a) : ∀ k ∈ a.sorted.take a.used, k < a.used := by
  intro k hk
  obtain ⟨pos, hpos⟩ := List.mem_iff_getElem?.mp hk
  rw [List.getElem?_take] at hpos
  split at hpos
  · next hlt =>
    obtain ⟨ndx, hndx, hat⟩ := h.wf.index pos hlt
    rw [hat] at hpos
    exact Option.some.inj hpos ▸ hndx
  · nomatch hpos

/-- **What the check reports**, on the lists of all contexts. -/
theorem modAliasSetDefaults_error {contexts : List (Arr DataString)}
    (h : ∀ a ∈ contexts, AliasList a) : modAliasSetDefaults contexts = some .error ↔
      ∃ a ∈ contexts, HiddenInIndex a.keyText (a.sorted.take a.used) := by
  induction contexts with
  | nil => simp [modAliasSetDefaults]
  | cons a contexts ih =>
    obtain ⟨ha, hrest⟩ := List.forall_mem_cons.mp h
    obtain ⟨hidden, hrun, hiff⟩ := aliasesHidden_spec ha ha.sorted_lt
    rw [List.exists_mem_cons_iff, ← ih hrest, ← hiff, modAliasSetDefaults]
    by_cases htwo : a.used ≥ 2
    · rw [if_pos htwo, hrun]
      cases hidden with
      | true => exact iff_of_true rfl (Or.inl rfl)
      | false => simp
    · -- two aliases are needed
      have hnone : hidden ≠ true := by
        intro htrue
        obtain ⟨pre, i, post, hsplit, mid, k, post', rfl, -⟩ := hiff.mp htrue
        have hlen := congrArg List.length hsplit
        simp only [List.length_take, List.length_append, List.length_cons] at hlen
        omega
      rw [if_neg htwo, or_iff_right hnone]

theorem neverChosen_of_hiddenInIndex (h : AliasList a)
    (hhidden : HiddenInIndex a.keyText (a.sorted.take a.used)) (forceLowercase : Bool) :
    ∃ k < a.used, NeverChosen a forceLowercase k := by
  obtain ⟨pre, i, post, hsplit, mid, k, post', rfl, hik, hall⟩ := hhidden
  have hk : k < a.used := h.sorted_lt k (by simp [hsplit])
  have hprefix := hall k (List.mem_append_right _ List.mem_cons_self)
  exact ⟨k, hk, (neverChosen_iff h hk).mpr ⟨i, hik, keyMatches_of_front hprefix⟩⟩

/-- **The check fails exactly for the lists with an alias that is never taken** where it finds one:
an alias, and one that is tried earlier and with the key of which it begins, stand in this order in
the index, and all between them begin with that key. -/
theorem modAliasSetDefaults_iff (h : AliasList a) (forceLowercase : Bool) :
    (modAliasSetDefaults [a] = some .error ↔ ∃ k < a.used, NeverChosen a forceLowercase k) ↔
      ((∃ k < a.used, ∃ i < k, keyMatches forceLowercase (a.keyText i) (a.keyText k) = true) →
        HiddenInIndex a.keyText (a.sorted.take a.used)) := by
  have herror := modAliasSetDefaults_error (List.forall_mem_singleton.mpr h)
  have hnever : (∃ k < a.used, NeverChosen a forceLowercase k) ↔
      ∃ k < a.used, ∃ i < k, keyMatches forceLowercase (a.keyText i) (a.keyText k) = true :=
    exists_congr fun k => and_congr_right fun hk => neverChosen_iff h hk
  rw [herror, ← hnever]
  constructor
  · intro hcheck hsome
    obtain ⟨b, hb, hhidden⟩ := hcheck.mpr hsome
    obtain rfl := List.mem_singleton.mp hb
    exact hhidden
  · intro hfinds
    refine ⟨?_, fun hsome => ⟨a, List.mem_singleton_self a, hfinds hsome⟩⟩
    rintro ⟨b, hb, hhidden⟩
    obtain rfl := List.mem_singleton.mp hb
    exact neverChosen_of_hiddenInIndex h hhidden forceLowercase

end Check

/-! ## Lists in which the check finds everything -/

theorem foldName_prefix_of_between {front s t key : Bytes}
    (hfront : bufferCaselessCompare (front ++ s) key < 0)
    (hbehind : bufferCaselessCompare key (front ++ t) < 0) : foldName front <+: foldName key := by
  induction front generalizing key with
  | nil => exact List.nil_prefix
  | cons x front ih =>
    cases key with
    | nil =>
      rw [bufferCaselessCompare_nil_right] at hfront
      omega
    | cons y key =>
      rw [List.cons_append, bufferCaselessCompare_cons] at hfront hbehind
      by_cases hxy : tolower x = tolower y
      · rw [if_pos hxy] at hfront
        rw [if_pos hxy.symm] at hbehind
        exact List.cons_prefix_cons.mpr ⟨hxy, ih hfront hbehind⟩
      · rw [if_neg hxy] at hfront
        rw [if_neg (Ne.symm hxy), pairDiff_neg] at hbehind
        omega

theorem compare_front_neg {c : UInt8} (hc : 0 < charVal c) (front rest : Bytes) :
    bufferCaselessCompare (front ++ [0]) (front ++ c :: rest) < 0 := by
  induction front with
  | nil =>
    have hzero : charVal 0 = 0 := rfl
    have hne : ¬ tolower 0 = tolower c := by
      intro h
      have hc0 : c = 0 := (tolower_eq (by decide)).mp h.symm
      rw [hc0, hzero] at hc
      omega
    have hsmall : (0 : UInt8).toNat = 0 := rfl
    rw [List.nil_append, List.nil_append, bufferCaselessCompare_cons, if_neg hne, pairDiff_eq,
      if_neg (by omega), if_neg (by omega)]
    omega
  | cons x front ih =>
    rw [List.cons_append, List.cons_append, bufferCaselessCompare_cons, if_pos rfl]
    exact ih

section Sorted

variable [Malloc] {a : Arr DataString} {K : Bytes → Prop} {i k : Nat}

theorem AliasList.keyLt (h : AliasList a) (hi : i < a.used) (hk : k < a.used) (hlt : a.KeyLt i k) :
    bufferCaselessCompare (a.keyText i ++ [0]) (a.keyText k ++ [0]) < 0 := by
  obtain ⟨x, hx, -, -, hkx⟩ := h.alias hi
  obtain ⟨y, hy, -, -, hky⟩ := h.alias hk
  have hcompare := hlt x y hx hy
  rwa [show keyBytes x = a.keyText i ++ [0] from hkx.holds,
    show keyBytes y = a.keyText k ++ [0] from hky.holds] at hcompare

theorem hiddenInIndex_of_ordered (h : AliasList a) (hord : a.Ordered K) (hik : i < k)
    (hk : k < a.used) {c : UInt8} {rest : Bytes} (hkey : a.keyText k = a.keyText i ++ c :: rest)
    (hc : 0 < charVal c)
    (hcase : ∀ m < a.used, foldName (a.keyText i) <+: foldName (a.keyText m) →
      a.keyText i <+: a.keyText m) :
    HiddenInIndex a.keyText (a.sorted.take a.used) := by
  have hi : i < a.used := Nat.lt_trans hik hk
  have hlt := h.sorted_lt
  have hinc := hord.increasing
  have hmemi : i ∈ a.sorted.take a.used := hord.perm.symm.subset (List.mem_range.mpr hi)
  have hmemk : k ∈ a.sorted.take a.used := hord.perm.symm.subset (List.mem_range.mpr hk)
  obtain ⟨pre, post, hsplit⟩ := List.append_of_mem hmemi
  rw [hsplit] at hinc hmemk hlt
  have hfront : bufferCaselessCompare (a.keyText i ++ [0]) (a.keyText k ++ [0]) < 0 := by
    rw [hkey, List.append_assoc, List.cons_append]
    exact compare_front_neg hc _ _
  obtain ⟨-, hpost, hacross⟩ := List.pairwise_append.mp hinc
  obtain ⟨hbehind, hinc'⟩ := List.pairwise_cons.mp hpost
  have hkpost : k ∈ post := by
    rcases List.mem_append.mp hmemk with hpre | hcons
    · have hback := h.keyLt hk hi (hacross k hpre i List.mem_cons_self)
      rw [bufferCaselessCompare_neg] at hback
      omega
    · rcases List.mem_cons.mp hcons with rfl | hpost'
      · omega
      · exact hpost'
  obtain ⟨mid, post', rfl⟩ := List.append_of_mem hkpost
  refine ⟨pre, i, _, hsplit, mid, k, post', rfl, hik, fun m hm => ?_⟩
  rcases List.mem_append.mp hm with hmid | hm
  · have hm' : m < a.used := hlt m (by simp [hmid])
    have hafter := h.keyLt hi hm' (hbehind m (List.mem_append_left _ hmid))
    have hbefore := h.keyLt hm' hk
      ((List.pairwise_append.mp hinc').2.2 m hmid k List.mem_cons_self)
    rw [hkey, List.append_assoc] at hbefore
    have hfold := foldName_prefix_of_between hafter hbefore
    -- the terminator is not a part of the key
    obtain ⟨-, -, -, hstr, -⟩ := h.alias hi
    refine hcase m hm' ?_
    unfold foldName at hfold ⊢
    rw [List.map_append] at hfold
    rcases List.prefix_concat_iff.mp hfold with heq | hprefix
    · have hzero : (0 : UInt8) ∈ (a.keyText i).map tolower := by
        rw [heq]
        exact List.mem_append_right _ List.mem_cons_self
      obtain ⟨x, hx, hx0⟩ := List.mem_map.mp hzero
      obtain rfl := (tolower_eq (by decide)).mp hx0
      exact absurd hx hstr
    · exact hprefix
  · rw [List.mem_singleton.mp hm, hkey]
    exact List.prefix_append _ _

end Sorted

section Lists

variable [Malloc] {a a' : Arr DataString}

/-- The aliases in the order in which the configuration inserts them, all with one target. -/
def aliasesOf (keys : List Bytes) : Option (Arr DataString) :=
  keys.foldlM (fun a key => arrayInsertUnique a
    { dataStringInit 0 with key := textBuffer key, value := textBuffer (ascii "/srv") }) arrayInit

theorem AliasList.insert (h : AliasList a) {ds : DataString} {key : Bytes} (hkey : ds.key.Text key)
    (hstr : IsCStr key) (hindex : ds.isIndexKey = false)
    (hrun : arrayInsertUnique a ds = some a') : AliasList a' := by
  have hused : (DataUnset.key ds).used ≠ 0 := by
    show ds.key.used ≠ 0
    rw [hkey.used]
    omega
  have hinserted := arrayInsertUnique_spec h.wf hused hindex hrun
  refine ⟨hinserted.wf h.wf, fun x hx => ?_⟩
  rcases hinserted.elements h.wf with ⟨pre, y, post, -, hold, hnew⟩ | happended
  · rw [hnew] at hx
    rcases List.mem_append.mp hx with hx | hx
    · exact h.keys x (by simp [hold, hx])
    · rcases List.mem_cons.mp hx with rfl | hx
      · exact h.keys y (by simp [hold])
      · exact h.keys x (by simp [hold, hx])
  · rw [happended] at hx
    rcases List.mem_append.mp hx with hx | hx
    · exact h.keys x hx
    · rw [List.mem_singleton.mp hx]
      exact ⟨key, hstr, hkey⟩

theorem AliasList.insertAll (h : AliasList a) {keys : List Bytes} (hstr : ∀ key ∈ keys, IsCStr key)
    (hrun : keys.foldlM (fun a key => arrayInsertUnique a { dataStringInit 0 with
      key := textBuffer key, value := textBuffer (ascii "/srv") }) a = some a') : AliasList a' := by
  induction keys generalizing a with
  | nil =>
    obtain rfl := Option.some.inj hrun
    exact h
  | cons key keys ih =>
    obtain ⟨hkey, hkeys⟩ := List.forall_mem_cons.mp hstr
    rw [List.foldlM_cons] at hrun
    obtain ⟨b, hinsert, hrest⟩ := Option.bind_eq_some_iff.mp hrun
    exact ih (h.insert (text_textBuffer key) hkey rfl hinsert) hkeys hrest

theorem aliasList_aliasesOf {keys : List Bytes} (hstr : ∀ key ∈ keys, IsCStr key)
    (hrun : aliasesOf keys = some a) : AliasList a :=
  AliasList.insertAll ⟨Arr.WF.of_used_zero rfl, List.forall_mem_nil _⟩ hstr hrun

end Lists

theorem modAliasSetDefaults_iff_nested : letI : Malloc := zeroMalloc
    ∃ a, aliasesOf [ascii "/a", ascii "/ab"] = some a ∧
      (modAliasSetDefaults [a] = some .error ↔ ∃ k < a.used, NeverChosen a false k) := by
  let _ : Malloc := zeroMalloc
  have hrun : (aliasesOf [ascii "/a", ascii "/ab"]).map (fun a =>
      (a.sorted.take a.used, a.keyText 0, a.keyText 1)) =
        some ([0, 1], ascii "/a", ascii "/ab") := by decide +kernel
  obtain ⟨a, ha, hkeys⟩ := Option.map_eq_some_iff.mp hrun
  simp only [Prod.mk.injEq] at hkeys
  obtain ⟨hsorted, h0, h1⟩ := hkeys
  refine ⟨a, ha, (modAliasSetDefaults_iff (aliasList_aliasesOf (by decide) ha) false).mpr ?_⟩
  intro _
  have hprefix : a.keyText 0 <+: a.keyText 1 := by
    rw [h0, h1]
    exact ⟨ascii "b", by decide⟩
  exact ⟨[], 0, [1], hsorted, [], 1, [], rfl, by decide, List.forall_mem_singleton.mpr hprefix⟩

/-- `/Ab` stands between `/a` and `/ac` in the index. -/
theorem not_modAliasSetDefaults_case : letI : Malloc := zeroMalloc
    ∃ a, aliasesOf [ascii "/a", ascii "/Ab", ascii "/ac"] = some a ∧
      ¬ (modAliasSetDefaults [a] = some .error ↔ ∃ k < a.used, NeverChosen a false k) := by
  let _ : Malloc := zeroMalloc
  have hrun : (aliasesOf [ascii "/a", ascii "/Ab", ascii "/ac"]).map (fun a =>
      (a.used, a.keyText 0, a.keyText 2, modAliasSetDefaults [a])) =
        some (3, ascii "/a", ascii "/ac", some .goOn) := by decide +kernel
  obtain ⟨a, ha, hkeys⟩ := Option.map_eq_some_iff.mp hrun
  simp only [Prod.mk.injEq] at hkeys
  obtain ⟨hused, h0, h2, hcheck⟩ := hkeys
  have hlist := aliasList_aliasesOf (by decide) ha
  have hnever : NeverChosen a false 2 := by
    refine (neverChosen_iff hlist (by omega)).mpr ⟨0, by decide, ?_⟩
    rw [h0, h2]
    decide
  refine ⟨a, ha, fun hiff => ?_⟩
  have herror := hiff.mpr ⟨2, by omega, hnever⟩
  rw [hcheck] at herror
  nomatch herror

end Lighttpd
