import Lighttpd.ArrayHistory
import Lighttpd.CaselessOrder
import Mathlib.Data.List.Forall2

/-!
# `configparser.y`: arrays

An element of an array without a key of its own gets a number for one, or has the name of the
variable that it is a copy of. These keys are looked up among the ones that are written. So an array
has an element for each one of its sources exactly if no two of these keys agree but for case, except
where both are written, and of one type in a merge (`configArrays_iff`), as long as
`buffer_caseless_compare` orders the keys.

What an expression is worth stands for the expression, with the name of the variable whose copy it
is. Copies are alike, so `+=` is `+` on the value of the variable.
-/

namespace Lighttpd

open CLib Compare

mutual

/-- The values of `data_string`, `data_integer` and `data_array`. -/
inductive ConfigValue where
  | string (value : Buffer)
  | integer (value : Int)
  | array (value : Arr ConfigData)

inductive ConfigData where
  | mk (key : Buffer) (isIndexKey : Bool) (value : ConfigValue)

end

namespace ConfigData

def key : ConfigData → Buffer
  | mk key _ _ => key

def isIndexKey : ConfigData → Bool
  | mk _ isIndexKey _ => isIndexKey

def value : ConfigData → ConfigValue
  | mk _ _ value => value

end ConfigData

def ConfigValue.type : ConfigValue → DataType
  | string _ => .string
  | integer _ => .integer
  | array _ => .array

section Model

variable [Malloc]

/-- `insert_dup` of the first value, which is of the same type: only strings are put together. -/
def ConfigValue.insertDup : ConfigValue → ConfigValue → ConfigValue
  | .string dst, .string src =>
    .string (if dst.used ≠ 0 then
      bufferAppendStringBuffer (bufferAppendStringLen dst (some (ascii ", "))) src
    else bufferCopyStringBuffer dst src)
  | dst, _ => dst

/-- Nothing is reset in the configuration. -/
instance : DataUnset ConfigData where
  type du := du.value.type
  key du := du.key
  isIndexKey du := du.isIndexKey
  withIndexKey du key := .mk key true du.value
  reset du := du
  insertDup dst src := .mk dst.key dst.isIndexKey (dst.value.insertDup src.value)

/-- An element of a literal: the key that is written, if any, and what its expression is worth, with
the name of a variable if it is a copy of one. -/
structure AElement where
  key : Option Bytes
  variableName : Option Bytes
  value : ConfigValue
  clean : ∀ k, key = some k ∨ variableName = some k → 0 ∉ k

/-- The result of `expression`. -/
def AElement.expression (e : AElement) : ConfigData :=
  match e.variableName with
  | some name => .mk (bufferCopyStringLen bufferInit (some name)) false e.value
  | none => .mk bufferInit false e.value

def aelement (e : AElement) : ConfigData :=
  match e.key with
  | some key =>
    .mk (bufferCopyStringLen e.expression.key (some key)) e.expression.isIndexKey e.expression.value
  | none => e.expression

/-- `aelements ::= aelements COMMA aelement`: the array and `ctx->ok`. Nothing comes of an array in
which elements of two types have one key: the server crashes. -/
def aelements (s : Arr ConfigData × Bool) (e : AElement) : Option (Arr ConfigData × Bool) :=
  let b := aelement e
  if bufferIsEmpty b.key then (arrayInsertUnique s.1 b).map (·, s.2)
  else do
    match ← arrayGetElement s.1 b.key.str with
    | none => (arrayInsertUnique s.1 b).map (·, s.2)
    | some _ => some (s.1, false)

/-- `array` -/
def arrayLiteral : List AElement → Option (Arr ConfigData × Bool)
  | [] => some (arrayInit, true)
  | e :: es => do
    let a ← arrayInsertUnique arrayInit (aelement e)
    es.foldlM aelements (a, true)

/-- `configparser_merge_data`, for two arrays. -/
def mergeArrays (dst src : Arr ConfigData) : Option (Arr ConfigData) :=
  src.elements.foldlM arrayInsertUnique dst

inductive ArrayExpr where
  | literal (es : List AElement)
  | plus (l r : ArrayExpr)

def ArrayExpr.eval : ArrayExpr → Option (Arr ConfigData × Bool)
  | literal es => arrayLiteral es
  | plus l r => do
    let (dst, ok) ← l.eval
    let (src, ok') ← r.eval
    let a ← mergeArrays dst src
    some (a, ok && ok')

end Model

section Written

def SameKey (k k' : Bytes) : Prop := k.map tolower = k'.map tolower

instance (k k' : Bytes) : Decidable (SameKey k k') := inferInstanceAs (Decidable (_ = _))

/-- The key `k` is written at the element. -/
def AElement.writes (e : AElement) (k : Bytes) : Bool := e.key.any fun k' => decide (SameKey k' k)

/-- An element of a literal comes behind the others, if its key is not written twice. -/
def keepElement (s : List AElement × Bool) (e : AElement) : List AElement × Bool :=
  match e.key with
  | some k => if s.1.any (·.writes k) then (s.1, false) else (s.1 ++ [e], s.2)
  | none => (s.1 ++ [e], s.2)

/-- In a merge it goes into the one with its key, if one is written. -/
def mergeElement [Malloc] (xs : List AElement) (e : AElement) : List AElement :=
  match e.key with
  | some k =>
    if xs.any (·.writes k) then
      xs.map fun x => if x.writes k then { x with value := x.value.insertDup e.value } else x
    else xs ++ [e]
  | none => xs ++ [e]

/-- The elements of an array, and whether no key is written twice in a literal of it. -/
def ArrayExpr.kept [Malloc] : ArrayExpr → List AElement × Bool
  | literal es => es.foldl keepElement ([], true)
  | plus l r => (r.kept.1.foldl mergeElement l.kept.1, l.kept.2 && r.kept.2)

/-- The array has these elements: each has its value, and its key if one is written. -/
def KeepsElements (result : Option (Arr ConfigData × Bool)) (s : List AElement × Bool) : Prop :=
  ∃ a, result = some (a, s.2) ∧ List.Forall₂ (fun (y : ConfigData) (x : AElement) =>
    y.value = x.value ∧ ∀ k, x.key = some k → y.key.bytes = k ++ [0]) a.elements s.1

def ArrayExpr.KeepsAll [Malloc] : ArrayExpr → Prop
  | literal es => KeepsElements (literal es).eval (literal es).kept
  | plus l r => l.KeepsAll ∧ r.KeepsAll ∧ KeepsElements (plus l r).eval (plus l r).kept

def AElement.name (e : AElement) : Option Bytes := e.key <|> e.variableName

/-- The elements with their keys: those without a name are counted, from `n` on. -/
def numbered : Nat → List AElement → List (AElement × Bytes)
  | _, [] => []
  | n, e :: es =>
    match e.name with
    | some k => (e, k) :: numbered n es
    | none => (e, decimal n) :: numbered (n + 1) es

def unnamed (xs : List AElement) : Nat := xs.countP (·.name.isNone)

def nextKey (xs : List AElement) (e : AElement) : Bytes := e.name.getD (decimal (unnamed xs))

/-- An element with the same key is there only if both keys are written. -/
def Unambiguous (xs : List AElement) (e : AElement) : Prop :=
  ∀ p ∈ numbered 0 xs, SameKey p.2 (nextKey xs e) → p.1.key.isSome ∧ e.key.isSome

def LiteralUnambiguous : List AElement × Bool → List AElement → Prop
  | _, [] => True
  | s, e :: es => Unambiguous s.1 e ∧ LiteralUnambiguous (keepElement s e) es

def MergeUnambiguous [Malloc] : List AElement → List AElement → Prop
  | _, [] => True
  | xs, e :: es =>
    (Unambiguous xs e ∧
      ∀ p ∈ numbered 0 xs, SameKey p.2 (nextKey xs e) → p.1.value.type = e.value.type) ∧
      MergeUnambiguous (mergeElement xs e) es

def ArrayExpr.KeysUnambiguous [Malloc] : ArrayExpr → Prop
  | literal es => LiteralUnambiguous ([], true) es
  | plus l r => l.KeysUnambiguous ∧ r.KeysUnambiguous ∧ MergeUnambiguous l.kept.1 r.kept.1

instance (xs : List AElement) (e : AElement) : Decidable (Unambiguous xs e) :=
  inferInstanceAs (Decidable (∀ _ ∈ _, _ → _))

instance decideLiteral : ∀ (s : List AElement × Bool) (es : List AElement),
    Decidable (LiteralUnambiguous s es)
  | _, [] => inferInstanceAs (Decidable True)
  | s, e :: es =>
    have := decideLiteral (keepElement s e) es
    inferInstanceAs (Decidable (_ ∧ _))

instance decideMerge [Malloc] : ∀ xs es : List AElement, Decidable (MergeUnambiguous xs es)
  | _, [] => inferInstanceAs (Decidable True)
  | xs, e :: es =>
    have := decideMerge (mergeElement xs e) es
    inferInstanceAs (Decidable ((_ ∧ ∀ _ ∈ _, _ → _) ∧ _))

instance decideExpr [Malloc] : ∀ E : ArrayExpr, Decidable E.KeysUnambiguous
  | .literal es => decideLiteral ([], true) es
  | .plus l r =>
    have := decideExpr l
    have := decideExpr r
    inferInstanceAs (Decidable (_ ∧ _ ∧ _))

def ArrayExpr.names : ArrayExpr → List Bytes
  | literal es => es.filterMap AElement.name
  | plus l r => l.names ++ r.names

end Written

section Insertion

variable [Malloc] {K : Bytes → Prop} {a : Arr ConfigData} {e : AElement} {y z : ConfigData}
  {k : Bytes}

structure FromElement (y : ConfigData) (e : AElement) : Prop where
  value : y.value = e.value
  named : ∀ k, e.name = some k → y.key.bytes = k ++ [0] ∧ y.isIndexKey = false
  unnamed : e.name = none → y.key.used = 0 ∨ y.isIndexKey = true

structure StoredAs (y : ConfigData) (p : AElement × Bytes) : Prop where
  value : y.value = p.1.value
  key : y.key.bytes = p.2 ++ [0]
  isIndexKey : y.isIndexKey = p.1.name.isNone

/-- What the insertion of an element with the key `k` does. -/
inductive InsertStep (K : Bytes → Prop) (a : Arr ConfigData) (e : AElement) (k : Bytes) :
    Option (Arr ConfigData) → Prop
  | merged {i : Nat} {z : ConfigData} {a' : Arr ConfigData} (there : a.elements[i]? = some z)
      (same : SameKey z.key.bytes (k ++ [0])) (types : z.value.type = e.value.type)
      (ordered : a'.Ordered K)
      (elements : a'.elements = a.elements.set i
        (.mk z.key z.isIndexKey (z.value.insertDup e.value)))
      (next : a'.uniqueNdx = a.uniqueNdx + if e.name = none then 1 else 0) :
      InsertStep K a e k (some a')
  | crash {z : ConfigData} (there : z ∈ a.elements) (same : SameKey z.key.bytes (k ++ [0]))
      (types : z.value.type ≠ e.value.type) : InsertStep K a e k none
  | appended {y : ConfigData} {a' : Arr ConfigData}
      (missing : ∀ z ∈ a.elements, ¬ SameKey z.key.bytes (k ++ [0])) (ordered : a'.Ordered K)
      (elements : a'.elements = a.elements ++ [y]) (stored : StoredAs y (e, k))
      (next : a'.uniqueNdx = a.uniqueNdx + if e.name = none then 1 else 0) :
      InsertStep K a e k (some a')

theorem compareKey_configData : compareKey (k ++ [0]) z = 0 ↔ SameKey z.key.bytes (k ++ [0]) := by
  have hkey : (DataUnset.key z).bytes = z.key.bytes := rfl
  unfold compareKey SameKey
  rw [hkey, bufferCaselessCompare_eq_zero, eq_comm]

theorem ensureKey_stored (hy : FromElement y e) :
    ∃ y', ensureKey a y = ({ a with uniqueNdx := a.uniqueNdx + if e.name = none then 1 else 0 }, y') ∧
      StoredAs y' (e, e.name.getD (decimal a.uniqueNdx)) := by
  unfold ensureKey
  cases hname : e.name with
  | none =>
    have hyes : (DataUnset.key y).used = 0 ∨ DataUnset.isIndexKey y = true := hy.unnamed hname
    rw [if_pos hyes, if_pos rfl]
    refine ⟨_, rfl, hy.value, ?_, ?_⟩
    · have htext := text_bufferAppendLong_shows (b := { y.key with used := 0 }) (t := [])
        (Or.inr ⟨rfl, rfl⟩) a.uniqueNdx
      exact htext.holds
    · rw [hname]
      rfl
  | some k =>
    obtain ⟨hkey, hindex⟩ := hy.named k hname
    have hused : y.key.used ≠ 0 := by
      intro hzero
      have hbytes : y.key.bytes = [] := by simp [Buffer.bytes, hzero]
      rw [hbytes] at hkey
      simp at hkey
    have hno : ¬ ((DataUnset.key y).used = 0 ∨ DataUnset.isIndexKey y = true) := by
      rintro (hzero | htrue)
      · exact hused hzero
      · exact absurd (hindex.symm.trans htrue) (by simp)
    rw [if_neg hno, if_neg (by simp)]
    exact ⟨y, rfl, hy.value, hkey, by rw [hname]; exact hindex⟩

theorem arrayInsertUnique_step (hK : PreorderOn bufferCaselessCompare K) (h : a.Ordered K)
    (hy : FromElement y e) (hk : k = e.name.getD (decimal a.uniqueNdx)) (hkey : K (k ++ [0])) :
    InsertStep K a e k (arrayInsertUnique a y) := by
  obtain ⟨y', hensure, hstored⟩ := ensureKey_stored (a := a) hy
  rw [← hk] at hstored
  have hbytes : keyBytes y' = k ++ [0] := hstored.key
  have hordered := h.ensureKey hK (x := y)
  rw [hensure] at hordered
  dsimp only at hordered
  have hvalue : DataUnset.type y' = e.value.type := congrArg ConfigValue.type hstored.value
  generalize hb : ({ a with uniqueNdx := a.uniqueNdx + if e.name = none then 1 else 0 } :
    Arr ConfigData) = b at *
  have helements : b.elements = a.elements := by
    rw [← hb]
    rfl
  obtain ⟨found, pos, hindex, hfound, hmiss⟩ := arrayGetIndex_ordered hK hordered hkey
  have hdata : (DataUnset.key y').bytes = k ++ [0] := hbytes
  unfold arrayInsertUnique
  rw [hensure]
  dsimp only
  rw [hdata, hindex]
  cases found with
  | some ndx =>
    obtain ⟨z, hz, hzero⟩ := (hfound ndx).mp rfl
    have hslot : b.data[ndx]? = some (some z) := hz.2
    have hget := (Arr.getElem?_elements hordered.wf).mpr hz
    have hsame := compareKey_configData.mp hzero
    unfold insertMerged
    simp only [hslot]
    split
    · next htypes =>
      rw [helements] at hget
      refine .merged hget hsame (htypes.trans hvalue) ?_ ?_ (congrArg Arr.uniqueNdx hb.symm)
      · obtain ⟨z', hz', hkz⟩ := hordered.live ndx hz.1
        obtain rfl := hz.2.unique hz'
        exact hordered.setElement hK hz hkz (hK.refl hkz)
      · rw [elements_setElement hordered.wf hz, helements, ← hstored.value]
        rfl
    · next htypes =>
      rw [helements] at hget
      refine .crash (List.mem_of_getElem? hget) hsame ?_
      rw [← hvalue]
      exact htypes
  | none =>
    obtain ⟨a', hinsert, hordered'⟩ := hmiss rfl y' hbytes
    obtain ⟨hused, hslots, hwf⟩ := insertNew_spec hordered.wf hinsert
    dsimp only
    rw [hinsert]
    have hnone : ∀ z ∈ b.elements, ¬ SameKey z.key.bytes (k ++ [0]) := by
      intro z hz hsame
      obtain ⟨i, hi⟩ := List.mem_iff_getElem?.mp hz
      have hlive := (Arr.getElem?_elements hordered.wf).mp hi
      exact absurd ((hfound i).mpr ⟨z, hlive, compareKey_configData.mpr hsame⟩) (by simp)
    rw [helements] at hnone
    refine .appended hnone hordered' ?_ hstored ?_
    · rw [← helements]
      exact elements_appended hordered.wf hused hslots hwf
    · exact (uniqueNdx_insertNew hinsert).trans (congrArg Arr.uniqueNdx hb.symm)

theorem InsertStep.keys {a' : Arr ConfigData} (h : InsertStep K a e k (some a')) :
    a'.Ordered K ∧ a'.elements.length ≤ a.elements.length + 1 ∧
      ∀ z ∈ a.elements, ∃ z' ∈ a'.elements, z'.key = z.key := by
  cases h with
  | @merged i z _ there same types ordered elements next =>
    refine ⟨ordered, ?_, ?_⟩
    · rw [elements, List.length_set]
      omega
    · intro w hw
      rw [elements]
      obtain ⟨j, hj⟩ := List.mem_iff_getElem?.mp hw
      by_cases hji : i = j
      · subst hji
        obtain rfl := Option.some.inj (there.symm.trans hj)
        exact ⟨_, List.mem_set (List.getElem?_eq_some_iff.mp hj).1 _, rfl⟩
      · refine ⟨w, List.mem_of_getElem? (i := j) ?_, rfl⟩
        rw [List.getElem?_set_ne hji]
        exact hj
  | @appended y _ missing ordered elements stored next =>
    refine ⟨ordered, ?_, ?_⟩
    · rw [elements, List.length_append]
      rfl
    · intro w hw
      rw [elements]
      exact ⟨w, List.mem_append_left _ hw, rfl⟩

theorem InsertStep.key {a' : Arr ConfigData} (h : InsertStep K a e k (some a')) :
    ∃ z ∈ a'.elements, SameKey z.key.bytes (k ++ [0]) := by
  cases h with
  | @merged i z _ there same types ordered elements next =>
    rw [elements]
    exact ⟨_, List.mem_set (List.getElem?_eq_some_iff.mp there).1 _, same⟩
  | @appended y _ missing ordered elements stored next =>
    rw [elements]
    refine ⟨y, List.mem_append_right _ (List.mem_singleton_self y), ?_⟩
    rw [stored.key]
    exact rfl

theorem arrayGetElement_cases (hK : PreorderOn bufferCaselessCompare K) (h : a.Ordered K)
    (hkey : K (k ++ [0])) :
    (∃ z ∈ a.elements, SameKey z.key.bytes (k ++ [0])) ∧
        (∃ found, arrayGetElement a k = some (some found)) ∨
      (∀ z ∈ a.elements, ¬ SameKey z.key.bytes (k ++ [0])) ∧ arrayGetElement a k = some none := by
  obtain ⟨found, pos, hindex, hfound, -⟩ := arrayGetIndex_ordered hK h hkey
  unfold arrayGetElement
  rw [hindex]
  cases found with
  | some ndx =>
    obtain ⟨z, hz, hzero⟩ := (hfound ndx).mp rfl
    have hslot : a.data[ndx]? = some (some z) := hz.2
    refine Or.inl ⟨⟨z, ?_, compareKey_configData.mp hzero⟩, (ndx, z), ?_⟩
    · exact List.mem_of_getElem? ((Arr.getElem?_elements h.wf).mpr hz)
    · dsimp only
      rw [hslot]
  | none =>
    refine Or.inr ⟨?_, rfl⟩
    intro z hz hsame
    obtain ⟨i, hi⟩ := List.mem_iff_getElem?.mp hz
    have hlive := (Arr.getElem?_elements h.wf).mp hi
    exact absurd ((hfound i).mpr ⟨z, hlive, compareKey_configData.mpr hsame⟩) (by simp)

theorem getElem_unique (hK : PreorderOn bufferCaselessCompare K) (h : a.Ordered K) {i j : Nat}
    {w : ConfigData} (hz : a.elements[i]? = some z) (hw : a.elements[j]? = some w)
    (hzk : SameKey z.key.bytes (k ++ [0])) (hwk : SameKey w.key.bytes (k ++ [0])) : i = j := by
  refine h.once hK ((Arr.getElem?_elements h.wf).mp hz) ((Arr.getElem?_elements h.wf).mp hw) ?_
  exact bufferCaselessCompare_eq_zero.mpr (hzk.trans hwk.symm)

end Insertion

section Numbered

variable {e x : AElement} {xs ys : List AElement} {k : Bytes} {n : Nat} {p : AElement × Bytes}

theorem sameKey_append {k k' : Bytes} : SameKey (k ++ [0]) (k' ++ [0]) ↔ SameKey k k' := by
  unfold SameKey
  rw [List.map_append, List.map_append, List.append_left_inj]

theorem writes_iff : e.writes k = true ↔ ∃ k', e.key = some k' ∧ SameKey k' k := by
  unfold AElement.writes
  cases e.key <;> simp

theorem name_of_key (h : e.key = some k) : e.name = some k := by
  simp [AElement.name, h]

theorem numbered_fst : ∀ (n : Nat) (xs : List AElement), (numbered n xs).map Prod.fst = xs
  | _, [] => rfl
  | n, e :: es => by
    unfold numbered
    cases e.name <;> simp [numbered_fst]

theorem numbered_append : ∀ (n : Nat) (xs : List AElement) (e : AElement),
    numbered n (xs ++ [e]) = numbered n xs ++ [(e, e.name.getD (decimal (n + unnamed xs : Nat)))]
  | n, [], e => by
    cases h : e.name <;> simp [numbered, unnamed, h]
  | n, x :: xs, e => by
    rw [List.cons_append]
    unfold numbered
    cases h : x.name with
    | some k => simp [numbered_append n xs e, unnamed, h]
    | none =>
      have hcount : n + 1 + unnamed xs = n + unnamed (x :: xs) := by
        simp [unnamed, h]
        omega
      simp [numbered_append (n + 1) xs e, hcount]

theorem numbered_map {f : AElement → AElement} (hf : ∀ x, (f x).name = x.name) :
    ∀ (n : Nat) (xs : List AElement),
      numbered n (xs.map f) = (numbered n xs).map fun p => (f p.1, p.2)
  | _, [] => rfl
  | n, x :: xs => by
    rw [List.map_cons]
    unfold numbered
    rw [hf]
    cases x.name <;> simp [numbered_map hf]

theorem numbered_name : ∀ {n : Nat} {xs : List AElement}, p ∈ numbered n xs →
    ∀ k, p.1.name = some k → p.2 = k
  | _, [], h => nomatch h
  | n, x :: xs, h => by
    unfold numbered at h
    intro k hk
    cases hx : x.name with
    | some k' =>
      rw [hx] at h
      rcases List.mem_cons.mp h with rfl | h
      · exact Option.some.inj (hx.symm.trans hk)
      · exact numbered_name h k hk
    | none =>
      rw [hx] at h
      rcases List.mem_cons.mp h with rfl | h
      · rw [hx] at hk
        nomatch hk
      · exact numbered_name h k hk

theorem mem_of_numbered (h : p ∈ numbered n xs) : p.1 ∈ xs := by
  rw [← numbered_fst n xs]
  exact List.mem_map_of_mem h

theorem exists_numbered (n : Nat) (h : x ∈ xs) : ∃ k, (x, k) ∈ numbered n xs := by
  rw [← numbered_fst n xs] at h
  obtain ⟨p, hp, rfl⟩ := List.mem_map.mp h
  exact ⟨p.2, hp⟩

end Numbered

section Represents

variable [Malloc]

structure Represents (K : Bytes → Prop) (a : Arr ConfigData) (xs : List AElement) : Prop where
  ordered : a.Ordered K
  next : a.uniqueNdx = unnamed xs
  elements : List.Forall₂ StoredAs a.elements (numbered 0 xs)

structure Loses (K : Bytes → Prop) (a : Arr ConfigData) (xs : List AElement) : Prop where
  ordered : a.Ordered K
  length : a.elements.length < xs.length
  keys : ∀ x ∈ xs, ∀ k, x.key = some k → ∃ z ∈ a.elements, SameKey z.key.bytes (k ++ [0])

/-- The numbers, and the name of the element, are keys in order. -/
structure KeysIn (K : Bytes → Prop) (e : AElement) : Prop where
  number : ∀ n : Nat, K (decimal n ++ [0])
  name : ∀ k, e.name = some k → K (k ++ [0])

variable {K : Bytes → Prop} {a a' : Arr ConfigData} {xs : List AElement} {e : AElement}
  {y z : ConfigData} {k : Bytes}

omit [Malloc] in
theorem KeysIn.getD (h : KeysIn K e) (n : Nat) : K (e.name.getD (decimal n) ++ [0]) := by
  cases hname : e.name with
  | none => exact h.number n
  | some k => exact h.name k hname

theorem Represents.length (h : Represents K a xs) : a.elements.length = xs.length := by
  rw [h.elements.length_eq, ← congrArg List.length (numbered_fst 0 xs), List.length_map]

omit [Malloc] in
theorem getElem_of_forall₂ {α β : Type} {R : α → β → Prop} {as : List α} {bs : List β}
    (h : List.Forall₂ R as bs) {i : Nat} {b : β} (hb : bs[i]? = some b) :
    ∃ a, as[i]? = some a ∧ R a b := by
  obtain ⟨hlt, rfl⟩ := List.getElem?_eq_some_iff.mp hb
  have hlt' : i < as.length := h.length_eq ▸ hlt
  exact ⟨as[i], List.getElem?_eq_getElem hlt', h.get hlt' hlt⟩

theorem Represents.stored (h : Represents K a xs) {i : Nat} {p : AElement × Bytes}
    (hp : (numbered 0 xs)[i]? = some p) : ∃ z, a.elements[i]? = some z ∧ StoredAs z p :=
  getElem_of_forall₂ h.elements hp

theorem Represents.of_stored (h : Represents K a xs) {i : Nat} (hz : a.elements[i]? = some z) :
    ∃ p, (numbered 0 xs)[i]? = some p ∧ StoredAs z p :=
  getElem_of_forall₂ h.elements.flip hz

omit [Malloc] in
theorem StoredAs.same {p : AElement × Bytes} (h : StoredAs z p) :
    SameKey z.key.bytes (k ++ [0]) ↔ SameKey p.2 k := by
  rw [h.key, sameKey_append]

theorem Represents.append (h : Represents K a xs) (ordered : a'.Ordered K)
    (elements : a'.elements = a.elements ++ [y]) (stored : StoredAs y (e, nextKey xs e))
    (next : a'.uniqueNdx = a.uniqueNdx + if e.name = none then 1 else 0) :
    Represents K a' (xs ++ [e]) where
  ordered := ordered
  next := by
    rw [next, h.next]
    cases hname : e.name <;> simp [unnamed, hname]
  elements := by
    rw [elements, numbered_append, Nat.zero_add]
    exact List.rel_append h.elements (.cons stored .nil)

theorem Represents.not_writes (hK : PreorderOn bufferCaselessCompare K) (h : Represents K a xs)
    {p : AElement × Bytes} (hp : p ∈ numbered 0 xs) (hsame : SameKey p.2 k)
    (hnone : p.1.key = none) : xs.any (·.writes k) = false := by
  rw [List.any_eq_false]
  intro x hx hwrites
  obtain ⟨k', hk', hsame'⟩ := writes_iff.mp hwrites
  obtain ⟨q, hq⟩ := exists_numbered 0 hx
  have hqk : q = k' := numbered_name hq k' (name_of_key hk')
  obtain ⟨i, hi⟩ := List.mem_iff_getElem?.mp hp
  obtain ⟨j, hj⟩ := List.mem_iff_getElem?.mp hq
  obtain ⟨z, hz, hzp⟩ := h.stored hi
  obtain ⟨w, hw, hwq⟩ := h.stored hj
  have hij := getElem_unique hK h.ordered hz hw (hzp.same.mpr hsame)
    (hwq.same.mpr (hqk.symm ▸ hsame'))
  subst hij
  rw [hi] at hj
  obtain rfl := Option.some.inj hj
  rw [hk'] at hnone
  nomatch hnone

theorem Represents.loses (h : Represents K a xs) (ordered : a'.Ordered K)
    (length : a'.elements.length ≤ a.elements.length)
    (keys : ∀ z ∈ a.elements, ∃ z' ∈ a'.elements, z'.key = z.key)
    (hkey : ∀ k, e.key = some k → ∃ z ∈ a'.elements, SameKey z.key.bytes (k ++ [0])) :
    Loses K a' (xs ++ [e]) where
  ordered := ordered
  length := by
    rw [List.length_append, ← h.length]
    exact Nat.lt_succ_of_le length
  keys := by
    intro x hx k hk
    rcases List.mem_append.mp hx with hx | hx
    · obtain ⟨q, hq⟩ := exists_numbered 0 hx
      have hqk : q = k := numbered_name hq k (name_of_key hk)
      obtain ⟨i, hi⟩ := List.mem_iff_getElem?.mp hq
      obtain ⟨z, hz, hstored⟩ := h.stored hi
      obtain ⟨z', hz', hzkey⟩ := keys z (List.mem_of_getElem? hz)
      refine ⟨z', hz', ?_⟩
      rw [hzkey, hstored.key, hqk]
      exact rfl
    · obtain rfl := List.mem_singleton.mp hx
      exact hkey k hk

theorem Represents.loses_more (h : Loses K a xs) (ordered : a'.Ordered K)
    (length : a'.elements.length ≤ a.elements.length + 1)
    (keys : ∀ z ∈ a.elements, ∃ z' ∈ a'.elements, z'.key = z.key)
    (hkey : ∀ k, e.key = some k → ∃ z ∈ a'.elements, SameKey z.key.bytes (k ++ [0])) :
    Loses K a' (xs ++ [e]) where
  ordered := ordered
  length := by
    rw [List.length_append]
    exact Nat.lt_of_le_of_lt length (Nat.succ_lt_succ h.length)
  keys := by
    intro x hx k hk
    rcases List.mem_append.mp hx with hx | hx
    · obtain ⟨z, hz, hsame⟩ := h.keys x hx k hk
      obtain ⟨z', hz', hzkey⟩ := keys z hz
      exact ⟨z', hz', hzkey ▸ hsame⟩
    · obtain rfl := List.mem_singleton.mp hx
      exact hkey k hk

/-! ## Literals -/

theorem aelement_named (h : e.name = some k) :
    ∃ b, aelement e = .mk (bufferCopyStringLen b (some k)) false e.value := by
  unfold AElement.name at h
  unfold aelement AElement.expression
  cases hkey : e.key with
  | some key =>
    rw [hkey] at h
    obtain rfl : key = k := Option.some.inj h
    cases e.variableName <;> exact ⟨_, rfl⟩
  | none =>
    rw [hkey] at h
    have hvar : e.variableName = some k := h
    rw [hvar]
    exact ⟨_, rfl⟩

theorem aelement_unnamed (h : e.name = none) : aelement e = .mk bufferInit false e.value := by
  obtain ⟨hkey, hvar⟩ : e.key = none ∧ e.variableName = none := by
    simpa [AElement.name] using h
  unfold aelement AElement.expression
  rw [hkey, hvar]

theorem aelement_from (e : AElement) : FromElement (aelement e) e := by
  cases hname : e.name with
  | some k =>
    obtain ⟨b, hb⟩ := aelement_named hname
    rw [hb]
    refine ⟨rfl, ?_, ?_⟩
    · rw [hname]
      intro k' hk'
      obtain rfl := Option.some.inj hk'
      exact ⟨holds_bufferCopyStringLen b k, rfl⟩
    · rw [hname]
      nofun
  | none =>
    rw [aelement_unnamed hname]
    refine ⟨rfl, ?_, fun _ => Or.inl rfl⟩
    rw [hname]
    nofun

theorem aelements_named (h : e.name = some k) (ok : Bool) : aelements (a, ok) e =
    (arrayGetElement a k).bind fun found =>
      match found with
      | none => (arrayInsertUnique a (aelement e)).map (·, ok)
      | some _ => some (a, false) := by
  obtain ⟨b, hb⟩ := aelement_named h
  have hclean : IsCStr k := by
    apply e.clean k
    unfold AElement.name at h
    cases hkey : e.key with
    | some key =>
      rw [hkey] at h
      exact Or.inl h
    | none =>
      rw [hkey] at h
      exact Or.inr h
  have hterm : (bufferCopyStringLen b (some k)).Terminated k :=
    ⟨hclean, ⟨[], (List.append_nil _).trans (holds_bufferCopyStringLen b k).symm⟩,
      wf_bufferCopyStringLen b k⟩
  have hstr : (aelement e).key.str = k := by
    rw [hb]
    exact hterm.str
  have hempty : bufferIsEmpty (aelement e).key = false := by
    rw [hb]
    rfl
  unfold aelements
  simp only [hempty, hstr, Bool.false_eq_true, if_false]
  rfl

theorem aelements_unnamed (h : e.name = none) (ok : Bool) : aelements (a, ok) e =
    (arrayInsertUnique a (aelement e)).map (·, ok) := by
  have hempty : bufferIsEmpty (aelement e).key = true := by
    rw [aelement_unnamed h]
    rfl
  unfold aelements
  simp only [hempty, if_true]

theorem Represents.same_iff (h : Represents K a xs) :
    (∃ z ∈ a.elements, SameKey z.key.bytes (k ++ [0])) ↔ ∃ p ∈ numbered 0 xs, SameKey p.2 k := by
  constructor
  · rintro ⟨z, hz, hsame⟩
    obtain ⟨i, hi⟩ := List.mem_iff_getElem?.mp hz
    obtain ⟨p, hp, hstored⟩ := h.of_stored hi
    exact ⟨p, List.mem_of_getElem? hp, hstored.same.mp hsame⟩
  · rintro ⟨p, hp, hsame⟩
    obtain ⟨i, hi⟩ := List.mem_iff_getElem?.mp hp
    obtain ⟨z, hz, hstored⟩ := h.stored hi
    exact ⟨z, List.mem_of_getElem? hz, hstored.same.mpr hsame⟩

omit [Malloc] in
theorem any_writes_iff : xs.any (·.writes k) = true ↔
    ∃ p ∈ numbered 0 xs, SameKey p.2 k ∧ p.1.key.isSome := by
  rw [List.any_eq_true]
  constructor
  · rintro ⟨x, hx, hwrites⟩
    obtain ⟨k', hk', hsame⟩ := writes_iff.mp hwrites
    obtain ⟨q, hq⟩ := exists_numbered 0 hx
    have hqk : q = k' := numbered_name hq k' (name_of_key hk')
    exact ⟨(x, q), hq, hqk ▸ hsame, Option.isSome_of_eq_some hk'⟩
  · rintro ⟨p, hp, hsame, hsome⟩
    obtain ⟨k', hk'⟩ := Option.isSome_iff_exists.mp hsome
    rw [numbered_name hp k' (name_of_key hk')] at hsame
    exact ⟨p.1, mem_of_numbered hp, writes_iff.mpr ⟨k', hk', hsame⟩⟩

omit [Malloc] in
theorem key_eq_name (hname : e.name = some k) (hkey : e.key.isSome) : e.key = some k := by
  obtain ⟨k', hk'⟩ := Option.isSome_iff_exists.mp hkey
  rw [hk', ← hname, name_of_key hk']

omit [Malloc] in
theorem keepElement_append (h : ∀ k, e.key = some k → xs.any (·.writes k) = false) (ok : Bool) :
    keepElement (xs, ok) e = (xs ++ [e], ok) := by
  unfold keepElement
  cases hkey : e.key with
  | none => rfl
  | some k => simp only [h k hkey, Bool.false_eq_true, if_false]

theorem aelements_step_unnamed (hK : PreorderOn bufferCaselessCompare K) (h : Represents K a xs)
    (hin : KeysIn K e) (hname : e.name = none) (ok : Bool) :
    (Unambiguous xs e → ∃ a', aelements (a, ok) e = some (a', ok) ∧ Represents K a' (xs ++ [e])) ∧
      (¬ Unambiguous xs e → ∀ s, aelements (a, ok) e = some s → Loses K s.1 (xs ++ [e])) := by
  have hkey : e.key = none := by
    cases hkey : e.key with
    | none => rfl
    | some k =>
      rw [name_of_key hkey] at hname
      nomatch hname
  have hnext : nextKey xs e = e.name.getD (decimal a.uniqueNdx) := by
    rw [h.next]
    rfl
  have hstep := arrayInsertUnique_step hK h.ordered (aelement_from e) hnext
    (hnext ▸ hin.getD a.uniqueNdx)
  rw [aelements_unnamed hname]
  generalize arrayInsertUnique a (aelement e) = result at hstep
  constructor
  · intro hun
    have hmissing : ∀ z ∈ a.elements, ¬ SameKey z.key.bytes (nextKey xs e ++ [0]) := by
      intro z hz hsame
      obtain ⟨p, hp, hpk⟩ := h.same_iff.mp ⟨z, hz, hsame⟩
      have hwritten := (hun p hp hpk).2
      rw [hkey] at hwritten
      nomatch hwritten
    cases hstep with
    | merged there same => exact absurd same (hmissing _ (List.mem_of_getElem? there))
    | crash there same => exact absurd same (hmissing _ there)
    | @appended y a' missing ordered elements stored next =>
      exact ⟨a', rfl, h.append ordered elements stored next⟩
  · intro hun s hs
    obtain ⟨p, hp, hpk, -⟩ : ∃ p ∈ numbered 0 xs, SameKey p.2 (nextKey xs e) ∧
        ¬ (p.1.key.isSome ∧ e.key.isSome) := by
      unfold Unambiguous at hun
      push Not at hun
      simpa using hun
    obtain ⟨a', rfl, rfl⟩ := Option.map_eq_some_iff.mp hs
    obtain ⟨ordered, -, keys⟩ := hstep.keys
    refine h.loses ordered ?_ keys ?_
    · cases hstep with
      | merged there same types ordered elements =>
        rw [elements, List.length_set]
      | appended missing =>
        obtain ⟨z, hz, hsame⟩ := h.same_iff.mpr ⟨p, hp, hpk⟩
        exact absurd hsame (missing z hz)
    · rw [hkey]
      nofun

theorem aelements_step_named (hK : PreorderOn bufferCaselessCompare K) (h : Represents K a xs)
    (hin : KeysIn K e) (hname : e.name = some k) (ok : Bool) :
    (Unambiguous xs e → ∃ a', aelements (a, ok) e = some (a', (keepElement (xs, ok) e).2) ∧
        Represents K a' (keepElement (xs, ok) e).1) ∧
      (¬ Unambiguous xs e → ∀ s, aelements (a, ok) e = some s →
        Loses K s.1 (keepElement (xs, ok) e).1) := by
  have hnext : nextKey xs e = k := by
    unfold nextKey
    rw [hname]
    rfl
  unfold Unambiguous
  rw [aelements_named hname, hnext]
  rcases arrayGetElement_cases hK h.ordered (hin.name k hname) with
    ⟨hthere, found, hlookup⟩ | ⟨hmissing, hlookup⟩
  · rw [hlookup]
    constructor
    · intro hun
      obtain ⟨p, hp, hsame⟩ := h.same_iff.mp hthere
      obtain ⟨hp', he⟩ := hun p hp hsame
      have hany : xs.any (·.writes k) = true := any_writes_iff.mpr ⟨p, hp, hsame, hp'⟩
      have hkeep : keepElement (xs, ok) e = (xs, false) := by
        unfold keepElement
        rw [key_eq_name hname he]
        simp only [hany, if_true]
      rw [hkeep]
      exact ⟨a, rfl, h⟩
    · intro hun s hs
      obtain rfl := Option.some.inj hs
      have hkeep : keepElement (xs, ok) e = (xs ++ [e], ok) := by
        refine keepElement_append (fun k' hk' => ?_) ok
        obtain rfl : k' = k := Option.some.inj ((name_of_key hk').symm.trans hname)
        push Not at hun
        obtain ⟨p, hp, hsame, hnone⟩ := hun
        refine h.not_writes hK hp hsame ?_
        by_contra hsome
        have := hnone (Option.isSome_iff_ne_none.mpr hsome)
        rw [hk'] at this
        exact this rfl
      rw [hkeep]
      refine h.loses h.ordered (Nat.le_refl _) (fun z hz => ⟨z, hz, rfl⟩) (fun k' hk' => ?_)
      obtain rfl : k' = k := Option.some.inj ((name_of_key hk').symm.trans hname)
      exact hthere
  · rw [hlookup]
    have hnone : ∀ p ∈ numbered 0 xs, ¬ SameKey p.2 k := by
      intro p hp hsame
      obtain ⟨z, hz, hzk⟩ := h.same_iff.mpr ⟨p, hp, hsame⟩
      exact hmissing z hz hzk
    refine ⟨fun _ => ?_, fun hun => absurd (fun p hp hsame => absurd hsame (hnone p hp)) hun⟩
    have hkeep : keepElement (xs, ok) e = (xs ++ [e], ok) := by
      refine keepElement_append (fun k' hk' => ?_) ok
      obtain rfl : k' = k := Option.some.inj ((name_of_key hk').symm.trans hname)
      rw [Bool.eq_false_iff]
      intro hany
      obtain ⟨p, hp, hsame, -⟩ := any_writes_iff.mp hany
      exact hnone p hp hsame
    have hget : k = e.name.getD (decimal a.uniqueNdx) := by
      rw [hname]
      rfl
    have hstep := arrayInsertUnique_step hK h.ordered (aelement_from e) hget (hin.name k hname)
    rw [hkeep, Option.bind_some]
    dsimp only
    generalize arrayInsertUnique a (aelement e) = result at hstep
    cases hstep with
    | merged there same => exact absurd same (hmissing _ (List.mem_of_getElem? there))
    | crash there same => exact absurd same (hmissing _ there)
    | @appended y a' missing ordered elements stored next =>
      exact ⟨a', rfl, h.append ordered elements (hnext.symm ▸ stored) next⟩

theorem aelements_step (hK : PreorderOn bufferCaselessCompare K) (h : Represents K a xs)
    (hin : KeysIn K e) (ok : Bool) :
    (Unambiguous xs e → ∃ a', aelements (a, ok) e = some (a', (keepElement (xs, ok) e).2) ∧
        Represents K a' (keepElement (xs, ok) e).1) ∧
      (¬ Unambiguous xs e → ∀ s, aelements (a, ok) e = some s →
        Loses K s.1 (keepElement (xs, ok) e).1) := by
  cases hname : e.name with
  | some k => exact aelements_step_named hK h hin hname ok
  | none =>
    have hkeep : keepElement (xs, ok) e = (xs ++ [e], ok) := by
      refine keepElement_append (fun k hk => ?_) ok
      rw [name_of_key hk] at hname
      nomatch hname
    rw [hkeep]
    exact aelements_step_unnamed hK h hin hname ok

theorem aelements_loses (hK : PreorderOn bufferCaselessCompare K) (h : Loses K a xs)
    (hin : KeysIn K e) {ok ok' : Bool} {s : Arr ConfigData × Bool}
    (hs : aelements (a, ok) e = some s) : Loses K s.1 (keepElement (xs, ok') e).1 := by
  have hstep : ∀ a', arrayInsertUnique a (aelement e) = some a' →
      InsertStep K a e (e.name.getD (decimal a.uniqueNdx)) (some a') := by
    intro a' ha'
    rw [← ha']
    exact arrayInsertUnique_step hK h.ordered (aelement_from e) rfl (hin.getD a.uniqueNdx)
  cases hname : e.name with
  | none =>
    rw [aelements_unnamed hname] at hs
    obtain ⟨a', ha', rfl⟩ := Option.map_eq_some_iff.mp hs
    obtain ⟨ordered, length, keys⟩ := (hstep a' ha').keys
    have hno : ∀ {k}, e.key ≠ some k := by
      intro k hk
      rw [name_of_key hk] at hname
      nomatch hname
    rw [keepElement_append fun k hk => absurd hk hno]
    exact Represents.loses_more h ordered length keys fun k hk => absurd hk hno
  | some k =>
    have hkey : ∀ {k'}, e.key = some k' → k' = k := fun hk' =>
      Option.some.inj ((name_of_key hk').symm.trans hname)
    rw [aelements_named hname] at hs
    rcases arrayGetElement_cases hK h.ordered (hin.name k hname) with
      ⟨hthere, found, hlookup⟩ | ⟨hmissing, hlookup⟩
    · rw [hlookup] at hs
      obtain rfl := Option.some.inj hs
      have happend : Loses K a (xs ++ [e]) := by
        refine Represents.loses_more h h.ordered (Nat.le_succ _) (fun z hz => ⟨z, hz, rfl⟩)
          (fun k' hk' => ?_)
        rw [hkey hk']
        exact hthere
      unfold keepElement
      cases e.key with
      | none => exact happend
      | some k' =>
        dsimp only
        split
        · exact h
        · exact happend
    · rw [hlookup, Option.bind_some] at hs
      obtain ⟨a', ha', rfl⟩ := Option.map_eq_some_iff.mp hs
      have hstep' := hstep a' ha'
      rw [hname, Option.getD_some] at hstep'
      obtain ⟨ordered, length, keys⟩ := hstep'.keys
      rw [keepElement_append]
      · refine Represents.loses_more h ordered length keys (fun k' hk' => ?_)
        rw [hkey hk']
        exact hstep'.key
      · intro k' hk'
        rw [hkey hk', Bool.eq_false_iff]
        intro hany
        obtain ⟨x, hx, hwrites⟩ := List.any_eq_true.mp hany
        obtain ⟨k'', hk'', hsame⟩ := writes_iff.mp hwrites
        obtain ⟨z, hz, hzk⟩ := h.keys x hx k'' hk''
        exact hmissing z hz (hzk.trans (sameKey_append.mpr hsame))

/-- A whole literal, by induction on its elements. -/
theorem literal_run (hK : PreorderOn bufferCaselessCompare K) (es : List AElement) :
    ∀ {a : Arr ConfigData} {xs : List AElement} {ok : Bool}, (∀ e ∈ es, KeysIn K e) →
      Represents K a xs →
      (LiteralUnambiguous (xs, ok) es → ∃ a', es.foldlM aelements (a, ok) =
          some (a', (es.foldl keepElement (xs, ok)).2) ∧
          Represents K a' (es.foldl keepElement (xs, ok)).1) ∧
        (¬ LiteralUnambiguous (xs, ok) es → ∀ s, es.foldlM aelements (a, ok) = some s →
          Loses K s.1 (es.foldl keepElement (xs, ok)).1) := by
  have hlost : ∀ (es : List AElement) {a : Arr ConfigData} {xs : List AElement} {ok ok' : Bool}
      {s : Arr ConfigData × Bool}, (∀ e ∈ es, KeysIn K e) → Loses K a xs →
      es.foldlM aelements (a, ok) = some s → Loses K s.1 (es.foldl keepElement (xs, ok')).1 := by
    intro es
    induction es with
    | nil =>
      intro a xs ok ok' s _ h hs
      obtain rfl := Option.some.inj hs
      exact h
    | cons e es ih =>
      intro a xs ok ok' s hin h hs
      rw [List.foldlM_cons] at hs
      obtain ⟨s', hs', hrest⟩ := Option.bind_eq_some_iff.mp hs
      exact ih (fun e he => hin e (List.mem_cons_of_mem _ he))
        (aelements_loses hK h (hin e List.mem_cons_self) hs') hrest
  induction es with
  | nil => exact fun _ h => ⟨fun _ => ⟨_, rfl, h⟩, fun hno => absurd trivial hno⟩
  | cons e es ih =>
    intro a xs ok hin h
    have hrest := fun e he => hin e (List.mem_cons_of_mem _ he)
    obtain ⟨hgood, hbad⟩ := aelements_step hK h (hin e List.mem_cons_self) ok
    unfold LiteralUnambiguous
    rw [List.foldlM_cons, List.foldl_cons]
    by_cases hun : Unambiguous xs e
    · obtain ⟨a', hstep, h'⟩ := hgood hun
      rw [hstep]
      obtain ⟨hgood', hbad'⟩ := @ih a' _ (keepElement (xs, ok) e).2 hrest h'
      exact ⟨fun hall => hgood' hall.2, fun hno s hs => hbad' (fun hall => hno ⟨hun, hall⟩) s hs⟩
    · refine ⟨fun hall => absurd hall.1 hun, fun _ s hs => ?_⟩
      obtain ⟨s', hs', hmore⟩ := Option.bind_eq_some_iff.mp hs
      exact hlost es hrest (hbad hun s' hs') hmore

/-! ## Merges -/

omit [Malloc] in
theorem StoredAs.from {p : AElement × Bytes} (h : StoredAs z p) (hp : ∀ k, p.1.name = some k → p.2 = k) :
    FromElement z p.1 where
  value := h.value
  named := by
    intro k hk
    refine ⟨?_, ?_⟩
    · rw [h.key, hp k hk]
    · rw [h.isIndexKey, hk]
      rfl
  unnamed := by
    intro hnone
    right
    rw [h.isIndexKey, hnone]
    rfl

theorem Represents.sources (h : Represents K a xs) : List.Forall₂ (fun (y : ConfigData) x =>
    ∃ k, StoredAs y (x, k) ∧ ∀ k', x.name = some k' → k = k') a.elements xs := by
  have hsources : List.Forall₂ (fun (y : ConfigData) (p : AElement × Bytes) =>
      ∃ k, StoredAs y (p.1, k) ∧ ∀ k', p.1.name = some k' → k = k')
      a.elements (numbered 0 xs) := by
    refine List.forall₂_iff_get.mpr ⟨h.elements.length_eq, fun i h1 h2 => ?_⟩
    exact ⟨_, h.elements.get h1 h2, numbered_name (List.getElem_mem h2)⟩
  have hmap := (List.forall₂_map_right_iff (R := fun (y : ConfigData) x =>
    ∃ k, StoredAs y (x, k) ∧ ∀ k', x.name = some k' → k = k') (f := Prod.fst)).mpr hsources
  rwa [numbered_fst] at hmap

theorem Represents.from (h : Represents K a xs) : List.Forall₂ FromElement a.elements xs :=
  h.sources.imp fun _ _ ⟨_, hstored, hname⟩ => hstored.from hname

def mergeInto (k : Bytes) (e x : AElement) : AElement :=
  if x.writes k then { x with value := x.value.insertDup e.value } else x

theorem mergeInto_name (k : Bytes) (e x : AElement) : (mergeInto k e x).name = x.name := by
  unfold mergeInto
  split <;> rfl

theorem mergeInto_key (k : Bytes) (e x : AElement) : (mergeInto k e x).key = x.key := by
  unfold mergeInto
  split <;> rfl

theorem mergeElement_into (hkey : e.key = some k) (hany : xs.any (·.writes k) = true) :
    mergeElement xs e = xs.map (mergeInto k e) := by
  unfold mergeElement
  simp only [hkey, hany, if_true]
  rfl

theorem mergeElement_append (h : ∀ k, e.key = some k → xs.any (·.writes k) = false) :
    mergeElement xs e = xs ++ [e] := by
  unfold mergeElement
  cases hkey : e.key with
  | none => rfl
  | some k => simp only [h k hkey, Bool.false_eq_true, if_false]

omit [Malloc] in
theorem unnamed_map {f : AElement → AElement} (hf : ∀ x, (f x).name = x.name) :
    unnamed (xs.map f) = unnamed xs := by
  unfold unnamed
  rw [List.countP_map]
  congr 1
  funext x
  exact congrArg Option.isNone (hf x)

omit [Malloc] in
theorem nextKey_of_key (h : e.key = some k) : nextKey xs e = k := by
  unfold nextKey
  rw [name_of_key h]
  rfl

theorem Represents.into (hK : PreorderOn bufferCaselessCompare K) (h : Represents K a xs)
    (hkey : e.key = some k) {i : Nat} {p : AElement × Bytes} (hp : (numbered 0 xs)[i]? = some p)
    (hwrites : p.1.writes k = true) (there : a.elements[i]? = some z)
    (same : SameKey z.key.bytes (k ++ [0])) (ordered : a'.Ordered K)
    (elements : a'.elements = a.elements.set i (.mk z.key z.isIndexKey (z.value.insertDup e.value)))
    (next : a'.uniqueNdx = a.uniqueNdx + if e.name = none then 1 else 0) :
    Represents K a' (xs.map (mergeInto k e)) where
  ordered := ordered
  next := by
    rw [next, unnamed_map (mergeInto_name k e), name_of_key hkey, if_neg (by simp), h.next]
    rfl
  elements := by
    rw [elements, numbered_map (mergeInto_name k e)]
    refine List.forall₂_iff_get.mpr ⟨?_, fun j h1 h2 => ?_⟩
    · rw [List.length_set, List.length_map]
      exact h.elements.length_eq
    · have hj : j < (numbered 0 xs).length := by simpa using h2
      have hj' : j < a.elements.length := by simpa using h1
      have hstored := h.elements.get hj' hj
      simp only [List.get_eq_getElem] at hstored ⊢
      rw [List.getElem_map]
      generalize hq : (numbered 0 xs)[j] = q at hstored ⊢
      have hqi : (numbered 0 xs)[j]? = some q := by rw [List.getElem?_eq_getElem hj, hq]
      rw [List.getElem_set]
      split
      · next hij =>
        -- the one with the key
        subst hij
        obtain rfl := Option.some.inj (hp.symm.trans hqi)
        obtain ⟨_, rfl⟩ := List.getElem?_eq_some_iff.mp there
        refine ⟨?_, hstored.key, ?_⟩
        · unfold mergeInto
          rw [if_pos hwrites]
          exact congrArg (ConfigValue.insertDup · e.value) hstored.value
        · dsimp only
          rw [mergeInto_name]
          exact hstored.isIndexKey
      · next hij =>
        have hno : ¬ q.1.writes k = true := by
          intro hyes
          obtain ⟨k', hk', hsame⟩ := writes_iff.mp hyes
          have hqk := numbered_name (List.mem_of_getElem? hqi) k' (name_of_key hk')
          exact hij (getElem_unique hK h.ordered there (List.getElem?_eq_getElem hj') same
            (hstored.same.mpr (hqk.symm ▸ hsame)))
        unfold mergeInto
        rw [if_neg hno]
        exact hstored

theorem merge_step (hK : PreorderOn bufferCaselessCompare K) (h : Represents K a xs)
    (hin : KeysIn K e) (hy : FromElement y e) :
    (MergeUnambiguous xs [e] →
      ∃ a', arrayInsertUnique a y = some a' ∧ Represents K a' (mergeElement xs e)) ∧
      (¬ MergeUnambiguous xs [e] → ∀ a', arrayInsertUnique a y = some a' →
        Loses K a' (mergeElement xs e)) := by
  have hnext : nextKey xs e = e.name.getD (decimal a.uniqueNdx) := by
    rw [h.next]
    rfl
  have hstep := arrayInsertUnique_step hK h.ordered hy hnext (hnext ▸ hin.getD a.uniqueNdx)
  generalize arrayInsertUnique a y = result at hstep
  unfold MergeUnambiguous MergeUnambiguous
  constructor
  · rintro ⟨⟨hun, htypes⟩, -⟩
    cases hstep with
    | @merged i z a' there same types ordered elements next =>
      obtain ⟨p, hp, hstored⟩ := h.of_stored there
      have hpk := hstored.same.mp same
      obtain ⟨hp', he⟩ := hun p (List.mem_of_getElem? hp) hpk
      obtain ⟨k, hk⟩ := Option.isSome_iff_exists.mp he
      obtain ⟨k', hk'⟩ := Option.isSome_iff_exists.mp hp'
      rw [nextKey_of_key hk] at hpk same
      have hwrites : p.1.writes k = true := by
        refine writes_iff.mpr ⟨k', hk', ?_⟩
        rwa [numbered_name (List.mem_of_getElem? hp) k' (name_of_key hk')] at hpk
      have hany : xs.any (·.writes k) = true :=
        List.any_eq_true.mpr ⟨p.1, mem_of_numbered (List.mem_of_getElem? hp), hwrites⟩
      rw [mergeElement_into hk hany]
      exact ⟨a', rfl, h.into hK hk hp hwrites there same ordered elements next⟩
    | crash there same types =>
      obtain ⟨i, hi⟩ := List.mem_iff_getElem?.mp there
      obtain ⟨p, hp, hstored⟩ := h.of_stored hi
      have htype := htypes p (List.mem_of_getElem? hp) (hstored.same.mp same)
      exact absurd ((congrArg ConfigValue.type hstored.value).trans htype) types
    | @appended y a' missing ordered elements stored next =>
      rw [mergeElement_append]
      · exact ⟨a', rfl, h.append ordered elements stored next⟩
      · intro k hk
        rw [nextKey_of_key hk] at missing
        rw [Bool.eq_false_iff]
        intro hany
        obtain ⟨p, hp, hsame, -⟩ := any_writes_iff.mp hany
        obtain ⟨z, hz, hzk⟩ := h.same_iff.mpr ⟨p, hp, hsame⟩
        exact missing z hz hzk
  · intro hun a' ha'
    cases hstep with
    | @merged i z a'' there same types ordered elements next =>
      obtain rfl := Option.some.inj ha'
      obtain ⟨p, hp, hstored⟩ := h.of_stored there
      have hpk := hstored.same.mp same
      -- the only one with the key
      have honly : ∀ q ∈ numbered 0 xs, SameKey q.2 (nextKey xs e) → q = p := by
        intro q hq hqk
        obtain ⟨j, hj⟩ := List.mem_iff_getElem?.mp hq
        obtain ⟨w, hw, hwq⟩ := h.stored hj
        have hij := getElem_unique hK h.ordered there hw same (hwq.same.mpr hqk)
        subst hij
        exact Option.some.inj (hj.symm.trans hp)
      have hnot : ¬ (p.1.key.isSome ∧ e.key.isSome) := by
        intro hboth
        refine hun ⟨⟨fun q hq hqk => ?_, fun q hq hqk => ?_⟩, trivial⟩
        · rw [honly q hq hqk]
          exact hboth
        · rw [honly q hq hqk, ← types, hstored.value]
      rw [mergeElement_append]
      · refine h.loses ordered ?_ (InsertStep.merged there same types ordered elements next).keys.2.2
          (fun k hk => ?_)
        · rw [elements, List.length_set]
        · rw [nextKey_of_key hk] at same
          rw [elements]
          exact ⟨_, List.mem_set (List.getElem?_eq_some_iff.mp there).1 _, same⟩
      · intro k hk
        rw [nextKey_of_key hk] at hpk
        refine h.not_writes hK (List.mem_of_getElem? hp) hpk ?_
        by_contra hsome
        exact hnot ⟨Option.isSome_iff_ne_none.mpr hsome, Option.isSome_of_eq_some hk⟩
    | crash there same types => nomatch ha'
    | appended missing =>
      refine absurd ⟨⟨fun p hp hpk => ?_, fun p hp hpk => ?_⟩, trivial⟩ hun
      all_goals
        obtain ⟨z, hz, hzk⟩ := h.same_iff.mpr ⟨p, hp, hpk⟩
        exact absurd hzk (missing z hz)

theorem merge_loses (hK : PreorderOn bufferCaselessCompare K) (h : Loses K a xs)
    (hin : KeysIn K e) (hy : FromElement y e) (hs : arrayInsertUnique a y = some a') :
    Loses K a' (mergeElement xs e) := by
  have hstep := arrayInsertUnique_step hK h.ordered hy rfl (hin.getD a.uniqueNdx)
  rw [hs] at hstep
  obtain ⟨ordered, length, keys⟩ := hstep.keys
  have hkey : ∀ k, e.key = some k → e.name.getD (decimal a.uniqueNdx) = k := by
    intro k hk
    rw [name_of_key hk]
    rfl
  by_cases hany : ∃ k, e.key = some k ∧ xs.any (·.writes k) = true
  · obtain ⟨k, hk, hany⟩ := hany
    rw [hkey k hk] at hstep
    obtain ⟨x, hx, hwrites⟩ := List.any_eq_true.mp hany
    obtain ⟨k', hk', hsame⟩ := writes_iff.mp hwrites
    obtain ⟨z, hz, hzk⟩ := h.keys x hx k' hk'
    rw [mergeElement_into hk hany]
    refine ⟨ordered, ?_, ?_⟩
    · rw [List.length_map]
      cases hstep with
      | merged there same types ordered elements =>
        rw [elements, List.length_set]
        exact h.length
      | appended missing => exact absurd (hzk.trans (sameKey_append.mpr hsame)) (missing z hz)
    · intro w hw l hl
      obtain ⟨w', hw', rfl⟩ := List.mem_map.mp hw
      rw [mergeInto_key] at hl
      obtain ⟨z, hz, hzl⟩ := h.keys w' hw' l hl
      obtain ⟨z', hz', hzkey⟩ := keys z hz
      exact ⟨z', hz', hzkey ▸ hzl⟩
  · rw [mergeElement_append]
    · refine Represents.loses_more h ordered length keys (fun k hk => ?_)
      have hthere := hstep.key
      rwa [hkey k hk] at hthere
    · intro k hk
      rw [Bool.eq_false_iff]
      exact fun hyes => hany ⟨k, hk, hyes⟩

/-- A whole merge, by induction on the elements of the second array. -/
theorem merge_run (hK : PreorderOn bufferCaselessCompare K) {ys : List ConfigData}
    {es : List AElement} (hfrom : List.Forall₂ FromElement ys es) :
    ∀ {a : Arr ConfigData} {xs : List AElement}, (∀ e ∈ es, KeysIn K e) → Represents K a xs →
      (MergeUnambiguous xs es → ∃ a', ys.foldlM arrayInsertUnique a = some a' ∧
          Represents K a' (es.foldl mergeElement xs)) ∧
        (¬ MergeUnambiguous xs es → ∀ a', ys.foldlM arrayInsertUnique a = some a' →
          Loses K a' (es.foldl mergeElement xs)) := by
  have hlost : ∀ {ys : List ConfigData} {es : List AElement}, List.Forall₂ FromElement ys es →
      ∀ {a a' : Arr ConfigData} {xs : List AElement}, (∀ e ∈ es, KeysIn K e) → Loses K a xs →
        ys.foldlM arrayInsertUnique a = some a' → Loses K a' (es.foldl mergeElement xs) := by
    intro ys es hfrom
    induction hfrom with
    | nil =>
      intro a a' xs _ h hs
      obtain rfl := Option.some.inj hs
      exact h
    | @cons y e ys es hy _ ih =>
      intro a a' xs hin h hs
      rw [List.foldlM_cons] at hs
      obtain ⟨b, hb, hrest⟩ := Option.bind_eq_some_iff.mp hs
      exact ih (fun e he => hin e (List.mem_cons_of_mem _ he))
        (merge_loses hK h (hin e List.mem_cons_self) hy hb) hrest
  induction hfrom with
  | nil => exact fun _ h => ⟨fun _ => ⟨_, rfl, h⟩, fun hno => absurd trivial hno⟩
  | @cons y e ys es hy hys ih =>
    intro a xs hin h
    have hrest := fun e he => hin e (List.mem_cons_of_mem _ he)
    obtain ⟨hgood, hbad⟩ := merge_step hK h (hin e List.mem_cons_self) hy
    have hone : MergeUnambiguous xs (e :: es) ↔
        MergeUnambiguous xs [e] ∧ MergeUnambiguous (mergeElement xs e) es := by
      constructor
      · rintro ⟨hfirst, hmore⟩
        exact ⟨⟨hfirst, trivial⟩, hmore⟩
      · rintro ⟨⟨hfirst, -⟩, hmore⟩
        exact ⟨hfirst, hmore⟩
    rw [hone, List.foldlM_cons, List.foldl_cons]
    by_cases hun : MergeUnambiguous xs [e]
    · obtain ⟨a', hstep, h'⟩ := hgood hun
      rw [hstep]
      obtain ⟨hgood', hbad'⟩ := ih hrest h'
      exact ⟨fun hall => hgood' hall.2, fun hno s hs => hbad' (fun hall => hno ⟨hun, hall⟩) s hs⟩
    · refine ⟨fun hall => absurd hall.1 hun, fun _ s hs => ?_⟩
      obtain ⟨b, hb, hmore⟩ := Option.bind_eq_some_iff.mp hs
      exact hlost hys hrest (hbad hun b hb) hmore

/-! ## Expressions -/

theorem Represents.keeps {s : List AElement × Bool} (h : Represents K a s.1) :
    KeepsElements (some (a, s.2)) s := by
  refine ⟨a, rfl, h.sources.imp ?_⟩
  rintro y x ⟨k, hstored, hname⟩
  refine ⟨hstored.value, fun k' hk' => ?_⟩
  rw [hstored.key, hname k' (name_of_key hk')]

theorem Loses.not_keeps {s : List AElement × Bool} {ok : Bool} (h : Loses K a s.1) :
    ¬ KeepsElements (some (a, ok)) s := by
  rintro ⟨a', ha', hall⟩
  obtain rfl : a = a' := congrArg Prod.fst (Option.some.inj ha')
  exact absurd hall.length_eq (Nat.ne_of_lt h.length)

omit [Malloc] in
theorem not_keepsElements_none {s : List AElement × Bool} : ¬ KeepsElements none s := by
  rintro ⟨a, ha, -⟩
  nomatch ha

theorem represents_arrayInit : Represents K (arrayInit : Arr ConfigData) [] where
  ordered := .used_zero rfl ⟨0, rfl⟩
  next := rfl
  elements := .nil

theorem arrayLiteral_eq (es : List AElement) :
    arrayLiteral es = es.foldlM aelements (arrayInit, true) := by
  cases es with
  | nil => rfl
  | cons e es =>
    have hfirst : aelements (arrayInit, true) e =
        (arrayInsertUnique arrayInit (aelement e)).map (·, true) := by
      cases hname : e.name with
      | none => exact aelements_unnamed hname true
      | some k =>
        have hlookup : arrayGetElement (arrayInit : Arr ConfigData) k = some none := rfl
        rw [aelements_named hname, hlookup]
        rfl
    have hcons : arrayLiteral (e :: es) = (arrayInsertUnique arrayInit (aelement e)).bind
        fun a => es.foldlM aelements (a, true) := rfl
    rw [List.foldlM_cons, hfirst, hcons]
    cases arrayInsertUnique arrayInit (aelement e) <;> simp

omit [Malloc] in
theorem mem_foldl_keepElement {es : List AElement} : ∀ {s : List AElement × Bool},
    e ∈ (es.foldl keepElement s).1 → e ∈ s.1 ∨ e ∈ es := by
  induction es with
  | nil => exact fun h => Or.inl h
  | cons x es ih =>
    intro s h
    rcases ih h with h | h
    · have hx : e ∈ s.1 ∨ e = x := by
        unfold keepElement at h
        split at h
        · split at h
          · exact Or.inl h
          · simpa using h
        · simpa using h
      rcases hx with hx | rfl
      · exact Or.inl hx
      · exact Or.inr List.mem_cons_self
    · exact Or.inr (List.mem_cons_of_mem _ h)

theorem mem_foldl_mergeElement {es : List AElement} : ∀ {xs : List AElement},
    e ∈ es.foldl mergeElement xs → ∃ x ∈ xs ++ es, x.name = e.name := by
  induction es with
  | nil => exact fun h => ⟨e, by simpa using h, rfl⟩
  | cons x es ih =>
    intro xs h
    obtain ⟨w, hw, hname⟩ := ih h
    rcases List.mem_append.mp hw with hw | hw
    · have hx : ∃ v ∈ xs ++ [x], v.name = w.name := by
        by_cases hany : ∃ k, x.key = some k ∧ xs.any (·.writes k) = true
        · obtain ⟨k, hk, hany⟩ := hany
          rw [mergeElement_into hk hany] at hw
          obtain ⟨v, hv, rfl⟩ := List.mem_map.mp hw
          exact ⟨v, List.mem_append_left _ hv, (mergeInto_name k x v).symm⟩
        · rw [mergeElement_append] at hw
          · exact ⟨w, hw, rfl⟩
          · intro k hk
            rw [Bool.eq_false_iff]
            exact fun hyes => hany ⟨k, hk, hyes⟩
      obtain ⟨v, hv, hvw⟩ := hx
      refine ⟨v, ?_, hvw.trans hname⟩
      simp only [List.mem_append, List.mem_cons, List.not_mem_nil, or_false] at hv ⊢
      tauto
    · exact ⟨w, List.mem_append_right _ (List.mem_cons_of_mem _ hw), hname⟩

theorem ArrayExpr.kept_names (E : ArrayExpr) :
    ∀ {e : AElement} {k : Bytes}, e ∈ E.kept.1 → e.name = some k → k ∈ E.names := by
  induction E with
  | literal es =>
    intro e k he hk
    rcases mem_foldl_keepElement he with he | he
    · nomatch he
    · exact List.mem_filterMap.mpr ⟨e, he, hk⟩
  | plus l r ihl ihr =>
    intro e k he hk
    obtain ⟨x, hx, hname⟩ := mem_foldl_mergeElement he
    rw [hk] at hname
    rcases List.mem_append.mp hx with hx | hx
    · exact List.mem_append_left _ (ihl hx hname)
    · exact List.mem_append_right _ (ihr hx hname)

theorem ArrayExpr.plus_spec (hK : PreorderOn bufferCaselessCompare K) {l r : ArrayExpr}
    (hin : ∀ e ∈ r.kept.1, KeysIn K e)
    (hl : ∃ a, l.eval = some (a, l.kept.2) ∧ Represents K a l.kept.1)
    (hr : ∃ a, r.eval = some (a, r.kept.2) ∧ Represents K a r.kept.1) :
    (MergeUnambiguous l.kept.1 r.kept.1 → ∃ a, (plus l r).eval = some (a, (plus l r).kept.2) ∧
        Represents K a (plus l r).kept.1) ∧
      (¬ MergeUnambiguous l.kept.1 r.kept.1 → ¬ KeepsElements (plus l r).eval (plus l r).kept) := by
  obtain ⟨dst, hdst, hrepl⟩ := hl
  obtain ⟨src, hsrc, hrepr⟩ := hr
  have heval : (plus l r).eval = (mergeArrays dst src).map (·, (plus l r).kept.2) := by
    unfold eval
    rw [hdst, hsrc]
    cases hmerged : mergeArrays dst src <;> simp [hmerged, kept]
  obtain ⟨hgood, hbad⟩ := merge_run hK hrepr.from hin hrepl
  rw [heval]
  refine ⟨fun hun => ?_, fun hno => ?_⟩
  · obtain ⟨a, ha, hrep⟩ := hgood hun
    have hmerged : mergeArrays dst src = some a := ha
    exact ⟨a, by rw [hmerged]; rfl, hrep⟩
  · cases hmerged : mergeArrays dst src with
    | none => exact not_keepsElements_none
    | some a => exact (hbad hno a hmerged).not_keeps

/-- The arrays of an expression, by induction on it. -/
theorem ArrayExpr.eval_spec (hK : PreorderOn bufferCaselessCompare K)
    (hnumber : ∀ n : Nat, K (decimal n ++ [0])) (E : ArrayExpr) :
    (∀ k ∈ E.names, K (k ++ [0])) →
      (E.KeysUnambiguous → ∃ a, E.eval = some (a, E.kept.2) ∧ Represents K a E.kept.1) ∧
        (E.KeepsAll ↔ E.KeysUnambiguous) := by
  induction E with
  | literal es =>
    intro hnames
    have hin : ∀ e ∈ es, KeysIn K e := fun e he =>
      ⟨hnumber, fun k hk => hnames k (List.mem_filterMap.mpr ⟨e, he, hk⟩)⟩
    obtain ⟨hgood, hbad⟩ := @literal_run _ K hK es arrayInit [] true hin represents_arrayInit
    rw [← arrayLiteral_eq] at hgood hbad
    refine ⟨hgood, fun hkeeps => ?_, fun hun => ?_⟩
    · by_contra hno
      obtain ⟨a, ha, hall⟩ := hkeeps
      have hkept : KeepsElements (some (a, (literal es).kept.2)) (literal es).kept := ⟨a, rfl, hall⟩
      exact (hbad hno _ ha).not_keeps hkept
    · obtain ⟨a, ha, hrep⟩ := hgood hun
      unfold KeepsAll
      have heval : (literal es).eval = some (a, (literal es).kept.2) := ha
      rw [heval]
      exact Represents.keeps hrep
  | plus l r ihl ihr =>
    intro hnames
    obtain ⟨hevall, hiffl⟩ := ihl fun k hk => hnames k (List.mem_append_left _ hk)
    obtain ⟨hevalr, hiffr⟩ := ihr fun k hk => hnames k (List.mem_append_right _ hk)
    have hin : ∀ e ∈ r.kept.1, KeysIn K e := fun e he =>
      ⟨hnumber, fun k hk => hnames k (List.mem_append_right _ (r.kept_names he hk))⟩
    unfold KeysUnambiguous KeepsAll
    rw [hiffl, hiffr]
    have hspec := fun hl hr => plus_spec hK hin (hevall hl) (hevalr hr)
    constructor
    · rintro ⟨hl, hr, hun⟩
      exact (hspec hl hr).1 hun
    · constructor
      · rintro ⟨hl, hr, hkeeps⟩
        refine ⟨hl, hr, ?_⟩
        by_contra hno
        exact (hspec hl hr).2 hno hkeeps
      · rintro ⟨hl, hr, hun⟩
        obtain ⟨a, ha, hrep⟩ := (hspec hl hr).1 hun
        refine ⟨hl, hr, ?_⟩
        rw [ha]
        exact hrep.keeps

end Represents

/-! ## The keys that are stored -/

theorem decimal_letters (n : Nat) : ¬ ∃ c ∈ decimal n ++ [0], 65 ≤ c.toNat := by
  rintro ⟨c, hc, hle⟩
  rcases List.mem_append.mp hc with hc | hc
  · rw [decimal_natCast] at hc
    have hdigit := isDigit_of_mem_decimalNat hc
    unfold isDigit at hdigit
    rw [Bool.and_eq_true, decide_eq_true_eq, decide_eq_true_eq] at hdigit
    have hle' : c.toNat ≤ 57 := UInt8.le_iff_toNat_le.mp hdigit.2
    omega
  · obtain rfl := List.mem_singleton.mp hc
    exact absurd hle (by decide)

/-- No names of the expression clash: `buffer_caseless_compare` orders its keys. -/
def ArrayExpr.KeysOrdered (E : ArrayExpr) : Prop :=
  ∀ p ∈ E.names, ∀ q ∈ E.names, ∀ r ∈ E.names, ¬ Clashes (p ++ [0]) (q ++ [0]) (r ++ [0])

def ArrayExpr.Stored (E : ArrayExpr) (key : Bytes) : Prop :=
  (∃ n : Nat, key = decimal n ++ [0]) ∨ ∃ k ∈ E.names, key = k ++ [0]

theorem ArrayExpr.KeysOrdered.preorder {E : ArrayExpr} (h : E.KeysOrdered) :
    PreorderOn bufferCaselessCompare E.Stored := by
  have hclash : ∀ {s t u}, E.Stored s → E.Stored t → E.Stored u → ¬ Clashes s t u := by
    intro s t u hs ht hu hclash
    obtain ⟨hs', ht', hu'⟩ := hclash.letters
    rcases hs with ⟨n, rfl⟩ | ⟨p, hp, rfl⟩
    · exact decimal_letters n hs'
    · rcases ht with ⟨n, rfl⟩ | ⟨q, hq, rfl⟩
      · exact decimal_letters n ht'
      · rcases hu with ⟨n, rfl⟩ | ⟨r, hr, rfl⟩
        · exact decimal_letters n hu'
        · exact h p hp q hq r hr hclash
  exact preorderOn_of_noClash hclash

/-- **The arrays of an expression lose nothing exactly if no two of the keys of an array agree but
for case, except where both are written**, where `buffer_caseless_compare` orders the keys. -/
theorem configArrays_iff [Malloc] (E : ArrayExpr) (hordered : E.KeysOrdered) :
    E.KeepsAll ↔ E.KeysUnambiguous :=
  (E.eval_spec hordered.preorder (fun n => Or.inl ⟨n, rfl⟩)
    fun k hk => Or.inr ⟨k, hk, rfl⟩).2

def stringElement [Malloc] (key : Option Bytes) (value : Bytes) (h : ∀ k, key = some k → 0 ∉ k) :
    AElement where
  key := key
  variableName := none
  value := .string (bufferCopyStringLen bufferInit (some value))
  clean := by
    rintro k (hk | hk)
    · exact h k hk
    · nomatch hk

/-- `("1" => "a", "b", "c")` -/
def countedToOne [Malloc] : ArrayExpr := .literal [
  stringElement (some (ascii "1")) (ascii "a") (by decide),
  stringElement none (ascii "b") (by decide),
  stringElement none (ascii "c") (by decide)]

/-- The number of the third element is the key of the first one: `"c"` is appended to `"a"`. -/
theorem not_keepsAll_countedToOne : ¬ ∀ E : ArrayExpr, @ArrayExpr.KeepsAll zeroMalloc E := by
  let _ : Malloc := zeroMalloc
  intro h
  obtain ⟨a, ha, hall⟩ := h countedToOne
  have hlength : countedToOne.eval.map (·.1.elements.length) = some 2 := by
    decide +kernel
  have hkept : countedToOne.kept.1.length = 3 := by decide +kernel
  have heval : countedToOne.eval =
      some (a, countedToOne.kept.2) := ha
  rw [heval] at hlength
  have htwo : a.elements.length = 2 := Option.some.inj hlength
  have hthree := hall.length_eq.trans hkept
  omega

/-- `("a", "k" => "b") + ("K" => "c")` -/
def mergedKeys [Malloc] : ArrayExpr := .plus
  (.literal [stringElement none (ascii "a") (by decide),
    stringElement (some (ascii "k")) (ascii "b") (by decide)])
  (.literal [stringElement (some (ascii "K")) (ascii "c") (by decide)])

theorem keepsAll_mergedKeys : @ArrayExpr.KeepsAll zeroMalloc (@mergedKeys zeroMalloc) := by
  let _ : Malloc := zeroMalloc
  refine (@configArrays_iff zeroMalloc mergedKeys ?_).mpr ?_
  · intro p hp q hq r hr hclash
    have hnone : ∀ r ∈ mergedKeys.names, ∀ c ∈ r ++ [0], ¬ (91 ≤ c.toNat ∧ c.toNat ≤ 96) := by
      decide +kernel
    obtain ⟨c, hc, hbetween⟩ := hclash.between
    exact hnone r hr c hc hbetween
  · decide +kernel

end Lighttpd
