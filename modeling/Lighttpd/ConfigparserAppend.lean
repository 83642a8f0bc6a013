import Lighttpd.ArrayBounds
import Lighttpd.ConfigparserArrays

/-!
# `configparser.y`: `key += expression`

The merge changes the element of the block in place, or fails; of a number and a text it makes a new
element and frees the old one, which is still in the array when its place is looked up by key. A
freed element has no value (`Arr.freeElement`). So the rule does what it is for exactly if no text
is appended to a number, the sum of two numbers is an `int`, and the keys of two arrays are found
where they are, with one type (`appendsAsSaid_iff`).
-/

namespace Lighttpd

open CLib Compare

/-- The values of an `int`. -/
def FitsInt (n : Int) : Prop := -2 ^ 31 ≤ n ∧ n < 2 ^ 31

instance (n : Int) : Decidable (FitsInt n) := inferInstanceAs (Decidable (_ ∧ _))

/-- An addition of two `int`s. -/
def addInt (a b : Int) : Int := (a + b).bmod (2 ^ 32)

/-- The pointer to the element stays, but what it points to is freed: to read it has no value. -/
def Arr.freeElement {α : Type} (a : Arr α) (ndx : Nat) : Arr α :=
  { a with data := a.data.set ndx none }

/-- The result of `configparser_merge_data`: `NULL`, `op1` with a new value, or a new element, `op1`
being freed. -/
inductive MergeResult where
  | mismatch
  | inPlace (value : ConfigValue)
  | replaced (value : ConfigValue)

section Code

variable [Malloc]

/-- Nothing comes of arrays in which elements of two types have one key: the server crashes. -/
def configparserMergeData : ConfigValue → ConfigValue → Option MergeResult
  | .string op1, .integer op2 => some (.inPlace (.string (bufferAppendLong op1 op2)))
  | .integer op1, .string op2 =>
    some (.replaced (.string (bufferAppendStringBuffer (bufferAppendLong bufferInit op1) op2)))
  | .string op1, .string op2 => some (.inPlace (.string (bufferAppendStringBuffer op1 op2)))
  | .integer op1, .integer op2 => some (.inPlace (.integer (addInt op1 op2)))
  | .array op1, .array op2 => (mergeArrays op1 op2).map fun a => .inPlace (.array a)
  | _, _ => some .mismatch

/-- `configparser_get_variable`, over the blocks from the current one outwards; copies are alike. -/
def configparserGetVariable (key : Bytes) : List (Arr ConfigData) → Option (Option ConfigData)
  | [] => some none
  | block :: outer => do
    match ← arrayGetElement block key with
    | some (_, du) => some (some du)
    | none => configparserGetVariable key outer

/-- `varline ::= key APPEND expression`: the variables of the block and `ctx->ok`, for the blocks
around it. -/
def varlineAppend (outer : List (Arr ConfigData)) (vars : Arr ConfigData) (ok : Bool)
    (key : Buffer) (b : ConfigData) : Option (Arr ConfigData × Bool) :=
  if strneq 4 key.ptr (ascii "env.") then some (vars, false)
  else do
    match ← arrayGetElement vars key.str with
    | some (ndx, du) =>
      match ← configparserMergeData du.value b.value with
      | .mismatch => some (vars, false)
      | .inPlace value =>
        let du := .mk (bufferCopyStringBuffer du.key key) du.isIndexKey value
        let (vars, _) ← arrayReplace (vars.setElement ndx du) du
        some (vars, ok)
      | .replaced value =>
        let du := .mk (bufferCopyStringBuffer bufferInit key) false value
        let (vars, _) ← arrayReplace (vars.freeElement ndx) du
        some (vars, ok)
    | none =>
      match ← configparserGetVariable key.str (vars :: outer) with
      | some du =>
        match ← configparserMergeData du.value b.value with
        | .mismatch => some (vars, false)
        | .inPlace value =>
          let du := .mk (bufferCopyStringBuffer du.key key) du.isIndexKey value
          (arrayInsertUnique vars du).map (·, ok)
        | .replaced value =>
          let du := .mk (bufferCopyStringBuffer bufferInit key) false value
          (arrayInsertUnique vars du).map (·, ok)
      | none =>
        let b := .mk (bufferCopyStringBuffer b.key key) b.isIndexKey b.value
        (arrayInsertUnique vars b).map (·, ok)

end Code

section Said

variable [Malloc]

/-- A text in its buffer, an `int`, or an array as the array functions leave it. -/
def ConfigValue.Produced : ConfigValue → Prop
  | .string s => ∃ t, s.Shows t
  | .integer n => FitsInt n
  | .array a => a.WF ∧ ∃ k, a.nextPowerOf2 = 2 ^ k

def Mergeable (old new : ConfigValue) : Prop :=
  old.type = new.type ∨ old.type = .string ∧ new.type = .integer ∨
    old.type = .integer ∧ new.type = .string

/-- The element as it is put behind `n` elements with generated keys, and their number then. -/
def keyed (n : Nat) (y : ConfigData) : Nat × ConfigData :=
  if y.key.used = 0 ∨ y.isIndexKey then (n + 1, .mk (bufferCopyLong y.key n) true y.value)
  else (n, y)

/-- The elements `zs` are `xs` with those of `ys`, one after the other: each goes into an element
with its key and type, or behind the others if its key is not there. -/
inductive UnionOf : Nat → List ConfigData → List ConfigData → List ConfigData → Prop
  | done {n : Nat} {xs : List ConfigData} : UnionOf n xs [] xs
  | merged {n : Nat} {front back ys zs : List ConfigData} {x y : ConfigData}
      (same : SameKey x.key.bytes (keyed n y).2.key.bytes)
      (type : x.value.type = (keyed n y).2.value.type)
      (rest : UnionOf (keyed n y).1 (front ++ DataUnset.insertDup x (keyed n y).2 :: back) ys zs) :
      UnionOf n (front ++ x :: back) (y :: ys) zs
  | appended {n : Nat} {xs ys zs : List ConfigData} {y : ConfigData}
      (missing : ∀ x ∈ xs, ¬ SameKey x.key.bytes (keyed n y).2.key.bytes)
      (rest : UnionOf (keyed n y).1 (xs ++ [(keyed n y).2]) ys zs) : UnionOf n xs (y :: ys) zs

inductive MergedValue : ConfigValue → ConfigValue → ConfigValue → Prop
  | strings {s t m : Buffer} {x y : Bytes} (old : s.Shows x) (new : t.Shows y)
      (merged : m.Shows (x ++ y)) : MergedValue (.string s) (.string t) (.string m)
  | integers (a b : Int) : MergedValue (.integer a) (.integer b) (.integer (a + b))
  | stringInteger {s m : Buffer} {x : Bytes} {n : Int} (old : s.Shows x)
      (merged : m.Shows (x ++ decimal n)) : MergedValue (.string s) (.integer n) (.string m)
  | integerString {t m : Buffer} {y : Bytes} {n : Int} (new : t.Shows y)
      (merged : m.Shows (decimal n ++ y)) : MergedValue (.integer n) (.string t) (.string m)
  | arrays {d s m : Arr ConfigData} (union : UnionOf d.uniqueNdx d.elements s.elements m.elements) :
      MergedValue (.array d) (.array s) (.array m)

structure HoldsKey (vars : Arr ConfigData) (key : Bytes) (ndx : Nat) (du : ConfigData) : Prop where
  wf : vars.WF
  notEnv : ¬ ascii "env." <+: key
  found : arrayGetElement vars key = some (some (ndx, du))
  once : ∀ i x, vars.Live i x → SameKey x.key.bytes (key ++ [0]) → i = ndx

/-- What is said of the rule, for the block and `ctx->ok` before and after it. -/
structure AppendsAsSaid (vars : Arr ConfigData) (key : Bytes) (ndx : Nat) (old new : ConfigValue)
    (ok : Bool) (vars' : Arr ConfigData) (ok' : Bool) : Prop where
  merged : Mergeable old new → ok' = ok ∧ ∃ keyBuffer isIndexKey value,
    keyBuffer.Text key ∧ MergedValue old new value ∧
      vars'.elements = vars.elements.set ndx (.mk keyBuffer isIndexKey value)
  mismatch : ¬ Mergeable old new → vars' = vars ∧ ok' = false
  once : ∀ i x, vars'.Live i x → (SameKey x.key.bytes (key ++ [0]) ↔ i = ndx)
  live : ∀ i < vars'.used, ∃ x, vars'.Slot i x

/-! ## When it does so -/

/-- The element with its key: one with this key in the array is found by the search, and the one
that is found has its type. -/
structure InsertFits (a : Arr ConfigData) (y : ConfigData) : Prop where
  found : ∀ x ∈ a.elements, SameKey x.key.bytes y.key.bytes →
    ∃ ndx pos, arrayGetIndex a y.key.bytes = some (some ndx, pos)
  type : ∀ ndx pos x, arrayGetIndex a y.key.bytes = some (some ndx, pos) → a.Live ndx x →
    x.value.type = y.value.type

def UnionFits : Arr ConfigData → List ConfigData → Prop
  | _, [] => True
  | a, y :: ys => InsertFits (ensureKey a y).1 (ensureKey a y).2 ∧
      ∀ a', arrayInsertUnique a y = some a' → UnionFits a' ys

def AppendFits : ConfigValue → ConfigValue → Prop
  | .integer _, .string _ => False
  | .integer a, .integer b => FitsInt (a + b)
  | .array d, .array s => UnionFits d s.elements
  | _, _ => True

end Said

section Union

variable [Malloc] {a m : Arr ConfigData} {n : Nat} {ks : List Bytes} {xs ys zs : List ConfigData}
  {x y : ConfigData} {k : Bytes}

theorem ensureKey_eq (a : Arr ConfigData) (y : ConfigData) :
    ensureKey a y =
      ({ a with uniqueNdx := (keyed a.uniqueNdx y).1 }, (keyed a.uniqueNdx y).2) := by
  unfold ensureKey keyed
  by_cases h : y.key.used = 0 ∨ y.isIndexKey = true
  · rw [if_pos h]
    exact if_pos h
  · rw [if_neg h]
    exact if_neg h

inductive InsertsKeyed (a : Arr ConfigData) (y : ConfigData) : Option (Arr ConfigData) → Prop
  | merged {ndx : Nat} {pos : Int} {x : ConfigData} {a' : Arr ConfigData}
      (found : arrayGetIndex a y.key.bytes = some (some ndx, pos)) (live : a.Live ndx x)
      (same : SameKey x.key.bytes y.key.bytes) (type : x.value.type = y.value.type)
      (result : a' = a.setElement ndx (DataUnset.insertDup x y)) : InsertsKeyed a y (some a')
  | clash {ndx : Nat} {pos : Int} {x : ConfigData}
      (found : arrayGetIndex a y.key.bytes = some (some ndx, pos)) (live : a.Live ndx x)
      (type : x.value.type ≠ y.value.type) : InsertsKeyed a y none
  | appended {pos : Int} {a' : Arr ConfigData}
      (missing : arrayGetIndex a y.key.bytes = some (none, pos))
      (elements : a'.elements = a.elements ++ [y]) (wf : a'.WF)
      (pow : ∃ k, a'.nextPowerOf2 = 2 ^ k) (unique : a'.uniqueNdx = a.uniqueNdx) :
      InsertsKeyed a y (some a')

theorem compareKey_same : compareKey k x = 0 ↔ SameKey x.key.bytes k := by
  have hkey : (DataUnset.key x).bytes = x.key.bytes := rfl
  unfold compareKey SameKey
  rw [hkey, bufferCaselessCompare_eq_zero, eq_comm]

theorem arrayInsertUnique_keyed (h : a.WF) (hpow : ∃ k, a.nextPowerOf2 = 2 ^ k) (y : ConfigData) :
    InsertsKeyed (ensureKey a y).1 (ensureKey a y).2 (arrayInsertUnique a y) := by
  have hwf := wf_ensureKey h y
  have hpow' : ∃ k, (ensureKey a y).1.nextPowerOf2 = 2 ^ k := by
    rw [ensureKey_eq]
    exact hpow
  unfold arrayInsertUnique
  generalize ensureKey a y = r at hwf hpow' ⊢
  obtain ⟨b, z⟩ := r
  dsimp only at hwf hpow' ⊢
  obtain ⟨⟨found, pos⟩, hr, hfound⟩ := arrayGetIndex_spec hwf (DataUnset.key z).bytes
  rw [hr]
  cases found with
  | some ndx =>
    obtain ⟨x, hlive, h0⟩ := hfound ndx rfl
    have hx : b.data[ndx]? = some (some x) := hlive.2
    dsimp only
    unfold insertMerged
    rw [hx]
    dsimp only
    by_cases htype : DataUnset.type x = DataUnset.type z
    · rw [if_pos htype]
      exact .merged hr hlive (compareKey_same.mp h0) htype rfl
    · rw [if_neg htype]
      exact .clash hr hlive htype
  | none =>
    obtain ⟨a', hnew, hpow''⟩ := insertNew_some hwf hpow' hr
    obtain ⟨hused, hslot, hwf'⟩ := insertNew_spec hwf hnew
    dsimp only
    rw [hnew]
    exact .appended hr (elements_appended hwf hused hslot hwf') hwf' hpow''
      (uniqueNdx_insertNew hnew)

def keysOf (xs : List ConfigData) : List Bytes := xs.map (·.key.bytes)

/-- How many elements a union puts behind others with the keys `ks`. -/
def unionGrowth : Nat → List Bytes → List ConfigData → Nat
  | _, _, [] => 0
  | n, ks, y :: ys =>
    if ∃ k ∈ ks, SameKey k (keyed n y).2.key.bytes then unionGrowth (keyed n y).1 ks ys
    else unionGrowth (keyed n y).1 (ks ++ [(keyed n y).2.key.bytes]) ys + 1

omit [Malloc] in
theorem exists_keysOf {P : Bytes → Prop} :
    (∃ k ∈ keysOf xs, P k) ↔ ∃ x ∈ xs, P x.key.bytes := by
  unfold keysOf
  simp only [List.mem_map, exists_exists_and_eq_and]

theorem keysOf_merged (front back : List ConfigData) (x y : ConfigData) :
    keysOf (front ++ DataUnset.insertDup x y :: back) = keysOf (front ++ x :: back) := by
  unfold keysOf
  rw [List.map_append, List.map_append]
  rfl

theorem UnionOf.length (h : UnionOf n xs ys zs) :
    zs.length = xs.length + unionGrowth n (keysOf xs) ys := by
  induction h with
  | done => rfl
  | @merged n front back ys zs x y same type rest ih =>
    have hthere : ∃ k ∈ keysOf (front ++ x :: back), SameKey k (keyed n y).2.key.bytes :=
      exists_keysOf.mpr ⟨x, List.mem_append_right _ List.mem_cons_self, same⟩
    rw [unionGrowth, if_pos hthere, ih, keysOf_merged]
    simp
  | @appended n xs ys zs y missing rest ih =>
    have hnot : ¬ ∃ k ∈ keysOf xs, SameKey k (keyed n y).2.key.bytes := fun h => by
      obtain ⟨x, hx, hsame⟩ := exists_keysOf.mp h
      exact missing x hx hsame
    have hkeys : keysOf (xs ++ [(keyed n y).2]) = keysOf xs ++ [(keyed n y).2.key.bytes] := by
      unfold keysOf
      rw [List.map_append]
      rfl
    rw [unionGrowth, if_neg hnot, ih, hkeys, List.length_append, List.length_singleton]
    omega

theorem unionGrowth_congr {ks ks' : List Bytes}
    (h : ∀ k, (∃ k' ∈ ks, SameKey k' k) ↔ ∃ k' ∈ ks', SameKey k' k) :
    unionGrowth n ks ys = unionGrowth n ks' ys := by
  induction ys generalizing n ks ks' with
  | nil => rfl
  | cons y ys ih =>
    unfold unionGrowth
    by_cases hthere : ∃ k ∈ ks, SameKey k (keyed n y).2.key.bytes
    · rw [if_pos hthere, if_pos ((h _).mp hthere), ih h]
    · rw [if_neg hthere, if_neg fun h' => hthere ((h _).mpr h')]
      rw [@ih _ (ks ++ [(keyed n y).2.key.bytes]) (ks' ++ [(keyed n y).2.key.bytes]) fun k => ?_]
      simp only [List.mem_append, or_and_right, exists_or]
      exact or_congr_left (h k)

theorem elements_ensureKey (a : Arr ConfigData) (y : ConfigData) :
    (ensureKey a y).1.elements = a.elements := by
  rw [ensureKey_eq]
  rfl

theorem InsertsKeyed.array {a' : Arr ConfigData} (ha : a.WF) (hpow : ∃ k, a.nextPowerOf2 = 2 ^ k)
    (h : InsertsKeyed a y (some a')) :
    a'.WF ∧ (∃ k, a'.nextPowerOf2 = 2 ^ k) ∧ a'.uniqueNdx = a.uniqueNdx := by
  cases h with
  | merged found live same type result =>
    subst result
    exact ⟨wf_setElement ha, hpow, rfl⟩
  | appended missing elements wf pow unique => exact ⟨wf, pow, unique⟩

omit [Malloc] in
theorem elements_split (ha : a.WF) {ndx : Nat} (hlive : a.Live ndx x) (z : ConfigData) :
    ∃ front back, a.elements = front ++ x :: back ∧
      (a.setElement ndx z).elements = front ++ z :: back := by
  refine ⟨a.elements.take ndx, a.elements.drop (ndx + 1), eq_append_of_live ha hlive, ?_⟩
  have hlt := (List.getElem?_eq_some_iff.mp ((Arr.getElem?_elements ha).mpr hlive)).1
  rw [elements_setElement ha hlive, List.set_eq_take_append_cons_drop, if_pos hlt]

/-- An insertion that ends, seen by the length and the keys: the element goes where its key is, or
behind the others if it is nowhere, or there although it is somewhere. -/
inductive KeysGrow (a : Arr ConfigData) (y : ConfigData) (a' : Arr ConfigData) : Prop
  | same (there : ∃ k ∈ keysOf a.elements, SameKey k y.key.bytes) (fits : InsertFits a y)
      (length : a'.elements.length = a.elements.length)
      (keys : keysOf a'.elements = keysOf a.elements)
  | more (missing : ¬ ∃ k ∈ keysOf a.elements, SameKey k y.key.bytes) (fits : InsertFits a y)
      (length : a'.elements.length = a.elements.length + 1)
      (keys : keysOf a'.elements = keysOf a.elements ++ [y.key.bytes])
  | lost (there : ∃ k ∈ keysOf a.elements, SameKey k y.key.bytes) (fits : ¬ InsertFits a y)
      (length : a'.elements.length = a.elements.length + 1)
      (keys : keysOf a'.elements = keysOf a.elements ++ [y.key.bytes])

theorem InsertsKeyed.keysGrow {a' : Arr ConfigData} (ha : a.WF) (h : InsertsKeyed a y (some a')) :
    KeysGrow a y a' := by
  cases h with
  | @merged ndx pos x _ found live same type result =>
    obtain ⟨front, back, hbefore, hafter⟩ := elements_split ha live (DataUnset.insertDup x y)
    have hmem : x ∈ a.elements := hbefore ▸ List.mem_append_right _ List.mem_cons_self
    refine .same (exists_keysOf.mpr ⟨x, hmem, same⟩) ⟨fun _ _ _ => ⟨ndx, pos, found⟩, ?_⟩ ?_ ?_
    · intro ndx' pos' x' found' live'
      obtain ⟨hndx, -⟩ := Prod.mk.inj (Option.some.inj (found'.symm.trans found))
      obtain rfl := Option.some.inj hndx
      exact (live'.2.unique live.2) ▸ type
    · rw [result, hafter, hbefore]
      simp
    · rw [result, hafter, hbefore, keysOf_merged]
  | @appended pos _ missing elements =>
    have hlength : a'.elements.length = a.elements.length + 1 := by
      rw [elements, List.length_append, List.length_singleton]
    have hkeys : keysOf a'.elements = keysOf a.elements ++ [y.key.bytes] := by
      unfold keysOf
      rw [elements, List.map_append]
      rfl
    have hnone : ∀ ndx pos', arrayGetIndex a y.key.bytes ≠ some (some ndx, pos') :=
      fun ndx pos' hfound => by
        obtain ⟨hndx, -⟩ := Prod.mk.inj (Option.some.inj (hfound.symm.trans missing))
        cases hndx
    by_cases hthere : ∃ k ∈ keysOf a.elements, SameKey k y.key.bytes
    · refine .lost hthere (fun hfits => ?_) hlength hkeys
      obtain ⟨x, hx, hsame⟩ := exists_keysOf.mp hthere
      obtain ⟨ndx, pos', hfound⟩ := hfits.found x hx hsame
      exact hnone ndx pos' hfound
    · refine .more hthere ⟨fun x hx hsame => ?_, fun ndx pos' _ hfound => ?_⟩ hlength hkeys
      · exact absurd (exists_keysOf.mpr ⟨x, hx, hsame⟩) hthere
      · exact absurd hfound (hnone ndx pos')

theorem unionGrowth_le (ha : a.WF) (hpow : ∃ k, a.nextPowerOf2 = 2 ^ k)
    (h : ys.foldlM arrayInsertUnique a = some m) :
    a.elements.length + unionGrowth a.uniqueNdx (keysOf a.elements) ys ≤ m.elements.length ∧
      (m.elements.length = a.elements.length + unionGrowth a.uniqueNdx (keysOf a.elements) ys ↔
        UnionFits a ys) := by
  induction ys generalizing a with
  | nil =>
    obtain rfl : a = m := Option.some.inj h
    exact ⟨Nat.le_refl _, iff_of_true rfl trivial⟩
  | cons y ys ih =>
    rw [List.foldlM_cons] at h
    obtain ⟨a', hrun, h⟩ := Option.bind_eq_some_iff.mp h
    have hwf := wf_ensureKey ha y
    have hpow' : ∃ k, (ensureKey a y).1.nextPowerOf2 = 2 ^ k := by
      rw [ensureKey_eq]
      exact hpow
    have hstep := arrayInsertUnique_keyed ha hpow y
    rw [hrun] at hstep
    obtain ⟨hwf', hpow'', hunique⟩ := hstep.array hwf hpow'
    obtain ⟨hle, heq⟩ := ih hwf' hpow'' h
    have hfits : UnionFits a (y :: ys) ↔
        InsertFits (ensureKey a y).1 (ensureKey a y).2 ∧ UnionFits a' ys := by
      show (_ ∧ ∀ a'', arrayInsertUnique a y = some a'' → UnionFits a'' ys) ↔ _
      rw [hrun]
      simp only [Option.some.injEq, forall_eq']
    have hgrow := hstep.keysGrow hwf
    rw [hfits]
    rw [ensureKey_eq] at hunique hgrow ⊢
    have helements : Arr.elements { a with uniqueNdx := (keyed a.uniqueNdx y).1 } = a.elements :=
      rfl
    dsimp only at hunique hgrow ⊢
    rw [hunique] at hle heq
    unfold unionGrowth
    cases hgrow with
    | same there fits length keys =>
      rw [helements] at there length keys
      rw [length, keys] at hle heq
      rw [if_pos there]
      exact ⟨hle, heq.trans (and_iff_right fits).symm⟩
    | more missing fits length keys =>
      rw [helements] at missing length keys
      rw [length, keys] at hle heq
      rw [if_neg missing]
      refine ⟨by omega, Iff.trans ?_ (heq.trans (and_iff_right fits).symm)⟩
      omega
    | lost there fits length keys =>
      rw [helements] at there length keys
      rw [length, keys] at hle
      rw [if_pos there]
      have hsame := @unionGrowth_congr _ (keyed a.uniqueNdx y).1 ys
        (keysOf a.elements ++ [(keyed a.uniqueNdx y).2.key.bytes]) (keysOf a.elements) fun k => by
          constructor
          · rintro ⟨k', hk', hk⟩
            rcases List.mem_append.mp hk' with hk' | hk'
            · exact ⟨k', hk', hk⟩
            · obtain rfl := List.mem_singleton.mp hk'
              obtain ⟨k₀, hk₀, hsame⟩ := there
              exact ⟨k₀, hk₀, hsame.trans hk⟩
          · rintro ⟨k', hk', hk⟩
            exact ⟨k', List.mem_append_left _ hk', hk⟩
      rw [hsame] at hle
      refine ⟨by omega, ⟨fun hlen => ?_, fun hboth => absurd hboth.1 fits⟩⟩
      omega

/-- **The merge of two arrays is their union exactly if each element fits.** -/
theorem unionFits_iff (ha : a.WF) (hpow : ∃ k, a.nextPowerOf2 = 2 ^ k) :
    UnionFits a ys ↔ ∃ m, ys.foldlM arrayInsertUnique a = some m ∧
      UnionOf a.uniqueNdx a.elements ys m.elements := by
  constructor
  · intro hfits
    induction ys generalizing a with
    | nil => exact ⟨a, rfl, .done⟩
    | cons y ys ih =>
      obtain ⟨hfirst, hrest⟩ := hfits
      have hwf := wf_ensureKey ha y
      have hpow' : ∃ k, (ensureKey a y).1.nextPowerOf2 = 2 ^ k := by
        rw [ensureKey_eq]
        exact hpow
      have hstep := arrayInsertUnique_keyed ha hpow y
      have helements := elements_ensureKey a y
      cases hrun : arrayInsertUnique a y with
      | none =>
        rw [hrun] at hstep
        cases hstep with
        | clash found live type => exact absurd (hfirst.type _ _ _ found live) type
      | some a' =>
        rw [hrun] at hstep
        obtain ⟨hwf', hpow'', hunique⟩ := hstep.array hwf hpow'
        obtain ⟨m, hm, hunion⟩ := ih hwf' hpow'' (hrest a' hrun)
        refine ⟨m, ?_, ?_⟩
        · rw [List.foldlM_cons]
          exact Option.bind_eq_some_iff.mpr ⟨a', hrun, hm⟩
        · rw [hunique, ensureKey_eq] at hunion
          rw [ensureKey_eq] at hstep hfirst helements hwf
          rw [← helements]
          cases hstep with
          | merged found live same type result =>
            obtain ⟨front, back, hbefore, hafter⟩ := elements_split hwf live _
            rw [result, hafter] at hunion
            rw [hbefore]
            exact .merged same type hunion
          | appended missing elements =>
            rw [elements] at hunion
            refine .appended (fun x hx hsame => ?_) hunion
            obtain ⟨ndx, pos, hfound⟩ := hfirst.found x hx hsame
            obtain ⟨hndx, -⟩ := Prod.mk.inj (Option.some.inj (hfound.symm.trans missing))
            cases hndx
  · rintro ⟨m, hm, hunion⟩
    exact (unionGrowth_le ha hpow hm).2.mp hunion.length

theorem insertFits_ordered {K : Bytes → Prop} (hK : PreorderOn bufferCaselessCompare K)
    (h : a.Ordered K) (hkey : K y.key.bytes) :
    InsertFits a y ↔
      ∀ x ∈ a.elements, SameKey x.key.bytes y.key.bytes → x.value.type = y.value.type := by
  obtain ⟨found, pos, hindex, hfound, -⟩ := arrayGetIndex_ordered hK h hkey
  have hthere : ∀ x ∈ a.elements, SameKey x.key.bytes y.key.bytes →
      ∃ ndx, found = some ndx ∧ a.Live ndx x := fun x hx hsame => by
    obtain ⟨ndx, hlive⟩ := Arr.mem_elements.mp hx
    exact ⟨ndx, (hfound ndx).mpr ⟨x, hlive, compareKey_same.mpr hsame⟩, hlive⟩
  constructor
  · intro hfits x hx hsame
    obtain ⟨ndx, rfl, hlive⟩ := hthere x hx hsame
    exact hfits.type ndx pos x hindex hlive
  · intro htypes
    refine ⟨fun x hx hsame => ?_, fun ndx pos' x hindex' hlive => ?_⟩
    · obtain ⟨ndx, rfl, -⟩ := hthere x hx hsame
      exact ⟨ndx, pos, hindex⟩
    · obtain ⟨hndx, -⟩ := Prod.mk.inj (Option.some.inj (hindex'.symm.trans hindex))
      obtain ⟨z, hz, h0⟩ := (hfound ndx).mp hndx.symm
      obtain rfl := hlive.2.unique hz.2
      exact htypes x (Arr.mem_elements.mpr ⟨ndx, hlive⟩) (compareKey_same.mp h0)

end Union

section Search

variable {α : Type} [DataUnset α] {a a' : Arr α} {ndx : Nat} {x : α} {key : Bytes}

structure SameBut (ndx : Nat) (a a' : Arr α) : Prop where
  used : a'.used = a.used
  sorted : a'.sorted = a.sorted
  pow : a'.nextPowerOf2 = a.nextPowerOf2
  other : ∀ i, i ≠ ndx → a'.data[i]? = a.data[i]?

omit [DataUnset α] in
theorem sameBut_setElement (a : Arr α) (ndx : Nat) (x : α) : SameBut ndx a (a.setElement ndx x) :=
  ⟨rfl, rfl, rfl, fun _ hi => List.getElem?_set_ne (Ne.symm hi)⟩

omit [DataUnset α] in
theorem sameBut_freeElement (a : Arr α) (ndx : Nat) : SameBut ndx a (a.freeElement ndx) :=
  ⟨rfl, rfl, rfl, fun _ hi => List.getElem?_set_ne (Ne.symm hi)⟩

omit [DataUnset α] in
theorem atPos_eq {pos i : Nat} (hsorted : a.sorted[pos]? = some i) :
    a.atPos pos = (a.data[i]?).join.map fun el => (i, el) := by
  unfold Arr.atPos
  rw [hsorted]
  cases hdata : a.data[i]? with
  | none => simp [hdata]
  | some slot => cases slot <;> simp [hdata]

theorem searchStep_missed (h : SameBut ndx a a') (hx : a.data[ndx]? = some (some x))
    (h0 : compareKey key x = 0) {i : Nat} {pos pos' : Int}
    (hstep : searchStep a key i pos = some (none, pos')) :
    searchStep a' key i pos = some (none, pos') := by
  unfold searchStep at hstep ⊢
  rw [h.used]
  by_cases hlow : pos < 0
  · rw [if_pos hlow] at hstep ⊢
    exact hstep
  · rw [if_neg hlow] at hstep ⊢
    by_cases hhigh : pos ≥ a.used
    · rw [if_pos hhigh] at hstep ⊢
      exact hstep
    · rw [if_neg hhigh] at hstep ⊢
      cases hsorted : a.sorted[pos.toNat]? with
      | none =>
        have hat : a.atPos pos.toNat = none := by
          unfold Arr.atPos
          rw [hsorted]
          rfl
        rw [hat] at hstep
        cases hstep
      | some j =>
        have hat' : a'.atPos pos.toNat = (a'.data[j]?).join.map fun el => (j, el) :=
          atPos_eq (h.sorted ▸ hsorted)
        rw [atPos_eq hsorted] at hstep
        by_cases hj : j = ndx
        · rw [hj, hx, Option.join_some, Option.map_some] at hstep
          dsimp only at hstep
          rw [if_pos h0] at hstep
          cases hstep
        · rw [hat', h.other j hj]
          exact hstep

theorem searchStep_found {i : Nat} {pos pos' : Int}
    (hstep : searchStep a key i pos = some (some ndx, pos')) :
    ¬ pos < 0 ∧ ¬ pos ≥ a.used ∧ a.sorted[pos.toNat]? = some ndx ∧ pos' = pos := by
  unfold searchStep at hstep
  by_cases hlow : pos < 0
  · rw [if_pos hlow] at hstep
    cases hstep
  · rw [if_neg hlow] at hstep
    by_cases hhigh : pos ≥ a.used
    · rw [if_pos hhigh] at hstep
      cases hstep
    · rw [if_neg hhigh] at hstep
      cases hsorted : a.sorted[pos.toNat]? with
      | none =>
        have hat : a.atPos pos.toNat = none := by
          unfold Arr.atPos
          rw [hsorted]
          rfl
        rw [hat] at hstep
        cases hstep
      | some j =>
        rw [atPos_eq hsorted] at hstep
        cases hdata : (a.data[j]?).join with
        | none =>
          rw [hdata] at hstep
          cases hstep
        | some el =>
          rw [hdata] at hstep
          dsimp only [Option.map_some] at hstep
          split at hstep
          · obtain ⟨hj, hpos⟩ := Prod.mk.inj (Option.some.inj hstep)
            exact ⟨hlow, hhigh, by rw [Option.some.inj hj], hpos.symm⟩
          · split at hstep <;> cases hstep

/-- The search in the other array comes to the same slot, and there it ends as `last` says. -/
theorem searchFrom_sameBut (h : SameBut ndx a a') (hx : a.data[ndx]? = some (some x))
    (h0 : compareKey key x = 0) (last : Int → Option (Option Nat × Int))
    (hlast : ∀ (i : Nat) (pos : Int), ¬ pos < 0 → ¬ pos ≥ a.used → a.sorted[pos.toNat]? = some ndx →
      searchStep a' key i pos = last pos ∧ ∀ p, last pos ≠ some (none, p))
    {fuel i : Nat} {pos pos' : Int} (hrun : searchFrom a key fuel i pos = some (some ndx, pos')) :
    searchFrom a' key fuel i pos = last pos' := by
  induction fuel generalizing i pos with
  | zero => cases hrun
  | succ fuel ih =>
    unfold searchFrom at hrun ⊢
    cases hstep : searchStep a key i pos with
    | none =>
      rw [hstep] at hrun
      cases hrun
    | some r =>
      obtain ⟨found, p⟩ := r
      rw [hstep] at hrun
      cases found with
      | some j =>
        obtain ⟨hj, rfl⟩ := Prod.mk.inj (Option.some.inj hrun)
        obtain rfl := Option.some.inj hj
        obtain ⟨hlow, hhigh, hsorted, rfl⟩ := searchStep_found hstep
        obtain ⟨hend, hnot⟩ := hlast i p hlow hhigh hsorted
        rw [hend]
        cases hl : last p with
        | none => rfl
        | some r =>
          obtain ⟨found', p'⟩ := r
          cases found' with
          | some j' => rfl
          | none => exact absurd hl (hnot p')
      | none =>
        rw [searchStep_missed h hx h0 hstep]
        dsimp only at hrun ⊢
        by_cases hi : i = 0
        · rw [if_pos hi] at hrun
          cases hrun
        · rw [if_neg hi] at hrun ⊢
          exact ih hrun

theorem arrayGetIndex_again {pos : Int} {y : α} (hx : a.data[ndx]? = some (some x))
    (h0 : compareKey key x = 0) (hy : compareKey key y = 0)
    (hfound : arrayGetIndex a key = some (some ndx, pos)) :
    arrayGetIndex (a.setElement ndx y) key = some (some ndx, pos) := by
  refine searchFrom_sameBut (sameBut_setElement a ndx y) hx h0
    (fun p => some (some ndx, p)) (fun i p hlow hhigh hsorted => ⟨?_, nofun⟩) hfound
  have hlt := (List.getElem?_eq_some_iff.mp hx).1
  have hdata : (a.setElement ndx y).data[ndx]? = some (some y) := List.getElem?_set_self hlt
  unfold searchStep
  rw [if_neg hlow, (sameBut_setElement a ndx y).used, if_neg hhigh,
    (atPos_eq hsorted : (a.setElement ndx y).atPos p.toNat = _), hdata]
  exact if_pos hy

theorem arrayGetIndex_freed {pos : Int} (hx : a.data[ndx]? = some (some x))
    (h0 : compareKey key x = 0) (hfound : arrayGetIndex a key = some (some ndx, pos)) :
    arrayGetIndex (a.freeElement ndx) key = none := by
  refine searchFrom_sameBut (sameBut_freeElement a ndx) hx h0
    (fun _ => none) (fun i p hlow hhigh hsorted => ⟨?_, nofun⟩) hfound
  have hlt := (List.getElem?_eq_some_iff.mp hx).1
  have hdata : (a.freeElement ndx).data[ndx]? = some none := List.getElem?_set_self hlt
  unfold searchStep
  rw [if_neg hlow, (sameBut_freeElement a ndx).used, if_neg hhigh,
    (atPos_eq hsorted : (a.freeElement ndx).atPos p.toNat = _), hdata]
  rfl

end Search

section Rule

variable [Malloc] {outer : List (Arr ConfigData)} {vars : Arr ConfigData} {ok : Bool}
  {key : Buffer} {name : Bytes} {ndx : Nat} {du new : ConfigData} {old value : ConfigValue}

omit [Malloc] in
theorem addInt_eq {a b : Int} : addInt a b = a + b ↔ FitsInt (a + b) := by
  unfold addInt FitsInt
  constructor
  · intro h
    rw [← h]
    exact ⟨Int.le_bmod (by decide), Int.bmod_lt (by decide)⟩
  · rintro ⟨hlow, hhigh⟩
    exact Int.bmod_eq_of_le (by omega) (by omega)

theorem merge_mismatch {old new : ConfigValue} (h : ¬ Mergeable old new) :
    configparserMergeData old new = some .mismatch := by
  cases old <;> cases new
  case string.array => rfl
  case integer.array => rfl
  case array.string => rfl
  case array.integer => rfl
  all_goals exact absurd (by simp [Mergeable, ConfigValue.type]) h

theorem HoldsKey.live (h : HoldsKey vars name ndx du) :
    vars.Live ndx du ∧ compareKey (name ++ [0]) du = 0 := by
  obtain ⟨r, hr, hspec⟩ := arrayGetElement_spec h.wf name
  obtain rfl := Option.some.inj (hr.symm.trans h.found)
  exact hspec ndx du rfl

theorem HoldsKey.index (h : HoldsKey vars name ndx du) :
    ∃ pos, arrayGetIndex vars (name ++ [0]) = some (some ndx, pos) := by
  have hfound := h.found
  unfold arrayGetElement at hfound
  split at hfound
  · cases hfound
  · cases hfound
  · next i pos hindex =>
    split at hfound
    · obtain ⟨rfl, -⟩ := Prod.mk.inj (Option.some.inj (Option.some.inj hfound))
      exact ⟨pos, hindex⟩
    · cases hfound

theorem text_copyKey (hkey : key.Text name) (b : Buffer) :
    (bufferCopyStringBuffer b key).Text name := by
  have hu : key.used ≠ 0 := by
    rw [hkey.used]
    omega
  unfold bufferCopyStringBuffer
  rw [if_neg hu, take_of_holds hkey.holds hkey.used]
  exact text_bufferCopyStringLen _ _

theorem HoldsKey.varlineAppend (h : HoldsKey vars name ndx du) (hkey : key.Text name)
    (hname : IsCStr name) (outer : List (Arr ConfigData)) (ok : Bool) (new : ConfigData) :
    Lighttpd.varlineAppend outer vars ok key new =
      (configparserMergeData du.value new.value).bind fun
        | .mismatch => some (vars, false)
        | .inPlace value =>
          some (vars.setElement ndx
            (.mk (bufferCopyStringBuffer du.key key) du.isIndexKey value), ok)
        | .replaced _ => none := by
  obtain ⟨hlive, h0⟩ := h.live
  obtain ⟨pos, hindex⟩ := h.index
  have hdata : vars.data[ndx]? = some (some du) := hlive.2
  have hbytes : ∀ b : Buffer, (bufferCopyStringBuffer b key).bytes = name ++ [0] := fun b =>
    (text_copyKey hkey b).holds
  have henv : ¬ strneq 4 key.ptr (ascii "env.") = true := by
    obtain ⟨rest, hrest⟩ : (name ++ [0]) <+: key.ptr := hkey.holds ▸ List.take_prefix _ _
    have hfront := @strneq_front (ascii "env.") (by decide) name rest
    rw [← hrest, List.append_assoc]
    exact fun hmatch => h.notEnv (hfront.mp hmatch)
  unfold Lighttpd.varlineAppend
  rw [if_neg henv, hkey.str hname, h.found]
  simp only [Option.bind_eq_bind, Option.bind_some]
  refine congrArg _ (funext fun result => ?_)
  cases result with
  | mismatch => rfl
  | inPlace value =>
    have hnew : compareKey (name ++ [0])
        (ConfigData.mk (bufferCopyStringBuffer du.key key) du.isIndexKey value) = 0 :=
      compareKey_same.mpr (congrArg (List.map tolower) (hbytes _))
    have hagain := arrayGetIndex_again hdata h0 hnew hindex
    have hput : (vars.setElement ndx (.mk (bufferCopyStringBuffer du.key key) du.isIndexKey
        value)).data[ndx]? = some (some (.mk (bufferCopyStringBuffer du.key key) du.isIndexKey
          value)) := List.getElem?_set_self hlive.2.lt
    dsimp only
    unfold arrayReplace
    rw [show (DataUnset.key (ConfigData.mk (bufferCopyStringBuffer du.key key) du.isIndexKey
      value)).bytes = name ++ [0] from hbytes _, hagain]
    dsimp only
    rw [hput]
    dsimp only [Option.bind_some]
    unfold Arr.setElement
    dsimp only
    rw [List.set_set]
  | replaced value =>
    dsimp only
    unfold arrayReplace
    rw [show (DataUnset.key (ConfigData.mk (bufferCopyStringBuffer bufferInit key) false
      value)).bytes = name ++ [0] from hbytes _, arrayGetIndex_freed hdata h0 hindex]
    rfl

def RuleAsSaid (outer : List (Arr ConfigData)) (vars : Arr ConfigData) (ok : Bool) (key : Buffer)
    (name : Bytes) (ndx : Nat) (old : ConfigValue) (new : ConfigData) : Prop :=
  ∃ vars' ok', varlineAppend outer vars ok key new = some (vars', ok') ∧
    AppendsAsSaid vars name ndx old new.value ok vars' ok'

theorem ruleAsSaid_inPlace (h : HoldsKey vars name ndx du) (hkey : key.Text name)
    (hname : IsCStr name) (hmerge : Mergeable du.value new.value)
    (hrun : configparserMergeData du.value new.value = some (.inPlace value)) :
    RuleAsSaid outer vars ok key name ndx du.value new ↔ MergedValue du.value new.value value := by
  obtain ⟨hlive, -⟩ := h.live
  have hresult := h.varlineAppend hkey hname outer ok new
  rw [hrun, Option.bind_some] at hresult
  dsimp only at hresult
  generalize hx : ConfigData.mk (bufferCopyStringBuffer du.key key) du.isIndexKey value = x
    at hresult
  have helements := elements_setElement h.wf hlive x
  constructor
  · rintro ⟨vars', ok', hsome, hsaid⟩
    obtain ⟨rfl, -⟩ := Prod.mk.inj (Option.some.inj (hresult.symm.trans hsome))
    obtain ⟨-, keyBuffer, isIndexKey, value', -, hmerged, hset⟩ := hsaid.merged hmerge
    have hlt := (List.getElem?_eq_some_iff.mp ((Arr.getElem?_elements h.wf).mpr hlive)).1
    have hsame := congrArg (·[ndx]?) (helements.symm.trans hset)
    simp only [List.getElem?_set_self hlt] at hsame
    rw [← hx] at hsame
    have hvalue : value = value' := congrArg ConfigData.value (Option.some.inj hsame)
    rw [hvalue]
    exact hmerged
  · intro hmerged
    refine ⟨_, _, hresult,
      fun _ => ⟨rfl, _, du.isIndexKey, value, text_copyKey hkey du.key, hmerged, ?_⟩,
      fun hnot => absurd hmerge hnot, fun i z hz => ?_, (wf_setElement h.wf).live⟩
    · rw [helements, ← hx]
    · have hslot := (slot_setElement hlive.2.lt).mp hz.2
      constructor
      · intro hsame
        rcases hslot with ⟨rfl, -⟩ | ⟨-, hold⟩
        · rfl
        · exact h.once i z ⟨hz.1, hold⟩ hsame
      · rintro rfl
        obtain ⟨-, rfl⟩ := hslot.resolve_right fun hor => hor.1 rfl
        rw [← hx]
        exact congrArg (List.map tolower) (text_copyKey hkey du.key).holds

theorem shows_appendStringBuffer {b src : Buffer} {x y : Bytes} (hb : b.Shows x)
    (hsrc : src.Shows y) : (bufferAppendStringBuffer b src).Shows (x ++ y) := by
  unfold bufferAppendStringBuffer
  rcases hsrc with hsrc | ⟨hused, rfl⟩
  · have hu : src.used ≠ 0 := by
      rw [hsrc.used]
      omega
    rw [if_neg hu, take_of_holds hsrc.holds hsrc.used]
    exact shows_bufferAppendStringLen hb y
  · rw [if_pos hused, List.append_nil]
    exact hb

/-- **When `+=` on a key of the block does what it is for**: unless a text is appended to a number,
the sum of two numbers is not an `int`, or the elements of two arrays do not fit. -/
theorem ruleAsSaid_iff (h : HoldsKey vars name ndx du) (hkey : key.Text name) (hname : IsCStr name)
    (hold : du.value.Produced) (hnew : new.value.Produced) :
    RuleAsSaid outer vars ok key name ndx du.value new ↔ AppendFits du.value new.value := by
  have hresult := h.varlineAppend hkey hname outer ok new
  have hinPlace := fun value => @ruleAsSaid_inPlace _ outer vars ok key name ndx du new value h
    hkey hname
  have hfail : Lighttpd.varlineAppend outer vars ok key new = none →
      ¬ RuleAsSaid outer vars ok key name ndx du.value new := fun hnone ⟨_, _, hsome, _⟩ => by
    rw [hnone] at hsome
    cases hsome
  have hmismatch : ¬ Mergeable du.value new.value →
      RuleAsSaid outer vars ok key name ndx du.value new := fun hnot => by
    obtain ⟨hlive, h0⟩ := h.live
    rw [merge_mismatch hnot] at hresult
    refine ⟨vars, false, hresult, fun hm => absurd hm hnot, fun _ => ⟨rfl, rfl⟩, fun i x hx => ?_,
      h.wf.live⟩
    refine ⟨h.once i x hx, ?_⟩
    rintro rfl
    obtain rfl := hx.2.unique hlive.2
    exact compareKey_same.mp h0
  generalize du.value = old at hold hresult hinPlace hfail hmismatch ⊢
  generalize new.value = added at hnew hresult hinPlace hfail hmismatch ⊢
  cases old with
  | string s =>
    obtain ⟨x, hx⟩ := hold
    cases added with
    | string t =>
      obtain ⟨y, hy⟩ := hnew
      refine (hinPlace _ (.inl rfl) rfl).trans (iff_of_true ?_ trivial)
      exact .strings hx hy (shows_appendStringBuffer hx hy)
    | integer n =>
      refine (hinPlace _ (.inr (.inl ⟨rfl, rfl⟩)) rfl).trans (iff_of_true ?_ trivial)
      exact .stringInteger hx (.inl (text_bufferAppendLong_shows hx n))
    | array a => exact iff_of_true (hmismatch (by simp [Mergeable, ConfigValue.type])) trivial
  | integer n =>
    cases added with
    | string t => exact iff_of_false (hfail hresult) id
    | integer n' =>
      refine (hinPlace _ (.inl rfl) rfl).trans (Iff.trans ?_ addInt_eq)
      refine ⟨fun hmerged => ?_, fun heq => ?_⟩
      · generalize hsum : addInt n n' = sum at hmerged
        cases hmerged
        rfl
      · rw [heq]
        exact .integers n n'
    | array a => exact iff_of_true (hmismatch (by simp [Mergeable, ConfigValue.type])) trivial
  | array d =>
    cases added with
    | string t => exact iff_of_true (hmismatch (by simp [Mergeable, ConfigValue.type])) trivial
    | integer n => exact iff_of_true (hmismatch (by simp [Mergeable, ConfigValue.type])) trivial
    | array s =>
      obtain ⟨hwf, hpow⟩ := hold
      have hfits := @unionFits_iff _ d s.elements hwf hpow
      cases hrun : mergeArrays d s with
      | none =>
        have hnone : s.elements.foldlM arrayInsertUnique d = none := hrun
        have hcrash : configparserMergeData (.array d) (.array s) = none := by
          rw [configparserMergeData, hrun]
          rfl
        rw [hcrash] at hresult
        refine iff_of_false (hfail hresult) fun hf => ?_
        obtain ⟨m, hm, -⟩ := hfits.mp hf
        rw [hnone] at hm
        cases hm
      | some m =>
        have hsome : s.elements.foldlM arrayInsertUnique d = some m := hrun
        have hmerged :
            configparserMergeData (.array d) (.array s) = some (.inPlace (.array m)) := by
          rw [configparserMergeData, hrun]
          rfl
        refine (hinPlace _ (.inl rfl) hmerged).trans (Iff.trans ?_ hfits.symm)
        refine ⟨fun hm => ?_, fun hf => ?_⟩
        · cases hm with
          | arrays union => exact ⟨m, hsome, union⟩
        · obtain ⟨m', hm', hunion⟩ := hf
          obtain rfl := Option.some.inj (hsome.symm.trans hm')
          exact .arrays hunion

/-- Each use of the rule on a key of the block does what is said of it. -/
def AllRulesAsSaid : Prop :=
  ∀ (outer : List (Arr ConfigData)) (vars : Arr ConfigData) (ok : Bool) (key : Buffer)
    (name : Bytes) (ndx : Nat) (du new : ConfigData), HoldsKey vars name ndx du →
      key.Text name → IsCStr name → du.value.Produced → new.value.Produced →
        RuleAsSaid outer vars ok key name ndx du.value new

end Rule

section Numbers

/-- A block with `var.x`. -/
def oneVariable (value : ConfigValue) : Arr ConfigData where
  data := [some (.mk (textBuffer (ascii "var.x")) false value)]
  sorted := [0]
  used := 1
  uniqueNdx := 0
  nextPowerOf2 := 2
  isWeakref := false

theorem holdsKey_oneVariable [Malloc] (value : ConfigValue) :
    HoldsKey (oneVariable value) (ascii "var.x") 0
      (.mk (textBuffer (ascii "var.x")) false value) where
  wf := by
    refine ⟨Nat.le_refl _, fun i hi => ?_, fun pos hpos => ?_⟩
    · obtain rfl : i = 0 := Nat.lt_one_iff.mp hi
      exact ⟨_, rfl⟩
    · obtain rfl : pos = 0 := Nat.lt_one_iff.mp hpos
      exact ⟨0, Nat.one_pos, rfl⟩
  notEnv := by decide
  found := by
    have h0 : compareKey (ascii "var.x" ++ [0])
        (ConfigData.mk (textBuffer (ascii "var.x")) false value) = 0 := compareKey_same.mpr rfl
    simp [arrayGetElement, arrayGetIndex, searchFrom, searchStep, oneVariable, Arr.atPos, h0]
  once i x hx _ := Nat.lt_one_iff.mp hx.1

/-- `var.x = 1` and `var.x += "a"`: the element is freed and then compared with the key. -/
theorem not_allRulesAsSaid_number : ¬ @AllRulesAsSaid zeroMalloc := by
  let _ : Malloc := zeroMalloc
  intro h
  have hone : FitsInt 1 := by decide
  obtain ⟨vars', ok', hsome, -⟩ := h [] (oneVariable (.integer 1)) true
    (textBuffer (ascii "var.x")) (ascii "var.x") 0 _
    (.mk bufferInit false (.string (textBuffer (ascii "a")))) (holdsKey_oneVariable (.integer 1))
    (text_textBuffer _) (by decide) hone ⟨_, .inl (text_textBuffer _)⟩
  cases hsome

/-- `var.x = "a"` and `var.x += 1`. -/
theorem ruleAsSaid_iff_text :
    letI : Malloc := zeroMalloc
    RuleAsSaid [] (oneVariable (.string (textBuffer (ascii "a")))) true
      (textBuffer (ascii "var.x")) (ascii "var.x") 0 (.string (textBuffer (ascii "a")))
      (.mk bufferInit false (.integer 1)) := by
  let _ : Malloc := zeroMalloc
  have hone : (ConfigValue.integer 1).Produced := show FitsInt 1 by decide
  have htext : (ConfigValue.string (textBuffer (ascii "a"))).Produced :=
    ⟨_, .inl (text_textBuffer _)⟩
  exact (@ruleAsSaid_iff _ [] _ true _ _ 0 _ (.mk bufferInit false (.integer 1))
    (holdsKey_oneVariable (.string (textBuffer (ascii "a")))) (text_textBuffer _) (by decide)
    htext hone).mpr trivial

end Numbers

end Lighttpd
