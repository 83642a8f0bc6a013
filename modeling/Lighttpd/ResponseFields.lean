import Lighttpd.ArrayHistory
import Lighttpd.Response

/-!
# The fields of a response

The header of a response is an array whose names are in order (`ResponseFields`), so no name is
there twice (`Arr.Field.unique`). A field that is overwritten has the new value, and the fields with
other names stay as they are (`responseHeaderOverwrite_spec`).
-/

namespace Lighttpd

open CLib Compare

variable [Malloc]

/-- The names are in order and in `K`, and were not generated. -/
structure ResponseFields (K : Bytes → Prop) (headers : Arr DataString) : Prop where
  ordered : headers.Ordered K
  named : ∀ {i ds}, headers.Slot i ds → ds.isIndexKey = false

theorem responseFields_arrayInit (K : Bytes → Prop) : ResponseFields K arrayInit where
  ordered := .used_zero rfl ⟨0, rfl⟩
  named h := by cases h

def Arr.Field (headers : Arr DataString) (key : Bytes) (ds : DataString) : Prop :=
  ∃ i, headers.Live i ds ∧ compareKey (key ++ [0]) ds = 0

def HeaderIs (headers : Arr DataString) (key value : Bytes) : Prop :=
  ∃ ds, headers.Field key ds ∧ ds.value.Text value

section Fields

variable {K : Bytes → Prop} {headers headers' : Arr DataString} {key key' : Bytes}
  {ds ds' : DataString}

theorem Arr.Field.key_mem (h : ResponseFields K headers) (hf : headers.Field key ds) :
    K (keyBytes ds) := by
  obtain ⟨i, hlive, -⟩ := hf
  obtain ⟨x, hx, hk⟩ := h.ordered.live i hlive.1
  obtain rfl := hlive.2.unique hx
  exact hk

theorem Arr.Field.unique (hK : PreorderOn bufferCaselessCompare K) (hkey : K (key ++ [0]))
    (h : ResponseFields K headers) (hf : headers.Field key ds) (hf' : headers.Field key ds') :
    ds = ds' := by
  have hk := hf.key_mem h
  have hk' := hf'.key_mem h
  obtain ⟨i, hlive, heq⟩ := hf
  obtain ⟨j, hlive', heq'⟩ := hf'
  have hsign := hK.alike hkey hk hk' heq
  have hequal : bufferCaselessCompare (keyBytes ds) (keyBytes ds') = 0 := by
    rw [show bufferCaselessCompare (key ++ [0]) (keyBytes ds') = 0 from heq'] at hsign
    exact Int.sign_eq_zero_iff_zero.mp hsign.symm
  have hsame := h.ordered.once hK hlive hlive' hequal
  subst hsame
  exact hlive.2.unique hlive'.2

theorem Arr.Field.apart (hK : PreorderOn bufferCaselessCompare K) (hkey : K (key ++ [0]))
    (hkey' : K (key' ++ [0])) (hne : bufferCaselessCompare (key' ++ [0]) (key ++ [0]) ≠ 0)
    (hds : K (keyBytes ds)) (heq : compareKey (key ++ [0]) ds = 0) :
    compareKey (key' ++ [0]) ds ≠ 0 := by
  intro heq'
  have hsign := hK.alike hkey' hds hkey heq'
  have hback : bufferCaselessCompare (keyBytes ds) (key ++ [0]) = 0 :=
    (hK.eq_zero_comm hkey hds).mp heq
  rw [hback] at hsign
  exact hne (Int.sign_eq_zero_iff_zero.mp hsign)

variable (hK : PreorderOn bufferCaselessCompare K) (hkey : K (key ++ [0]))

include hK hkey in
theorem arrayGetElement_field (h : ResponseFields K headers) :
    (arrayGetElement headers key = some none ∧ ∀ ds, ¬ headers.Field key ds) ∨
    ∃ ndx ds, arrayGetElement headers key = some (some (ndx, ds)) ∧ headers.Live ndx ds ∧
      compareKey (key ++ [0]) ds = 0 := by
  obtain ⟨found, pos, hr, hfound, -⟩ := arrayGetIndex_ordered hK h.ordered hkey
  unfold arrayGetElement
  rw [hr]
  cases found with
  | none =>
    refine .inl ⟨rfl, ?_⟩
    rintro ds ⟨i, hlive, heq⟩
    exact nomatch (hfound i).mpr ⟨ds, hlive, heq⟩
  | some ndx =>
    obtain ⟨ds, hlive, heq⟩ := (hfound ndx).mp rfl
    have hslot : headers.data[ndx]? = some (some ds) := hlive.2
    refine .inr ⟨ndx, ds, ?_, hlive, heq⟩
    simp only [hslot]

include hK in
theorem ResponseFields.setValue (h : ResponseFields K headers) {ndx : Nat}
    (hlive : headers.Live ndx ds) (value : Buffer) :
    ResponseFields K (headers.setElement ndx { ds with value := value }) := by
  have hkeyBytes : keyBytes ({ ds with value := value } : DataString) = keyBytes ds := rfl
  obtain ⟨x, hx, hk⟩ := h.ordered.live ndx hlive.1
  obtain rfl := hlive.2.unique hx
  refine ⟨h.ordered.setElement hK hlive (by rwa [hkeyBytes]) ?_, ?_⟩
  · rw [hkeyBytes]
    exact hK.refl hk
  · intro i y hy
    rcases (slot_setElement hlive.2.lt).mp hy with ⟨-, rfl⟩ | ⟨-, hold⟩
    · exact (h.named hlive.2 :)
    · exact h.named hold

omit [Malloc] in
theorem live_setValue {ndx i : Nat} {y : DataString} (hlive : headers.Live ndx ds) :
    (headers.setElement ndx y).Live i ds' ↔ i = ndx ∧ ds' = y ∨ i ≠ ndx ∧ headers.Live i ds' := by
  unfold Arr.Live
  rw [slot_setElement hlive.2.lt]
  have hused : (headers.setElement ndx y).used = headers.used := rfl
  have hlt := hlive.1
  rw [hused]
  constructor
  · rintro ⟨hi, h | ⟨hne, hslot⟩⟩
    · exact .inl h
    · exact .inr ⟨hne, hi, hslot⟩
  · rintro (⟨rfl, hy⟩ | ⟨hne, hi, hslot⟩)
    · exact ⟨hlt, .inl ⟨rfl, hy⟩⟩
    · exact ⟨hi, .inr ⟨hne, hslot⟩⟩

section Operations

include hK in
theorem ResponseFields.unusedElement (h : ResponseFields K headers) :
    ResponseFields K (arrayGetUnusedElement headers .string).2 ∧
      ((arrayGetUnusedElement headers .string).1.getD (dataResponseInit 0)).isIndexKey = false ∧
      (arrayGetUnusedElement headers .string).2.used = headers.used ∧
      ∀ i y, (arrayGetUnusedElement headers .string).2.Live i y ↔ headers.Live i y := by
  generalize htake : arrayGetUnusedElement headers .string = taken
  obtain ⟨hsame, hsome⟩ := arrayGetUnusedElement_spec .string htake
  obtain ⟨old, rest⟩ := taken
  dsimp only
  cases old with
  | none =>
    obtain rfl : rest = headers := hsame rfl
    exact ⟨h, rfl, rfl, fun _ _ => Iff.rfl⟩
  | some y =>
    have htaken := hsome y rfl
    obtain ⟨i, -, hslot, -⟩ := htaken.slots
    refine ⟨⟨h.ordered.taken hK htaken, fun hx => ?_⟩, h.named hslot, htaken.used,
      fun k x => htaken.live_iff⟩
    obtain ⟨j, hold, -⟩ := htaken.slot hx
    exact h.named hold

include hK hkey in
theorem responseHeaderInsert_spec (h : ResponseFields K headers)
    (hnone : ∀ ds, ¬ headers.Field key ds) (value : Option Bytes) :
    ∃ headers', responseHeaderInsert headers key value = some headers' ∧
      ResponseFields K headers' ∧
      ∃ x : DataString, x.key.Text key ∧ (∀ v, value = some v → x.value.Text v) ∧
        ∀ i ds, headers'.Live i ds ↔ i = headers.used ∧ ds = x ∨ headers.Live i ds := by
  obtain ⟨hfields, hindex, hused, hlive⟩ := h.unusedElement hK
  unfold responseHeaderInsert
  generalize arrayGetUnusedElement headers .string = taken at hfields hindex hused hlive ⊢
  obtain ⟨old, rest⟩ := taken
  dsimp only at hfields hindex hused hlive ⊢
  generalize old.getD (dataResponseInit 0) = base at hindex
  obtain ⟨x, hx⟩ : ∃ x : DataString, x = { base with
      key := bufferCopyStringLen base.key (some key)
      value := bufferCopyStringLen base.value value } := ⟨_, rfl⟩
  rw [← hx]
  have htext : x.key.Text key := hx ▸ text_bufferCopyStringLen base.key key
  have hindexed : x.isIndexKey = false := hx ▸ hindex
  have hvalue : ∀ v, value = some v → x.value.Text v := by
    rintro v rfl
    exact hx ▸ text_bufferCopyStringLen base.value v
  obtain ⟨headers', hrun, hordered, hinserted⟩ :=
    arrayInsertUnique_named hK hfields.ordered htext hindexed hkey
  refine ⟨headers', hrun, ?_⟩
  have hbytes : keyBytes x = key ++ [0] := htext.holds
  have hmiss : ∀ i y, rest.Live i y → compareKey (key ++ [0]) y ≠ 0 :=
    fun i y hy heq => hnone y ⟨i, (hlive i y).mp hy, heq⟩
  cases hinserted with
  | merged _ live equal =>
    refine absurd equal ?_
    show compareKey (keyBytes x) _ ≠ 0
    rw [hbytes]
    exact hmiss _ _ live
  | appended _ hcount hslot _ =>
    refine ⟨⟨hordered, ?_⟩, x, htext, hvalue, ?_⟩
    · intro i y hy
      rcases hslot.mp hy with ⟨-, rfl⟩ | ⟨-, hold⟩
      · exact hindexed
      · exact hfields.named hold
    · intro i y
      rw [← hlive, ← hused]
      unfold Arr.Live
      rw [hslot, hcount]
      constructor
      · rintro ⟨hi, hnew | ⟨hne, hold⟩⟩
        · exact .inl hnew
        · exact .inr ⟨by omega, hold⟩
      · rintro (⟨rfl, rfl⟩ | ⟨hi, hold⟩)
        · exact ⟨by omega, .inl ⟨rfl, rfl⟩⟩
        · exact ⟨by omega, .inr ⟨by omega, hold⟩⟩

include hK hkey in
theorem responseHeaderInsert_other (h : ResponseFields K headers) (value : Option Bytes) :
    ∃ headers', responseHeaderInsert headers key value = some headers' ∧
      ResponseFields K headers' ∧
      ∀ key', K (key' ++ [0]) → bufferCaselessCompare (key' ++ [0]) (key ++ [0]) ≠ 0 →
        ∀ ds, headers'.Field key' ds ↔ headers.Field key' ds := by
  obtain ⟨hfields, hindex, -, hlive⟩ := h.unusedElement hK
  unfold responseHeaderInsert
  generalize arrayGetUnusedElement headers .string = taken at hfields hindex hlive ⊢
  obtain ⟨old, rest⟩ := taken
  dsimp only at hfields hindex hlive ⊢
  generalize old.getD (dataResponseInit 0) = base at hindex
  obtain ⟨x, hx⟩ : ∃ x : DataString, x = { base with
      key := bufferCopyStringLen base.key (some key)
      value := bufferCopyStringLen base.value value } := ⟨_, rfl⟩
  rw [← hx]
  have htext : x.key.Text key := hx ▸ text_bufferCopyStringLen base.key key
  have hindexed : x.isIndexKey = false := hx ▸ hindex
  obtain ⟨headers', hrun, hordered, hinserted⟩ :=
    arrayInsertUnique_named hK hfields.ordered htext hindexed hkey
  have hbytes : keyBytes x = key ++ [0] := htext.holds
  have hsame : ∀ key' ds, rest.Field key' ds ↔ headers.Field key' ds := fun key' ds =>
    exists_congr fun i => and_congr_left' (hlive i ds)
  refine ⟨headers', hrun, ?_⟩
  cases hinserted with
  | @merged ndx pos y found live equal =>
    have hequal : compareKey (key ++ [0]) y = 0 := by
      rw [← hbytes]
      exact equal
    have hmem : K (keyBytes y) := Arr.Field.key_mem hfields ⟨ndx, live, hequal⟩
    have hkeep : ∀ {i z}, (rest.setElement ndx (DataUnset.insertDup y x)).Slot i z →
        z.isIndexKey = false := by
      intro i z hz
      rcases (slot_setElement live.2.lt).mp hz with ⟨-, rfl⟩ | ⟨-, hold⟩
      · exact (hfields.named live.2 :)
      · exact hfields.named hold
    refine ⟨⟨hordered, hkeep⟩, fun key' hkey' hne ds => ?_⟩
    rw [← hsame]
    have hother := Arr.Field.apart hK hkey hkey' hne hmem hequal
    refine exists_congr fun i => ?_
    rw [live_setValue live]
    constructor
    · rintro ⟨⟨-, rfl⟩ | ⟨-, hold⟩, heq'⟩
      · exact absurd heq' hother
      · exact ⟨hold, heq'⟩
    · rintro ⟨hold, heq'⟩
      refine ⟨.inr ⟨?_, hold⟩, heq'⟩
      rintro rfl
      obtain rfl := hold.2.unique live.2
      exact hother heq'
  | appended _ hcount hslot _ =>
    refine ⟨⟨hordered, ?_⟩, fun key' _ hne ds => ?_⟩
    · intro i y hy
      rcases hslot.mp hy with ⟨-, rfl⟩ | ⟨-, hold⟩
      · exact hindexed
      · exact hfields.named hold
    · rw [← hsame]
      refine exists_congr fun i => ?_
      unfold Arr.Live
      rw [hslot, hcount]
      constructor
      · rintro ⟨⟨hi, ⟨-, rfl⟩ | ⟨hne', hold⟩⟩, heq'⟩
        · have hequal : bufferCaselessCompare (key' ++ [0]) (keyBytes ds) = 0 := heq'
          rw [hbytes] at hequal
          exact absurd hequal hne
        · exact ⟨⟨by omega, hold⟩, heq'⟩
      · rintro ⟨⟨hi, hold⟩, heq'⟩
        exact ⟨⟨by omega, .inr ⟨by omega, hold⟩⟩, heq'⟩

include hK hkey in
theorem responseHeaderOverwrite_spec (h : ResponseFields K headers) (value : Option Bytes) :
    ∃ headers', responseHeaderOverwrite headers key value = some headers' ∧
      ResponseFields K headers' ∧ (∀ v, value = some v → IsCStr v → HeaderIs headers' key v) ∧
      ∀ key', K (key' ++ [0]) → bufferCaselessCompare (key' ++ [0]) (key ++ [0]) ≠ 0 →
        ∀ ds, headers'.Field key' ds ↔ headers.Field key' ds := by
  unfold responseHeaderOverwrite
  obtain ⟨hget, hnone⟩ | ⟨ndx, ds, hget, hlive, heq⟩ := arrayGetElement_field hK hkey h
  · rw [hget]
    obtain ⟨headers', hrun, hfields, x, htext, hvalue, hnew⟩ :=
      responseHeaderInsert_spec hK hkey h hnone value
    have hbytes : keyBytes x = key ++ [0] := htext.holds
    refine ⟨headers', hrun, hfields, ?_, ?_⟩
    · intro v hv _
      refine ⟨x, ⟨headers.used, (hnew _ _).mpr (.inl ⟨rfl, rfl⟩), ?_⟩, hvalue v hv⟩
      show bufferCaselessCompare (key ++ [0]) (keyBytes x) = 0
      rw [hbytes]
      exact hK.refl hkey
    · intro key' _ hne y
      refine exists_congr fun i => ?_
      rw [hnew]
      refine ⟨?_, fun hy => ⟨.inr hy.1, hy.2⟩⟩
      rintro ⟨⟨-, rfl⟩ | hold, heq⟩
      · have hequal : bufferCaselessCompare (key' ++ [0]) (keyBytes y) = 0 := heq
        rw [hbytes] at hequal
        exact absurd hequal hne
      · exact ⟨hold, heq⟩
  · rw [hget]
    refine ⟨_, rfl, h.setValue hK hlive _, ?_, ?_⟩
    · rintro v rfl hv
      refine ⟨_, ⟨ndx, (live_setValue hlive).mpr (.inl ⟨rfl, rfl⟩), heq⟩, ?_⟩
      rw [Option.map_some, cstr_eq_self hv]
      exact text_bufferCopyString ds.value v
    · intro key' hkey' hne y
      have hmem : K (keyBytes ds) := Arr.Field.key_mem h ⟨ndx, hlive, heq⟩
      have hother := Arr.Field.apart hK hkey hkey' hne hmem heq
      refine exists_congr fun i => ?_
      rw [live_setValue hlive]
      constructor
      · rintro ⟨⟨-, rfl⟩ | ⟨-, hold⟩, heq'⟩
        · exact absurd heq' hother
        · exact ⟨hold, heq'⟩
      · rintro ⟨hold, heq'⟩
        refine ⟨.inr ⟨?_, hold⟩, heq'⟩
        rintro rfl
        obtain rfl := hold.2.unique hlive.2
        exact hother heq'

include hK hkey in
theorem headerIs_overwrite (h : ResponseFields K headers) {v value : Bytes} (hv : IsCStr v)
    (hrun : responseHeaderOverwrite headers key (some v) = some headers') :
    HeaderIs headers' key value ↔ value = v := by
  obtain ⟨headers'', hrun', hfields, hnew, -⟩ := responseHeaderOverwrite_spec hK hkey h (some v)
  rw [hrun] at hrun'
  obtain rfl := Option.some.inj hrun'
  have hhas := hnew v rfl hv
  refine ⟨?_, fun heq => heq ▸ hhas⟩
  rintro ⟨ds, hfield, htext⟩
  obtain ⟨ds', hfield', htext'⟩ := hhas
  obtain rfl := hfield.unique hK hkey hfields hfield'
  exact List.append_cancel_right (htext.holds.symm.trans htext'.holds)

include hK hkey in
theorem headerIs_overwrite_other (h : ResponseFields K headers) (hkey' : K (key' ++ [0]))
    (hne : bufferCaselessCompare (key' ++ [0]) (key ++ [0]) ≠ 0) {v : Option Bytes} {value : Bytes}
    (hrun : responseHeaderOverwrite headers key v = some headers') :
    HeaderIs headers' key' value ↔ HeaderIs headers key' value := by
  obtain ⟨headers'', hrun', -, -, hsame⟩ := responseHeaderOverwrite_spec hK hkey h v
  rw [hrun] at hrun'
  obtain rfl := Option.some.inj hrun'
  exact exists_congr fun ds => and_congr_left' (hsame key' hkey' hne ds)

end Operations

omit [Malloc] in
theorem responseFields_oneString [Malloc] (hkey : K (key ++ [0])) (value : Bytes) :
    ResponseFields K (oneString key value) := by
  refine ⟨⟨Nat.le_refl 1, ?_, List.Perm.refl _, List.pairwise_singleton _ _, ⟨1, rfl⟩,
    Nat.le_succ 1⟩, ?_⟩
  · intro i hi
    obtain rfl : i = 0 := Nat.lt_one_iff.mp hi
    refine ⟨_, rfl, ?_⟩
    have hbytes : (key ++ [0]).take (key.length + 1) = key ++ [0] :=
      List.take_of_length_le (by simp)
    show K ((key ++ [0]).take (key.length + 1))
    rw [hbytes]
    exact hkey
  · intro i ds h
    have hlt : i < 1 := h.lt
    obtain rfl : i = 0 := Nat.lt_one_iff.mp hlt
    obtain rfl := Option.some.inj (Option.some.inj h)
    rfl

end Fields

end Lighttpd
