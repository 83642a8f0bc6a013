import Lighttpd.Request.Fields

/-!
# The header fields over a run

Every event keeps the fields well formed (`Event.ok`), and what is once in the list stays there: its
address and its key do not change, and its value only grows (`Event.kept`).
-/

namespace Lighttpd

open CLib

section History

variable [Malloc]

/-! ## New elements -/

/-- The element is in no slot, and the elements in use are the old ones. -/
structure IsNew (v : FieldView) (ds : DataString) (h : Arr DataString) (a : Nat) : Prop where
  wf : h.WF
  used : h.used = v.headers.used
  live : ∀ {i y}, i < v.headers.used → (h.Slot i y ↔ v.headers.Slot i y)
  slots : ∀ {i y}, h.Slot i y → ∃ j, v.headers.Slot j y
  addrs : ∀ {i j x y}, h.Slot i x → h.Slot j y → x.addr = y.addr → i = j
  apart : ∀ {i y}, h.Slot i y → y.addr ≠ ds.addr
  plain : ds.isIndexKey = false ∧ ds.response = false ∧ ds.addr < a
  origin : (∃ j, v.headers.used ≤ j ∧ v.headers.Slot j ds) ∨ ds.addr = v.allocs
  allocs : v.allocs ≤ a
  search : ∀ key, arrayGetIndex h key = arrayGetIndex v.headers key

theorem NewField.isNew {v : FieldView} (hv : FieldsOk v) {ds : DataString} {h : Arr DataString}
    {a : Nat} (new : NewField v ds h a) : IsNew v ds h a := by
  cases new with
  | taken taken =>
    obtain ⟨k, hk, hslot, hslots⟩ := taken.slots
    refine ⟨taken.wf hv.wf, taken.used, taken.live, ?_, ?_, ?_, hv.plain hslot,
      Or.inl ⟨k, hk, hslot⟩, Nat.le_refl _, arrayGetIndex_congr hv.wf taken.used
        (fun _ _ => by rw [taken.sorted]) taken.nextPowerOf2 taken.live⟩
    · intro i y hy
      obtain ⟨j, hold, -⟩ := taken.slot hy
      exact ⟨j, hold⟩
    · intro i j x y hx hy he
      obtain ⟨hi, hx⟩ := hslots hx
      obtain ⟨hj, hy⟩ := hslots hy
      rcases hx with ⟨-, hx⟩ | ⟨rfl, hx⟩ <;> rcases hy with ⟨-, hy⟩ | ⟨rfl, hy⟩
      · exact hv.addrs hx hy he
      · exact absurd (hv.addrs hx hy he) hi
      · exact absurd (hv.addrs hx hy he).symm hj
      · rfl
    · intro i y hy he
      obtain ⟨hi, hy⟩ := hslots hy
      rcases hy with ⟨hne, hy⟩ | ⟨rfl, hy⟩
      · exact hne (hv.addrs hy hslot he)
      · exact hi (hv.addrs hy hslot he).symm
  | fresh =>
    refine ⟨hv.wf, rfl, fun _ => Iff.rfl, fun hy => ⟨_, hy⟩, hv.addrs, ?_,
      ⟨rfl, rfl, Nat.lt_succ_self _⟩, Or.inr rfl, Nat.le_succ _, fun _ => rfl⟩
    intro i y hy he
    have hlt := (hv.plain hy).2.2
    rw [he] at hlt
    exact Nat.lt_irrefl _ hlt

theorem IsNew.live_iff {v : FieldView} {ds : DataString} {h : Arr DataString} {a : Nat}
    (new : IsNew v ds h a) {i : Nat} {y : DataString} : h.Live i y ↔ v.headers.Live i y := by
  unfold Arr.Live
  rw [new.used]
  exact and_congr_right fun hi => new.live hi

/-! ## Old elements -/

structure Kept (ds ds' : DataString) : Prop where
  addr : ds'.addr = ds.addr
  key : ds'.key = ds.key
  plain : ds'.isIndexKey = ds.isIndexKey ∧ ds'.response = ds.response
  value : ∀ t, ds.value.Text t → ∃ s, ds'.value.Text (t ++ s)
  gen : ds.value.gen ≤ ds'.value.gen

omit [Malloc] in
theorem Kept.refl (ds : DataString) : Kept ds ds :=
  ⟨rfl, rfl, ⟨rfl, rfl⟩, fun t h => ⟨[], by simpa using h⟩, Nat.le_refl _⟩

omit [Malloc] in
theorem Kept.named {ds ds' : DataString} (h : Kept ds ds') (field : KnownField) :
    ds'.Named field ↔ ds.Named field := by
  unfold DataString.Named
  rw [h.key]

omit [Malloc] in
theorem Kept.texts {ds ds' : DataString} (h : Kept ds ds')
    (ht : (∃ k, ds.key.Text k) ∧ ∃ t, ds.value.Text t) :
    (∃ k, ds'.key.Text k) ∧ ∃ t, ds'.value.Text t := by
  obtain ⟨hk, t, ht⟩ := ht
  obtain ⟨s, hs⟩ := h.value t ht
  exact ⟨h.key ▸ hk, _, hs⟩

theorem kept_append (ds : DataString) (value : Bytes) :
    Kept ds { ds with value := bufferAppendString ds.value (some value) } :=
  ⟨rfl, rfl, ⟨rfl, rfl⟩, fun _ h => ⟨value, (text_bufferAppendString h value).1⟩,
    gen_le_bufferAppendString _ _⟩

theorem kept_insertDup {y x : DataString} (hy : y.response = false) {t s : Bytes}
    (ht : y.value.Text t) (hs : x.value.Text s) : Kept y (dataStringInsertDup y x) := by
  have hu : y.value.used ≠ 0 := by
    rw [ht.used]
    omega
  have hsep : dupSeparator y y.value = bufferAppendStringLen y.value (some (ascii ", ")) := by
    rw [dupSeparator, hy]
    rfl
  have hval : (dataStringInsertDup y x).value =
      bufferAppendStringBuffer (bufferAppendStringLen y.value (some (ascii ", "))) x.value := by
    simp only [dataStringInsertDup, if_pos hu, hsep]
  refine ⟨rfl, rfl, ⟨rfl, rfl⟩, ?_, ?_⟩
  · intro t' ht'
    refine ⟨ascii ", " ++ s, ?_⟩
    rw [hval, ← List.append_assoc]
    exact text_bufferAppendStringBuffer (text_bufferAppendStringLen ht' _) hs
  · rw [hval]
    exact (gen_le_bufferAppendStringLen _ _).trans (gen_le_bufferAppendStringBuffer _ _)

omit [Malloc] in
theorem FieldsOk.setElement {v v' : FieldView} (hv : FieldsOk v) {ndx : Nat} {ds ds' : DataString}
    (hlive : v.headers.Live ndx ds) (hkept : Kept ds ds')
    (hheaders : v'.headers = v.headers.setElement ndx ds') (hallocs : v'.allocs = v.allocs) :
    FieldsOk v' := by
  have hlt : ndx < v.headers.data.length := hlive.2.lt
  refine ⟨?_, ?_, ?_, ?_⟩ <;> rw [hheaders]
  · exact wf_setElement hv.wf
  · intro i x hx
    rw [hallocs]
    rcases (slot_setElement hlt).mp hx with ⟨-, rfl⟩ | ⟨-, hx⟩
    · rw [hkept.addr, hkept.plain.1, hkept.plain.2]
      exact hv.plain hlive.2
    · exact hv.plain hx
  · intro i j x y hx hy he
    rcases (slot_setElement hlt).mp hx with ⟨rfl, rfl⟩ | ⟨hi, hx'⟩ <;>
      rcases (slot_setElement hlt).mp hy with ⟨rfl, rfl⟩ | ⟨hj, hy'⟩
    · rfl
    · rw [hkept.addr] at he
      exact hv.addrs hlive.2 hy' he
    · rw [hkept.addr] at he
      exact hv.addrs hx' hlive.2 he
    · exact hv.addrs hx' hy' he
  · rintro i x ⟨hi, hx⟩
    rcases (slot_setElement hlt).mp hx with ⟨rfl, rfl⟩ | ⟨-, hx⟩
    · exact hkept.texts (hv.texts hlive)
    · exact hv.texts ⟨hi, hx⟩

omit [Malloc] in
theorem live_setElement {a : Arr DataString} {ndx : Nat} {ds ds' : DataString}
    (hlive : a.Live ndx ds) {i : Nat} {x : DataString} :
    (a.setElement ndx ds').Live i x ↔ i = ndx ∧ x = ds' ∨ i ≠ ndx ∧ a.Live i x := by
  unfold Arr.Live
  rw [slot_setElement hlive.2.lt]
  constructor
  · rintro ⟨hi, hx | ⟨hne, hx⟩⟩
    · exact Or.inl hx
    · exact Or.inr ⟨hne, hi, hx⟩
  · rintro (⟨rfl, rfl⟩ | ⟨hne, hi, hx⟩)
    · exact ⟨hlive.1, Or.inl ⟨rfl, rfl⟩⟩
    · exact ⟨hi, Or.inr ⟨hne, hx⟩⟩

/-! ## Stored fields -/

/-- Where a field `x` goes: into an element with an equal key, or behind the elements in use. -/
inductive Placed (v : FieldView) (x : DataString) (key : Bytes) (h : Arr DataString) : Prop
  | merged {ndx : Nat} {pos : Int} {y y' : DataString}
      (found : arrayGetIndex v.headers (key ++ [0]) = some (some ndx, pos))
      (live : v.headers.Live ndx y)
      (named : ∀ field, y.Named field ↔ knownField key knownFields = some field)
      (kept : Kept y y')
      (elements : ∀ {i z}, h.Live i z ↔ i = ndx ∧ z = y' ∨ i ≠ ndx ∧ v.headers.Live i z)
      (freed : ∀ {i z}, h.Slot i z → z.addr ≠ x.addr)
  | appended {pos : Int}
      (missing : arrayGetIndex v.headers (key ++ [0]) = some (none, pos))
      (elements : ∀ {i z}, h.Live i z ↔ i = v.headers.used ∧ z = x ∨ v.headers.Live i z)

def SlotsFrom (v : FieldView) (x : DataString) (h : Arr DataString) : Prop :=
  ∀ {i z}, h.Slot i z → (z = x ∧ h.Live i z) ∨
    z.addr ≠ x.addr ∧ ∃ j y, v.headers.Slot j y ∧ Kept y z

theorem IsNew.placed {v v' : FieldView} (hv : FieldsOk v) {ds : DataString} {h h' : Arr DataString}
    {a : Nat} (new : IsNew v ds h a) {key value : Bytes}
    (ins : Inserted h (ds.set key value) h') (hheaders : v'.headers = h') (hallocs : v'.allocs = a) :
    Placed v (ds.set key value) key h' ∧ SlotsFrom v (ds.set key value) h' ∧ FieldsOk v' := by
  obtain ⟨hkey, hvalue⟩ := text_set ds key value
  have hbytes : (DataUnset.key (ds.set key value)).bytes = key ++ [0] := hkey.holds
  have hok : FieldsOk { v with headers := h, allocs := a } := by
    refine ⟨new.wf, ?_, new.addrs, ?_⟩
    · intro i y hy
      obtain ⟨j, hj⟩ := new.slots hy
      obtain ⟨h1, h2, h3⟩ := hv.plain hj
      exact ⟨h1, h2, Nat.lt_of_lt_of_le h3 new.allocs⟩
    · intro i y hy
      exact hv.texts (new.live_iff.mp hy)
  cases ins with
  | @merged ndx pos y found live equal =>
    obtain ⟨⟨k, hk⟩, t, ht⟩ := hok.texts live
    have hresp : y.response = false := (hok.plain live.2).2.1
    have hkept : Kept y (dataStringInsertDup y (ds.set key value)) := kept_insertDup hresp ht hvalue
    rw [hbytes, new.search] at found
    refine ⟨.merged found (new.live_iff.mp live) ?_ hkept ?_ ?_, ?_,
      hok.setElement live hkept hheaders hallocs⟩
    · intro field
      rw [hbytes] at equal
      exact named_iff_of_compare hk equal field
    · intro i z
      rw [← new.live_iff]
      exact live_setElement live
    · intro i z hz
      rcases (slot_setElement live.2.lt).mp hz with ⟨-, rfl⟩ | ⟨-, hz⟩
      · show y.addr ≠ ds.addr
        exact new.apart live.2
      · exact new.apart hz
    · intro i z hz
      rcases (slot_setElement live.2.lt).mp hz with ⟨-, rfl⟩ | ⟨-, hz⟩
      · obtain ⟨j, hj⟩ := new.slots live.2
        have hne : y.addr ≠ ds.addr := new.apart live.2
        exact Or.inr ⟨hne, j, y, hj, hkept⟩
      · obtain ⟨j, hj⟩ := new.slots hz
        exact Or.inr ⟨new.apart hz, j, z, hj, Kept.refl z⟩
  | @appended pos _ missing used slot wf =>
    rw [hbytes, new.search] at missing
    have elements : ∀ {i z}, h'.Live i z ↔
        i = v.headers.used ∧ z = ds.set key value ∨ v.headers.Live i z := by
      intro i z
      unfold Arr.Live
      rw [used, slot, new.used]
      constructor
      · rintro ⟨hi, ⟨rfl, rfl⟩ | ⟨hne, hz⟩⟩
        · exact Or.inl ⟨rfl, rfl⟩
        · exact Or.inr ⟨by omega, (new.live (by omega)).mp hz⟩
      · rintro (⟨rfl, rfl⟩ | ⟨hi, hz⟩)
        · exact ⟨by omega, Or.inl ⟨rfl, rfl⟩⟩
        · exact ⟨by omega, Or.inr ⟨by omega, (new.live hi).mpr hz⟩⟩
    refine ⟨.appended missing elements, ?_, ?_, ?_, ?_, ?_⟩
    · intro i z hz
      rcases slot.mp hz with ⟨rfl, rfl⟩ | ⟨-, hz⟩
      · exact Or.inl ⟨rfl, elements.mpr (Or.inl ⟨new.used, rfl⟩)⟩
      · obtain ⟨j, hj⟩ := new.slots hz
        exact Or.inr ⟨new.apart hz, j, z, hj, Kept.refl z⟩
    all_goals rw [hheaders]
    · exact wf
    · intro i z hz
      rw [hallocs]
      rcases slot.mp hz with ⟨-, rfl⟩ | ⟨-, hz⟩
      · exact new.plain
      · exact hok.plain hz
    · intro i j x y hx hy he
      rcases slot.mp hx with ⟨rfl, rfl⟩ | ⟨-, hx⟩ <;> rcases slot.mp hy with ⟨rfl, rfl⟩ | ⟨-, hy⟩
      · rfl
      · exact absurd he.symm (new.apart hy)
      · exact absurd he (new.apart hx)
      · exact hok.addrs hx hy he
    · intro i z hz
      rcases elements.mp hz with ⟨-, rfl⟩ | hz
      · exact ⟨⟨key, hkey⟩, value, hvalue⟩
      · exact hv.texts hz

/-! ## The events -/

inductive Change (v : FieldView) (k : LineKind) : FieldView → Prop
  | same {h : Arr DataString} {a : Nat} (allocs : v.allocs ≤ a)
      (elements : ∀ {i z}, h.Live i z ↔ v.headers.Live i z)
      (slots : ∀ {i z}, h.Slot i z → ∃ j, v.headers.Slot j z)
      (unfound : ∀ key value, k = .folded key value → arrayGetElement v.headers key = some none)
      (other : ∀ key value, k = .field key value →
        value = [] ∨ knownField key knownFields ≠ some .range) :
      Change v k { v with headers := h, allocs := a }
  | folded {key value : Bytes} {ndx : Nat} {ds : DataString} (kind : k = .folded key value)
      (find : arrayGetElement v.headers key = some (some (ndx, ds)))
      (live : v.headers.Live ndx ds) : Change v k (v.append ndx ds value)
  | stored {key value : Bytes} {ds : DataString} {h h' : Arr DataString} {a : Nat} {v' : FieldView}
      (kind : k = .field key value) (ne : value ≠ []) (new : IsNew v ds h a)
      (handled : Handles { v with headers := h, allocs := a } (ds.set key value) value
        (knownField key knownFields) v')
      (placed : Placed v (ds.set key value) key h') (slots : SlotsFrom v (ds.set key value) h') :
      Change v k { v' with headers := h' }

theorem Event.change {v v' : FieldView} {k : LineKind} (hv : FieldsOk v) (h : Event v k v') :
    FieldsOk v' ∧ Change v k v' := by
  cases h with
  | inside =>
    exact ⟨hv, .same (Nat.le_refl _) Iff.rfl (fun hz => ⟨_, hz⟩) (fun _ _ h => by cases h)
      (fun _ _ h => by cases h)⟩
  | unfound find =>
    refine ⟨hv, .same (Nat.le_refl _) Iff.rfl (fun hz => ⟨_, hz⟩) ?_ (fun _ _ h => by cases h)⟩
    rintro _ _ h
    cases h
    exact find
  | @folded key value ndx ds find =>
    obtain ⟨r, hr, hfound⟩ := arrayGetElement_spec hv.wf key
    rw [find] at hr
    obtain rfl := Option.some.inj hr
    have live : v.headers.Live ndx ds := (hfound ndx ds rfl).1
    exact ⟨hv.setElement live (kept_append ds value) rfl rfl, .folded rfl find live⟩
  | empty =>
    refine ⟨hv, .same (Nat.le_refl _) Iff.rfl (fun hz => ⟨_, hz⟩) (fun _ _ h => by cases h) ?_⟩
    rintro _ _ h
    cases h
    exact Or.inl rfl
  | @dropped key value ds h a new other =>
    have hnew := new.isNew hv
    refine ⟨?_, .same hnew.allocs hnew.live_iff hnew.slots (fun _ _ h => by cases h) ?_⟩
    · refine ⟨hnew.wf, ?_, hnew.addrs, fun hz => hv.texts (hnew.live_iff.mp hz)⟩
      intro i y hy
      obtain ⟨j, hj⟩ := hnew.slots hy
      obtain ⟨h1, h2, h3⟩ := hv.plain hj
      exact ⟨h1, h2, Nat.lt_of_lt_of_le h3 hnew.allocs⟩
    · rintro _ _ h
      cases h
      exact Or.inr other
  | @stored key value ds h h' a v' new ne handled ins =>
    have hnew := new.isNew hv
    have ⟨placed, slots, hok⟩ : Placed v (ds.set key value) key h' ∧
        SlotsFrom v (ds.set key value) h' ∧ FieldsOk { v' with headers := h' } :=
      hnew.placed hv ins rfl handled.headers.2
    exact ⟨hok, .stored rfl ne hnew handled placed slots⟩

variable {v v' : FieldView} {k : LineKind}

theorem Change.allocs (c : Change v k v') : v.allocs ≤ v'.allocs := by
  cases c with
  | same allocs => exact allocs
  | folded => exact Nat.le_refl _
  | stored _ _ new handled => exact new.allocs.trans (le_of_eq handled.headers.2.symm)

theorem Change.kept (c : Change v k v') {i : Nat} {ds : DataString} (h : v.headers.Live i ds) :
    ∃ ds', v'.headers.Live i ds' ∧ Kept ds ds' := by
  have here : ∀ {ndx : Nat} {y y' : DataString} {h' : Arr DataString}, v.headers.Live ndx y →
      Kept y y' →
      (∀ {i z}, h'.Live i z ↔ i = ndx ∧ z = y' ∨ i ≠ ndx ∧ v.headers.Live i z) →
      ∃ ds', h'.Live i ds' ∧ Kept ds ds' := by
    intro ndx y y' h' live kept elements
    by_cases hi : i = ndx
    · subst hi
      obtain rfl := h.2.unique live.2
      exact ⟨y', elements.mpr (Or.inl ⟨rfl, rfl⟩), kept⟩
    · exact ⟨ds, elements.mpr (Or.inr ⟨hi, h⟩), Kept.refl ds⟩
  cases c with
  | same _ elements => exact ⟨ds, elements.mpr h, Kept.refl ds⟩
  | folded _ _ live => exact here live (kept_append _ _) (live_setElement live)
  | stored _ _ _ _ placed =>
    cases placed with
    | merged _ live _ kept elements => exact here live kept elements
    | appended _ elements => exact ⟨ds, elements.mpr (Or.inr h), Kept.refl ds⟩

theorem Change.saved (c : Change v k v') {f : KnownField} {p : ValuePtr}
    (h : v.saved f = some p) : v'.saved f = some p := by
  cases c with
  | same => exact h
  | folded => exact h
  | @stored key value ds h₁ h₂ a v₁ kind ne new handled =>
    show v₁.saved f = some p
    generalize knownField key knownFields = g at handled
    cases handled with
    | saved isSaved unset =>
      show (if f = _ then _ else v.saved f) = some p
      split
      · next he =>
        subst he
        rw [show v.saved f = none from unset] at h
        cases h
      · exact h
    | _ => exact h

/-! ## Addresses -/

/-- The address has been given to an element, and no unused element has it. -/
structure Settled (v : FieldView) (a : Nat) : Prop where
  lt : a < v.allocs
  live : ∀ {i ds}, v.headers.Slot i ds → ds.addr = a → v.headers.Live i ds

theorem IsNew.addr_ne {ds : DataString} {h : Arr DataString} {n : Nat}
    (new : IsNew v ds h n) {a : Nat} (hs : Settled v a) : ds.addr ≠ a := by
  rintro rfl
  rcases new.origin with ⟨j, hj, hslot⟩ | he
  · exact absurd (hs.live hslot rfl).1 (by omega)
  · exact absurd hs.lt (by omega)

theorem IsNew.settled {ds : DataString} {h : Arr DataString} {n : Nat} (new : IsNew v ds h n)
    {x : DataString} (hx : x.addr = ds.addr) (slots : SlotsFrom v x v'.headers)
    (hallocs : v'.allocs = n) : Settled v' x.addr := by
  refine ⟨?_, ?_⟩
  · rw [hx, hallocs]
    exact new.plain.2.2
  · intro i z hz ha
    rcases slots hz with ⟨-, hlive⟩ | ⟨hne, -⟩
    · exact hlive
    · exact absurd ha hne

theorem Change.origin (c : Change v k v') {i : Nat} {z : DataString} (h : v'.headers.Slot i z) :
    (∃ ds key value h a, k = .field key value ∧ IsNew v ds h a ∧ z = ds.set key value ∧
      v'.headers.Live i z) ∨ ∃ j y, v.headers.Slot j y ∧ Kept y z := by
  cases c with
  | same _ _ slots =>
    obtain ⟨j, hj⟩ := slots h
    exact Or.inr ⟨j, z, hj, Kept.refl z⟩
  | @folded key value ndx ds _ _ live =>
    rcases (slot_setElement live.2.lt).mp h with ⟨rfl, rfl⟩ | ⟨-, hz⟩
    · exact Or.inr ⟨i, ds, live.2, kept_append _ _⟩
    · exact Or.inr ⟨i, z, hz, Kept.refl z⟩
  | @stored key value ds _ _ _ _ kind _ new _ _ slots =>
    rcases slots h with ⟨rfl, hlive⟩ | ⟨-, hold⟩
    · exact Or.inl ⟨ds, key, value, _, _, kind, new, rfl, hlive⟩
    · exact Or.inr hold

theorem Change.live_origin (c : Change v k v') {i : Nat} {z : DataString}
    (h : v'.headers.Live i z) :
    (∃ ds key value h a, k = .field key value ∧ IsNew v ds h a ∧ z = ds.set key value) ∨
      ∃ y, v.headers.Live i y ∧ Kept y z := by
  have here : ∀ {ndx : Nat} {y y' : DataString} {h' : Arr DataString}, v.headers.Live ndx y →
      Kept y y' →
      (∀ {i z}, h'.Live i z ↔ i = ndx ∧ z = y' ∨ i ≠ ndx ∧ v.headers.Live i z) →
      h'.Live i z → ∃ y, v.headers.Live i y ∧ Kept y z := by
    intro ndx y y' h' live kept elements hz
    rcases elements.mp hz with ⟨rfl, rfl⟩ | ⟨-, hz⟩
    · exact ⟨y, live, kept⟩
    · exact ⟨z, hz, Kept.refl z⟩
  cases c with
  | same _ elements => exact Or.inr ⟨z, elements.mp h, Kept.refl z⟩
  | folded _ _ live =>
    exact Or.inr (here live (kept_append _ _) (live_setElement live) h)
  | @stored key value ds _ _ _ _ kind _ new _ placed =>
    cases placed with
    | merged _ live _ kept elements => exact Or.inr (here live kept elements h)
    | appended _ elements =>
      rcases elements.mp h with ⟨-, rfl⟩ | h
      · exact Or.inl ⟨ds, key, value, _, _, kind, new, rfl⟩
      · exact Or.inr ⟨z, h, Kept.refl z⟩

theorem Change.settled (hv' : FieldsOk v') (c : Change v k v') {a : Nat}
    (hs : Settled v a) : Settled v' a := by
  refine ⟨Nat.lt_of_lt_of_le hs.lt c.allocs, ?_⟩
  intro i z hz ha
  rcases c.origin hz with ⟨ds, key, value, h, n, -, new, rfl, hlive⟩ | ⟨j, y, hy, hkept⟩
  · exact hlive
  · obtain ⟨z', hz', hkept'⟩ := c.kept (hs.live hy (hkept.addr.symm.trans ha))
    have he : z.addr = z'.addr := hkept.addr.trans hkept'.addr.symm
    obtain rfl := hv'.addrs hz hz'.2 he
    obtain rfl := hz.unique hz'.2
    exact hz'

end History

end Lighttpd
