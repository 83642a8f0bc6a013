import Lighttpd.Request.Parse
import Lighttpd.ArrayElements
import Lighttpd.Caseless

/-!
# What a header line does to the header fields

The rounds of the header loop seen from the list of header fields: a round inside a line changes
nothing, the end of a folded line appends to a stored element, and the end of a line with a field
drops the field, or stores it and perhaps keeps a pointer into its value (`Event`). What the parser
knows about the fields is a `FieldView`; the elements stay well formed through all events
(`FieldsOk`).
-/

namespace Lighttpd

open CLib

/-! ## Names of fields -/

theorem knownField_of_caseless {key name : Bytes} {field : KnownField}
    (hname : (name, field) ∈ knownFields) (h : bufferCaselessCompare key name = 0) :
    knownField key knownFields = some field := by
  rw [bufferCaselessCompare_eq_zero] at h
  have hall : ∀ entry ∈ knownFields, entry.1.all nameByte = true := by decide
  have hkey : key.all nameByte = true := by
    rw [List.all_eq_true]
    intro c hc
    have hm : tolower c ∈ name.map tolower := h ▸ List.mem_map_of_mem hc
    obtain ⟨d, hd, hdc⟩ := List.mem_map.mp hm
    exact nameByte_of_tolower_eq hdc.symm (List.all_eq_true.mp (hall _ hname) d hd)
  -- the sign depends only on the key in lower case
  have hlower : ∀ l : List (Bytes × KnownField), (∀ entry ∈ l, entry.1.all nameByte = true) →
      knownField key l = knownField (name.map tolower) (l.map fun e => (e.1.map tolower, e.2)) := by
    intro l
    induction l with
    | nil => intro _; rfl
    | cons e l ih =>
      intro hl
      have he := hl e (by simp)
      have hzero : bufferCaselessCompare key e.1 = 0 ↔
          bufferCaselessCompare (name.map tolower) (e.1.map tolower) = 0 := by
        rw [bufferCaselessCompare_eq_zero, bufferCaselessCompare_eq_zero, h]
        simp [Function.comp_def]
      have hpos : bufferCaselessCompare key e.1 > 0 ↔
          bufferCaselessCompare (name.map tolower) (e.1.map tolower) > 0 := by
        rw [gt_iff_lt, gt_iff_lt, bufferCaselessCompare_pos hkey he, h]
      simp only [knownField, List.map_cons, hzero, hpos,
        ih fun e' he' => hl e' (List.mem_cons_of_mem _ he')]
  rw [hlower knownFields hall]
  have hnames : ∀ entry ∈ knownFields, knownField (entry.1.map tolower)
      (knownFields.map fun e => (e.1.map tolower, e.2)) = some entry.2 := by decide +kernel
  exact hnames _ hname

theorem caseless_of_knownField {key : Bytes} {field : KnownField} :
    ∀ {l : List (Bytes × KnownField)}, knownField key l = some field →
      ∃ name, (name, field) ∈ l ∧ bufferCaselessCompare key name = 0
  | [], h => by cases h
  | (name, f) :: l, h => by
    unfold knownField at h
    split at h
    · next h0 =>
      obtain rfl := Option.some.inj h
      exact ⟨name, by simp, h0⟩
    · split at h
      · obtain ⟨name', hm, h0⟩ := caseless_of_knownField h
        exact ⟨name', List.mem_cons_of_mem _ hm, h0⟩
      · cases h

def DataString.Named (ds : DataString) (field : KnownField) : Prop :=
  ∃ k, ds.key.Text k ∧ knownField k knownFields = some field

theorem DataString.Named.unique {ds : DataString} {f g : KnownField} (hf : ds.Named f)
    (hg : ds.Named g) : f = g := by
  obtain ⟨k, hk, hf⟩ := hf
  obtain ⟨k', hk', hg⟩ := hg
  rw [hk.unique hk'] at hf
  exact Option.some.inj (hf.symm.trans hg)

theorem knownField_congr {k k' : Bytes} (h : bufferCaselessCompare k k' = 0) (field : KnownField) :
    knownField k knownFields = some field ↔ knownField k' knownFields = some field := by
  have aux : ∀ {k k' : Bytes}, bufferCaselessCompare k k' = 0 →
      knownField k knownFields = some field → knownField k' knownFields = some field := by
    intro k k' h hk
    obtain ⟨name, hm, h0⟩ := caseless_of_knownField hk
    refine knownField_of_caseless hm ?_
    rw [bufferCaselessCompare_eq_zero] at h h0 ⊢
    exact h.symm.trans h0
  refine ⟨aux h, aux ?_⟩
  rw [bufferCaselessCompare_eq_zero] at h ⊢
  exact h.symm

theorem compare_append_nul {k k' : Bytes} :
    bufferCaselessCompare (k ++ [0]) (k' ++ [0]) = 0 ↔ bufferCaselessCompare k k' = 0 := by
  simp only [bufferCaselessCompare_eq_zero, List.map_append, List.append_left_inj]

theorem named_iff_of_compare {k : Bytes} {ds : DataString} {k' : Bytes} (hk' : ds.key.Text k')
    (h : bufferCaselessCompare (k ++ [0]) ds.key.bytes = 0) (field : KnownField) :
    ds.Named field ↔ knownField k knownFields = some field := by
  rw [hk'.holds, compare_append_nul] at h
  rw [knownField_congr h]
  constructor
  · rintro ⟨k'', hk'', hf⟩
    rwa [← hk''.unique hk']
  · intro hf
    exact ⟨k', hk', hf⟩

/-! ## Views and events -/

def Request.saved (r : Request) : KnownField → Option ValuePtr
  | .contentType => r.httpContentType
  | .ifModifiedSince => r.httpIfModifiedSince
  | .ifNoneMatch => r.httpIfNoneMatch
  | .range => r.httpRange
  | _ => none

structure FieldView where
  headers : Arr DataString
  allocs : Nat
  contentLength : Nat
  conLengthSet : Bool
  host : Option Nat
  saved : KnownField → Option ValuePtr

def Connection.view (con : Connection) (conLengthSet : Bool) : FieldView where
  headers := con.request.headers
  allocs := con.allocs
  contentLength := con.request.contentLength
  conLengthSet := conLengthSet
  host := con.request.httpHost
  saved := con.request.saved

def HeaderState.view (st : HeaderState) : FieldView := st.con.view st.conLengthSet

inductive LineKind where
  | inside
  | folded (key value : Bytes)
  | field (key value : Bytes)
  deriving DecidableEq

def lineKind (m : Bytes) (st : HeaderState) : LineKind :=
  if st.isKey = false ∧ m[st.i]? = some 13 ∧ m[st.i + 1]? = some 10 then
    if st.inFolding then
      match st.key with
      | none => .inside
      | some key => .folded (cstr (slice m key (key + st.keyLen))) (cstr (slice m st.value st.i))
    else
      .field (slice m st.first (st.first + st.keyLen)) ((slice m st.value st.i).rdropWhile isBlank)
  else .inside

section Events

variable [Malloc]

inductive NewField (v : FieldView) : DataString → Arr DataString → Nat → Prop
  | taken {ds : DataString} {h : Arr DataString} (taken : Taken v.headers ds h) :
      NewField v ds h v.allocs
  | fresh : NewField v (dataStringInit v.allocs) v.headers (v.allocs + 1)

/-- The check of a `Range` value: the unit is bytes, and there is a `-`. -/
def isByteRange (value : Bytes) : Bool :=
  strncaseeq 6 (value ++ [0]) (ascii "bytes=") &&
    (strchr (cstr ((value ++ [0]).drop 6)) 45).isSome

def savedOffset (f : KnownField) : Nat := if f = .range then 6 else 0

/-- A pointer into the value of the field `x` is kept. -/
def FieldView.save (v : FieldView) (f : KnownField) (x : DataString) : FieldView :=
  { v with saved := fun g => if g = f then some ⟨x.addr, x.value.gen, savedOffset f⟩ else v.saved g }

omit [Malloc] in
theorem FieldView.save_self (v : FieldView) (f : KnownField) (x : DataString) :
    (v.save f x).saved f = some ⟨x.addr, x.value.gen, savedOffset f⟩ := if_pos rfl

def KnownField.IsSaved (f : KnownField) : Prop :=
  f ∈ [KnownField.contentType, .ifModifiedSince, .ifNoneMatch, .range]

instance : DecidablePred KnownField.IsSaved := fun f =>
  inferInstanceAs (Decidable (f ∈ [KnownField.contentType, .ifModifiedSince, .ifNoneMatch, .range]))

/-- A handler keeps the field `x`; `value` is its value. -/
inductive Handles (v : FieldView) (x : DataString) (value : Bytes) :
    Option KnownField → FieldView → Prop
  | quiet {f : Option KnownField} (other : f ∉ [some KnownField.contentLength, some .contentType,
      some .host, some .ifModifiedSince, some .ifNoneMatch])
      (range : f = some .range → v.saved .range = none ∧ isByteRange value = false) :
      Handles v x value f v
  | contentLength (unset : v.conLengthSet = false) (digits : value.all isDigit = true) :
      Handles v x value (some .contentLength)
        { v with conLengthSet := true, contentLength := min (digitsValue value) 4294967295 }
  | host (unset : v.host = none) : Handles v x value (some .host) { v with host := some x.addr }
  | saved {f : KnownField} (isSaved : f.IsSaved) (unset : v.saved f = none)
      (range : f = .range → isByteRange value = true) : Handles v x value (some f) (v.save f x)

/-- `value` is appended to the element `ds` at `ndx`. -/
def FieldView.append (v : FieldView) (ndx : Nat) (ds : DataString) (value : Bytes) : FieldView :=
  let ds := { ds with value := bufferAppendString ds.value (some value) }
  { v with headers := v.headers.setElement ndx ds }

/-- **What a round does to the header fields.** -/
inductive Event (v : FieldView) : LineKind → FieldView → Prop
  | inside : Event v .inside v
  | unfound {key value : Bytes} (find : arrayGetElement v.headers key = some none) :
      Event v (.folded key value) v
  | folded {key value : Bytes} {ndx : Nat} {ds : DataString}
      (find : arrayGetElement v.headers key = some (some (ndx, ds))) :
      Event v (.folded key value) (v.append ndx ds value)
  | empty {key : Bytes} : Event v (.field key []) v
  | dropped {key value : Bytes} {ds : DataString} {h : Arr DataString} {a : Nat}
      (new : NewField v ds h a) (other : knownField key knownFields ≠ some .range) :
      Event v (.field key value) { v with headers := h, allocs := a }
  | stored {key value : Bytes} {ds : DataString} {h h' : Arr DataString} {a : Nat} {v' : FieldView}
      (new : NewField v ds h a) (ne : value ≠ [])
      (handled : Handles { v with headers := h, allocs := a } (ds.set key value) value
        (knownField key knownFields) v')
      (inserted : Inserted h (ds.set key value) h') :
      Event v (.field key value) { v' with headers := h' }

/-- The elements are well formed, and their addresses tell them apart. -/
structure FieldsOk (v : FieldView) : Prop where
  wf : v.headers.WF
  plain : ∀ {i : Nat} {ds : DataString}, v.headers.Slot i ds →
    ds.isIndexKey = false ∧ ds.response = false ∧ ds.addr < v.allocs
  addrs : ∀ {i j : Nat} {x y : DataString}, v.headers.Slot i x → v.headers.Slot j y →
    x.addr = y.addr → i = j
  texts : ∀ {i : Nat} {ds : DataString}, v.headers.Live i ds →
    (∃ k, ds.key.Text k) ∧ ∃ t, ds.value.Text t

/-! ## The rounds are events -/

theorem newField_spec' (con : Connection) (conLengthSet : Bool) :
    NewField (con.view conLengthSet) (newField con).1 (newField con).2.request.headers
        (newField con).2.allocs ∧
      (newField con).2.view conLengthSet = { con.view conLengthSet with
        headers := (newField con).2.request.headers, allocs := (newField con).2.allocs } := by
  obtain ⟨hnone, hsome⟩ := arrayGetUnusedElement_spec (a := con.request.headers) .string rfl
  unfold newField
  split
  next ds headers hget =>
    rw [hget] at hnone hsome
    cases ds with
    | none =>
      have hh : headers = con.request.headers := hnone rfl
      refine ⟨?_, rfl⟩
      show NewField _ (dataStringInit con.allocs) headers (con.allocs + 1)
      rw [hh]
      exact .fresh
    | some ds => exact ⟨.taken (hsome ds rfl), rfl⟩

theorem text_set (ds : DataString) (key value : Bytes) :
    (ds.set key value).key.Text key ∧ (ds.set key value).value.Text value :=
  ⟨text_bufferCopyStringLen _ _, text_bufferCopyStringLen _ _⟩

omit [Malloc] in
theorem strncaseeq_nul : ∀ (n : Nat) (s q r r' : Bytes),
    strncaseeq n (s ++ 0 :: r) q = strncaseeq n (s ++ 0 :: r') q
  | 0, _, _, _, _ => rfl
  | n + 1, [], [], _, _ => rfl
  | n + 1, _ :: _, [], _, _ => rfl
  | n + 1, [], y :: q, r, r' => by simp [strncaseeq]
  | n + 1, x :: s, y :: q, r, r' => by
    simp only [List.cons_append, strncaseeq, strncaseeq_nul n s q r r']

omit [Malloc] in
theorem ptr_of_text {b : Buffer} {value : Bytes} (hb : b.Text value) :
    b.ptr = value ++ 0 :: b.ptr.drop b.used := by
  have hbytes : b.ptr.take b.used = value ++ [0] := hb.holds
  calc b.ptr = b.ptr.take b.used ++ b.ptr.drop b.used := (List.take_append_drop _ _).symm
    _ = value ++ 0 :: b.ptr.drop b.used := by rw [hbytes, List.append_assoc, List.singleton_append]

omit [Malloc] in
theorem length_of_strncaseeq : ∀ {n : Nat} {s q r : Bytes}, 0 ∉ q.map tolower → q.length = n →
    strncaseeq n (s ++ 0 :: r) q = true → n ≤ s.length
  | 0, _, _, _, _, _, _ => Nat.zero_le _
  | n + 1, _, [], _, _, hq, _ => by cases hq
  | n + 1, [], y :: q, r, h0, _, h => by
    simp only [List.nil_append, strncaseeq, Bool.and_eq_true, beq_iff_eq] at h
    exact absurd (List.mem_map.mpr ⟨y, by simp, h.1.symm⟩) h0
  | n + 1, x :: s, y :: q, r, h0, hq, h => by
    simp only [List.cons_append, strncaseeq, Bool.and_eq_true, Bool.or_eq_true, beq_iff_eq] at h
    obtain ⟨hxy, hx⟩ := h
    rw [List.map_cons, List.mem_cons, not_or] at h0
    have hne : x ≠ 0 := by
      rintro rfl
      exact h0.1 hxy
    have := length_of_strncaseeq h0.2 (by simpa using hq) (hx.resolve_left hne)
    simp only [List.length_cons]
    omega

omit [Malloc] in
theorem isByteRange_iff {b : Buffer} {value : Bytes} (hb : b.Text value) :
    isByteRange value = true ↔ strncaseeq 6 b.ptr (ascii "bytes=") = true ∧
      strchr (cstr (b.ptr.drop 6)) 45 ≠ none := by
  rw [ptr_of_text hb, strncaseeq_nul 6 value _ _ [], isByteRange, Bool.and_eq_true,
    Option.isSome_iff_ne_none]
  refine and_congr_right fun heq => ?_
  have hlen : 6 ≤ value.length := length_of_strncaseeq (by decide) (by decide) heq
  rw [List.drop_append_of_le_length hlen, List.drop_append_of_le_length hlen, cstr_append_nul,
    cstr_append_nul]

omit [Malloc] in
theorem str_of_digits {b : Buffer} {value : Bytes} (hb : b.Text value)
    (hall : value.all isDigit = true) : b.str = value := by
  refine Buffer.Terminated.str ⟨?_, ?_, hb.wf⟩
  · intro h0
    exact absurd (List.all_eq_true.mp hall 0 h0) (by decide)
  · exact ⟨[], (List.append_nil _).trans hb.holds.symm⟩

theorem rejectField_ne_next {st : HeaderState} {ds : DataString} {status : Int}
    {r : HeaderState × Option DataString} : rejectField st ds status ≠ (.next r : Handled) := by
  intro he
  obtain ⟨con, -, he⟩ := Flow.bind_eq_next he
  cases he

omit [Malloc] in
theorem view_save (st : HeaderState) (ds : DataString) :
    (st.mapRequest fun r => { r with httpContentType := some ds.valuePtr }).view =
        st.view.save .contentType ds ∧
      (st.mapRequest fun r => { r with httpIfModifiedSince := some ds.valuePtr }).view =
        st.view.save .ifModifiedSince ds ∧
      (st.mapRequest fun r => { r with httpIfNoneMatch := some ds.valuePtr }).view =
        st.view.save .ifNoneMatch ds ∧
      (st.mapRequest fun r => { r with httpRange := some { ds.valuePtr with offset := 6 } }).view =
        st.view.save .range ds := by
  have ext : ∀ {v v' : FieldView}, v.headers = v'.headers → v.allocs = v'.allocs →
      v.contentLength = v'.contentLength → v.conLengthSet = v'.conLengthSet → v.host = v'.host →
      (∀ g, v.saved g = v'.saved g) → v = v' := by
    rintro ⟨⟩ ⟨⟩ rfl rfl rfl rfl rfl h
    congr
    exact funext h
  refine ⟨?_, ?_, ?_, ?_⟩ <;>
    exact ext rfl rfl rfl rfl rfl fun g => by cases g <;> rfl

theorem handleField_cases {cfg : FieldConf} {st st' : HeaderState} {ds : DataString}
    {key value : Bytes} {r : Option DataString} (hv : ds.value.Text value)
    (h : handleField cfg st ds key = .next (st', r)) :
    r = none ∧ st'.view = st.view ∧ knownField key knownFields ≠ some .range ∨
      r = some ds ∧ Handles st.view ds value (knownField key knownFields) st'.view := by
  obtain ⟨hct, hims, hinm, hrange⟩ := view_save st ds
  have quiet : ∀ {f : Option KnownField}, f ∉ [some KnownField.contentLength, some .contentType,
      some .host, some .ifModifiedSince, some .ifNoneMatch, some .range] →
      Handles st.view ds value f st.view := by
    intro f hf
    simp only [List.mem_cons, List.not_mem_nil, or_false, not_or] at hf
    exact .quiet (by simp [hf]) fun he => absurd he hf.2.2.2.2.2
  unfold handleField at h
  split at h
  next hf =>
    obtain ⟨vals, -, h⟩ := Flow.bind_eq_next h
    cases h
    exact Or.inr ⟨rfl, hf ▸ quiet (by decide)⟩
  next hf =>
    unfold contentLengthField at h
    split at h
    · exact absurd h rejectField_ne_next
    · next hset =>
      split at h
      · cases h
      · split at h
        · exact absurd h rejectField_ne_next
        · next hdigits =>
          have hlen : ds.value.ptr.take (ds.value.used - 1) = value := take_of_holds hv.holds hv.used
          have hall : value.all isDigit = true := by simpa [hlen] using hdigits
          have hstr : ds.value.str = value := str_of_digits hv hall
          have htake : value.takeWhile isDigit = value :=
            List.takeWhile_eq_self_iff.mpr (List.all_eq_true.mp hall)
          have hdrop : value.dropWhile isDigit = [] :=
            List.dropWhile_eq_nil_iff.mpr (List.all_eq_true.mp hall)
          rw [hstr] at h
          simp only [strtoul, htake, hdrop, if_true] at h
          cases h
          exact Or.inr ⟨rfl, hf ▸ .contentLength (Bool.eq_false_iff.mpr hset) hall⟩
  next hf =>
    unfold contentTypeField at h
    split at h
    · next hu =>
      cases h
      exact Or.inr ⟨rfl, hf ▸ hct ▸ .saved (by decide) hu (fun he => by cases he)⟩
    · exact absurd h rejectField_ne_next
  next hf =>
    unfold expectField at h
    split at h
    · exact absurd h rejectField_ne_next
    · cases h
      exact Or.inr ⟨rfl, hf ▸ quiet (by decide)⟩
  next hf =>
    unfold hostField at h
    split at h
    · cases h
      exact Or.inl ⟨rfl, rfl, by rw [hf]; decide⟩
    · split at h
      · next hu =>
        cases h
        exact Or.inr ⟨rfl, hf ▸ .host hu⟩
      · exact absurd h rejectField_ne_next
  next hf =>
    unfold ifModifiedSinceField at h
    split at h
    · next hu =>
      cases h
      exact Or.inr ⟨rfl, hf ▸ hims ▸ .saved (by decide) hu (fun he => by cases he)⟩
    · obtain ⟨old, -, h⟩ := Flow.bind_eq_next h
      split at h
      · cases h
        exact Or.inl ⟨rfl, rfl, by rw [hf]; decide⟩
      · exact absurd h rejectField_ne_next
  next hf =>
    unfold ifNoneMatchField at h
    split at h
    · next hu =>
      cases h
      exact Or.inr ⟨rfl, hf ▸ hinm ▸ .saved (by decide) hu (fun he => by cases he)⟩
    · cases h
      exact Or.inl ⟨rfl, rfl, by rw [hf]; decide⟩
  next hf =>
    unfold rangeField at h
    split at h
    · next hu =>
      split at h
      · next hbytes =>
        cases h
        exact Or.inr ⟨rfl, hf ▸ hrange ▸ .saved (by decide) hu
          fun _ => (isByteRange_iff hv).mpr hbytes⟩
      · next hbytes =>
        cases h
        have hno : isByteRange value = false :=
          Bool.eq_false_iff.mpr fun hb => hbytes ((isByteRange_iff hv).mp hb)
        exact Or.inr ⟨rfl, hf ▸ .quiet (by decide) fun _ => ⟨hu, hno⟩⟩
    · exact absurd h rejectField_ne_next
  next hf =>
    cases h
    exact Or.inr ⟨rfl, hf ▸ quiet (by decide)⟩

omit [Malloc] in
theorem Handles.headers {v v' : FieldView} {x : DataString} {value : Bytes} {f : Option KnownField}
    (h : Handles v x value f v') : v'.headers = v.headers ∧ v'.allocs = v.allocs := by
  cases h <;> exact ⟨rfl, rfl⟩

omit [Malloc] in
theorem NewField.plain {v : FieldView} (hv : FieldsOk v) {ds : DataString} {h : Arr DataString}
    {a : Nat} (new : NewField v ds h a) : h.WF ∧ ds.isIndexKey = false := by
  cases new with
  | taken taken =>
    obtain ⟨i, -, hslot, -⟩ := taken.slots
    exact ⟨taken.wf hv.wf, (hv.plain hslot).1⟩
  | fresh => exact ⟨hv.wf, rfl⟩

theorem insertField_next {con con' : Connection} {ds : DataString} (hwf : con.request.headers.WF)
    (hindex : ds.isIndexKey = false) {k : Bytes} (hk : ds.key.Text k)
    (h : insertField con ds = .next con') :
    ∃ headers, Inserted con.request.headers ds headers ∧
      con' = con.mapRequest fun r => { r with headers := headers } := by
  obtain ⟨headers, hins, h⟩ := Flow.bind_eq_next h
  cases hi : arrayInsertUnique con.request.headers ds with
  | none =>
    rw [hi] at hins
    cases hins
  | some headers' =>
    rw [hi] at hins
    obtain rfl : headers' = headers := by simpa using hins
    have hu : (DataUnset.key ds).used ≠ 0 := by
      show ds.key.used ≠ 0
      rw [hk.used]
      omega
    refine ⟨headers', arrayInsertUnique_spec hwf hu hindex hi, ?_⟩
    cases h
    rfl

theorem event_of_storeField {cfg : FieldConf} {st st' : HeaderState} {key value : Bytes}
    (hok : FieldsOk st.view) (hne : value ≠ []) (h : storeField cfg st key value = .next st') :
    Event st.view (.field key value) st'.view := by
  obtain ⟨hnew, hview⟩ := newField_spec' st.con st.conLengthSet
  unfold storeField at h
  revert h
  generalize newField st.con = nf at hnew hview
  obtain ⟨ds, con⟩ := nf
  intro h
  dsimp only at h hnew hview
  obtain ⟨⟨st₁, r⟩, hhandle, h⟩ := Flow.bind_eq_next h
  obtain ⟨hkey, hvalue⟩ := text_set ds key value
  have hcon : ({ st with con := con } : HeaderState).view =
      { st.view with headers := con.request.headers, allocs := con.allocs } := hview
  rcases handleField_cases hvalue hhandle with ⟨rfl, hsame, hother⟩ | ⟨rfl, hhandled⟩
  · cases h
    rw [hsame, hcon]
    exact .dropped hnew hother
  · rw [hcon] at hhandled
    obtain ⟨con', hinsert, h⟩ := Flow.bind_eq_next h
    have hheaders : st₁.con.request.headers = con.request.headers := hhandled.headers.1
    obtain ⟨hwf, hindex⟩ := NewField.plain hok hnew
    have hset : (ds.set key value).isIndexKey = false := hindex
    rw [← hheaders] at hwf
    obtain ⟨headers, hins, rfl⟩ := insertField_next hwf hset hkey hinsert
    cases h
    rw [hheaders] at hins
    exact .stored hnew hne hhandled hins

variable (cfg : FieldConf) (m : Bytes)

theorem event_of_foldedLine {st st' : HeaderState} (h : foldedLine m st = .next st') :
    ∃ key, st.key = some key ∧ Event st.view (.folded (cstr (slice m key (key + st.keyLen)))
      (cstr (slice m st.value st.i))) st'.view := by
  unfold foldedLine at h
  split at h
  · cases h
  · next key hkey =>
    refine ⟨key, hkey, ?_⟩
    split at h
    · cases h
    · obtain ⟨found, hfind, h⟩ := Flow.bind_eq_next h
      have hget : arrayGetElement st.view.headers (cstr (slice m key (key + st.keyLen))) =
          some found := by
        show arrayGetElement st.con.request.headers _ = _
        cases hg : arrayGetElement st.con.request.headers (cstr (slice m key (key + st.keyLen))) with
        | none =>
          rw [hg] at hfind
          cases hfind
        | some r =>
          rw [hg] at hfind
          simpa using hfind
      cases found with
      | none =>
        cases h
        exact .unfound hget
      | some el =>
        obtain ⟨ndx, ds⟩ := el
        cases h
        exact .folded hget

omit [Malloc] in
theorem view_keyStep {st st' : HeaderState} {c : UInt8} (h : keyStep m st c = .next st') :
    st'.view = st.view := by
  unfold keyStep at h
  dsimp only at h
  repeat' split at h
  all_goals first | cases h; rfl | cases h

theorem headerLineEnd_eq (st : HeaderState) : headerLineEnd cfg m st =
    (if st.inFolding then foldedLine m st else fieldLine cfg m st) >>= fun st => .next { st with
      i := st.i + 1, first := st.i + 2, isKey := true, value := 0, inFolding := false } := by
  unfold headerLineEnd
  split <;> rfl

theorem event_of_valueStep {st st' : HeaderState} {c : UInt8} (hok : FieldsOk st.view)
    (hkey : st.isKey = false) (hc : m[st.i]? = some c) (h : valueStep cfg m st c = .next st') :
    Event st.view (lineKind m st) st'.view := by
  have inside : ¬ (c = 13 ∧ m[st.i + 1]? = some 10) → lineKind m st = .inside := by
    intro hn
    unfold lineKind
    rw [if_neg]
    rintro ⟨-, h13, h10⟩
    rw [hc] at h13
    exact hn ⟨Option.some.inj h13, h10⟩
  unfold valueStep at h
  split at h
  · next h13 =>
    split at h
    · next h10 =>
      rw [headerLineEnd_eq] at h
      obtain ⟨st₁, hline, h⟩ := Flow.bind_eq_next h
      cases h
      show Event st.view _ st₁.view
      unfold lineKind
      rw [if_pos ⟨hkey, by rw [hc, h13], h10⟩]
      split at hline
      · next hfold =>
        obtain ⟨key, hk, hevent⟩ := event_of_foldedLine m hline
        rw [if_pos hfold, hk]
        exact hevent
      · next hfold =>
        rw [if_neg hfold]
        unfold fieldLine at hline
        dsimp only at hline
        split at hline
        · next hlen =>
          have hview : FieldsOk ({ st with key := some st.first } : HeaderState).view := hok
          have hevent := event_of_storeField hview (List.ne_nil_of_length_pos hlen) hline
          exact hevent
        · next hlen =>
          cases hline
          have hnil : (slice m st.value st.i).rdropWhile isBlank = [] :=
            List.length_eq_zero_iff.mp (by omega)
          rw [hnil]
          exact .empty
    · cases h
  · next h13 =>
    rw [inside fun hn => h13 hn.1]
    split at h
    · cases h
    · split at h <;>
      · cases h
        exact .inside

theorem event_of_headerRound {st st' : HeaderState} (hok : FieldsOk st.view)
    (h : headerRound cfg m st = some (.next st')) : Event st.view (lineKind m st) st'.view := by
  unfold headerRound at h
  split at h
  · cases h
  · split at h
    · cases h
    · next c hc =>
      obtain ⟨st₁, hstep, h⟩ := Flow.bind_eq_next (Option.some.inj h)
      cases h
      show Event st.view _ st₁.view
      unfold headerStep at hstep
      split at hstep
      · next hkey =>
        have hkind : lineKind m st = .inside := by
          unfold lineKind
          rw [if_neg (by simp [hkey])]
        rw [hkind, view_keyStep m hstep]
        exact .inside
      · next hkey => exact event_of_valueStep cfg m hok (Bool.eq_false_iff.mpr hkey) hc hstep

end Events

end Lighttpd
