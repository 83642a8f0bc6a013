import Lighttpd.ArrayBounds
import Lighttpd.ArrayHistory
import Lighttpd.Fastcgi.Authorizer
import Lighttpd.Fastcgi.Response
import Lighttpd.Lib.Walk

/-!
# The header that a FastCGI responder sends

`fcgi_response_parse` puts the fields of the header block into the response. Fields of one name
share an element, which is written as one line for each of them (`WritesFields`), so the response
holds the fields of the block but for `Status` (`fcgiResponseParse_fields`). An `X-Sendfile2` that
is obeyed gives the response another length.
-/

namespace Lighttpd

open CLib Segments

/-! ## Header blocks -/

def blockLines (t : Bytes) : List Bytes :=
  (t.splitOn 10).dropLast.map fun s => if s.getLast? = some 13 then s.dropLast else s

/-- The name and the value in a line, which has a colon between them. -/
def lineField (s : Bytes) : Option (Bytes × Bytes) :=
  (strchr s 58).map fun n => (s.take n, (s.drop (n + 1)).dropWhile fun c => c == 32 || c == 9)

def blockFields (t : Bytes) : List (Bytes × Bytes) := (blockLines t).filterMap lineField

def NamedAs (name : String) (f : Bytes × Bytes) : Prop := foldName f.1 = foldName (ascii name)

instance (name : String) (f : Bytes × Bytes) : Decidable (NamedAs name f) :=
  inferInstanceAs (Decidable (_ = _))

/-- The name is only the front of `Status`. -/
def StatusFront (f : Bytes × Bytes) : Prop :=
  foldName f.1 <+: foldName (ascii "Status") ∧ ¬ NamedAs "Status" f

instance (f : Bytes × Bytes) : Decidable (StatusFront f) := inferInstanceAs (Decidable (_ ∧ _))

def forwarded (fields : List (Bytes × Bytes)) : List (Bytes × Bytes) :=
  fields.filter fun f => ¬ NamedAs "Status" f

/-- The number in the last `Status` field. -/
def statusNumber (fields : List (Bytes × Bytes)) : Option Int :=
  ((fields.filter fun f => NamedAs "Status" f).getLast?).map fun f => (strtol f.2).1

/-! ## Fields in elements -/

/-- A field, as `http_response_write_header` writes it. -/
def writtenField (name value : Bytes) : Bytes := ascii "\r\n" ++ name ++ ascii ": " ++ value

/-- The element is written as fields with this name and these values. -/
structure WritesFields (ds : DataString) (name : Bytes) (values : List Bytes) : Prop where
  key : ds.key.Text name
  value : ∃ value, ds.value.Text value ∧
    writtenField name value = (values.map (writtenField name)).flatten
  nonempty : values ≠ []

def foldField (f : Bytes × Bytes) : Bytes × Bytes := (foldName f.1, f.2)

def groupFields (groups : List (Bytes × List Bytes)) : List (Bytes × Bytes) :=
  groups.flatMap fun g => g.2.map fun v => (g.1, v)

/-- The elements hold the fields: each is written as some of them, under the name of one of them. -/
def HoldsFields (elements : List DataString) (fields : List (Bytes × Bytes)) : Prop :=
  ∃ groups : List (Bytes × List Bytes),
    List.Forall₂ (fun ds g => WritesFields ds g.1 g.2) elements groups ∧
    (fields.map foldField).Perm ((groupFields groups).map foldField) ∧
    ∀ g ∈ groups, ∃ f ∈ fields, f.1 = g.1

section Elements

variable [Malloc] {elements : List DataString} {ds x : DataString}
  {fields : List (Bytes × Bytes)} {name value : Bytes} {values : List Bytes}

theorem WritesFields.insertDup (h : WritesFields ds name values) (hplain : ds.Plain)
    (hvalue : x.value.Text value) :
    WritesFields (DataUnset.insertDup ds x) name (values ++ [value]) := by
  obtain ⟨hkey, ⟨w, hw, hlines⟩, -⟩ := h
  have hused : ds.value.used ≠ 0 := by
    rw [hw.used]
    omega
  have hsep := text_bufferAppendStringLen (text_bufferAppendStringBuffer
    (text_bufferAppendStringLen hw (ascii "\r\n")) hkey) (ascii ": ")
  have htext := text_bufferAppendStringBuffer hsep hvalue
  refine ⟨hkey, ⟨w ++ writtenField name value, ?_, ?_⟩, by simp⟩
  · show (dataStringInsertDup ds x).value.Text _
    unfold dataStringInsertDup dupSeparator
    rw [if_pos hused, hplain.response]
    simpa [writtenField] using htext
  · rw [List.map_append, List.flatten_append, ← hlines]
    simp [writtenField]

omit [Malloc] in
theorem forall₂_middle {α β : Type} {R : α → β → Prop} {pre post : List α} {y : α} {gs : List β}
    (h : List.Forall₂ R (pre ++ y :: post) gs) : ∃ gpre g gpost, gs = gpre ++ g :: gpost ∧
      List.Forall₂ R pre gpre ∧ R y g ∧ List.Forall₂ R post gpost := by
  induction pre generalizing gs with
  | nil =>
    cases h with
    | cons hy hpost => exact ⟨[], _, _, rfl, List.Forall₂.nil, hy, hpost⟩
  | cons x pre ih =>
    cases h with
    | cons hx hrest =>
      obtain ⟨gpre, g, gpost, rfl, hpre, hy, hpost⟩ := ih hrest
      exact ⟨_ :: gpre, g, gpost, rfl, List.Forall₂.cons hx hpre, hy, hpost⟩

omit [Malloc] in
theorem perm_group {gpre gpost : List (Bytes × List Bytes)} {g : Bytes × List Bytes}
    (hperm : (fields.map foldField).Perm ((groupFields (gpre ++ g :: gpost)).map foldField))
    (hname : foldName name = foldName g.1) (value : Bytes) :
    ((fields ++ [(name, value)]).map foldField).Perm
      ((groupFields (gpre ++ (g.1, g.2 ++ [value]) :: gpost)).map foldField) := by
  have hsame : foldField (name, value) = foldField (g.1, value) := Prod.ext hname rfl
  simp only [groupFields, List.flatMap_append, List.flatMap_cons, List.map_append, List.map_cons,
    List.map_nil, List.append_assoc, hsame] at hperm ⊢
  refine (hperm.append_right _).trans ?_
  simp only [List.append_assoc]
  exact (List.perm_append_comm.append_left _).append_left _

omit [Malloc] in
theorem HoldsFields.append (h : HoldsFields elements fields) (hkey : x.key.Text name)
    (hvalue : x.value.Text value) :
    HoldsFields (elements ++ [x]) (fields ++ [(name, value)]) := by
  obtain ⟨groups, hwrites, hperm, hnames⟩ := h
  refine ⟨groups ++ [(name, [value])], ?_, ?_, ?_⟩
  · have hnew : WritesFields x name [value] := ⟨hkey, ⟨value, hvalue, by simp⟩, by simp⟩
    exact List.rel_append hwrites (List.Forall₂.cons hnew List.Forall₂.nil)
  · unfold groupFields at hperm ⊢
    rw [List.flatMap_append, List.map_append, List.map_append]
    exact hperm.append_right _
  · intro g hg
    rcases List.mem_append.mp hg with hg | hg
    · obtain ⟨f, hf, hfg⟩ := hnames g hg
      exact ⟨f, List.mem_append_left _ hf, hfg⟩
    · obtain rfl := List.mem_singleton.mp hg
      exact ⟨(name, value), by simp, rfl⟩

theorem HoldsFields.inserted {headers headers' : Arr DataString} (hheaders : headers.Tidy)
    (h : HoldsFields headers.elements fields) (hinserted : Inserted headers x headers')
    (hkey : x.key.Text name) (hvalue : x.value.Text value) :
    HoldsFields headers'.elements (fields ++ [(name, value)]) := by
  obtain ⟨groups, hwrites, hperm, hnames⟩ := h
  have holds : ∀ g ∈ groups, ∃ f ∈ fields ++ [(name, value)], f.1 = g.1 := by
    intro g hg
    obtain ⟨f, hf, hfg⟩ := hnames g hg
    exact ⟨f, List.mem_append_left _ hf, hfg⟩
  rcases hinserted.elements hheaders.wf with ⟨pre, y, post, hequal, hsplit, hjoined⟩ | happended
  · rw [hsplit] at hwrites
    obtain ⟨gpre, g, gpost, rfl, hpre, hy, hpost⟩ := forall₂_middle hwrites
    have hplain : y.Plain := by
      obtain ⟨i, hlive⟩ := Arr.mem_elements.mp (hsplit ▸ List.mem_append_right _ List.mem_cons_self)
      exact hheaders.plain hlive.2
    have hname : foldName name = foldName g.1 := (compare_names hkey hy.key).mp hequal
    rw [hjoined]
    refine ⟨gpre ++ (g.1, g.2 ++ [value]) :: gpost, ?_, perm_group hperm hname value, ?_⟩
    · exact List.rel_append hpre (List.Forall₂.cons (hy.insertDup hplain hvalue) hpost)
    · intro g' hg'
      rcases List.mem_append.mp hg' with hg' | hg'
      · exact holds g' (List.mem_append_left _ hg')
      rcases List.mem_cons.mp hg' with rfl | hg'
      · exact holds g (List.mem_append_right _ List.mem_cons_self)
      · exact holds g' (List.mem_append_right _ (List.mem_cons_of_mem _ hg'))
  · rw [happended]
    exact HoldsFields.append ⟨groups, hwrites, hperm, hnames⟩ hkey hvalue

omit [Malloc] in
theorem HoldsFields.name_mem (h : HoldsFields elements fields) (hds : ds ∈ elements)
    (hkey : ds.key.Text name) : ∃ f ∈ fields, f.1 = name := by
  obtain ⟨groups, hwrites, -, hnames⟩ := h
  obtain ⟨pre, post, rfl⟩ := List.append_of_mem hds
  obtain ⟨gpre, g, gpost, rfl, -, hy, -⟩ := forall₂_middle hwrites
  obtain ⟨f, hf, hfg⟩ := hnames g (by simp)
  exact ⟨f, hf, hfg.trans (hy.key.unique hkey)⟩

omit [Malloc] in
theorem HoldsFields.perm {fields' : List (Bytes × Bytes)} (h : HoldsFields elements fields)
    (hperm : fields.Perm fields') : HoldsFields elements fields' := by
  obtain ⟨groups, hwrites, hgroups, hnames⟩ := h
  refine ⟨groups, hwrites, (hperm.map _).symm.trans hgroups, ?_⟩
  intro g hg
  obtain ⟨f, hf, hfg⟩ := hnames g hg
  exact ⟨f, hperm.subset hf, hfg⟩

omit [Malloc] in
theorem holdsFields_groups {groups : List (Bytes × List Bytes)}
    (h : List.Forall₂ (fun ds g => WritesFields ds g.1 g.2) elements groups) :
    HoldsFields elements (groupFields groups) := by
  refine ⟨groups, h, List.Perm.refl _, ?_⟩
  induction h with
  | nil =>
    intro g hg
    cases hg
  | @cons ds g elements groups hds _ ih =>
    intro g' hg'
    have hcons : groupFields (g :: groups) = g.2.map (fun v => (g.1, v)) ++ groupFields groups :=
      rfl
    rw [hcons]
    rcases List.mem_cons.mp hg' with rfl | hg'
    · obtain ⟨v, hv⟩ := List.exists_mem_of_ne_nil _ hds.nonempty
      exact ⟨(g'.1, v), List.mem_append_left _ (List.mem_map_of_mem hv), rfl⟩
    · obtain ⟨f, hf, hfg⟩ := ih g' hg'
      exact ⟨f, List.mem_append_right _ hf, hfg⟩

theorem HoldsFields.replaced {elements' : List DataString} (h : HoldsFields elements fields)
    (hkey : ds.key.Text name) (hvalue : ds.value.Text value)
    (helements : (∃ pre y post, compareKey (DataUnset.key ds).bytes y = 0 ∧
      elements = pre ++ y :: post ∧ elements' = pre ++ ds :: post) ∨ elements' = elements ++ [ds]) :
    ∃ removed kept, (fields.map foldField).Perm ((removed ++ kept).map foldField) ∧
      (∀ f ∈ removed, foldName f.1 = foldName name) ∧
      HoldsFields elements' (kept ++ [(name, value)]) := by
  rcases helements with ⟨pre, y, post, hequal, rfl, rfl⟩ | rfl
  · obtain ⟨groups, hwrites, hperm, -⟩ := h
    obtain ⟨gpre, g, gpost, rfl, hpre, hy, hpost⟩ := forall₂_middle hwrites
    have hnew : WritesFields ds name [value] := ⟨hkey, ⟨value, hvalue, by simp⟩, by simp⟩
    have hall : HoldsFields (pre ++ ds :: post)
        (groupFields (gpre ++ (name, [value]) :: gpost)) :=
      holdsFields_groups (List.rel_append hpre (List.Forall₂.cons hnew hpost))
    refine ⟨groupFields [g], groupFields (gpre ++ gpost), hperm.trans ?_, ?_, hall.perm ?_⟩
    · simp only [groupFields, List.flatMap_append, List.flatMap_cons, List.flatMap_nil,
        List.append_nil, List.map_append]
      rw [← List.append_assoc, ← List.append_assoc]
      exact List.perm_append_comm.append_right _
    · intro f hf
      obtain ⟨g', hg', hfg⟩ := List.mem_flatMap.mp hf
      obtain rfl := List.mem_singleton.mp hg'
      obtain ⟨v, -, rfl⟩ := List.mem_map.mp hfg
      exact ((compare_names hkey hy.key).mp hequal).symm
    · simp only [groupFields, List.flatMap_append, List.flatMap_cons, List.map_cons, List.map_nil,
        List.append_assoc]
      exact (List.perm_append_comm).append_left _
  · refine ⟨[], fields, List.Perm.refl _, ?_, h.append hkey hvalue⟩
    intro f hf
    cases hf

end Elements

section Lines

theorem strncaseeq_front {a : Bytes} (ha : IsCStr a) {t : Bytes} :
    strncaseeq a.length a t = true ↔ foldName a <+: foldName t := by
  induction a generalizing t with
  | nil => simp [strncaseeq, foldName]
  | cons x a ih =>
    obtain ⟨hx, hrest⟩ : x ≠ 0 ∧ IsCStr a := by simpa [IsCStr, eq_comm] using ha
    cases t with
    | nil => simp [strncaseeq, foldName]
    | cons y t =>
      have hstep := ih (t := t) hrest
      unfold foldName at hstep ⊢
      rw [List.length_cons, strncaseeq, List.map_cons, List.map_cons, List.cons_prefix_cons,
        ← hstep]
      simp [hx]

theorem isFieldName_iff {key : Bytes} (hkey : IsCStr key) (name : String) :
    isFieldName key name = true ↔ foldName key = foldName (ascii name) := by
  have hlength : (ascii name).length = name.length := by
    rw [ascii, List.length_map, String.length_toList]
  unfold isFieldName
  rw [Bool.and_eq_true, decide_eq_true_iff, strncaseeq_front hkey, ← hlength]
  unfold foldName
  constructor
  · rintro ⟨hlen, hpre⟩
    exact hpre.eq_of_length (by simpa using hlen)
  · intro heq
    rw [heq]
    exact ⟨by simpa using congrArg List.length heq, List.prefix_rfl⟩

theorem responseLines_eq {fuel : Nat} {t : Bytes} (hfuel : t.length < fuel) :
    responseLines fuel t = blockLines t := by
  induction fuel generalizing t with
  | zero => omega
  | succ fuel ih =>
    unfold responseLines blockLines
    rcases splitOn_cases 10 t with ⟨hno, hsplit⟩ | ⟨first, rest, rfl, hfirst, hsplit⟩
    · rw [strchr_eq_none.mpr hno, hsplit]
      rfl
    · rw [strchr_append_cons hfirst, hsplit]
      have hne : rest.splitOn 10 ≠ [] := List.splitOn_ne_nil _ _
      have hmore := ih (t := rest) (by simp at hfuel; omega)
      dsimp only
      rw [List.dropLast_cons_of_ne_nil hne, List.map_cons, List.take_left, drop_append_cons, hmore]
      rfl

theorem mem_of_mem_blockLines {t s : Bytes} {c : UInt8} (hs : s ∈ blockLines t) (hc : c ∈ s) :
    c ∈ t := by
  unfold blockLines at hs
  obtain ⟨seg, hseg, rfl⟩ := List.mem_map.mp hs
  have hc' : c ∈ seg := by
    split at hc
    · exact List.dropLast_subset _ hc
    · exact hc
  exact mem_of_mem_splitOn (List.dropLast_subset _ hseg) hc'

theorem isCStr_lineField {s : Bytes} (hs : IsCStr s) {f : Bytes × Bytes}
    (hf : lineField s = some f) : IsCStr f.1 ∧ IsCStr f.2 := by
  unfold lineField at hf
  obtain ⟨n, -, rfl⟩ := Option.map_eq_some_iff.mp hf
  refine ⟨fun h0 => hs (List.take_subset _ _ h0), fun h0 => hs ?_⟩
  exact List.drop_subset _ _ ((List.dropWhile_sublist _).subset h0)

end Lines

section Parser

variable [Malloc] {stat : Buffer → Option StatCacheEntry} {host : FcgiExtensionHost}
  {allowXsendfile sendContentBody : Bool} {st : FcgiParse} {con con' : BackendConnection}

structure SameHead (con con' : BackendConnection) : Prop where
  headers : con'.response.headers = con.response.headers
  httpStatus : con'.httpStatus = con.httpStatus
  parsedResponse : con'.parsedResponse = con.parsedResponse

omit [Malloc] in
theorem SameHead.trans {con'' : BackendConnection} (h : SameHead con con')
    (h' : SameHead con' con'') : SameHead con con'' :=
  ⟨h'.headers.trans h.headers, h'.httpStatus.trans h.httpStatus,
    h'.parsedResponse.trans h.parsedResponse⟩

theorem insertResponseField_spec (h : con.response.headers.Tidy) (key value : Bytes) :
    ∃ headers, insertResponseField con key value =
        some (con.mapResponse fun r => { r with headers := headers }) ∧ headers.Tidy ∧
        ∀ fields, HoldsFields con.response.headers.elements fields →
          HoldsFields headers.elements (fields ++ [(key, value)]) := by
  obtain ⟨htidy, hsame, hplain⟩ := h.unused 0
  unfold insertResponseField
  generalize arrayGetUnusedElement con.response.headers .string = taken at htidy hsame hplain ⊢
  obtain ⟨old, rest⟩ := taken
  dsimp only at htidy hsame hplain ⊢
  generalize old.getD (dataResponseInit 0) = base at hplain
  obtain ⟨x, hx⟩ : ∃ x : DataString, x = { base with
      key := bufferCopyStringLen base.key (some key)
      value := bufferCopyString base.value (some value) } := ⟨_, rfl⟩
  have hkey : x.key.Text key := hx ▸ text_bufferCopyStringLen base.key key
  have htext : x.value.Text value := hx ▸ text_bufferCopyString base.value value
  have hused : x.key.used ≠ 0 := by
    rw [hkey.used]
    omega
  have hxplain : x.Plain := hx ▸ ⟨hplain.named, hplain.response⟩
  obtain ⟨headers, hrun, htidy', hinserted⟩ := htidy.insert hused hxplain
  rw [← hx, hrun]
  refine ⟨headers, rfl, htidy', fun fields hfields => ?_⟩
  rw [← hsame] at hfields
  exact hfields.inserted htidy hinserted hkey htext

variable (stat) in
theorem sendfile2Loop_total (fuel : Nat) {pos : Bytes} (hpos : IsCStr pos) (st : FcgiParse) :
    (sendfile2Loop stat fuel pos st).Total
      (fun st' => st'.haveSendfile2 = st.haveSendfile2 ∧ SameHead st.con st'.con)
      (SameHead st.con) := by
  induction fuel generalizing pos st with
  | zero => exact ⟨rfl, rfl, rfl, rfl⟩
  | succ fuel ih =>
    unfold sendfile2Loop
    dsimp only
    have hdrop : IsCStr (pos.dropWhile (· == 32)) := fun h0 =>
      hpos ((List.dropWhile_sublist _).subset h0)
    generalize pos.dropWhile (· == 32) = pos at hdrop
    split
    · exact ⟨rfl, rfl, rfl, rfl⟩
    split
    · exact ⟨rfl, rfl, rfl⟩
    · next n _ =>
      have hname : IsCStr (pos.take n) := fun h0 => hdrop (List.take_subset _ _ h0)
      obtain ⟨behind, hptr⟩ := (text_bufferCopyStringLen st.con.tmpBuf (pos.take n)).ptr_eq
      obtain ⟨url, accesses, hdecode, -, -⟩ := bufferUrldecodeInternal_spec false hptr hname
      unfold bufferUrldecodePath
      rw [hdecode, Flow.ofOption_some, Flow.next_bind]
      dsimp only
      split
      · exact ⟨rfl, rfl, rfl⟩
      split
      · exact ⟨rfl, rfl, rfl⟩
      split
      · exact ⟨rfl, rfl, rfl⟩
      split
      · exact ⟨rfl, rfl, rfl⟩
      split
      · exact ⟨rfl, rfl, rfl⟩
      -- what is queued is a part of the body
      · generalize hcon : (if _ ≠ (0 : Int) then _ else _ : BackendConnection) = con
        have hsame : SameHead st.con con := by
          subst hcon
          split
          · exact ⟨rfl, rfl, rfl⟩
          · exact ⟨rfl, rfl, rfl⟩
        refine Flow.Total.mono (ih ?_ _) (fun st' h => ⟨h.1, hsame.trans h.2⟩)
          fun con' h => hsame.trans h
        have hblanks := (List.dropWhile_sublist fun x => x == 32).trans
          ((List.dropWhile_sublist fun c => c != 32 && c != 44).trans
            (List.drop_sublist (n + 1) pos))
        split
        · exact fun h0 => hdrop (((List.drop_sublist 1 _).trans hblanks).subset h0)
        · exact fun h0 => hdrop (hblanks.subset h0)

def Obeyed (allowXsendfile sendContentBody : Bool) (f : Bytes × Bytes) : Prop :=
  allowXsendfile = true ∧ NamedAs "X-Sendfile2" f ∧ sendContentBody = true

instance (allowXsendfile sendContentBody : Bool) (f : Bytes × Bytes) :
    Decidable (Obeyed allowXsendfile sendContentBody f) := inferInstanceAs (Decidable (_ ∧ _))

structure FieldEffect (allowXsendfile sendContentBody : Bool) (f : Bytes × Bytes)
    (st st' : FcgiParse) : Prop where
  headers : st'.con.response.headers = st.con.response.headers
  httpStatus : st'.con.httpStatus =
    if NamedAs "Status" f then (strtol f.2).1 else st.con.httpStatus
  status : st'.con.parsedResponse &&& HTTP_STATUS ≠ 0 ↔
    st.con.parsedResponse &&& HTTP_STATUS ≠ 0 ∨ NamedAs "Status" f
  location : st'.con.parsedResponse &&& HTTP_LOCATION ≠ 0 ↔
    st.con.parsedResponse &&& HTTP_LOCATION ≠ 0 ∨ NamedAs "Location" f
  haveSendfile2 : st'.haveSendfile2 = true ↔
    st.haveSendfile2 = true ∨ Obeyed allowXsendfile sendContentBody f
  unqueued : ¬ Obeyed allowXsendfile sendContentBody f →
    st'.con.writeQueue = st.con.writeQueue ∧
      st'.sendfile2ContentLength = st.sendfile2ContentLength

omit [Malloc] in
theorem NamedAs.unique {name : String} {f : Bytes × Bytes} (h : NamedAs name f) (other : String)
    (hne : foldName (ascii name) ≠ foldName (ascii other)) : ¬ NamedAs other f :=
  fun h' => hne (h.symm.trans h')

omit [Malloc] in
theorem flag_or {p flag bit : Nat} :
    (p ||| flag) &&& bit ≠ 0 ↔ p &&& bit ≠ 0 ∨ flag &&& bit ≠ 0 := by
  rw [Nat.and_or_distrib_right, Ne, Nat.or_eq_zero_iff]
  tauto

omit [Malloc] in
theorem fieldEffect_flag {f : Bytes × Bytes} {st' : FcgiParse} {flag : Nat}
    (hheaders : st'.con.response.headers = st.con.response.headers)
    (hstatus : st'.con.httpStatus =
      if NamedAs "Status" f then (strtol f.2).1 else st.con.httpStatus)
    (hparsed : st'.con.parsedResponse = st.con.parsedResponse ||| flag)
    (hflags : (flag &&& HTTP_STATUS ≠ 0 ↔ NamedAs "Status" f) ∧
      (flag &&& HTTP_LOCATION ≠ 0 ↔ NamedAs "Location" f))
    (hsendfile : st'.haveSendfile2 = true ↔
      st.haveSendfile2 = true ∨ Obeyed allowXsendfile sendContentBody f)
    (hqueue : ¬ Obeyed allowXsendfile sendContentBody f →
      st'.con.writeQueue = st.con.writeQueue ∧
        st'.sendfile2ContentLength = st.sendfile2ContentLength) :
    FieldEffect allowXsendfile sendContentBody f st st' := by
  refine ⟨hheaders, hstatus, ?_, ?_, hsendfile, hqueue⟩
  · rw [hparsed, flag_or, hflags.1]
  · rw [hparsed, flag_or, hflags.2]

theorem fcgiKnownField_obeyed {f : Bytes × Bytes} (hname : IsCStr f.1)
    (h : Obeyed allowXsendfile sendContentBody f) (st : FcgiParse) :
    fcgiKnownField stat allowXsendfile sendContentBody st f.1 f.2 =
      sendfile2Loop stat (f.2.length + 1) f.2 { st with haveSendfile2 := true } := by
  have hnamed : ∀ name, isFieldName f.1 name = true ↔ NamedAs name f := isFieldName_iff hname
  unfold fcgiKnownField
  simp only [hnamed]
  rw [if_neg (h.2.1.unique "Date" (by decide)), if_neg (h.2.1.unique "Status" (by decide)),
    if_neg (h.2.1.unique "Location" (by decide)), if_neg (h.2.1.unique "Connection" (by decide))]
  exact if_pos h

theorem fcgiKnownField_spec {f : Bytes × Bytes} (hname : IsCStr f.1) (hvalue : IsCStr f.2)
    (st : FcgiParse) :
    (fcgiKnownField stat allowXsendfile sendContentBody st f.1 f.2).Total
      (FieldEffect allowXsendfile sendContentBody f st)
      (fun con' => con'.response.headers = st.con.response.headers ∧
        Obeyed allowXsendfile sendContentBody f) := by
  have hnamed : ∀ name, isFieldName f.1 name = true ↔ NamedAs name f := isFieldName_iff hname
  have hkeep : ¬ NamedAs "X-Sendfile2" f → (st.haveSendfile2 = true ↔
      st.haveSendfile2 = true ∨ Obeyed allowXsendfile sendContentBody f) := by
    intro hno
    exact ⟨Or.inl, fun h => h.resolve_right fun hobeyed => hno hobeyed.2.1⟩
  unfold fcgiKnownField
  simp only [hnamed]
  by_cases hdate : NamedAs "Date" f
  · rw [if_pos hdate]
    have hstatus := hdate.unique "Status" (by decide)
    have hlocation := hdate.unique "Location" (by decide)
    refine fieldEffect_flag rfl (if_neg hstatus).symm rfl ?_ (hkeep ?_) fun _ => ⟨rfl, rfl⟩
    · exact ⟨iff_of_false (by decide) hstatus, iff_of_false (by decide) hlocation⟩
    · exact hdate.unique "X-Sendfile2" (by decide)
  rw [if_neg hdate]
  by_cases hstatus : NamedAs "Status" f
  · rw [if_pos hstatus]
    have hlocation := hstatus.unique "Location" (by decide)
    refine fieldEffect_flag rfl (if_pos hstatus).symm rfl ?_ (hkeep ?_) fun _ => ⟨rfl, rfl⟩
    · exact ⟨iff_of_true (by decide) hstatus, iff_of_false (by decide) hlocation⟩
    · exact hstatus.unique "X-Sendfile2" (by decide)
  rw [if_neg hstatus]
  by_cases hlocation : NamedAs "Location" f
  · rw [if_pos hlocation]
    refine fieldEffect_flag rfl (if_neg hstatus).symm rfl ?_ (hkeep ?_) fun _ => ⟨rfl, rfl⟩
    · exact ⟨iff_of_false (by decide) hstatus, iff_of_true (by decide) hlocation⟩
    · exact hlocation.unique "X-Sendfile2" (by decide)
  rw [if_neg hlocation]
  have hother : ∀ {flag : Nat}, flag &&& HTTP_STATUS = 0 → flag &&& HTTP_LOCATION = 0 →
      (flag &&& HTTP_STATUS ≠ 0 ↔ NamedAs "Status" f) ∧
        (flag &&& HTTP_LOCATION ≠ 0 ↔ NamedAs "Location" f) := fun hs hl =>
    ⟨iff_of_false (not_not_intro hs) hstatus, iff_of_false (not_not_intro hl) hlocation⟩
  by_cases hconnection : NamedAs "Connection" f
  · rw [if_pos hconnection]
    refine fieldEffect_flag rfl (if_neg hstatus).symm rfl (hother (by decide) (by decide))
      (hkeep ?_) fun _ => ⟨rfl, rfl⟩
    exact hconnection.unique "X-Sendfile2" (by decide)
  rw [if_neg hconnection]
  by_cases hobeyed : allowXsendfile = true ∧ NamedAs "X-Sendfile2" f ∧ sendContentBody = true
  · -- what is queued is no part of the header
    have hrun := sendfile2Loop_total stat (f.2.length + 1) hvalue
      { st with haveSendfile2 := true }
    rw [if_pos hobeyed]
    refine hrun.mono ?_ fun con' hsame => ⟨hsame.headers, hobeyed⟩
    rintro st' ⟨hsendfile, hsame⟩
    refine fieldEffect_flag hsame.headers (hsame.httpStatus.trans (if_neg hstatus).symm)
      (hsame.parsedResponse.trans (Nat.or_zero _).symm) (hother (by decide) (by decide)) ?_
      fun hno => absurd hobeyed hno
    exact iff_of_true hsendfile (Or.inr hobeyed)
  have hunsent : st.haveSendfile2 = true ↔
      st.haveSendfile2 = true ∨ Obeyed allowXsendfile sendContentBody f :=
    ⟨Or.inl, fun h => h.resolve_right hobeyed⟩
  rw [if_neg hobeyed]
  by_cases hlength : NamedAs "Content-Length" f
  · rw [if_pos hlength]
    exact fieldEffect_flag rfl (if_neg hstatus).symm rfl (hother (by decide) (by decide)) hunsent
      fun _ => ⟨rfl, rfl⟩
  · rw [if_neg hlength]
    exact fieldEffect_flag rfl (if_neg hstatus).symm (Nat.or_zero _).symm
      (hother (by decide) (by decide)) hunsent fun _ => ⟨rfl, rfl⟩

structure ParsedHeader (allowXsendfile sendContentBody : Bool) (con : BackendConnection)
    (fields done : List (Bytes × Bytes)) (st : FcgiParse) : Prop where
  tidy : st.con.response.headers.Tidy
  holds : HoldsFields st.con.response.headers.elements (fields ++ forwarded done)
  httpStatus : st.con.httpStatus = (statusNumber done).getD con.httpStatus
  status : st.con.parsedResponse &&& HTTP_STATUS ≠ 0 ↔
    con.parsedResponse &&& HTTP_STATUS ≠ 0 ∨ ∃ f ∈ done, NamedAs "Status" f
  location : st.con.parsedResponse &&& HTTP_LOCATION ≠ 0 ↔
    con.parsedResponse &&& HTTP_LOCATION ≠ 0 ∨ ∃ f ∈ done, NamedAs "Location" f
  haveSendfile2 : st.haveSendfile2 = true ↔
    ∃ f ∈ done, Obeyed allowXsendfile sendContentBody f

/-- The files of an `X-Sendfile2` are refused: the fields up to its line are inserted. -/
structure RefusedHeader (allowXsendfile sendContentBody : Bool) (fields all : List (Bytes × Bytes))
    (con : BackendConnection) : Prop where
  holds : ∃ done rest, all = done ++ rest ∧
    HoldsFields con.response.headers.elements (fields ++ forwarded done) ∧
      ∃ f ∈ done, Obeyed allowXsendfile sendContentBody f

omit [Malloc] in
theorem RefusedHeader.append {fields all : List (Bytes × Bytes)}
    (h : RefusedHeader allowXsendfile sendContentBody fields all con)
    (more : List (Bytes × Bytes)) :
    RefusedHeader allowXsendfile sendContentBody fields (all ++ more) con := by
  obtain ⟨done, rest, rfl, hdone⟩ := h
  exact ⟨done, rest ++ more, List.append_assoc .., hdone⟩

omit [Malloc] in
theorem exists_mem_append_singleton {α : Type} {p : α → Prop} {l : List α} {a : α} :
    (∃ x ∈ l ++ [a], p x) ↔ (∃ x ∈ l, p x) ∨ p a := by
  constructor
  · rintro ⟨x, hx, hp⟩
    rcases List.mem_append.mp hx with hx | hx
    · exact Or.inl ⟨x, hx, hp⟩
    · obtain rfl := List.mem_singleton.mp hx
      exact Or.inr hp
  · rintro (⟨x, hx, hp⟩ | hp)
    · exact ⟨x, List.mem_append_left _ hx, hp⟩
    · exact ⟨a, by simp, hp⟩

omit [Malloc] in
theorem statusNumber_append {done : List (Bytes × Bytes)} {f : Bytes × Bytes} :
    statusNumber (done ++ [f]) =
      if NamedAs "Status" f then some (strtol f.2).1 else statusNumber done := by
  unfold statusNumber
  rw [List.filter_append]
  by_cases h : NamedAs "Status" f
  · rw [if_pos h, List.filter_cons_of_pos (by simpa using h), List.filter_nil,
      List.getLast?_concat]
    rfl
  · rw [if_neg h, List.filter_cons_of_neg (by simpa using h), List.filter_nil, List.append_nil]

omit [Malloc] in
theorem forwarded_append {done : List (Bytes × Bytes)} {f : Bytes × Bytes} :
    forwarded (done ++ [f]) =
      if NamedAs "Status" f then forwarded done else forwarded done ++ [f] := by
  unfold forwarded
  rw [List.filter_append]
  by_cases h : NamedAs "Status" f
  · rw [if_pos h, List.filter_cons_of_neg (by simpa using h), List.filter_nil, List.append_nil]
  · rw [if_neg h, List.filter_cons_of_pos (by simpa using h), List.filter_nil]

theorem fieldInserted {fields done : List (Bytes × Bytes)} {f : Bytes × Bytes}
    (hmode : host.mode ≠ FCGI_AUTHORIZER) (hname : IsCStr f.1) (hfront : ¬ StatusFront f)
    (htidy : con.response.headers.Tidy)
    (hholds : HoldsFields con.response.headers.elements (fields ++ forwarded done)) :
    ∃ con', (∀ next : BackendConnection → FcgiParsing FcgiParse,
      (if (host.mode ≠ FCGI_AUTHORIZER ∨ ¬ con.Approved) ∧
          strncaseeq f.1.length f.1 (ascii "Status") = false then
        Flow.ofOption (insertResponseField con f.1 f.2) >>= next
      else Flow.next con >>= next) = next con') ∧
      con'.httpStatus = con.httpStatus ∧ con'.parsedResponse = con.parsedResponse ∧
        con'.response.headers.Tidy ∧
          HoldsFields con'.response.headers.elements (fields ++ forwarded (done ++ [f])) := by
  rw [forwarded_append]
  by_cases hstatus : NamedAs "Status" f
  · have hcase := (strncaseeq_front (t := ascii "Status") hname).mpr (hstatus ▸ List.prefix_rfl)
    rw [if_pos hstatus]
    refine ⟨con, fun next => ?_, rfl, rfl, htidy, hholds⟩
    rw [if_neg (by simp [hcase]), Flow.next_bind]
  · have hcase : strncaseeq f.1.length f.1 (ascii "Status") = false := by
      rw [← Bool.not_eq_true, strncaseeq_front hname]
      exact fun hpre => hfront ⟨hpre, hstatus⟩
    obtain ⟨headers, hrun, htidy', hinserted⟩ := insertResponseField_spec htidy f.1 f.2
    rw [if_neg hstatus, hrun]
    refine ⟨con.mapResponse fun r => { r with headers := headers }, fun next => ?_, rfl, rfl,
      htidy', ?_⟩
    · rw [if_pos ⟨Or.inl hmode, hcase⟩, Flow.ofOption_some, Flow.next_bind]
    · rw [← List.append_assoc]
      exact hinserted _ hholds

variable (stat host allowXsendfile sendContentBody) in
theorem fcgiResponseLine_none {s : Bytes} (hline : lineField s = none) (st : FcgiParse) :
    fcgiResponseLine stat host allowXsendfile sendContentBody st s = .next st := by
  unfold fcgiResponseLine
  rw [Option.map_eq_none_iff.mp hline]

variable (stat host allowXsendfile sendContentBody) in
theorem fcgiResponseLine_field {s : Bytes} {f : Bytes × Bytes} (hline : lineField s = some f)
    (htidy : st.con.response.headers.Tidy) :
    ∃ con, fcgiResponseLine stat host allowXsendfile sendContentBody st s =
        fcgiKnownField stat allowXsendfile sendContentBody { st with con := con } f.1 f.2 ∧
      con.response.headers.Tidy ∧ con.writeQueue = st.con.writeQueue := by
  obtain ⟨n, hcolon, rfl⟩ := Option.map_eq_some_iff.mp hline
  unfold fcgiResponseLine
  rw [hcolon]
  dsimp only
  split
  · obtain ⟨headers, hrun, htidy', -⟩ := insertResponseField_spec htidy (s.take n)
      ((s.drop (n + 1)).dropWhile fun c => c == 32 || c == 9)
    rw [hrun]
    exact ⟨_, rfl, htidy', rfl⟩
  · exact ⟨st.con, rfl, htidy, rfl⟩

variable (stat) in
theorem ParsedHeader.line {fields done : List (Bytes × Bytes)} {s : Bytes}
    (hmode : host.mode ≠ FCGI_AUTHORIZER) (hs : IsCStr s)
    (hfront : ∀ f, lineField s = some f → ¬ StatusFront f)
    (h : ParsedHeader allowXsendfile sendContentBody con fields done st) :
    (fcgiResponseLine stat host allowXsendfile sendContentBody st s).Total
      (ParsedHeader allowXsendfile sendContentBody con fields (done ++ (lineField s).toList))
      (RefusedHeader allowXsendfile sendContentBody fields (done ++ (lineField s).toList)) := by
  cases hline : lineField s with
  | none =>
    rw [fcgiResponseLine_none stat host allowXsendfile sendContentBody hline, Option.toList_none,
      List.append_nil]
    exact h
  | some f =>
    obtain ⟨n, hcolon, hf⟩ := Option.map_eq_some_iff.mp hline
    obtain ⟨hname, hvalue⟩ := isCStr_lineField hs hline
    obtain ⟨con', hinsert, hstatus, hparsed, htidy, hholds⟩ :=
      fieldInserted hmode hname (hfront f hline) h.tidy h.holds
    unfold fcgiResponseLine
    rw [hcolon]
    dsimp only
    rw [show s.take n = f.1 by rw [← hf],
      show ((s.drop (n + 1)).dropWhile fun c => c == 32 || c == 9) = f.2 by rw [← hf], hinsert,
      Option.toList_some]
    refine (fcgiKnownField_spec hname hvalue _).mono ?_ ?_
    · intro st' hknown
      refine ⟨hknown.headers ▸ htidy, hknown.headers ▸ hholds, ?_, ?_, ?_, ?_⟩
      · rw [hknown.httpStatus, statusNumber_append]
        split
        · rfl
        · exact hstatus.trans h.httpStatus
      · rw [hknown.status, exists_mem_append_singleton, ← or_assoc, ← h.status, hparsed]
      · rw [hknown.location, exists_mem_append_singleton, ← or_assoc, ← h.location, hparsed]
      · rw [hknown.haveSendfile2, exists_mem_append_singleton, ← h.haveSendfile2]
    · rintro con'' ⟨hheaders, hobeyed⟩
      exact ⟨done ++ [f], [], (List.append_nil _).symm, hheaders ▸ hholds, f, by simp, hobeyed⟩

variable (stat) in
theorem ParsedHeader.lines {fields : List (Bytes × Bytes)} (hmode : host.mode ≠ FCGI_AUTHORIZER)
    {ss : List Bytes} (hss : ∀ s ∈ ss, IsCStr s)
    (hfront : ∀ f ∈ ss.filterMap lineField, ¬ StatusFront f) {done : List (Bytes × Bytes)}
    (h : ParsedHeader allowXsendfile sendContentBody con fields done st) :
    (fcgiResponseLines stat host allowXsendfile sendContentBody ss st).Total
      (ParsedHeader allowXsendfile sendContentBody con fields (done ++ ss.filterMap lineField))
      (RefusedHeader allowXsendfile sendContentBody fields (done ++ ss.filterMap lineField)) := by
  induction ss generalizing done st with
  | nil =>
    rw [List.filterMap_nil, List.append_nil]
    exact h
  | cons s ss ih =>
    have hcons : done ++ (s :: ss).filterMap lineField =
        done ++ (lineField s).toList ++ ss.filterMap lineField := by
      rw [List.append_assoc, List.filterMap_cons]
      cases lineField s <;> rfl
    have hmem : ∀ f ∈ ss.filterMap lineField, f ∈ (s :: ss).filterMap lineField := by
      intro f hf
      obtain ⟨s', hs', hfield⟩ := List.mem_filterMap.mp hf
      exact List.mem_filterMap.mpr ⟨s', List.mem_cons_of_mem _ hs', hfield⟩
    have hline := h.line stat hmode (hss s List.mem_cons_self) fun f hf =>
      hfront f (List.mem_filterMap.mpr ⟨s, List.mem_cons_self, hf⟩)
    rw [hcons]
    unfold fcgiResponseLines
    refine (hline.mono (fun _ hst => hst) fun con' hcon => hcon.append _).bind ?_
    intro st' hst'
    exact ih (fun s' hs' => hss s' (List.mem_cons_of_mem _ hs'))
      (fun f hf => hfront f (hmem f hf)) hst'

structure WithLength (con : BackendConnection) (fields : List (Bytes × Bytes)) : Prop where
  holds : ∃ removed kept, (fields.map foldField).Perm ((removed ++ kept).map foldField) ∧
    (∀ f ∈ removed, NamedAs "Content-Length" f) ∧
      HoldsFields con.response.headers.elements
        (kept ++ [(ascii "Content-Length", decimal con.responseLength)])

theorem replaceLength_spec {headers rest : Arr DataString} {old : Option DataString}
    (htidy : headers.Tidy) (htake : arrayGetUnusedElement headers .string = (old, rest)) (v : Int) :
    ∃ headers' old', arrayReplace rest { old.getD (dataResponseInit 0) with
        key := bufferCopyStringLen (old.getD (dataResponseInit 0)).key
          (some (ascii "Content-Length"))
        value := bufferCopyOffT (old.getD (dataResponseInit 0)).value v } = some (headers', old') ∧
      (∃ ds ∈ headers'.elements,
        ds.key.Text (ascii "Content-Length") ∧ ds.value.Text (decimal v)) ∧
      ∀ fields, HoldsFields headers.elements fields → ∃ removed kept,
        (fields.map foldField).Perm ((removed ++ kept).map foldField) ∧
          (∀ f ∈ removed, NamedAs "Content-Length" f) ∧
            HoldsFields headers'.elements (kept ++ [(ascii "Content-Length", decimal v)]) := by
  obtain ⟨htidy', hsame, hplain⟩ := htidy.unused 0
  rw [htake] at htidy' hsame hplain
  dsimp only at htidy' hsame hplain
  generalize old.getD (dataResponseInit 0) = base at hplain
  obtain ⟨x, hx⟩ : ∃ x : DataString, x = { base with
      key := bufferCopyStringLen base.key (some (ascii "Content-Length"))
      value := bufferCopyOffT base.value v } := ⟨_, rfl⟩
  have hkey : x.key.Text (ascii "Content-Length") := hx ▸ text_bufferCopyStringLen base.key _
  have htext : x.value.Text (decimal v) := hx ▸ text_bufferAppendLong_shows (Or.inr ⟨rfl, rfl⟩) _
  have hused : x.key.used ≠ 0 := by
    rw [hkey.used]
    omega
  obtain ⟨headers', old', hrun, -, helements⟩ :=
    htidy'.replace hused (hx ▸ ⟨hplain.named, hplain.response⟩)
  have hmem : x ∈ headers'.elements := by
    rcases helements with ⟨pre, y, post, -, -, hreplaced⟩ | happended
    · rw [hreplaced]
      exact List.mem_append_right _ List.mem_cons_self
    · rw [happended]
      exact List.mem_append_right _ (List.mem_singleton_self x)
  rw [← hx]
  refine ⟨headers', old', hrun, ⟨x, hmem, hkey, htext⟩, fun fields hholds => ?_⟩
  rw [← hsame] at hholds
  exact hholds.replaced hkey htext helements

theorem sendfile2Length_spec (htidy : st.con.response.headers.Tidy) :
    ∃ con', sendfile2Length st = some con' ∧ con'.httpStatus = st.con.httpStatus ∧
      con'.parsedResponse = st.con.parsedResponse ||| HTTP_CONTENT_LENGTH ∧
        con'.writeQueue = st.con.writeQueue ∧ con'.responseLength = st.sendfile2ContentLength ∧
          (∃ ds ∈ con'.response.headers.elements, ds.key.Text (ascii "Content-Length") ∧
            ds.value.Text (decimal st.sendfile2ContentLength)) ∧
              ∀ fields, HoldsFields st.con.response.headers.elements fields →
                WithLength con' fields := by
  unfold sendfile2Length
  generalize htake : arrayGetUnusedElement st.con.response.headers .string = taken
  obtain ⟨old, rest⟩ := taken
  obtain ⟨headers, old', hrun, hlength, hfields⟩ :=
    replaceLength_spec htidy htake st.sendfile2ContentLength
  dsimp only
  rw [hrun]
  exact ⟨_, rfl, rfl, rfl, rfl, rfl, hlength, fun fields hholds => ⟨hfields fields hholds⟩⟩

def statusAfter (con : BackendConnection) (fields : List (Bytes × Bytes)) : Int :=
  match statusNumber fields with
  | some n => n
  | none =>
    if (con.parsedResponse &&& HTTP_LOCATION ≠ 0 ∨ ∃ f ∈ fields, NamedAs "Location" f) ∧
        con.parsedResponse &&& HTTP_STATUS = 0 then 302
    else con.httpStatus

omit [Malloc] in
theorem statusNumber_eq_none {fields : List (Bytes × Bytes)} :
    statusNumber fields = none ↔ ¬ ∃ f ∈ fields, NamedAs "Status" f := by
  unfold statusNumber
  rw [Option.map_eq_none_iff, List.getLast?_eq_none_iff, List.filter_eq_nil_iff]
  simp

omit [Malloc] in
theorem ParsedHeader.withLocation {fields done : List (Bytes × Bytes)}
    (h : ParsedHeader allowXsendfile sendContentBody con fields done st)
    (hstatus : con'.httpStatus = st.con.httpStatus)
    (hparsed : con'.parsedResponse &&& HTTP_STATUS = st.con.parsedResponse &&& HTTP_STATUS ∧
      con'.parsedResponse &&& HTTP_LOCATION = st.con.parsedResponse &&& HTTP_LOCATION) :
    con'.withLocation.httpStatus = statusAfter con done := by
  have hredirect : con'.parsedResponse &&& HTTP_LOCATION ≠ 0 ∧
      con'.parsedResponse &&& HTTP_STATUS = 0 ↔
        (con.parsedResponse &&& HTTP_LOCATION ≠ 0 ∨ ∃ f ∈ done, NamedAs "Location" f) ∧
          con.parsedResponse &&& HTTP_STATUS = 0 ∧ ¬ ∃ f ∈ done, NamedAs "Status" f := by
    have hno := not_congr h.status
    rw [not_or, not_not, not_not] at hno
    rw [hparsed.1, hparsed.2, h.location, hno]
  unfold BackendConnection.withLocation statusAfter
  cases hnumber : statusNumber done with
  | some n =>
    have hfield : ∃ f ∈ done, NamedAs "Status" f := by
      by_contra hno
      rw [statusNumber_eq_none.mpr hno] at hnumber
      nomatch hnumber
    rw [if_neg fun hr => (hredirect.mp hr).2.2 hfield, hstatus, h.httpStatus, hnumber]
    rfl
  | none =>
    have hno := statusNumber_eq_none.mp hnumber
    have hsame : con'.httpStatus = con.httpStatus := by
      rw [hstatus, h.httpStatus, hnumber]
      rfl
    dsimp only
    by_cases hr : (con.parsedResponse &&& HTTP_LOCATION ≠ 0 ∨ ∃ f ∈ done, NamedAs "Location" f) ∧
        con.parsedResponse &&& HTTP_STATUS = 0
    · rw [if_pos (hredirect.mpr ⟨hr.1, hr.2, hno⟩), if_pos hr]
    · rw [if_neg fun h' => hr ⟨(hredirect.mp h').1, (hredirect.mp h').2.1⟩, if_neg hr]
      exact hsame

omit [Malloc] in
theorem withLocation_kept (con : BackendConnection) :
    con.withLocation.response = con.response ∧
      con.withLocation.responseLength = con.responseLength ∧
        con.withLocation.writeQueue = con.writeQueue := by
  unfold BackendConnection.withLocation
  split
  · exact ⟨rfl, rfl, rfl⟩
  · exact ⟨rfl, rfl, rfl⟩

variable (stat allowXsendfile) in
/-- **The header of a responder is in the response.** -/
theorem fcgiResponseParse_fields (ans : FcgiAnswer) {input : Buffer} {t : Bytes}
    {fields : List (Bytes × Bytes)} (hmode : host.mode ≠ FCGI_AUTHORIZER) (hused : input.used ≠ 0)
    (htext : input.ptr.take (input.used - 1) = t) (ht : IsCStr t)
    (hfront : ∀ f ∈ blockFields t, ¬ StatusFront f)
    (htidy : ans.hctx.remoteConn.response.headers.Tidy)
    (hholds : HoldsFields ans.hctx.remoteConn.response.headers.elements fields) :
    ∃ ans' ok, fcgiResponseParse stat host allowXsendfile ans input = some (ans', ok) ∧
      let obeyed := ∃ f ∈ blockFields t, Obeyed allowXsendfile ans.hctx.sendContentBody f
      (ok = false → RefusedHeader allowXsendfile ans.hctx.sendContentBody fields (blockFields t)
        ans'.hctx.remoteConn) ∧
      (ok = true →
        ans'.hctx.remoteConn.httpStatus = statusAfter ans.hctx.remoteConn (blockFields t) ∧
        (obeyed → WithLength ans'.hctx.remoteConn (fields ++ forwarded (blockFields t))) ∧
        (¬ obeyed → HoldsFields ans'.hctx.remoteConn.response.headers.elements
          (fields ++ forwarded (blockFields t)))) := by
  obtain ⟨con, hcon⟩ : ∃ con, con = ans.hctx.remoteConn := ⟨_, rfl⟩
  have hcopy : (bufferCopyStringBuffer ans.parseResponse input).str = t := by
    unfold bufferCopyStringBuffer
    rw [if_neg hused, htext]
    exact (text_bufferCopyStringLen ans.parseResponse t).str ht
  have hss : ∀ s ∈ blockLines t, IsCStr s := fun s hs h0 => ht (mem_of_mem_blockLines hs h0)
  rw [← hcon] at htidy hholds ⊢
  have hstart : ParsedHeader allowXsendfile ans.hctx.sendContentBody con fields []
      ⟨con, false, 0⟩ := by
    refine ⟨htidy, ?_, rfl, ?_, ?_, ?_⟩
    · rw [forwarded, List.filter_nil, List.append_nil]
      exact hholds
    · simp
    · simp
    · simp
  have hlines := hstart.lines stat hmode hss hfront
  rw [List.nil_append] at hlines
  unfold fcgiResponseParse
  dsimp only
  rw [hcopy, responseLines_eq (Nat.lt_succ_self _), ← hcon]
  generalize hrun : fcgiResponseLines stat host allowXsendfile ans.hctx.sendContentBody
    (blockLines t) ⟨con, false, 0⟩ = run at hlines
  cases run with
  | fault => exact hlines.elim
  | ret con' =>
    refine ⟨_, false, rfl, fun _ => hlines, ?_⟩
    intro hok
    nomatch hok
  | next st =>
    have hst : ParsedHeader allowXsendfile ans.hctx.sendContentBody con fields (blockFields t) st :=
      hlines
    dsimp only
    unfold fcgiResponseEnd
    by_cases hsent : st.haveSendfile2 = true
    · obtain ⟨con', hlength, hstatus, hparsed, -, -, -, hwith⟩ := sendfile2Length_spec hst.tidy
      rw [if_pos hsent, hlength]
      refine ⟨_, true, rfl, nofun, fun _ => ⟨?_, fun _ => ?_, ?_⟩⟩
      · refine hst.withLocation hstatus ⟨?_, ?_⟩
        · rw [hparsed, Nat.and_or_distrib_right]
          exact Nat.or_zero _
        · rw [hparsed, Nat.and_or_distrib_right]
          exact Nat.or_zero _
      · obtain ⟨hresponse, hlen, -⟩ := withLocation_kept con'
        obtain ⟨removed, kept, hfields⟩ := hwith _ hst.holds
        refine ⟨removed, kept, ?_⟩
        dsimp only
        rw [hresponse, hlen]
        exact hfields
      · intro hno
        exact (hno (hst.haveSendfile2.mp hsent)).elim
    · rw [if_neg hsent]
      refine ⟨_, true, rfl, nofun, fun _ => ⟨hst.withLocation rfl ⟨rfl, rfl⟩, ?_, fun _ => ?_⟩⟩
      · intro hobeyed
        exact (hsent (hst.haveSendfile2.mpr hobeyed)).elim
      · dsimp only
        rw [(withLocation_kept st.con).1]
        exact hst.holds

end Parser

section Examples

def filesOf (size : Int) (name : Buffer) : Option StatCacheEntry :=
  some ⟨name, bufferInit, ⟨0o100644, 1, size, 0⟩, 0, false, bufferInit⟩

theorem tidy_arrayInit : (arrayInit : Arr DataString).Tidy := by
  refine ⟨.of_used_zero rfl, ⟨0, rfl⟩, ?_⟩
  intro i ds hds
  cases hds

theorem holdsFields_nil : HoldsFields [] [] := by
  refine ⟨[], List.Forall₂.nil, List.Perm.refl _, ?_⟩
  intro g hg
  cases hg

def redirectBlock : Bytes := ascii "Location: /a\r\nset-cookie: b\nSet-Cookie: c\r\n"

theorem fcgiResponseParse_fields_redirect : ∃ ans',
    @fcgiResponseParse zeroMalloc (fun _ => none) childHost false waitingAnswer
      (textBuffer redirectBlock) = some (ans', true) ∧
    ans'.hctx.remoteConn.httpStatus = 302 ∧
      HoldsFields ans'.hctx.remoteConn.response.headers.elements
        [(ascii "Location", ascii "/a"), (ascii "set-cookie", ascii "b"),
          (ascii "Set-Cookie", ascii "c")] := by
  let _ : Malloc := zeroMalloc
  have hmode : childHost.mode ≠ FCGI_AUTHORIZER := by decide
  have htext := text_textBuffer redirectBlock
  have hblock : blockFields redirectBlock = [(ascii "Location", ascii "/a"),
      (ascii "set-cookie", ascii "b"), (ascii "Set-Cookie", ascii "c")] := by decide +kernel
  obtain ⟨ans', ok, hrun, hrefused, hdone⟩ := fcgiResponseParse_fields (fun _ => none) false
    waitingAnswer hmode (by decide) (take_of_holds htext.holds htext.used) (by decide +kernel)
    (by rw [hblock]; decide +kernel) tidy_arrayInit holdsFields_nil
  have hno : ¬ ∃ f ∈ blockFields redirectBlock,
      Obeyed false waitingAnswer.hctx.sendContentBody f := fun ⟨f, _, hf⟩ => nomatch hf.1
  cases ok with
  | false =>
    obtain ⟨done, rest, -, -, f, -, hf⟩ := hrefused rfl
    nomatch hf.1
  | true =>
    obtain ⟨hstatus, -, hholds⟩ := hdone rfl
    refine ⟨ans', hrun, hstatus.trans ?_, ?_⟩
    · rw [hblock]
      decide +kernel
    · have hfields := hholds hno
      rw [hblock] at hfields
      exact hfields

def fileBlock : Bytes := ascii "X-Sendfile2: /f 0-0\n"

/-- The length of the file is no field of the block. -/
theorem not_holdsFields_file : ∃ ans',
    @fcgiResponseParse zeroMalloc (filesOf 1) childHost true waitingAnswer
      (textBuffer fileBlock) = some (ans', true) ∧
    ¬ HoldsFields ans'.hctx.remoteConn.response.headers.elements
      (forwarded (blockFields fileBlock)) := by
  have hlength : (@fcgiResponseParse zeroMalloc (filesOf 1) childHost true waitingAnswer
      (textBuffer fileBlock)).map (fun r => (r.2,
        decide (∃ ds ∈ r.1.hctx.remoteConn.response.headers.elements,
          ds.key.bytes = ascii "Content-Length" ++ [0] ∧ ds.key.used = 15))) =
      some (true, true) := by decide +kernel
  obtain ⟨⟨ans', ok⟩, hrun, hpair⟩ := Option.map_eq_some_iff.mp hlength
  obtain ⟨rfl, hfound⟩ := Prod.mk.inj hpair
  obtain ⟨ds, hds, hbytes, hused⟩ := of_decide_eq_true hfound
  refine ⟨ans', hrun, fun hholds => ?_⟩
  obtain ⟨f, hf, hname⟩ := hholds.name_mem hds ⟨hbytes, hused⟩
  have hblock : ∀ f ∈ forwarded (blockFields fileBlock), f.1 ≠ ascii "Content-Length" := by
    decide +kernel
  exact hblock f hf hname

end Examples

end Lighttpd
