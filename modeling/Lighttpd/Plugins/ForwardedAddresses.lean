import Lighttpd.ArrayHistory
import Lighttpd.CaselessOrder
import Lighttpd.Plugins.Extforward
import Mathlib.Data.List.Forall2

/-!
# The addresses in `X-Forwarded-For`

`extract_forward_array` takes digits, dots and colons for the characters of an address, which begins
with a digit. So it yields the addresses of a list exactly if they are all of this kind: no other
IPv6 address survives (`picksAddresses_iff`).
-/

namespace Lighttpd

open CLib

section Code

variable [Malloc]

/-- `put_string_into_array_len`: the element gets a key from the array. -/
def putStringIntoArrayLen (ary : Arr DataString) (str : Bytes) : Option (Arr DataString) :=
  if str.length = 0 then some ary
  else
    let tempdata := dataStringInit 0
    arrayInsertUnique ary
      { tempdata with value := bufferCopyStringLen tempdata.value (some str) }

/-- The array that `extract_forward_array` gives back. -/
def extractedArray (pbuffer : Buffer) : Option (Arr DataString) :=
  (extractForwardArray pbuffer).foldlM putStringIntoArrayLen arrayInit

/-- `last_not_in_array`, over the elements of the array. -/
def lastNotInExtracted (forwarder a : Arr DataString) : Option (Option Bytes) :=
  lastNotIn forwarder (a.elements.map fun ds => ds.value.str).reverse

def isForwarder (forwarder : Arr DataString) (ip : Bytes) : Bool :=
  (arrayGetElement forwarder ip).any Option.isSome

end Code

/-! ## What is listed -/

def isListSeparator (c : UInt8) : Bool := c == 44 || c == 32 || c == 9

def listedAddresses (text : Bytes) : List Bytes :=
  (text.splitOnP isListSeparator).filter fun ip => ip ≠ []

def isAddressDigit (c : UInt8) : Bool := 48 ≤ c && c ≤ 57

def isScanned (c : UInt8) : Bool := isAddressDigit c || c == 46 || c == 58

/-- The address begins with a digit, and has only digits, dots and colons. -/
def Scannable (ip : Bytes) : Prop := ip.head?.any isAddressDigit = true ∧ ip.all isScanned = true

instance (ip : Bytes) : Decidable (Scannable ip) := inferInstanceAs (Decidable (_ ∧ _))

/-! ## The scanner -/

theorem extractForward_none (c : UInt8) (cs : Bytes) : extractForward none (c :: cs) =
    if isAddressDigit c = true then extractForward (some [c]) cs else extractForward none cs := by
  have hcond : (48 ≤ c ∧ c ≤ 57) ↔ isAddressDigit c = true := by
    unfold isAddressDigit
    rw [Bool.and_eq_true, decide_eq_true_iff, decide_eq_true_iff]
  rw [extractForward]
  by_cases h : isAddressDigit c = true
  · rw [if_pos (hcond.mpr h), if_pos h]
  · rw [if_neg (h ∘ hcond.mp), if_neg h]

theorem extractForward_some (str : Bytes) (c : UInt8) (cs : Bytes) :
    extractForward (some str) (c :: cs) =
      if isScanned c = true then extractForward (some (str ++ [c])) cs
      else str :: extractForward none cs := by
  have hcond : (¬ (48 ≤ c ∧ c ≤ 57) ∧ c ≠ 46 ∧ c ≠ 58) ↔ ¬ isScanned c = true := by
    unfold isScanned isAddressDigit
    simp only [Bool.or_eq_true, Bool.and_eq_true, decide_eq_true_iff, beq_iff_eq]
    tauto
  rw [extractForward]
  by_cases h : isScanned c = true
  · rw [if_neg (not_not.mpr h ∘ hcond.mp), if_pos h]
  · rw [if_pos (hcond.mpr h), if_neg h]

theorem extractForward_append {sep : UInt8} (hsep : isScanned sep = false) (a rest : Bytes)
    (st : Option Bytes) :
    extractForward st (a ++ sep :: rest) = extractForward st a ++ extractForward none rest := by
  have hdigit : isAddressDigit sep = false := by
    unfold isScanned at hsep
    rw [Bool.or_eq_false_iff, Bool.or_eq_false_iff] at hsep
    exact hsep.1.1
  induction a generalizing st with
  | nil =>
    cases st with
    | none =>
      rw [List.nil_append, extractForward_none, if_neg (by simp [hdigit])]
      rfl
    | some str =>
      rw [List.nil_append, extractForward_some, if_neg (by simp [hsep])]
      rfl
  | cons c a ih =>
    cases st with
    | none =>
      rw [List.cons_append, extractForward_none, extractForward_none]
      split
      · exact ih _
      · exact ih _
    | some str =>
      rw [List.cons_append, extractForward_some, extractForward_some]
      split
      · exact ih _
      · rw [ih, List.cons_append]

theorem extractForward_scanned {ip : Bytes} (h : ip.all isScanned = true) (str : Bytes) :
    extractForward (some str) ip = [str ++ ip] := by
  induction ip generalizing str with
  | nil =>
    rw [List.append_nil]
    rfl
  | cons c ip ih =>
    rw [List.all_cons, Bool.and_eq_true] at h
    rw [extractForward_some, if_pos h.1, ih h.2, List.append_assoc]
    rfl

theorem extractForward_scannable {ip : Bytes} (h : Scannable ip) :
    extractForward none ip = [ip] := by
  obtain ⟨hhead, hall⟩ := h
  cases ip with
  | nil => nomatch hhead
  | cons c ip =>
    rw [List.all_cons, Bool.and_eq_true] at hall
    rw [extractForward_none, if_pos (by simpa using hhead), extractForward_scanned hall.2]
    rfl

theorem scannable_of_extracted {st : Option Bytes} (hst : ∀ str ∈ st, Scannable str)
    {text ip : Bytes} (h : ip ∈ extractForward st text) : Scannable ip := by
  induction text generalizing st with
  | nil =>
    cases st with
    | none => nomatch h
    | some str =>
      obtain rfl := List.mem_singleton.mp h
      exact hst ip rfl
  | cons c text ih =>
    cases st with
    | none =>
      rw [extractForward_none] at h
      split at h
      · next hdigit =>
        refine ih (fun str hstr => ?_) h
        obtain rfl := Option.some.inj hstr
        exact ⟨by simpa using hdigit, by simp [isScanned, hdigit]⟩
      · exact ih hst h
    | some str =>
      obtain ⟨hhead, hall⟩ := hst str rfl
      rw [extractForward_some] at h
      split at h
      · next hscan =>
        refine ih (fun str' hstr' => ?_) h
        obtain rfl := Option.some.inj hstr'
        refine ⟨?_, by simp [hall, hscan]⟩
        cases str with
        | nil => nomatch hhead
        | cons d str => exact hhead
      · rcases List.mem_cons.mp h with rfl | h
        · exact ⟨hhead, hall⟩
        · exact ih (fun _ hnone => absurd hnone (Option.not_mem_none _)) h

theorem extractForward_list (text : Bytes) {front : Bytes}
    (hfront : ∀ c ∈ front, isListSeparator c = false) : extractForward none (front ++ text) =
      ((front ++ text).splitOnP isListSeparator).flatMap (extractForward none) := by
  induction text generalizing front with
  | nil =>
    rw [List.append_nil, List.splitOnP_eq_singleton hfront, List.flatMap_singleton]
  | cons c text ih =>
    by_cases hsep : isListSeparator c = true
    · have hscan : isScanned c = false := by
        unfold isListSeparator at hsep
        simp only [Bool.or_eq_true, beq_iff_eq] at hsep
        rcases hsep with (rfl | rfl) | rfl
        · rfl
        · rfl
        · rfl
      have hrest := @ih [] (List.forall_mem_nil _)
      rw [extractForward_append hscan, List.splitOnP_append_cons_of_forall_mem hfront c hsep,
        List.flatMap_cons]
      exact congrArg _ hrest
    · have hnext := @ih (front ++ [c]) fun d hd => by
        rcases List.mem_append.mp hd with hd | hd
        · exact hfront d hd
        · rw [List.mem_singleton.mp hd]
          exact Bool.not_eq_true _ ▸ hsep
      rw [List.append_assoc, List.singleton_append] at hnext
      exact hnext

/-- **The scanner gives the addresses exactly if it can take each as a whole.** -/
theorem extractForward_eq_listed_iff (text : Bytes) :
    extractForward none text = listedAddresses text ↔
      ∀ ip ∈ listedAddresses text, Scannable ip := by
  constructor
  · intro heq ip hip
    rw [← heq] at hip
    exact scannable_of_extracted (fun _ hnone => absurd hnone (Option.not_mem_none _)) hip
  · intro hall
    have hpieces := @extractForward_list text [] (List.forall_mem_nil _)
    rw [List.nil_append] at hpieces
    unfold listedAddresses at hall ⊢
    rw [hpieces]
    generalize text.splitOnP isListSeparator = pieces at hall
    induction pieces with
    | nil => rfl
    | cons ip pieces ih =>
      rw [List.flatMap_cons]
      by_cases hip : ip = []
      · rw [List.filter_cons_of_neg (by simp [hip])] at hall ⊢
        rw [hip, ih hall]
        rfl
      · rw [List.filter_cons_of_pos (by simp [hip])] at hall ⊢
        obtain ⟨hscan, hrest⟩ := List.forall_mem_cons.mp hall
        rw [extractForward_scannable hscan, ih hrest]
        rfl

/-! ## The array -/

def IndexKey (key : Bytes) : Prop := ∀ c ∈ key, ¬ betweenByte c

/-- The array holds the strings, under keys that it has made up. -/
structure HoldsStrings [Malloc] (ary : Arr DataString) (strs : List Bytes) : Prop where
  ordered : ary.Ordered IndexKey
  values : List.Forall₂ (fun ds str => ds.value.Text str) ary.elements strs
  keys : ∀ ds ∈ ary.elements, ∃ k < ary.uniqueNdx, ds.key.Text (decimal k)

section Arrays

variable [Malloc] {ary : Arr DataString} {strs : List Bytes}

theorem HoldsStrings.put (h : HoldsStrings ary strs) {str : Bytes} (hne : str ≠ []) :
    ∃ ary', putStringIntoArrayLen ary str = some ary' ∧ HoldsStrings ary' (strs ++ [str]) := by
  unfold putStringIntoArrayLen
  rw [if_neg (by simpa using hne)]
  generalize hx : ({ dataStringInit 0 with
    value := bufferCopyStringLen (dataStringInit 0).value (some str) } : DataString) = x
  have hensured : ensureKey ary x = ({ ary with uniqueNdx := ary.uniqueNdx + 1 },
      { x with key := bufferCopyLong x.key ary.uniqueNdx, isIndexKey := true }) :=
    if_pos (Or.inl (hx ▸ rfl))
  have hordered := h.ordered.ensureKey preorderOn_notBetween (x := x)
  obtain ⟨b, hb⟩ : ∃ b : Arr DataString, b = { ary with uniqueNdx := ary.uniqueNdx + 1 } := ⟨_, rfl⟩
  obtain ⟨z, hz⟩ : ∃ z : DataString, z = { x with
      key := bufferCopyLong x.key ary.uniqueNdx, isIndexKey := true } := ⟨_, rfl⟩
  have hkey : z.key.Text (decimal ary.uniqueNdx) := hz ▸
    text_bufferAppendLong_shows (Or.inr ⟨rfl, rfl⟩) _
  have hvalue : z.value.Text str := hz ▸ hx ▸ text_bufferCopyStringLen _ str
  have helements : b.elements = ary.elements := hb ▸ rfl
  rw [← hb, ← hz] at hensured
  rw [hensured] at hordered
  have hindex : IndexKey (decimal ary.uniqueNdx ++ [0]) := by
    intro c hc
    rcases List.mem_append.mp hc with hc | hc
    · exact notBetween_decimal _ c hc
    · obtain rfl := List.mem_singleton.mp hc
      unfold betweenByte
      decide
  obtain ⟨found, pos, hget, hfound, hmiss⟩ :=
    arrayGetIndex_ordered preorderOn_notBetween hordered hindex
  -- the number of the array was in no key yet
  have hnone : found = none := by
    cases found with
    | none => rfl
    | some ndx =>
      obtain ⟨y, hlive, hequal⟩ := (hfound ndx).mp rfl
      obtain ⟨k, hk, hyk⟩ := h.keys y (helements ▸ Arr.mem_elements.mpr ⟨ndx, hlive⟩)
      have hfold := (compare_names hkey hyk).mp (by rw [keyBytes_of_text hkey]; exact hequal)
      rw [foldName_decimal, foldName_decimal] at hfold
      have := decimal_injective hfold
      omega
  rw [hnone] at hget hmiss
  obtain ⟨ary', hinsert, hordered'⟩ := hmiss rfl z hkey.holds
  obtain ⟨hused, hslot, hwf⟩ := insertNew_spec hordered.wf hinsert
  have happended : ary'.elements = ary.elements ++ [z] := by
    rw [← helements]
    exact elements_appended hordered.wf hused hslot hwf
  refine ⟨ary', ?_, hordered', ?_, ?_⟩
  · unfold arrayInsertUnique
    dsimp only
    rw [hx, hensured]
    dsimp only
    rw [show (DataUnset.key z).bytes = decimal ary.uniqueNdx ++ [0] from hkey.holds, hget]
    exact hinsert
  · rw [happended]
    exact List.rel_append h.values (List.Forall₂.cons hvalue List.Forall₂.nil)
  · rw [happended, uniqueNdx_insertNew hinsert, hb]
    intro ds hds
    rcases List.mem_append.mp hds with hds | hds
    · obtain ⟨k, hk, hdsk⟩ := h.keys ds hds
      exact ⟨k, Nat.lt_succ_of_lt hk, hdsk⟩
    · rw [List.mem_singleton.mp hds]
      exact ⟨ary.uniqueNdx, Nat.lt_succ_self _, hkey⟩

theorem holdsStrings_init : HoldsStrings arrayInit [] := by
  refine ⟨.used_zero rfl ⟨0, rfl⟩, List.Forall₂.nil, ?_⟩
  intro ds hds
  nomatch hds

theorem HoldsStrings.putAll (h : HoldsStrings ary strs) {more : List Bytes}
    (hne : ∀ str ∈ more, str ≠ []) :
    ∃ ary', more.foldlM putStringIntoArrayLen ary = some ary' ∧
      HoldsStrings ary' (strs ++ more) := by
  induction more generalizing ary strs with
  | nil => exact ⟨ary, rfl, by rw [List.append_nil]; exact h⟩
  | cons str more ih =>
    obtain ⟨hstr, hmore⟩ := List.forall_mem_cons.mp hne
    obtain ⟨ary', hput, h'⟩ := h.put hstr
    obtain ⟨ary'', hrun, h''⟩ := ih h' hmore
    rw [List.append_assoc] at h''
    refine ⟨ary'', ?_, h''⟩
    rw [List.foldlM_cons, hput]
    exact hrun

theorem lastNotIn_find {forwarder : Arr DataString} (hwf : forwarder.WF) (ips : List Bytes) :
    lastNotIn forwarder ips = some (ips.find? fun ip => !isForwarder forwarder ip) := by
  induction ips with
  | nil => rfl
  | cons ip ips ih =>
    obtain ⟨found, hfound, -⟩ := arrayGetElement_spec hwf ip
    unfold lastNotIn
    rw [hfound, Option.bind_eq_bind, Option.bind_some]
    have hcode : isForwarder forwarder ip = found.isSome := by
      unfold isForwarder
      rw [hfound]
      rfl
    cases found with
    | none => rw [List.find?_cons_of_pos (by rw [hcode]; rfl)]
    | some ds => rw [List.find?_cons_of_neg (by simp [hcode]), ← ih]

end Arrays

/-- The addresses are in the array, and the last of them that is no proxy is picked. -/
def PicksAddresses [Malloc] (forwarder : Arr DataString) (pbuffer : Buffer) (ips : List Bytes) :
    Prop :=
  ∃ a, extractedArray pbuffer = some a ∧
    List.Forall₂ (fun ds ip => ds.value.Text ip) a.elements ips ∧
      lastNotInExtracted forwarder a =
        some (ips.reverse.find? fun ip => !isForwarder forwarder ip)

theorem Scannable.isCStr {ip : Bytes} (h : Scannable ip) : IsCStr ip := fun h0 =>
  absurd (List.all_eq_true.mp h.2 0 h0) (by decide)

theorem map_str {elements : List DataString} {ips : List Bytes}
    (h : List.Forall₂ (fun ds ip => ds.value.Text ip) elements ips) (hips : ∀ ip ∈ ips, IsCStr ip) :
    elements.map (fun ds => ds.value.str) = ips := by
  induction h with
  | nil => rfl
  | cons hvalue _ ih =>
    obtain ⟨hip, hrest⟩ := List.forall_mem_cons.mp hips
    rw [List.map_cons, hvalue.str hip, ih hrest]

section List

variable [Malloc]

/-- **The addresses of a list are found exactly if the scanner can take each as a whole.** -/
theorem picksAddresses_iff {forwarder : Arr DataString} (hwf : forwarder.WF) {pbuffer : Buffer}
    {text : Bytes} (htext : pbuffer.Text text) (hstr : IsCStr text) :
    PicksAddresses forwarder pbuffer (listedAddresses text) ↔
      ∀ ip ∈ listedAddresses text, Scannable ip := by
  have hextract : extractForwardArray pbuffer = extractForward none text := by
    unfold extractForwardArray
    rw [if_pos (by rw [htext.used]; omega), htext.str hstr]
  have hne : ∀ ip ∈ extractForward none text, ip ≠ [] := by
    rintro ip hip rfl
    nomatch (scannable_of_extracted (fun _ hnone => absurd hnone (Option.not_mem_none _)) hip).1
  obtain ⟨ary, hrun, hstrings⟩ := holdsStrings_init.putAll hne
  rw [← extractForward_eq_listed_iff]
  unfold PicksAddresses extractedArray
  rw [hextract, hrun]
  constructor
  · rintro ⟨a, heq, hvalues, -⟩
    obtain rfl := Option.some.inj heq
    exact List.right_unique_forall₂' (fun _ _ _ h h' => h.unique h') hstrings.values hvalues
  · intro hlisted
    have hall := (extractForward_eq_listed_iff text).mp hlisted
    rw [← hlisted] at hall ⊢
    refine ⟨ary, rfl, hstrings.values, ?_⟩
    unfold lastNotInExtracted
    rw [map_str hstrings.values fun ip hip => (hall ip hip).isCStr, List.nil_append,
      lastNotIn_find hwf]

end List

/-! ## Two lists -/

theorem picksAddresses_iff_v4 : @PicksAddresses zeroMalloc (oneString (ascii "10.0.0.1") [])
    (textBuffer (ascii "1.2.3.4, 10.0.0.1")) [ascii "1.2.3.4", ascii "10.0.0.1"] := by
  let _ : Malloc := zeroMalloc
  have hlisted : listedAddresses (ascii "1.2.3.4, 10.0.0.1") =
      [ascii "1.2.3.4", ascii "10.0.0.1"] := by decide +kernel
  rw [← hlisted]
  exact (picksAddresses_iff (oneString_wf _ _) (text_textBuffer _) (by decide)).mpr
    (by rw [hlisted]; decide)

/-- The letters of an IPv6 address end it. -/
theorem not_picksAddresses_v6 : ¬ @PicksAddresses zeroMalloc arrayInit
    (textBuffer (ascii "2001:db8::1")) (listedAddresses (ascii "2001:db8::1")) := by
  let _ : Malloc := zeroMalloc
  have hlisted : listedAddresses (ascii "2001:db8::1") = [ascii "2001:db8::1"] := by decide +kernel
  have htwo : (extractedArray (textBuffer (ascii "2001:db8::1"))).map (·.elements.length) =
      some 2 := by decide +kernel
  rintro ⟨a, hrun, hvalues, -⟩
  have hlength := hvalues.length_eq
  rw [hrun] at htwo
  have htwo' : a.elements.length = 2 := Option.some.inj htwo
  rw [hlisted, htwo'] at hlength
  nomatch hlength

end Lighttpd
