import Lighttpd.ArrayHistory
import Lighttpd.CaselessOrder
import Lighttpd.Request.Parse
import Mathlib.Data.List.Forall2

/-!
# `mod_evhost.c`: the parts of a host name

`mod_evhost_parse_host` walks over the host from the right, first for the domain with its top level
(`%0`), then for each label (`%1`, `%2`, ..).
-/

namespace Lighttpd

open CLib

/-! ## `mod_evhost_parse_host` -/

/-- The loop that looks for the domain, from the position on down: where it ends, and the end of the
name. -/
def evhostDomain (s : Bytes) : Nat → Nat → Bool → Nat × Nat
  | 0, colon, _ => (0, colon)
  | ptr + 1, colon, first =>
    if s[ptr + 1]? = some 46 then
      if first then evhostDomain s ptr colon false else (ptr + 1, colon)
    else if s[ptr + 1]? = some 58 then evhostDomain s ptr (ptr + 1) true
    else evhostDomain s ptr colon first

section Code

variable [Malloc]

def insertHostPart (host : Arr DataString) (key : Buffer → Buffer) (value : Bytes) :
    Option (Arr DataString) :=
  let ds := dataStringInit 0
  arrayInsertUnique host
    { ds with key := key ds.key, value := bufferCopyStringLen ds.value (some value) }

def labelKey (i : Nat) (key : Buffer) : Buffer :=
  bufferAppendLong (bufferCopyStringLen key (some (ascii "%"))) i

/-- The loop over the labels, from the position on down: where the last label ends, its number and
the parts in front of it. -/
def evhostLabels (s : Bytes) :
    Nat → Nat → Nat → Arr DataString → Option (Nat × Nat × Arr DataString)
  | 0, colon, i, host => some (colon, i, host)
  | ptr + 1, colon, i, host =>
    if s[ptr + 1]? = some 46 then
      if ptr + 1 ≠ colon - 1 then do
        let host ← insertHostPart host (labelKey i) (slice s (ptr + 2) colon)
        evhostLabels s ptr (ptr + 1) (i + 1) host
      else evhostLabels s ptr (ptr + 1) i host
    else evhostLabels s ptr colon i host

/-- Pointers into `con->uri.authority` are positions. -/
def modEvhostParseHost (authority : Buffer) (host : Arr DataString) :
    Option (Arr DataString) := do
  let s := authority.ptr
  let (ptr, colon) := evhostDomain s (authority.used - 1) (authority.used - 1) true
  let ptr := if s[ptr]? = some 46 then ptr + 1 else ptr
  let host ← insertHostPart host (fun key => bufferCopyStringLen key (some (ascii "%0")))
    (slice s ptr colon)
  if colon = 0 then some host
  else do
    let (colon, i, host) ← evhostLabels s (colon - 1) colon 1 host
    if colon ≠ 0 then insertHostPart host (labelKey i) (slice s 0 colon) else some host

end Code

/-! ## Names and their parts -/

/-- The labels with dots between them; the first of them is the rightmost. -/
def hostName : List Bytes → Bytes
  | [] => []
  | [label] => label
  | label :: next :: labels => hostName (next :: labels) ++ 46 :: label

def domainName (labels : List Bytes) : Bytes := hostName (labels.take 2)

def partName (i : Nat) : Bytes := ascii "%" ++ decimal i

def numberedParts (i : Nat) : List Bytes → List (Bytes × Bytes)
  | [] => []
  | label :: labels => (partName i, label) :: numberedParts (i + 1) labels

def namedParts (labels : List Bytes) : List (Bytes × Bytes) :=
  (partName 0, domainName labels) :: numberedParts 1 labels

def portText : Option Bytes → Bytes
  | none => []
  | some port => 58 :: port

def PlainPart (s : Bytes) : Prop := 46 ∉ s ∧ 58 ∉ s

section Scans

variable {s front label behind : Bytes}

theorem getElem?_part {c : UInt8} (hs : s = front ++ (label ++ behind)) (hc : c ∉ label) {j : Nat}
    (hfront : front.length ≤ j) (hlabel : j < front.length + label.length) : s[j]? ≠ some c := by
  rw [hs, List.getElem?_append_right hfront, List.getElem?_append_left (by omega)]
  exact fun h => hc (List.mem_of_getElem? h)

theorem getElem?_first {c : UInt8} (hs : s = label ++ behind) (hc : c ∉ label) {j : Nat}
    (hlabel : j < label.length) : s[j]? ≠ some c :=
  @getElem?_part s [] label behind c hs hc j (Nat.zero_le j) (by rw [List.length_nil]; omega)

theorem getElem?_behind {c : UInt8} (hs : s = front ++ c :: behind) :
    s[front.length]? = some c := by
  rw [hs, List.getElem?_append_right (Nat.le_refl _), Nat.sub_self]
  rfl

theorem evhostDomain_skip {lo : Nat} (colon : Nat) (first : Bool) (k : Nat)
    (hskip : ∀ j, lo < j → j ≤ lo + k → s[j]? ≠ some 46 ∧ s[j]? ≠ some 58) :
    evhostDomain s (lo + k) colon first = evhostDomain s lo colon first := by
  induction k with
  | zero => rfl
  | succ k ih =>
    obtain ⟨hdot, hcolon⟩ := hskip (lo + k + 1) (by omega) (by omega)
    rw [← Nat.add_assoc, evhostDomain, if_neg hdot, if_neg hcolon]
    exact ih fun j hlo hj => hskip j hlo (by omega)

theorem evhostLabels_skip [Malloc] {lo : Nat} (colon i : Nat) (host : Arr DataString) (k : Nat)
    (hskip : ∀ j, lo < j → j ≤ lo + k → s[j]? ≠ some 46) :
    evhostLabels s (lo + k) colon i host = evhostLabels s lo colon i host := by
  induction k with
  | zero => rfl
  | succ k ih =>
    rw [← Nat.add_assoc, evhostLabels, if_neg (hskip (lo + k + 1) (by omega) (by omega))]
    exact ih fun j hlo hj => hskip j hlo (by omega)

end Scans

def PlainLabels (labels : List Bytes) : Prop := ∀ label ∈ labels, label ≠ [] ∧ PlainPart label

section Names

variable {s behind : Bytes} {labels : List Bytes}

theorem hostName_pos (hne : labels ≠ []) (hlabels : PlainLabels labels) :
    0 < (hostName labels).length := by
  match labels with
  | [label] => exact List.length_pos_of_ne_nil (hlabels label (by simp)).1
  | label :: next :: labels =>
    unfold hostName
    rw [List.length_append, List.length_cons]
    omega

theorem evhostDomain_name (hne : labels ≠ []) (hlabels : PlainLabels labels)
    (hs : s = hostName labels ++ behind) :
    ∃ ptr, evhostDomain s ((hostName labels).length - 1) (hostName labels).length true =
        (ptr, (hostName labels).length) ∧
      slice s (if s[ptr]? = some 46 then ptr + 1 else ptr) (hostName labels).length =
        domainName labels := by
  match labels with
  | [a] =>
    obtain ⟨hpos, hdot, hcolon⟩ := hlabels a (by simp)
    have hlen : 0 < a.length := List.length_pos_of_ne_nil hpos
    have honly : s = a ++ behind := hs
    have hskip := @evhostDomain_skip s 0 a.length true (a.length - 1) fun j _ hj =>
      ⟨getElem?_first honly hdot (by omega), getElem?_first honly hcolon (by omega)⟩
    rw [Nat.zero_add] at hskip
    refine ⟨0, hskip, ?_⟩
    rw [if_neg (getElem?_first honly hdot hlen)]
    exact @slice_eq s [] a behind 0 a.length honly rfl (Nat.zero_add _).symm
  | a :: b :: rest =>
    obtain ⟨-, hdot, hcolon⟩ := hlabels a (by simp)
    obtain ⟨hbpos, hbdot, hbcolon⟩ := hlabels b (by simp)
    have hrest := @hostName_pos (b :: rest) (List.cons_ne_nil _ _) fun l hl =>
      hlabels l (List.mem_cons_of_mem _ hl)
    -- the last label and its dot
    have hlast : s = (hostName (b :: rest) ++ [46]) ++ (a ++ behind) := by
      rw [hs, hostName, List.append_assoc, List.append_assoc]
      rfl
    have hat := @getElem?_behind s (hostName (b :: rest)) (a ++ behind) 46 (by
      rw [hlast, List.append_assoc]
      rfl)
    have hlen : (hostName (a :: b :: rest)).length =
        (hostName (b :: rest)).length + a.length + 1 := by
      rw [hostName, List.length_append, List.length_cons, Nat.add_assoc]
    have hfirst := @evhostDomain_skip s (hostName (b :: rest)).length
      (hostName (a :: b :: rest)).length true a.length fun j hlo hj => by
        have hin : (hostName (b :: rest) ++ [46]).length ≤ j ∧
            j < (hostName (b :: rest) ++ [46]).length + a.length := by
          rw [List.length_append, List.length_singleton]
          omega
        exact ⟨getElem?_part hlast hdot hin.1 hin.2, getElem?_part hlast hcolon hin.1 hin.2⟩
    obtain ⟨d, hd⟩ : ∃ d, (hostName (b :: rest)).length = d + 1 :=
      ⟨_, (Nat.sub_add_cancel hrest).symm⟩
    have hsecond : evhostDomain s (d + 1) (hostName (a :: b :: rest)).length true =
        evhostDomain s d (hostName (a :: b :: rest)).length false := by
      rw [evhostDomain, if_pos (hd ▸ hat)]
      rfl
    rw [show (hostName (a :: b :: rest)).length - 1 = (hostName (b :: rest)).length + a.length by
      omega, hfirst, hd, hsecond]
    match rest with
    | [] =>
      -- there is no other dot
      have htwo : s = b ++ (46 :: a ++ behind) := by
        rw [hlast, List.append_assoc]
        rfl
      have hdlen : d < b.length := by
        have : (hostName [b]).length = b.length := rfl
        omega
      have hskip := @evhostDomain_skip s 0 (hostName [a, b]).length false d fun j _ hj =>
        ⟨getElem?_first htwo hbdot (by omega), getElem?_first htwo hbcolon (by omega)⟩
      rw [Nat.zero_add] at hskip
      refine ⟨0, hskip, ?_⟩
      rw [if_neg (getElem?_first htwo hbdot (by omega))]
      exact @slice_eq s [] _ behind 0 _ hs rfl (Nat.zero_add _).symm
    | c :: rest =>
      have hmore := @hostName_pos (c :: rest) (List.cons_ne_nil _ _) fun l hl =>
        hlabels l (List.mem_cons_of_mem _ (List.mem_cons_of_mem _ hl))
      have hthree : s = (hostName (c :: rest) ++ [46]) ++ (b ++ (46 :: a ++ behind)) := by
        rw [hlast, hostName]
        simp only [List.append_assoc, List.cons_append, List.nil_append]
      have hdlen : d = (hostName (c :: rest)).length + b.length := by
        rw [hostName, List.length_append, List.length_cons] at hd
        omega
      have hskip := @evhostDomain_skip s (hostName (c :: rest)).length
        (hostName (a :: b :: c :: rest)).length false b.length fun j hlo hj => by
          have hin : (hostName (c :: rest) ++ [46]).length ≤ j ∧
              j < (hostName (c :: rest) ++ [46]).length + b.length := by
            rw [List.length_append, List.length_singleton]
            omega
          exact ⟨getElem?_part hthree hbdot hin.1 hin.2, getElem?_part hthree hbcolon hin.1 hin.2⟩
      have hat' := @getElem?_behind s (hostName (c :: rest)) (b ++ (46 :: a ++ behind)) 46 (by
        rw [hthree, List.append_assoc]
        rfl)
      obtain ⟨e, he⟩ : ∃ e, (hostName (c :: rest)).length = e + 1 :=
        ⟨_, (Nat.sub_add_cancel hmore).symm⟩
      have hstop : evhostDomain s (e + 1) (hostName (a :: b :: c :: rest)).length false =
          (e + 1, (hostName (a :: b :: c :: rest)).length) := by
        rw [evhostDomain, if_pos (he ▸ hat')]
        rfl
      refine ⟨e + 1, ?_, ?_⟩
      · rw [hdlen, hskip, he, hstop]
      · rw [if_pos (he ▸ hat')]
        refine @slice_eq _ (hostName (c :: rest) ++ [46]) (b ++ 46 :: a) behind _ _ ?_ ?_ ?_
        · rw [hthree]
          simp only [List.append_assoc, List.cons_append, List.nil_append]
        · rw [List.length_append, List.length_singleton, he]
        · rw [hostName, hostName]
          simp only [List.length_append, List.length_cons, List.length_nil]
          omega

theorem evhostDomain_port {port : Option Bytes} (hport : ∀ p ∈ port, PlainPart p)
    (hne : labels ≠ []) (hlabels : PlainLabels labels)
    (hs : s = hostName labels ++ (portText port ++ 0 :: behind)) :
    evhostDomain s ((hostName labels).length + (portText port).length)
        ((hostName labels).length + (portText port).length) true =
      evhostDomain s ((hostName labels).length - 1) (hostName labels).length true := by
  have hpos := hostName_pos hne hlabels
  obtain ⟨d, hd⟩ : ∃ d, (hostName labels).length = d + 1 := ⟨_, (Nat.sub_add_cancel hpos).symm⟩
  cases port with
  | none =>
    have hnul := @getElem?_behind s (hostName labels) behind 0 hs
    rw [hd] at hnul
    show evhostDomain s (_ + 0) (_ + 0) true = _
    rw [Nat.add_zero, hd, evhostDomain, if_neg (by rw [hnul]; decide),
      if_neg (by rw [hnul]; decide)]
    rfl
  | some p =>
    obtain ⟨hdot, hcolon⟩ := hport p rfl
    have hat := @getElem?_behind s (hostName labels) (p ++ 0 :: behind) 58 hs
    have hdigits : s = (hostName labels ++ [58]) ++ ((p ++ [0]) ++ behind) := by
      rw [hs]
      simp [portText]
    have hskip := @evhostDomain_skip s (hostName labels).length
      ((hostName labels).length + (portText (some p)).length) true (p.length + 1) fun j hlo hj => by
        have hin : (hostName labels ++ [58]).length ≤ j ∧
            j < (hostName labels ++ [58]).length + (p ++ [0]).length := by
          rw [List.length_append, List.length_append, List.length_singleton, List.length_singleton]
          omega
        exact ⟨getElem?_part hdigits (by simp [hdot]) hin.1 hin.2,
          getElem?_part hdigits (by simp [hcolon]) hin.1 hin.2⟩
    rw [hd] at hat hskip ⊢
    show evhostDomain s (d + 1 + (p.length + 1)) _ true = _
    rw [hskip, evhostDomain, if_neg (by rw [hat]; decide), if_pos hat]
    rfl

end Names

/-! ## The array of parts -/

def HostKey (key : Bytes) : Prop := ∀ c ∈ key, ¬ betweenByte c

def HoldsPart (ds : DataString) (p : Bytes × Bytes) : Prop := ds.key.Text p.1 ∧ ds.value.Text p.2

/-- The array holds the parts, with numbers below `i`. -/
structure HostParts [Malloc] (host : Arr DataString) (parts : List (Bytes × Bytes)) (i : Nat) :
    Prop where
  ordered : host.Ordered HostKey
  elements : List.Forall₂ HoldsPart host.elements parts
  names : ∀ p ∈ parts, ∃ k < i, p.1 = partName k

theorem foldName_partName (i : Nat) : foldName (partName i) = partName i := by
  have hfold : List.map tolower (decimal i) = decimal i := foldName_decimal i
  unfold foldName partName
  rw [List.map_append, hfold]
  rfl

theorem hostKey_partName (i : Nat) : HostKey (partName i ++ [0]) := by
  have hend : ∀ c ∈ ascii "%" ++ [0], ¬ betweenByte c := by
    unfold betweenByte
    decide
  intro c hc
  unfold partName at hc
  rcases List.mem_append.mp hc with hc | hc
  · rcases List.mem_append.mp hc with hc | hc
    · exact hend c (List.mem_append_left _ hc)
    · exact notBetween_decimal i c hc
  · exact hend c (List.mem_append_right _ hc)

section Parts

variable [Malloc] {host : Arr DataString} {parts : List (Bytes × Bytes)} {i : Nat}

theorem HostParts.insert (h : HostParts host parts i) {key : Buffer → Buffer}
    (hkey : ∀ b, (key b).Text (partName i)) (value : Bytes) :
    ∃ host', insertHostPart host key value = some host' ∧
      HostParts host' (parts ++ [(partName i, value)]) (i + 1) := by
  unfold insertHostPart
  dsimp only
  generalize hx : ({ dataStringInit 0 with
    key := key (dataStringInit 0).key
    value := bufferCopyStringLen (dataStringInit 0).value (some value) } : DataString) = x
  have hname : x.key.Text (partName i) := hx ▸ hkey _
  have hvalue : x.value.Text value := hx ▸ text_bufferCopyStringLen _ value
  obtain ⟨host', hrun, hordered, hinserted⟩ := arrayInsertUnique_named preorderOn_notBetween
    h.ordered hname (hx ▸ rfl) (hostKey_partName i)
  refine ⟨host', hrun, hordered, ?_, ?_⟩
  · rcases hinserted.elements h.ordered.wf with ⟨pre, y, post, hequal, hsplit, -⟩ | happended
    · -- no part has this number yet
      have hy : y ∈ host.elements := by simp [hsplit]
      obtain ⟨j, hj, rfl⟩ := List.getElem_of_mem hy
      have hpart := h.elements.get hj (h.elements.length_eq ▸ hj)
      obtain ⟨k, hk, hpk⟩ := h.names _ (List.get_mem parts ⟨j, h.elements.length_eq ▸ hj⟩)
      have hfold := (compare_names hname hpart.1).mp hequal
      rw [hpk, foldName_partName, foldName_partName] at hfold
      have hik := decimal_injective (List.append_cancel_left hfold)
      omega
    · rw [happended]
      exact List.rel_append h.elements (List.Forall₂.cons ⟨hname, hvalue⟩ List.Forall₂.nil)
  · intro p hp
    rcases List.mem_append.mp hp with hp | hp
    · obtain ⟨k, hk, hpk⟩ := h.names p hp
      exact ⟨k, Nat.lt_succ_of_lt hk, hpk⟩
    · obtain rfl := List.mem_singleton.mp hp
      exact ⟨i, Nat.lt_succ_self i, rfl⟩

theorem text_labelKey (i : Nat) (b : Buffer) : (labelKey i b).Text (partName i) :=
  text_bufferAppendLong (text_bufferCopyStringLen b (ascii "%")) i

def evhostLabelParts (s : Bytes) (ptr colon i : Nat) (host : Arr DataString) :
    Option (Arr DataString) := do
  let (colon, i, host) ← evhostLabels s ptr colon i host
  if colon ≠ 0 then insertHostPart host (labelKey i) (slice s 0 colon) else some host

/-- **Each label is a part.** -/
theorem HostParts.labels {s behind : Bytes} {labels : List Bytes} (hne : labels ≠ [])
    (hlabels : PlainLabels labels) (hs : s = hostName labels ++ behind)
    (h : HostParts host parts i) :
    ∃ host', evhostLabelParts s ((hostName labels).length - 1) (hostName labels).length i host =
        some host' ∧ HostParts host' (parts ++ numberedParts i labels) (i + labels.length) := by
  induction labels generalizing s behind host parts i with
  | nil => exact absurd rfl hne
  | cons a labels ih =>
    obtain ⟨⟨hpos, hdot, -⟩, hrest⟩ := List.forall_mem_cons.mp hlabels
    have hlen : 0 < a.length := List.length_pos_of_ne_nil hpos
    unfold evhostLabelParts
    cases labels with
    | nil =>
      have honly : s = a ++ behind := hs
      have hskip := @evhostLabels_skip s _ 0 a.length i host (a.length - 1) fun j _ hj =>
        getElem?_first honly hdot (by omega)
      rw [Nat.zero_add] at hskip
      obtain ⟨host', hrun, hparts⟩ := h.insert (text_labelKey i) a
      show ∃ host', (evhostLabels s (a.length - 1) a.length i host >>= _) = _ ∧ _
      rw [hskip, evhostLabels, Option.bind_eq_bind, Option.bind_some]
      dsimp only
      rw [if_pos (by omega), @slice_eq s [] a behind 0 a.length honly rfl (Nat.zero_add _).symm]
      exact ⟨host', hrun, hparts⟩
    | cons b labels =>
      have hmore := hostName_pos (List.cons_ne_nil b labels) hrest
      have hlast : s = (hostName (b :: labels) ++ [46]) ++ (a ++ behind) := by
        rw [hs, hostName, List.append_assoc, List.append_assoc]
        rfl
      have hfront : s = hostName (b :: labels) ++ 46 :: (a ++ behind) := by
        rw [hlast, List.append_assoc]
        rfl
      have hat := getElem?_behind hfront
      have htotal : (hostName (a :: b :: labels)).length =
          (hostName (b :: labels)).length + 1 + a.length := by
        rw [hostName, List.length_append, List.length_cons]
        omega
      have hskip := @evhostLabels_skip s _ (hostName (b :: labels)).length
        (hostName (a :: b :: labels)).length i host a.length fun j hlo hj => by
          have hin : (hostName (b :: labels) ++ [46]).length ≤ j ∧
              j < (hostName (b :: labels) ++ [46]).length + a.length := by
            rw [List.length_append, List.length_singleton]
            omega
          exact getElem?_part hlast hdot hin.1 hin.2
      have hslice : slice s ((hostName (b :: labels)).length + 1)
          (hostName (a :: b :: labels)).length = a :=
        slice_eq hlast (by simp) (by simp [htotal])
      obtain ⟨host', hrun, hparts⟩ := h.insert (text_labelKey i) a
      obtain ⟨host'', hrun', hparts'⟩ := ih (List.cons_ne_nil b labels) hrest hfront hparts
      obtain ⟨d, hd⟩ : ∃ d, (hostName (b :: labels)).length = d + 1 :=
        ⟨_, (Nat.sub_add_cancel hmore).symm⟩
      rw [show (hostName (a :: b :: labels)).length - 1 =
        (hostName (b :: labels)).length + a.length by omega, hskip]
      rw [hd] at hat hslice hrun'
      rw [hd, evhostLabels, if_pos hat, if_pos (by omega), hslice, hrun]
      refine ⟨host'', hrun', ?_⟩
      rw [List.append_assoc] at hparts'
      rw [List.length_cons, ← Nat.add_assoc, Nat.add_right_comm]
      exact hparts'

omit [Malloc] in
theorem hostParts_init [Malloc] : HostParts arrayInit [] 0 := by
  refine ⟨.used_zero rfl ⟨0, rfl⟩, List.Forall₂.nil, ?_⟩
  intro p hp
  nomatch hp

theorem HostParts.lookup (h : HostParts host parts i) {p : Bytes × Bytes} (hp : p ∈ parts) :
    ∃ ndx ds, arrayGetElement host p.1 = some (some (ndx, ds)) ∧ ds.value.Text p.2 := by
  obtain ⟨j, hj, rfl⟩ := List.getElem_of_mem hp
  have hj' : j < host.elements.length := h.elements.length_eq ▸ hj
  have hpart := h.elements.get hj' hj
  have hlive := (Arr.getElem?_elements h.ordered.wf).mp (List.getElem?_eq_getElem hj')
  obtain ⟨k, -, hname⟩ := h.names _ (List.get_mem parts ⟨j, hj⟩)
  obtain ⟨found, pos, hrun, hfound, -⟩ := arrayGetIndex_ordered preorderOn_notBetween h.ordered
    (hostKey_partName k)
  have hsame : compareKey (partName k ++ [0]) host.elements[j] = 0 :=
    bufferCaselessCompare_eq_zero.mpr (congrArg foldName (hname ▸ hpart.1.holds).symm)
  have hslot : host.data[j]? = some (some host.elements[j]) := hlive.2
  rw [(hfound j).mpr ⟨_, hlive, hsame⟩] at hrun
  refine ⟨j, host.elements[j], ?_, hpart.2⟩
  unfold arrayGetElement
  rw [show parts[j].1 = partName k from hname, hrun]
  dsimp only
  rw [hslot]

/-- **The parts of a host name**, and nothing else, are in the array. -/
theorem modEvhostParseHost_parts {authority : Buffer} {labels : List Bytes} {port : Option Bytes}
    (hne : labels ≠ []) (hlabels : PlainLabels labels) (hport : ∀ p ∈ port, PlainPart p)
    (htext : authority.Text (hostName labels ++ portText port)) :
    ∃ host, modEvhostParseHost authority arrayInit = some host ∧
      List.Forall₂ HoldsPart host.elements (namedParts labels) ∧
      ∀ p ∈ namedParts labels, ∃ ndx ds,
        arrayGetElement host p.1 = some (some (ndx, ds)) ∧ ds.value.Text p.2 := by
  obtain ⟨junk, hptr⟩ := htext.ptr_eq
  rw [List.append_assoc] at hptr
  obtain ⟨ptr, hdomain, hslice⟩ := evhostDomain_name hne hlabels hptr
  have hport := evhostDomain_port hport hne hlabels hptr
  have hused : authority.used - 1 = (hostName labels).length + (portText port).length := by
    rw [htext.used, Nat.add_sub_cancel, List.length_append]
  have hpos := hostName_pos hne hlabels
  obtain ⟨host, hrun, hparts⟩ := hostParts_init.insert
    (fun b => text_bufferCopyStringLen b (ascii "%0")) (domainName labels)
  obtain ⟨host', hrun', hparts'⟩ := hparts.labels hne hlabels hptr
  refine ⟨host', ?_, hparts'.elements, fun p hp => hparts'.lookup hp⟩
  unfold modEvhostParseHost
  dsimp only
  rw [hused, hport, hdomain]
  dsimp only
  rw [hslice, hrun, Option.bind_eq_bind, Option.bind_some, if_neg (by omega)]
  exact hrun'

end Parts

theorem modEvhostParseHost_parts_www : ∃ host : Arr DataString,
    @modEvhostParseHost zeroMalloc (textBuffer (ascii "www.example.com:80")) arrayInit =
        some host ∧
      List.Forall₂ HoldsPart host.elements
        [(ascii "%0", ascii "example.com"), (ascii "%1", ascii "com"),
          (ascii "%2", ascii "example"), (ascii "%3", ascii "www")] := by
  let _ : Malloc := zeroMalloc
  obtain ⟨host, hrun, hparts, -⟩ := @modEvhostParseHost_parts _
    (textBuffer (ascii "www.example.com:80")) [ascii "com", ascii "example", ascii "www"]
    (some (ascii "80")) (by decide) (by unfold PlainLabels PlainPart; decide)
    (by unfold PlainPart; decide) (text_textBuffer _)
  exact ⟨host, hrun, hparts⟩

end Lighttpd
