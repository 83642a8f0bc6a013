import Lighttpd.Range.ParseRange
import Lighttpd.Lib.MarkedPieces

/-!
# What a `Range` value asks for

A value is a list of ranges with commas between them, of which each is read for itself (`readSpec`)
and cut to the size (`readPart`). What follows the last minus is not looked at. The loop of the
source finds the parts in this order, up to the first range that is refused (`rangeLoop_spec`).
-/

namespace Lighttpd

open CLib MarkedPieces

/-! ## Ranges -/

/-- The last bytes, their number being the negation of `le`, or the bytes from `la` on, perhaps only
up to `le`. -/
inductive RangeSpec where
  | suffix (le : Int)
  | bytes (la : Int) (le : Option Int)
  deriving DecidableEq, Repr

/-- Without a number a suffix counts as one of no bytes, whatever follows. -/
def readSpec (t : Bytes) : Option RangeSpec :=
  match strchr t 45 with
  | none => none
  | some 0 =>
    let (le, err) := strtoll t
    if le = 0 ∨ err = [] then some (.suffix le) else none
  | some m =>
    let (la, err) := strtoll (t.take m)
    if err ≠ [] then none
    else if t.drop (m + 1) = [] then some (.bytes la none)
    else
      let (le, err) := strtoll (t.drop (m + 1))
      if err = [] ∧ la ≤ le then some (.bytes la (some le)) else none

def RangeSpec.bounds (size last : Int) : RangeSpec → Option (Int × Int)
  | .suffix le => if le = 0 then none else some (size + le, last)
  | .bytes la le => some (la, le.getD last)

def clampPart (last : Int) (p : Int × Int) : Option (Int × Int) :=
  if max p.1 0 > last then none else some (max p.1 0, min p.2 last)

inductive Refusal where
  | malformed
  | unsatisfiable
  deriving DecidableEq, Repr

def readPart (size last : Int) (t : Bytes) : Except Refusal (Int × Int) :=
  match readSpec t with
  | none => .error .malformed
  | some spec =>
    match (spec.bounds size last).bind (clampPart last) with
    | none => .error .unsatisfiable
    | some p => .ok p

def readParts (size last : Int) : List Bytes → List (Int × Int) × Option Refusal
  | [] => ([], none)
  | t :: ts =>
    match readPart size last t with
    | .error r => ([], some r)
    | .ok p => (p :: (readParts size last ts).1, (readParts size last ts).2)

/-- The ranges of a value: its pieces up to the last one with a minus. -/
def rangePieces (value : Bytes) : List Bytes := markedPieces 44 45 value

theorem readSpec_none {t : Bytes} (h : 45 ∉ t) : readSpec t = none := by
  simp [readSpec, strchr_eq_none.mpr h]

theorem readSpec_minus (d : Bytes) : readSpec (45 :: d) =
    if (strtoll (45 :: d)).1 = 0 ∨ (strtoll (45 :: d)).2 = [] then
      some (.suffix (strtoll (45 :: d)).1) else none := rfl

theorem readSpec_number {a : Bytes} (ha : a ≠ []) (ha45 : 45 ∉ a) (b : Bytes) :
    readSpec (a ++ 45 :: b) =
      if (strtoll a).2 ≠ [] then none
      else if b = [] then some (.bytes (strtoll a).1 none)
      else if (strtoll b).2 = [] ∧ (strtoll a).1 ≤ (strtoll b).1 then
        some (.bytes (strtoll a).1 (some (strtoll b).1)) else none := by
  obtain ⟨n, hn⟩ : ∃ n, a.length = n + 1 := ⟨a.length - 1, by
    have := List.length_pos_iff.mpr ha
    omega⟩
  have hdrop : (a ++ 45 :: b).drop (n + 1 + 1) = b := by rw [← hn, drop_append_cons]
  have htake : (a ++ 45 :: b).take (n + 1) = a := by rw [← hn, List.take_left' rfl]
  unfold readSpec
  rw [strchr_append_cons ha45, hn]
  simp only [hdrop, htake]

/-! ## Reading one range -/

theorem strtoll_tail (t : Bytes) {tail : Bytes} (htail : Tail 44 tail) :
    strtoll (t ++ tail) = ((strtoll t).1, (strtoll t).2 ++ tail) := by
  rcases htail with rfl | ⟨rest, rfl⟩
  · simp
  · exact strtoll_append_cons t rfl rfl (by decide) (by decide) rest

theorem notMem_strtoll {t : Bytes} {c : UInt8} (h : c ∉ t) : c ∉ (strtoll t).2 := by
  rcases strtoll_cases t with h0 | ⟨t', v, r, rfl, -, -, hv⟩
  · rwa [h0]
  · rw [hv]
    exact fun hm => h (List.mem_append_right _ hm)

def RangeState.next (st : RangeState) (tail : Bytes) (start stop : Int) : RangeState :=
  { st with
    s := tail.drop 1, multipart := st.multipart || decide (tail ≠ []), start := start, stop := stop }

/-- The state after an error: what the answer is made of has not changed, but for the status. -/
structure RangeState.Stopped (st : RangeState) (status : Int) (st' : RangeState) : Prop where
  error : st'.error = true
  httpStatus : st'.httpStatus = status
  responseLength : st'.responseLength = st.responseLength
  writeQueue : st'.writeQueue = st.writeQueue

theorem RangeState.stopped_error (st : RangeState) :
    st.Stopped st.httpStatus { st with error := true } := ⟨rfl, rfl, rfl, rfl⟩

theorem endRange_nil {tail : Bytes} (htail : Tail 44 tail) (start stop : Int) (st : RangeState) :
    endRange tail start stop st = st.next tail start stop := by
  rcases htail with rfl | ⟨rest, rfl⟩
  · simp [endRange, RangeState.next]
  · simp [endRange, RangeState.next]

theorem endRange_stopped {u tail : Bytes} (hu : 44 ∉ u) (hne : u ≠ []) (start stop : Int)
    (st : RangeState) : st.Stopped st.httpStatus (endRange (u ++ tail) start stop st) := by
  obtain ⟨c, u, rfl⟩ := List.exists_cons_of_ne_nil hne
  have hc : c ≠ 44 := fun e => hu (by simp [e])
  simp only [List.cons_append, endRange, if_neg hc]
  exact st.stopped_error

theorem endRange_of_error (err : Bytes) (start stop : Int) (st : RangeState) :
    st.Stopped st.httpStatus (endRange err start stop { st with error := true }) := by
  unfold endRange
  split
  · exact ⟨rfl, rfl, rfl, rfl⟩
  · split <;> exact ⟨rfl, rfl, rfl, rfl⟩

section Read

variable {target : RangeTarget} {st : RangeState}

theorem readRange_stopped {a b : Bytes} (ha : a ≠ []) (hs : st.s = a ++ 45 :: b)
    (hnum : (strtoll a).2 ≠ []) : st.Stopped st.httpStatus (readRange target a.length st) := by
  have herr : (strtoll st.s).2 ≠ 45 :: b := by
    rw [hs]
    exact fun h => hnum ((strtoll_append_minus ha b).1.mp h)
  have hopen : readOpen target (45 :: b) st = { st with error := true } := if_neg herr
  have hclosed : readClosed (45 :: b) st = { st with error := true } := if_neg herr
  have hminus : st.s.drop a.length = 45 :: b := by rw [hs, List.drop_left' rfl]
  simp only [readRange, hminus, hopen, hclosed]
  rw [if_neg (by simpa using ha)]
  split
  · exact st.stopped_error
  · split <;> exact st.stopped_error

theorem readRange_number {a b : Bytes} (ha : a ≠ []) (hs : st.s = a ++ 45 :: b)
    (hnum : (strtoll a).2 = []) : readRange target a.length st =
      if b = [] ∨ b.head? = some 44 then endRange b (strtoll a).1 target.last st
      else endRange (strtoll b).2 (strtoll a).1 (strtoll b).1
        (if (strtoll a).1 > (strtoll b).1 then { st with error := true } else st) := by
  have hread : strtoll st.s = ((strtoll a).1, 45 :: b) := by
    obtain ⟨herr, hval⟩ := strtoll_append_minus ha b
    rw [hs]
    exact Prod.ext (hval hnum) (herr.mpr hnum)
  have hminus : st.s.drop a.length = 45 :: b := by rw [hs, List.drop_left' rfl]
  have hopen : readOpen target (45 :: b) st = endRange b (strtoll a).1 target.last st := by
    simp [readOpen, hread]
  have hclosed : readClosed (45 :: b) st = endRange (strtoll b).2 (strtoll a).1 (strtoll b).1
      (if (strtoll a).1 > (strtoll b).1 then { st with error := true } else st) := by
    simp [readClosed, hread]
  simp only [readRange, hminus, hopen, hclosed]
  rw [if_neg (by simpa using ha)]
  cases b with
  | nil => rfl
  | cons c b => simp

/-- What one round makes of a range: the bounds it names, or an error. -/
def RangeState.Reads (st : RangeState) (target : RangeTarget) (t tail : Bytes) (st' : RangeState) :
    Prop :=
  match readSpec t with
  | none => st.Stopped st.httpStatus st'
  | some spec =>
    match spec.bounds target.size target.last with
    | none => st.Stopped 416 st'
    | some p => st' = st.next tail p.1 p.2

theorem readRange_suffix {d tail : Bytes} (htail : Tail 44 tail) (hd : 44 ∉ d)
    (hs : st.s = 45 :: d ++ tail) : st.Reads target (45 :: d) tail (readRange target 0 st) := by
  have ht : (44 : UInt8) ∉ 45 :: d := by simp [hd]
  have hread := strtoll_tail (45 :: d) htail
  have hround : readRange target 0 st = readSuffix target st := by simp [readRange]
  rw [hround, RangeState.Reads, readSpec_minus]
  unfold readSuffix
  rw [hs, hread]
  dsimp only
  by_cases h0 : (strtoll (45 :: d)).1 = 0
  · rw [if_pos h0, if_pos (Or.inl h0)]
    simp only [RangeSpec.bounds, h0, if_pos]
    exact ⟨rfl, rfl, rfl, rfl⟩
  · rw [if_neg h0]
    by_cases herr : (strtoll (45 :: d)).2 = []
    · rw [if_pos (Or.inr herr), herr, List.nil_append, endRange_nil htail]
      simp only [RangeSpec.bounds, if_neg h0]
    · rw [if_neg (by simp [h0, herr])]
      exact endRange_stopped (notMem_strtoll ht) herr _ _ st

theorem readRange_bytes {a b tail : Bytes} (htail : Tail 44 tail) (ha : a ≠ []) (ha45 : 45 ∉ a)
    (hb : 44 ∉ b) (hs : st.s = a ++ 45 :: b ++ tail) :
    st.Reads target (a ++ 45 :: b) tail (readRange target a.length st) := by
  have hs' : st.s = a ++ 45 :: (b ++ tail) := by rw [hs, List.append_assoc, List.cons_append]
  rw [RangeState.Reads, readSpec_number ha ha45]
  by_cases hnum : (strtoll a).2 = []
  · have hread := strtoll_tail b htail
    rw [if_neg (by simpa using hnum), readRange_number ha hs' hnum]
    by_cases hnil : b = []
    · subst hnil
      have hcomma : [] ++ tail = [] ∨ ([] ++ tail).head? = some 44 := by
        rcases htail with rfl | ⟨rest, rfl⟩
        · exact Or.inl rfl
        · exact Or.inr rfl
      rw [if_pos rfl, if_pos hcomma, List.nil_append, endRange_nil htail]
      rfl
    · have hcomma : ¬ (b ++ tail = [] ∨ (b ++ tail).head? = some 44) := by
        obtain ⟨c, b, rfl⟩ := List.exists_cons_of_ne_nil hnil
        rintro (h | h)
        · cases h
        · exact hb (by rw [Option.some.inj h]; simp)
      rw [if_neg hnil, if_neg hcomma, hread]
      dsimp only
      by_cases hle : (strtoll a).1 ≤ (strtoll b).1
      · have hgt : ¬ (strtoll a).1 > (strtoll b).1 := by omega
        rw [if_neg hgt]
        by_cases herr : (strtoll b).2 = []
        · rw [if_pos ⟨herr, hle⟩, herr, List.nil_append, endRange_nil htail]
          rfl
        · rw [if_neg (by simp [herr])]
          exact endRange_stopped (notMem_strtoll hb) herr _ _ st
      · have hgt : (strtoll a).1 > (strtoll b).1 := by omega
        rw [if_neg (by simp [hle]), if_pos hgt]
        exact endRange_of_error _ _ _ st
  · rw [if_pos hnum]
    exact readRange_stopped ha hs' hnum

/-- **One round reads the range in front.** -/
theorem readRange_spec {t tail : Bytes} {m : Nat} (htail : Tail 44 tail) (ht : 44 ∉ t)
    (hs : st.s = t ++ tail) (hm : strchr st.s 45 = some m) :
    st.Reads target t tail (readRange target m st) := by
  by_cases h45 : 45 ∈ t
  · obtain ⟨a, b, rfl, ha45⟩ := List.eq_append_cons_of_mem h45
    have hb : 44 ∉ b := fun h => ht (by simp [h])
    rw [hs, List.append_assoc, List.cons_append, strchr_append_cons ha45] at hm
    obtain rfl := Option.some.inj hm
    by_cases ha : a = []
    · subst ha
      exact readRange_suffix htail hb hs
    · exact readRange_bytes htail ha ha45 hb hs
  · -- the minus belongs to a later range
    rw [RangeState.Reads, readSpec_none h45]
    rcases htail with rfl | ⟨rest, rfl⟩
    · rw [hs, List.append_nil, strchr_eq_none.mpr h45] at hm
      cases hm
    · have hmem : 45 ∈ rest := by
        by_contra hrest
        rw [hs, strchr_eq_none.mpr (by simp [h45, hrest])] at hm
        cases hm
      obtain ⟨a, b, rfl, ha45⟩ := List.eq_append_cons_of_mem hmem
      have hsplit : t ++ 44 :: (a ++ 45 :: b) = (t ++ 44 :: a) ++ 45 :: b := by simp
      rw [hsplit] at hs
      rw [hs, strchr_append_cons (by simp [h45, ha45])] at hm
      obtain rfl := Option.some.inj hm
      apply readRange_stopped (by simp) hs
      rw [strtoll_append_cons t rfl rfl (by decide) (by decide)]
      simp

theorem clampRange_spec (herr : st.error = false) (tail : Bytes) (p : Int × Int) :
    match clampPart target.last p with
    | none => st.Stopped 416 (clampRange target (st.next tail p.1 p.2))
    | some q => clampRange target (st.next tail p.1 p.2) = st.next tail q.1 q.2 := by
  have hstart : max p.1 0 = if p.1 < 0 then 0 else p.1 := by split <;> omega
  have hstop : min p.2 target.last = if p.2 > target.last then target.last else p.2 := by
    split <;> omega
  unfold clampRange clampPart RangeState.next
  rw [hstart, hstop, herr]
  simp only [Bool.false_eq_true, if_false]
  by_cases h1 : p.1 < 0 <;> by_cases h2 : p.2 > target.last <;> simp only [h1, h2, if_true, if_false]
  · by_cases h3 : (0 : Int) > target.last <;> simp only [h3, if_true, if_false]
    exact ⟨rfl, rfl, rfl, rfl⟩
  · by_cases h3 : (0 : Int) > target.last <;> simp only [h3, if_true, if_false]
    exact ⟨rfl, rfl, rfl, rfl⟩
  · by_cases h3 : p.1 > target.last <;> simp only [h3, if_true, if_false]
    exact ⟨rfl, rfl, rfl, rfl⟩
  · by_cases h3 : p.1 > target.last <;> simp only [h3, if_true, if_false]
    exact ⟨rfl, rfl, rfl, rfl⟩

theorem clampRange_of_error (h : st.error = true) : clampRange target st = st := if_pos h

def Refusal.status (old : Int) : Refusal → Int
  | .malformed => old
  | .unsatisfiable => 416

theorem clampRange_readRange {t tail : Bytes} {m : Nat} (herr : st.error = false)
    (htail : Tail 44 tail) (ht : 44 ∉ t) (hs : st.s = t ++ tail) (hm : strchr st.s 45 = some m) :
    match readPart target.size target.last t with
    | .error r => st.Stopped (r.status st.httpStatus) (clampRange target (readRange target m st))
    | .ok p => clampRange target (readRange target m st) = st.next tail p.1 p.2 := by
  have hread := @readRange_spec target _ _ _ _ htail ht hs hm
  unfold RangeState.Reads at hread
  unfold readPart
  cases hspec : readSpec t with
  | none =>
    rw [hspec] at hread
    rwa [clampRange_of_error hread.error]
  | some spec =>
    rw [hspec] at hread
    dsimp only at hread ⊢
    cases hbounds : spec.bounds target.size target.last with
    | none =>
      rw [hbounds] at hread
      rw [clampRange_of_error hread.error]
      exact hread
    | some p =>
      rw [hbounds] at hread
      dsimp only at hread
      have hclamp := @clampRange_spec target _ herr tail p
      rw [hread]
      rw [Option.bind_some]
      cases hq : clampPart target.last p with
      | none =>
        rw [hq] at hclamp
        exact hclamp
      | some q =>
        rw [hq] at hclamp
        exact hclamp

theorem readSpec_bytes {t : Bytes} {la : Int} {le : Option Int}
    (h : readSpec t = some (.bytes la le)) : 0 ≤ la ∧ ∀ v ∈ le, la ≤ v := by
  by_cases h45 : 45 ∈ t
  · obtain ⟨a, b, rfl, ha45⟩ := List.eq_append_cons_of_mem h45
    by_cases ha : a = []
    · subst ha
      rw [List.nil_append, readSpec_minus] at h
      split at h <;> simp at h
    · have hnonneg := strtoll_nonneg ha45
      rw [readSpec_number ha ha45] at h
      split at h
      · simp at h
      · split at h
        · obtain ⟨rfl, rfl⟩ := RangeSpec.bytes.inj (Option.some.inj h)
          exact ⟨hnonneg, fun v hv => by cases hv⟩
        · split at h
          · next hle =>
            obtain ⟨rfl, rfl⟩ := RangeSpec.bytes.inj (Option.some.inj h)
            refine ⟨hnonneg, fun v hv => ?_⟩
            obtain rfl := Option.some.inj hv
            exact hle.2
          · simp at h
  · rw [readSpec_none h45] at h
    cases h

/-- **A part is not empty and lies within the content.** -/
theorem readPart_within {size last : Int} {t : Bytes} {p : Int × Int}
    (h : readPart size last t = .ok p) : 0 ≤ p.1 ∧ p.1 ≤ p.2 ∧ p.2 ≤ last := by
  unfold readPart at h
  cases hspec : readSpec t with
  | none =>
    rw [hspec] at h
    cases h
  | some spec =>
    rw [hspec] at h
    dsimp only at h
    cases hclamp : (spec.bounds size last).bind (clampPart last) with
    | none =>
      rw [hclamp] at h
      cases h
    | some q =>
      rw [hclamp] at h
      cases h
      obtain ⟨b, hb, hq⟩ := Option.bind_eq_some_iff.mp hclamp
      unfold clampPart at hq
      split at hq
      · cases hq
      · next hle =>
        cases hq
        cases spec with
        | suffix le =>
          simp only [RangeSpec.bounds] at hb
          split at hb
          · cases hb
          · cases hb
            dsimp only at hle ⊢
            omega
        | bytes la le =>
          obtain ⟨hla, hle'⟩ := readSpec_bytes hspec
          simp only [RangeSpec.bounds] at hb
          cases hb
          cases le with
          | none =>
            simp only [Option.getD_none] at hle ⊢
            omega
          | some v =>
            have hv := hle' v rfl
            simp only [Option.getD_some] at hle ⊢
            omega

theorem readParts_none {size last : Int} {ts : List Bytes}
    (h : (readParts size last ts).2 = none) :
    ts.map (readPart size last) = (readParts size last ts).1.map .ok := by
  induction ts with
  | nil => rfl
  | cons t ts ih =>
    unfold readParts at h ⊢
    rw [List.map_cons]
    cases hpart : readPart size last t with
    | error r =>
      rw [hpart] at h
      cases h
    | ok p =>
      rw [hpart] at h
      dsimp only at h ⊢
      rw [ih h, List.map_cons]

theorem mem_readParts {size last : Int} {ts : List Bytes} {p : Int × Int}
    (h : p ∈ (readParts size last ts).1) : ∃ t ∈ ts, readPart size last t = .ok p := by
  induction ts with
  | nil => cases h
  | cons t ts ih =>
    unfold readParts at h
    cases hpart : readPart size last t with
    | error r =>
      rw [hpart] at h
      cases h
    | ok q =>
      rw [hpart] at h
      rcases List.mem_cons.mp h with rfl | h
      · exact ⟨t, by simp, hpart⟩
      · obtain ⟨u, hu, hp⟩ := ih h
        exact ⟨u, List.mem_cons_of_mem t hu, hp⟩

end Read

section Loop

variable [Malloc] {target : RangeTarget} {contentType : Option Buffer}

def sendPart (target : RangeTarget) (contentType : Option Buffer) (multipart : Bool)
    (st : RangeState) (p : Int × Int) : RangeState :=
  queuePart target contentType { st with multipart := multipart, start := p.1, stop := p.2 }

/-- The parts before a refusal are queued; there is no range behind it. -/
def RangeState.Outcome (st : RangeState) (target : RangeTarget) (contentType : Option Buffer)
    (r : List (Int × Int) × Option Refusal) (st' : RangeState) : Prop :=
  let multipart := st.multipart || decide (44 ∈ st.s)
  let sent := r.1.foldl (sendPart target contentType multipart) st
  match r.2 with
  | none => ∃ rest, st' = { sent with s := rest }
  | some refusal => sent.Stopped (refusal.status st.httpStatus) st'

theorem queuePart_of_error {st : RangeState} (h : st.error = true) :
    queuePart target contentType st = st := if_pos h

theorem queuePart_s (st : RangeState) (s : Bytes) :
    queuePart target contentType { st with s := s } =
      { queuePart target contentType st with s := s } := by
  unfold queuePart
  split
  · rfl
  · split <;> rfl

theorem foldl_sendPart_s (multipart : Bool) (ps : List (Int × Int)) (st : RangeState) (s : Bytes) :
    ps.foldl (sendPart target contentType multipart) { st with s := s } =
      { ps.foldl (sendPart target contentType multipart) st with s := s } := by
  induction ps generalizing st with
  | nil => rfl
  | cons p ps ih =>
    rw [List.foldl_cons, List.foldl_cons, ← ih]
    congr 1
    exact queuePart_s { st with multipart := multipart, start := p.1, stop := p.2 } s

theorem queuePart_error {st : RangeState} : (queuePart target contentType st).error = st.error := by
  unfold queuePart
  split
  · rfl
  · split <;> rfl

theorem queuePart_httpStatus {st : RangeState} :
    (queuePart target contentType st).httpStatus = st.httpStatus := by
  unfold queuePart
  split
  · rfl
  · split <;> rfl

theorem Outcome.cons {st st' : RangeState} {t tail : Bytes} {p : Int × Int}
    {r : List (Int × Int) × Option Refusal} (htail : Tail 44 tail) (ht : 44 ∉ t)
    (hs : st.s = t ++ tail)
    (h : (queuePart target contentType (st.next tail p.1 p.2)).Outcome target contentType r st') :
    st.Outcome target contentType (p :: r.1, r.2) st' := by
  -- the flag does not change any more once there was a comma
  have hflag : (st.next tail p.1 p.2).multipart = (st.multipart || decide (44 ∈ st.s)) := by
    rcases htail with rfl | ⟨rest, rfl⟩
    · simp [RangeState.next, hs, ht]
    · simp [RangeState.next, hs]
  have hmulti : ((queuePart target contentType (st.next tail p.1 p.2)).multipart ||
      decide (44 ∈ (queuePart target contentType (st.next tail p.1 p.2)).s)) =
        (st.multipart || decide (44 ∈ st.s)) := by
    have hq : (queuePart target contentType (st.next tail p.1 p.2)).multipart =
        (st.next tail p.1 p.2).multipart ∧
          (queuePart target contentType (st.next tail p.1 p.2)).s = tail.drop 1 := by
      unfold queuePart
      split
      · exact ⟨rfl, rfl⟩
      · split <;> exact ⟨rfl, rfl⟩
    rw [hq.1, hq.2, hflag]
    rcases htail with rfl | ⟨rest, rfl⟩
    · simp
    · simp [hs]
  have hsend : sendPart target contentType (st.multipart || decide (44 ∈ st.s)) st p =
      { queuePart target contentType (st.next tail p.1 p.2) with s := st.s } := by
    rw [← hflag, ← queuePart_s]
    rfl
  unfold RangeState.Outcome at h ⊢
  rw [hmulti] at h
  dsimp only at h ⊢
  rw [List.foldl_cons, hsend, foldl_sendPart_s]
  cases hr : r.2 with
  | none =>
    rw [hr] at h
    obtain ⟨rest, rfl⟩ := h
    exact ⟨rest, rfl⟩
  | some refusal =>
    rw [hr, queuePart_httpStatus] at h
    exact ⟨h.error, h.httpStatus, h.responseLength, h.writeQueue⟩

theorem Outcome.nil (st : RangeState) : st.Outcome target contentType ([], none) st :=
  ⟨st.s, rfl⟩

/-- **The loop ends, and finds the parts the value asks for.** -/
theorem rangeLoop_spec (fuel : Nat) (st : RangeState) (hfuel : st.s.length < fuel)
    (herr : st.error = false) : ∃ st', rangeLoop target contentType fuel st = some st' ∧
      st.Outcome target contentType (readParts target.size target.last (rangePieces st.s)) st' := by
  induction fuel generalizing st with
  | zero => omega
  | succ fuel ih =>
    unfold rangeLoop
    by_cases h45 : 45 ∈ st.s
    · have hne : st.s ≠ [] := List.ne_nil_of_mem h45
      have hpos := List.length_pos_iff.mpr hne
      rw [if_neg (by simp [herr, hne])]
      cases hm : strchr st.s 45 with
      | none => exact absurd h45 (strchr_eq_none.mp hm)
      | some m =>
        obtain ⟨t, tail, hs, ht, htail⟩ := exists_tail 44 st.s
        have hpieces : rangePieces st.s = t :: rangePieces (tail.drop 1) := by
          unfold rangePieces
          rw [hs]
          exact markedPieces_append (by decide) ht htail (hs ▸ h45)
        have hround := @clampRange_readRange target _ _ _ _ herr htail ht hs hm
        rw [hpieces, readParts]
        dsimp only
        unfold rangeRound
        cases hpart : readPart target.size target.last t with
        | error r =>
          rw [hpart] at hround
          dsimp only at hround ⊢
          rw [queuePart_of_error hround.error]
          obtain ⟨fuel, rfl⟩ : ∃ n, fuel = n + 1 := ⟨fuel - 1, by omega⟩
          refine ⟨_, ?_, hround⟩
          unfold rangeLoop
          rw [if_pos (Or.inl hround.error)]
        | ok p =>
          rw [hpart] at hround
          dsimp only at hround ⊢
          rw [hround]
          have hrest : (queuePart target contentType (st.next tail p.1 p.2)).s = tail.drop 1 := by
            unfold queuePart
            split
            · rfl
            · split <;> rfl
          have hlen : (tail.drop 1).length < fuel := by
            have := congrArg List.length hs
            rw [List.length_append] at this
            rw [List.length_drop]
            omega
          obtain ⟨st', hloop, hout⟩ := ih (queuePart target contentType (st.next tail p.1 p.2))
            (by rw [hrest]; exact hlen) (by rw [queuePart_error]; exact herr)
          rw [hrest] at hout
          exact ⟨st', hloop, Outcome.cons htail ht hs hout⟩
    · have hnil : rangePieces st.s = [] := (markedPieces_eq_nil (by decide)).mpr h45
      rw [hnil]
      refine ⟨st, ?_, Outcome.nil st⟩
      split
      · rfl
      · rw [strchr_eq_none.mpr h45]

end Loop

end Lighttpd
