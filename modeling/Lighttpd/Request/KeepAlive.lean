import Lighttpd.Request.Parse
import Lighttpd.Lib.Lines

/-!
# Errors and persistent connections

Every error exit of the parser has to clear `keep_alive`, which may be left over from the previous
request of the connection. All of them do but one: the exit for a version that is not supported.
-/

namespace Lighttpd

open CLib

/-! ## Exits that close the connection -/

structure Closed (e : Connection × Arr DataString) : Prop where
  keepAlive : e.1.keepAlive = false
  status : e.1.httpStatus ≠ 0

theorem closed_fail {con : Connection} {status : Int} {splitVals : Arr DataString}
    (h : status ≠ 0) : Closed (con.fail status, splitVals) :=
  ⟨rfl, h⟩

theorem closed_failClose {con : Connection} {status : Int} {splitVals : Arr DataString}
    (h : status ≠ 0) : Closed (con.failClose status, splitVals) :=
  ⟨rfl, h⟩

def NoError (con : Connection) : Prop := con.httpStatus = 0

section Specs

variable [Malloc]

theorem newField_spec (con : Connection) :
    ((newField con).2.httpStatus = con.httpStatus) ∧
      ((newField con).2.keepAlive = con.keepAlive) := by
  unfold newField
  split
  split <;> exact ⟨rfl, rfl⟩

theorem insertField_closes {con : Connection} (h : NoError con) (ds : DataString) :
    (insertField con ds).Spec NoError Closed :=
  Flow.Spec.bind (Flow.spec_ofOption fun _ _ => trivial) fun _ _ => h

theorem insertReqlineHost_closes {con : Connection} (h : NoError con) (host : Option Bytes) :
    (insertReqlineHost host con).Spec NoError Closed := by
  cases host with
  | none => exact h
  | some host =>
    have hnew : NoError (newField con).2 := (newField_spec con).1.trans h
    exact (insertField_closes hnew _).bind fun _ hcon => hcon

omit [Malloc] in
theorem ofOption_closes {α : Type} {P : α → Prop} {o : Option α} (h : ∀ a, P a) :
    (Flow.ofOption o : Parsing α).Spec P Closed :=
  Flow.spec_ofOption fun a _ => h a

variable {st : HeaderState}

def StateOk (st : HeaderState) : Prop := NoError st.con

def HandledOk (r : HeaderState × Option DataString) : Prop := StateOk r.1

theorem rejectField_closes {α : Type} {P : α → Prop} (h : StateOk st) (ds : DataString)
    {status : Int} (hs : status ≠ 0) : (rejectField st ds status : Parsing α).Spec P Closed :=
  (insertField_closes h ds).bind fun _ _ => closed_fail hs

theorem handleField_closes (cfg : FieldConf) (h : StateOk st) (ds : DataString) (key : Bytes) :
    (handleField cfg st ds key).Spec HandledOk Closed := by
  have reject : (rejectField st ds 400 : Handled).Spec HandledOk Closed :=
    rejectField_closes h ds (by decide)
  unfold handleField
  split
  · exact Flow.Spec.bind (P := fun _ => True) (ofOption_closes fun _ => trivial) fun _ _ => h
  · unfold contentLengthField
    split
    · exact reject
    · split
      · trivial
      · split
        · exact reject
        · dsimp only
          split
          · exact h
          · exact reject
  · unfold contentTypeField
    split
    · exact h
    · exact reject
  · unfold expectField
    split
    · exact rejectField_closes h ds (by decide)
    · exact h
  · unfold hostField
    split
    · exact h
    · split
      · exact h
      · exact reject
  · unfold ifModifiedSinceField
    split
    · exact h
    · refine Flow.Spec.bind (P := fun _ => True) (ofOption_closes fun _ => trivial) fun old _ => ?_
      split
      · exact h
      · exact reject
  · unfold ifNoneMatchField
    split <;> exact h
  · unfold rangeField
    split
    · split <;> exact h
    · exact reject
  · exact h

theorem storeField_closes (cfg : FieldConf) (h : StateOk st) (key value : Bytes) :
    (storeField cfg st key value).Spec StateOk Closed := by
  have hnew : StateOk { st with con := (newField st.con).2 } := (newField_spec st.con).1.trans h
  refine (handleField_closes cfg hnew _ key).bind ?_
  rintro ⟨st', _ | ds⟩ h'
  · exact h'
  · exact (insertField_closes h' ds).bind fun _ hcon => hcon

variable (cfg : FieldConf) (m : Bytes)

theorem foldedLine_closes (h : StateOk st) : (foldedLine m st).Spec StateOk Closed := by
  unfold foldedLine
  split
  · exact closed_failClose (by decide)
  · split
    · exact closed_failClose (by decide)
    · refine Flow.Spec.bind (P := fun _ => True) (ofOption_closes fun _ => trivial) fun found _ => ?_
      split <;> exact h

theorem fieldLine_closes (h : StateOk st) : (fieldLine cfg m st).Spec StateOk Closed := by
  unfold fieldLine
  dsimp only
  split
  · exact storeField_closes cfg (show StateOk { st with key := some st.first } from h) _ _
  · exact h

theorem headerLineEnd_closes (h : StateOk st) : (headerLineEnd cfg m st).Spec StateOk Closed := by
  unfold headerLineEnd
  split
  · exact (foldedLine_closes m h).bind fun _ h' => h'
  · exact (fieldLine_closes cfg m h).bind fun _ h' => h'

omit [Malloc] in
theorem keyStep_closes (h : StateOk st) (c : UInt8) : (keyStep m st c).Spec StateOk Closed := by
  unfold keyStep
  split
  · exact h
  · split
    · exact closed_failClose (by decide)
    · split
      · split
        · exact h
        · dsimp only
          split
          · exact h
          · exact closed_failClose (by decide)
      · split
        · exact h
        · split
          · exact closed_failClose (by decide)
          · exact h

theorem valueStep_closes (h : StateOk st) (c : UInt8) :
    (valueStep cfg m st c).Spec StateOk Closed := by
  unfold valueStep
  split
  · split
    · exact headerLineEnd_closes cfg m h
    · exact closed_failClose (by decide)
  · split
    · exact closed_fail (by decide)
    · split <;> exact h

theorem headerStep_closes (h : StateOk st) (c : UInt8) :
    (headerStep cfg m st c).Spec StateOk Closed := by
  unfold headerStep
  split
  · exact keyStep_closes m h c
  · exact valueStep_closes cfg m h c

theorem headerRound_closes (st : HeaderState) (x : Parsing HeaderState)
    (hx : headerRound cfg m st = some x) (h : StateOk st) : x.Spec StateOk Closed := by
  unfold headerRound at hx
  split at hx
  · cases hx
  · split at hx
    · cases hx
    · obtain rfl := Option.some.inj hx
      exact (headerStep_closes cfg m h _).bind fun _ h' => h'

omit [Malloc] in
theorem finishRequest_closes (srv : Server) (h : StateOk st) :
    (finishRequest srv st).Spec (fun r => NoError r.2) Closed := by
  refine Flow.Spec.bind (P := NoError) ?_ fun con hcon => Flow.Spec.bind (P := NoError) ?_
    fun con hcon => Flow.Spec.bind (P := NoError) ?_ fun con hcon =>
      Flow.Spec.bind (P := NoError) ?_ fun con hcon => hcon
  · unfold checkVersion
    split
    · dsimp only
      split
      · exact closed_failClose (by decide)
      · refine Flow.Spec.bind (P := fun _ => True) (ofOption_closes fun _ => trivial) fun ds _ => ?_
        split
        · exact closed_failClose (by decide)
        · exact h
    · exact h
  · unfold checkHost
    split
    · exact hcon
    · refine Flow.Spec.bind (P := fun _ => True) (ofOption_closes fun _ => trivial) fun ds _ => ?_
      dsimp only
      split
      · exact closed_failClose (by decide)
      · exact hcon
  · unfold checkMethod
    split
    · split
      · exact closed_fail (by decide)
      · exact hcon
    · split
      · exact closed_fail (by decide)
      · exact hcon
    · split
      · exact hcon
      · exact closed_fail (by decide)
    · exact hcon
  · unfold checkSize
    split
    · split
      · exact closed_fail (by decide)
      · split
        · exact closed_fail (by decide)
        · exact hcon
    · exact hcon

end Specs

/-! ## The request line -/

structure IsRequestLine (line method uri proto : Bytes) : Prop where
  line : line = method ++ 32 :: (uri ++ 32 :: proto)
  method : 32 ∉ method
  uri : 32 ∉ uri
  proto : 32 ∉ proto

/-- A well-formed version `HTTP/major.minor` that is neither 1.0 nor 1.1. -/
def UnsupportedProto (proto : Bytes) : Prop :=
  ∃ major minor, proto = ascii "HTTP/" ++ (major ++ 46 :: minor) ∧ 46 ∉ major ∧
    major ≠ [] ∧ minor ≠ [] ∧ (strtol major).2 = [] ∧ (strtol minor).2 = [] ∧
    ¬ ((strtol major).1 = 1 ∧ ((strtol minor).1 = 0 ∨ (strtol minor).1 = 1))

/-- The request line names a known method and a version that is not supported. -/
def UnsupportedVersion (text : Bytes) : Prop :=
  ∃ line rest method uri proto, FirstLine text line rest ∧ IsRequestLine line method uri proto ∧
    cstr method ∈ httpMethods.map Prod.snd ∧ UnsupportedProto (cstr proto)

theorem getHttpMethodKey_isSome {s : Bytes} :
    (getHttpMethodKey s).isSome ↔ s ∈ httpMethods.map Prod.snd := by
  simp only [getHttpMethodKey, Option.isSome_map, List.find?_isSome, List.mem_map, beq_iff_eq]

theorem versionNumbers_eq_some {s : Bytes} {a b : Int} :
    versionNumbers s = some (a, b) ↔ ∃ major minor, s = major ++ 46 :: minor ∧ 46 ∉ major ∧
      major ≠ [] ∧ minor ≠ [] ∧ strtol major = (a, []) ∧ strtol minor = (b, []) := by
  unfold versionNumbers
  constructor
  · intro h
    split at h
    · cases h
    · next dot hdot =>
      have hmem : (46 : UInt8) ∈ s := by
        by_contra hn
        rw [strchr_eq_none.mpr hn] at hdot
        cases hdot
      obtain ⟨major, minor, rfl, hmajor⟩ := List.eq_append_cons_of_mem hmem
      rw [strchr_append_cons hmajor] at hdot
      obtain rfl := Option.some.inj hdot
      rw [drop_append_cons, List.take_left' rfl] at h
      split at h
      · cases h
      · next hne =>
        rw [not_or] at hne
        dsimp only at h
        split at h
        · cases h
        · next herr =>
          rw [not_or, not_not, not_not] at herr
          obtain ⟨rfl, rfl⟩ := Prod.mk.inj (Option.some.inj h)
          exact ⟨major, minor, rfl, hmajor, by simpa using hne.1, hne.2,
            Prod.ext rfl herr.1, Prod.ext rfl herr.2⟩
  · rintro ⟨major, minor, rfl, hmajor, hne, hne', hmaj, hmin⟩
    have hpos : ¬ (major.length = 0 ∨ minor = []) := by simp [hne, hne']
    simp only [strchr_append_cons hmajor, drop_append_cons, List.take_left' rfl, if_neg hpos,
      hmaj, hmin]
    simp

section Line

variable [Malloc] {con : Connection} (splitVals : Arr DataString)

omit [Malloc] in
theorem requestVersion_closes {proto : Bytes} (hv : ¬ UnsupportedProto proto) (h : NoError con) :
    (requestVersion splitVals proto con).Spec NoError Closed := by
  unfold requestVersion
  split
  · next hpre =>
    split
    · exact closed_fail (by decide)
    · next majorNum minorNum hnum =>
      split
      · exact h
      · split
        · exact h
        · next h11 h10 =>
          refine absurd ?_ hv
          obtain ⟨major, minor, hs, hdot, hne, hne', hmaj, hmin⟩ := versionNumbers_eq_some.mp hnum
          refine ⟨major, minor, ?_, hdot, hne, hne', by rw [hmaj], by rw [hmin], ?_⟩
          · obtain ⟨t, ht⟩ := List.isPrefixOf_iff_prefix.mp hpre
            rw [← ht] at hs ⊢
            rw [← hs]
            rfl
          · rw [hmaj, hmin]
            rintro ⟨h1, h0 | h1'⟩
            · exact h10 ⟨h1, h0⟩
            · exact h11 ⟨h1, h1'⟩
  · exact closed_fail (by decide)

omit [Malloc] in
theorem requestVersion_unsupported {proto : Bytes} (hv : UnsupportedProto proto) :
    requestVersion splitVals proto con = .ret ({ con with httpStatus := 505 }, splitVals) := by
  obtain ⟨major, minor, rfl, hdot, hne, hne', hmaj, hmin, hnot⟩ := hv
  have hnum : versionNumbers (major ++ 46 :: minor) =
      some ((strtol major).1, (strtol minor).1) :=
    versionNumbers_eq_some.mpr ⟨major, minor, rfl, hdot, hne, hne', Prod.ext rfl hmaj,
      Prod.ext rfl hmin⟩
  have hdrop : (ascii "HTTP/" ++ (major ++ 46 :: minor)).drop 5 = major ++ 46 :: minor := rfl
  have hpre : (ascii "HTTP/").isPrefixOf (ascii "HTTP/" ++ (major ++ 46 :: minor)) = true :=
    List.isPrefixOf_iff_prefix.mpr (List.prefix_append _ _)
  unfold requestVersion
  rw [if_pos hpre, hdrop, hnum]
  have h11 : ¬ ((strtol major).1 = 1 ∧ (strtol minor).1 = 1) := fun h => hnot ⟨h.1, Or.inr h.2⟩
  have h10 : ¬ ((strtol major).1 = 1 ∧ (strtol minor).1 = 0) := fun h => hnot ⟨h.1, Or.inl h.2⟩
  simp only [if_neg h11, if_neg h10]

theorem requestUri_closes (con : Connection) (uri : Bytes) :
    (requestUri splitVals uri con).Spec (fun r => NoError r.1) Closed := by
  unfold requestUri
  dsimp only
  split
  · rfl
  · exact closed_fail (by decide)

variable (m : Bytes)

theorem requestLineEnd_closes (i : Nat) {st : ReqLine} (h : NoError con)
    (hv : st.requestLineStage = 2 →
      getHttpMethodKey (cstr (slice m st.method (st.uri - 1))) ≠ none →
      ¬ UnsupportedProto (cstr (slice m st.first i))) :
    (requestLineEnd m splitVals con i st).Spec (fun r => NoError r.con) Closed := by
  unfold requestLineEnd
  dsimp only
  split
  · exact closed_failClose (by decide)
  · next hstage =>
    split
    · exact closed_failClose (by decide)
    · next r hr =>
      have hv := hv (not_not.mp hstage) (by rw [hr]; simp)
      refine (requestVersion_closes splitVals hv ?_).bind fun con _ => ?_
      · exact h
      · exact (requestUri_closes splitVals con _).bind fun r hr => hr

theorem requestLineLoop_closes_of_no_line (h : NoError con) :
    ∀ {s : Bytes} (i : Nat) (st : ReqLine), ¬ crlf <:+: s →
      (requestLineLoop m splitVals con s i st).Spec (fun r => NoError r.con) Closed
  | [], i, st, _ => h
  | c :: s, i, st, hs => by
    obtain ⟨hc, hs⟩ := not_crlf_cons.mp hs
    unfold requestLineLoop
    rw [if_neg hc]
    split
    · split
      · exact requestLineLoop_closes_of_no_line h _ _ hs
      · exact requestLineLoop_closes_of_no_line h _ _ hs
      · exact closed_failClose (by decide)
    · exact requestLineLoop_closes_of_no_line h _ _ hs

theorem requestLineLoop_refused_of_count (con : Connection) {rest : Bytes} :
    ∀ {line text : Bytes} (i : Nat) (st : ReqLine), text = line ++ crlf ++ rest →
      ¬ crlf <:+: line → st.requestLineStage + line.count 32 ≠ 2 →
      (requestLineLoop m splitVals con text i st).Spec (fun _ => False) Closed
  | [], _, i, st, rfl, _, hn => by
    show (requestLineEnd m splitVals con i st).Spec _ _
    unfold requestLineEnd
    dsimp only
    rw [if_pos (show st.requestLineStage ≠ 2 from hn)]
    exact closed_failClose (by decide)
  | c :: line, _, i, st, rfl, hl, hn => by
    obtain ⟨hc, hline⟩ := not_crlf_cons.mp hl
    have hc' : ¬ (c = 13 ∧ (line ++ crlf ++ rest).head? = some 10) := by
      rintro ⟨h13, h10⟩
      cases line with
      | nil => cases h10
      | cons d line => exact hc ⟨h13, by simpa using h10⟩
    simp only [List.cons_append]
    unfold requestLineLoop
    rw [if_neg hc']
    split
    · next h32 =>
      subst h32
      rw [List.count_cons_self] at hn
      split
      · next h0 =>
        rw [h0] at hn
        exact requestLineLoop_refused_of_count con _ _ rfl hline (by simp only; omega)
      · next h1 =>
        rw [h1] at hn
        exact requestLineLoop_refused_of_count con _ _ rfl hline (by simp only; omega)
      · exact closed_failClose (by decide)
    · next h32 =>
      rw [List.count_cons_of_ne h32] at hn
      exact requestLineLoop_refused_of_count con _ _ rfl hline hn

omit [Malloc] in
theorem exists_isRequestLine {line : Bytes} (h : line.count 32 = 2) :
    ∃ method uri proto, IsRequestLine line method uri proto := by
  obtain ⟨method, t, ht, hmethod⟩ := List.eq_append_cons_of_mem
    (List.count_pos_iff.mp (by omega : 0 < line.count 32))
  have hcount : t.count 32 = 1 := by
    rw [ht, List.count_append, List.count_eq_zero_of_not_mem hmethod, List.count_cons_self] at h
    omega
  obtain ⟨uri, proto, ht', huri⟩ := List.eq_append_cons_of_mem
    (List.count_pos_iff.mp (by omega : 0 < t.count 32))
  have hproto : 32 ∉ proto := by
    rw [ht', List.count_append, List.count_cons_self] at hcount
    exact List.count_eq_zero.mp (by omega)
  exact ⟨method, uri, proto, by rw [ht, ht'], hmethod, huri, hproto⟩

theorem requestLineLoop_word (con : Connection) {w tail : Bytes} (hw : 32 ∉ w)
    (hcr : ¬ crlf <:+: w) (ht : tail.head? ≠ some 10) (i : Nat) (st : ReqLine) :
    requestLineLoop m splitVals con (w ++ tail) i st =
      requestLineLoop m splitVals con tail (i + w.length) st := by
  induction w generalizing i with
  | nil => rfl
  | cons c w ih =>
    obtain ⟨hc, hcr⟩ := not_crlf_cons.mp hcr
    have h32 : c ≠ 32 := fun e => hw (by simp [e])
    have hc' : ¬ (c = 13 ∧ (w ++ tail).head? = some 10) := by
      rintro ⟨h13, h10⟩
      cases w with
      | nil => exact ht h10
      | cons d w => exact hc ⟨h13, by simpa using h10⟩
    rw [List.cons_append, requestLineLoop, if_neg hc', if_neg h32,
      ih (fun hm => hw (List.mem_cons_of_mem _ hm)) hcr, List.length_cons]
    congr 1
    omega

theorem requestLineLoop_three (con : Connection) {text line rest method uri proto : Bytes}
    (h : FirstLine text line rest) (hl : IsRequestLine line method uri proto) :
    requestLineLoop m splitVals con text 0 ⟨0, 0, 0, 0⟩ =
      requestLineEnd m splitVals con line.length
        ⟨2, method.length + 1 + uri.length + 1, 0, method.length + 1⟩ := by
  obtain ⟨hline, hmethod, huri, hproto⟩ := hl
  have hcr : ∀ {w : Bytes}, w <:+: line → ¬ crlf <:+: w := fun hw hc => h.line (hc.trans hw)
  have hcr1 : ¬ crlf <:+: method := hcr ⟨[], _, by rw [hline]; rfl⟩
  have hcr2 : ¬ crlf <:+: uri := hcr ⟨method ++ [32], 32 :: proto, by simp [hline]⟩
  have hcr3 : ¬ crlf <:+: proto := hcr ⟨method ++ 32 :: uri ++ [32], [], by simp [hline]⟩
  have htext : text = method ++ 32 :: (uri ++ 32 :: (proto ++ 13 :: 10 :: rest)) := by
    rw [h.text, hline]
    simp [crlf]
  have hlen : line.length = method.length + 1 + uri.length + 1 + proto.length := by
    rw [hline]
    simp
    omega
  rw [htext, requestLineLoop_word splitVals m con hmethod hcr1 (by simp), requestLineLoop,
    if_neg (by simp), if_pos rfl]
  simp only [Nat.zero_add]
  rw [requestLineLoop_word splitVals m con huri hcr2 (by simp), requestLineLoop,
    if_neg (by simp), if_pos rfl]
  simp only
  rw [requestLineLoop_word splitVals m con hproto hcr3 (by simp), requestLineLoop,
    if_pos (by simp), hlen]

omit [Malloc] in
theorem IsRequestLine.slices {text line rest method uri proto : Bytes} (h : FirstLine text line rest)
    (hl : IsRequestLine line method uri proto) :
    slice text 0 (method.length + 1 - 1) = method ∧
      slice text (method.length + 1) (method.length + 1 + uri.length + 1 - 1) = uri ∧
      slice text (method.length + 1 + uri.length + 1) line.length = proto := by
  have htext : text = method ++ 32 :: (uri ++ 32 :: (proto ++ (crlf ++ rest))) := by
    rw [h.text, hl.line]
    simp
  have hlen : line.length = method.length + 1 + uri.length + 1 + proto.length := by
    rw [hl.line]
    simp
    omega
  refine ⟨?_, ?_, ?_⟩
  · exact slice_eq (a := []) htext rfl (by simp)
  · exact slice_eq (a := method ++ [32]) (c := 32 :: (proto ++ (crlf ++ rest)))
      (by rw [htext]; simp) (by simp) (by simp)
  · exact slice_eq (a := method ++ 32 :: uri ++ [32]) (c := crlf ++ rest) (by rw [htext]; simp)
      (by simp; omega) (by rw [hlen]; simp; omega)

theorem requestLineLoop_closes (h : NoError con) {text : Bytes} (hv : ¬ UnsupportedVersion text) :
    (requestLineLoop text splitVals con text 0 ⟨0, 0, 0, 0⟩).Spec (fun r => NoError r.con)
      Closed := by
  rcases exists_firstLine text with ⟨line, rest, hfirst⟩ | hno
  · by_cases hcount : line.count 32 = 2
    · obtain ⟨method, uri, proto, hl⟩ := exists_isRequestLine hcount
      obtain ⟨hs1, -, hs3⟩ := hl.slices hfirst
      rw [requestLineLoop_three splitVals text con hfirst hl]
      refine requestLineEnd_closes splitVals text _ h fun _ hm hp => hv ?_
      simp only [hs1, hs3] at hm hp
      exact ⟨line, rest, method, uri, proto, hfirst, hl,
        getHttpMethodKey_isSome.mp (Option.isSome_iff_ne_none.mpr hm), hp⟩
    · have hrefused := requestLineLoop_refused_of_count splitVals text con 0 ⟨0, 0, 0, 0⟩
        hfirst.text hfirst.line (by simpa using hcount)
      exact hrefused.mono (fun _ => False.elim) fun _ hclosed => hclosed
  · exact requestLineLoop_closes_of_no_line splitVals text h 0 _ hno

theorem requestLineLoop_unsupported (con : Connection) {text : Bytes}
    (hv : UnsupportedVersion text) :
    ∃ con', requestLineLoop text splitVals con text 0 ⟨0, 0, 0, 0⟩ = .ret (con', splitVals) ∧
      con'.httpStatus = 505 ∧ con'.keepAlive = con.keepAlive := by
  obtain ⟨line, rest, method, uri, proto, hfirst, hl, hmethod, hproto⟩ := hv
  obtain ⟨hs1, -, hs3⟩ := hl.slices hfirst
  obtain ⟨r, hr⟩ := Option.isSome_iff_exists.mp (getHttpMethodKey_isSome.mpr hmethod)
  rw [requestLineLoop_three splitVals text con hfirst hl, requestLineEnd, if_neg (by simp)]
  simp only [hs1, hs3, hr, requestVersion_unsupported splitVals hproto, Flow.ret_bind]
  exact ⟨_, rfl, rfl, rfl⟩

end Line

/-! ## All requests -/

/-- The text that is parsed: after a `POST` a line end in front of it is skipped. -/
def requestText (con : Connection) : Bytes :=
  let req := con.request.request
  if con.requestCount > 1 ∧ crlf <+: req.ptr then (req.ptr.drop 2).take (req.used - 1 - 2)
  else req.ptr.take (req.used - 1)

/-- A request that is answered with an error closes the connection. -/
def ClosesOnError [Malloc] (srv : Server) (con : Connection) : Prop :=
  ∀ ret con' srv', httpRequestParse srv con = some (ret, con', srv') →
    400 ≤ con'.httpStatus → con'.keepAlive = false

section Parse

variable [Malloc]

omit [Malloc] in
theorem unsupportedVersion_append_nul {text : Bytes} :
    UnsupportedVersion (text ++ [0]) ↔ UnsupportedVersion text := by
  unfold UnsupportedVersion
  constructor
  · rintro ⟨line, rest, method, uri, proto, hfirst, h⟩
    obtain ⟨rest', -, hfirst⟩ := firstLine_append_nul.mp hfirst
    exact ⟨line, rest', method, uri, proto, hfirst, h⟩
  · rintro ⟨line, rest, method, uri, proto, hfirst, h⟩
    exact ⟨line, _, method, uri, proto, firstLine_append_nul.mpr ⟨rest, rfl, hfirst⟩, h⟩

theorem copyRequest_bytes {con : Connection} {b : Buffer} (h : copyRequest con = some b) :
    b.bytes = requestText con ++ [0] ∨ b.bytes = [] ∧ requestText con = [] := by
  unfold copyRequest at h
  unfold requestText
  dsimp only at h ⊢
  have hcrlf : (ascii "\r\n").isPrefixOf con.request.request.ptr = true ↔
      crlf <+: con.request.request.ptr := List.isPrefixOf_iff_prefix
  split at h
  · cases h
  · simp only [hcrlf] at h
    split at h
    · next hc =>
      rw [if_pos hc]
      obtain rfl := Option.some.inj h
      exact Or.inl (holds_bufferCopyStringLen _ _)
    · next hc =>
      rw [if_neg hc]
      obtain rfl := Option.some.inj h
      by_cases hu : con.request.request.used = 0
      · refine Or.inr ⟨?_, by simp [hu]⟩
        rw [bufferCopyStringBuffer, if_pos hu]
        exact bufferReset_bytes _
      · exact Or.inl (bufferCopyStringBuffer_bytes _ hu)

omit [Malloc] in
theorem not_unsupportedVersion_nil : ¬ UnsupportedVersion [] := by
  rintro ⟨line, rest, -, -, -, hfirst, -⟩
  have := congrArg List.length hfirst.text
  simp [crlf] at this

theorem unsupportedVersion_copy {con : Connection} {b : Buffer} (h : copyRequest con = some b) :
    UnsupportedVersion b.bytes ↔ UnsupportedVersion (requestText con) := by
  rcases copyRequest_bytes h with hb | ⟨hb, ht⟩
  · rw [hb, unsupportedVersion_append_nul]
  · rw [hb, ht]

theorem parseCopy_closes (srv : Server) {con con' : Connection} {ret : Int} {srv' : Server}
    (h : NoError con) (hv : ¬ UnsupportedVersion con.parseRequest.bytes)
    (hp : parseCopy srv con = some (ret, con', srv')) : NoError con' ∨ con'.keepAlive = false := by
  have hline : (parseRequestLine srv con con.parseRequest.bytes).Spec (fun r => NoError r.con)
      Closed := by
    refine (requestLineLoop_closes srv.splitVals h hv).bind fun r hr => ?_
    split
    · exact closed_failClose (by decide)
    · exact (insertReqlineHost_closes hr r.reqlineHost).bind fun con hcon => hcon
  have hall : (do
      let r ← parseRequestLine srv con con.parseRequest.bytes
      let st ← parseHeader srv con.parseRequest.bytes r
      let p ← finishRequest srv st
      .next (p.1, p.2, st.splitVals) : Parsing (Int × Connection × Arr DataString)).Spec
        (fun r => NoError r.2.1) Closed := by
    refine hline.bind fun r hr => ?_
    refine Flow.Spec.bind (P := StateOk) (Flow.loop_invariant (headerRound_closes _ _) _ hr) fun st hst => ?_
    exact (finishRequest_closes srv hst).bind fun r hr => hr
  unfold parseCopy at hp
  dsimp only at hp
  split at hp
  · next hx =>
    cases hp
    exact Or.inl (hall.next hx)
  · next hx =>
    cases hp
    exact Or.inr (hall.ret hx).keepAlive
  · cases hp

theorem parseCopy_unsupported (srv : Server) {con : Connection}
    (hv : UnsupportedVersion con.parseRequest.bytes) :
    ∃ con', parseCopy srv con = some (0, con', srv) ∧ con'.httpStatus = 505 ∧
      con'.keepAlive = con.keepAlive := by
  obtain ⟨con', hloop, hstatus, hka⟩ := requestLineLoop_unsupported srv.splitVals con hv
  refine ⟨con', ?_, hstatus, hka⟩
  unfold parseCopy parseRequestLine
  simp only [hloop, Flow.ret_bind]

/-- **Which errors close the connection**: all of them, but the one for a version that is not
supported, which leaves `keep_alive` as it was. -/
theorem closesOnError_iff (srv : Server) (con : Connection) (h : con.httpStatus = 0) :
    ClosesOnError srv con ↔ con.keepAlive = false ∨ ¬ UnsupportedVersion (requestText con) := by
  constructor
  · intro hcl
    by_contra hnot
    rw [not_or, not_not] at hnot
    obtain ⟨hka, hv⟩ := hnot
    cases hcopy : copyRequest con with
    | none =>
      have hnil : con.request.request.ptr = [] := by
        unfold copyRequest at hcopy
        dsimp only at hcopy
        split at hcopy
        · next hc => exact hc.2
        · split at hcopy <;> cases hcopy
      refine not_unsupportedVersion_nil ?_
      unfold requestText at hv
      simpa [hnil, crlf] using hv
    | some b =>
      obtain ⟨con', hp, hstatus, hka'⟩ := parseCopy_unsupported srv
        (show UnsupportedVersion ({ con with parseRequest := b } : Connection).parseRequest.bytes from
          (unsupportedVersion_copy hcopy).mpr hv)
      have hparse : httpRequestParse srv con = some (0, con', srv) := by
        unfold httpRequestParse
        rw [hcopy]
        exact hp
      have := hcl 0 con' srv hparse (by rw [hstatus]; decide)
      exact hka (hka'.symm.trans this)
  · rintro hor ret con' srv' hp hstatus
    unfold httpRequestParse at hp
    split at hp
    · cases hp
    · next b hcopy =>
      by_cases hv : UnsupportedVersion (requestText con)
      · obtain ⟨con'', hp', -, hka⟩ := parseCopy_unsupported srv
          (show UnsupportedVersion ({ con with parseRequest := b } : Connection).parseRequest.bytes
            from (unsupportedVersion_copy hcopy).mpr hv)
        rw [hp'] at hp
        cases hp
        rcases hor with hka0 | hn
        · exact hka.trans hka0
        · exact absurd hv hn
      · rcases parseCopy_closes srv (show NoError { con with parseRequest := b } from h)
          (fun hb => hv ((unsupportedVersion_copy hcopy).mp hb)) hp with h0 | hka
        · rw [NoError] at h0
          omega
        · exact hka

end Parse

/-- A connection that the previous request left open, when `text` is the next request. -/
def keptConnection (text : Bytes) : Connection :=
  let conf : SpecificConfig := { mimetypes := arrayInit, allowHttp11 := true }
  let con := { connectionInit conf with keepAlive := true, requestCount := 1 }
  @receiveRequest zeroMalloc (@connectionReset zeroMalloc conf con) text

theorem closesOnError_iff_http2 :
    let con := keptConnection (ascii "GET / HTTP/2.0\r\n\r\n")
    @ClosesOnError zeroMalloc (serverInit 0) con ↔
      con.keepAlive = false ∨ ¬ UnsupportedVersion (requestText con) :=
  @closesOnError_iff zeroMalloc (serverInit 0) (keptConnection (ascii "GET / HTTP/2.0\r\n\r\n"))
    rfl

/-- The second request of a connection asks for HTTP/2.0. -/
theorem not_closesOnError_http2 : ¬ ∀ (mal : Malloc) (srv : Server) (con : Connection),
    con.httpStatus = 0 → @ClosesOnError mal srv con := by
  intro h
  have hparse : (@httpRequestParse zeroMalloc (serverInit 0)
      (keptConnection (ascii "GET / HTTP/2.0\r\n\r\n"))).map
        (fun r => (r.2.1.httpStatus, r.2.1.keepAlive)) = some (505, true) := by decide +kernel
  obtain ⟨⟨ret, con', srv'⟩, hp, he⟩ := Option.map_eq_some_iff.mp hparse
  obtain ⟨hstatus, hka⟩ := Prod.mk.inj he
  have hclosed := h zeroMalloc _ _ rfl ret con' srv' hp (by rw [hstatus]; decide)
  rw [hka] at hclosed
  cases hclosed

end Lighttpd
