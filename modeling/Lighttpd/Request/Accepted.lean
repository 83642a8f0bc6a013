import Lighttpd.Request.FieldHistory
import Lighttpd.Request.KeepAlive

/-!
# The run of the parser on a request it accepts

An accepted request goes through all parts of the parser. The request line leaves the header fields
alone, but for the host it may name; the rounds of the header loop are events; and the checks that
follow change at most the value of the host.
-/

namespace Lighttpd

open CLib

/-! ## The connection before a request -/

/-- A connection as `connection_reset` leaves it, as far as the header fields go. -/
structure Ready (con : Connection) : Prop where
  status : con.httpStatus = 0
  empty : con.request.headers.used = 0
  plain : ∀ {i ds}, con.request.headers.Slot i ds →
    ds.isIndexKey = false ∧ ds.response = false ∧ ds.addr < con.allocs
  addrs : ∀ {i j x y}, con.request.headers.Slot i x → con.request.headers.Slot j y →
    x.addr = y.addr → i = j
  contentLength : con.request.contentLength = 0
  host : con.request.httpHost = none
  saved : ∀ f, con.request.saved f = none

section Accepted

variable [Malloc]

theorem ready_connectionReset (conf : SpecificConfig) {con : Connection} {b : Bool}
    (h : FieldsOk (con.view b)) (hweak : con.request.headers.isWeakref = false) :
    Ready (connectionReset conf con) := by
  have hslot : ∀ {i ds}, (arrayReset con.request.headers).Slot i ds →
      ∃ ds', con.request.headers.Slot i ds' ∧ ds.addr = ds'.addr ∧
        ds.isIndexKey = ds'.isIndexKey ∧ ds.response = ds'.response := by
    intro i ds hs
    unfold arrayReset at hs
    rw [if_neg (by simp [hweak])] at hs
    simp only [Arr.Slot, List.getElem?_append, List.length_map, List.length_take] at hs
    split at hs
    · next hi =>
      rw [List.getElem?_map, List.getElem?_take] at hs
      split at hs
      · obtain ⟨o, ho, hr⟩ := Option.map_eq_some_iff.mp hs
        obtain ⟨ds', rfl, rfl⟩ := Option.map_eq_some_iff.mp hr
        exact ⟨ds', ho, rfl, rfl, rfl⟩
      · cases hs
    · next hi =>
      rw [List.getElem?_drop] at hs
      have hle := h.wf.used_le
      have hadd : con.request.headers.used +
          (i - min con.request.headers.used con.request.headers.data.length) = i := by
        simp only [Connection.view] at hle
        omega
      rw [hadd] at hs
      exact ⟨ds, hs, rfl, rfl, rfl⟩
  refine ⟨rfl, ?_, ?_, ?_, rfl, rfl, fun f => by cases f <;> rfl⟩
  · show (arrayReset con.request.headers).used = 0
    unfold arrayReset
    split <;> rfl
  · intro i ds hs
    obtain ⟨ds', hs', ha, hk, hr⟩ := hslot hs
    rw [ha, hk, hr]
    exact h.plain hs'
  · intro i j x y hx hy he
    obtain ⟨x', hx', hax, -⟩ := hslot hx
    obtain ⟨y', hy', hay, -⟩ := hslot hy
    exact h.addrs hx' hy' (hax.symm.trans (he.trans hay))

theorem Ready.receiveRequest {con : Connection} (h : Ready con) (text : Bytes) :
    Ready (receiveRequest con text) :=
  ⟨h.status, h.empty, h.plain, h.addrs, h.contentLength, h.host, h.saved⟩

/-! ## The request line -/

def Refused (e : Connection × Arr DataString) : Prop := e.1.httpStatus ≠ 0

structure SameFields (con con' : Connection) : Prop where
  status : con'.httpStatus = 0
  view : ∀ b, con'.view b = con.view b

variable {con : Connection} (splitVals : Arr DataString)

omit [Malloc] in
theorem requestVersion_sameFields (h : con.httpStatus = 0) (proto : Bytes) :
    (requestVersion splitVals proto con).Spec (SameFields con) Refused := by
  unfold requestVersion
  split
  · split
    · exact (closed_fail (by decide)).status
    · split
      · exact ⟨h, fun _ => rfl⟩
      · split
        · exact ⟨h, fun _ => rfl⟩
        · show ((505 : Int) ≠ 0)
          decide
  · exact (closed_fail (by decide)).status

theorem requestUri_sameFields (uri : Bytes) :
    (requestUri splitVals uri con).Spec (fun r => SameFields con r.1) Refused := by
  unfold requestUri
  dsimp only
  split
  · exact ⟨rfl, fun _ => rfl⟩
  · exact (closed_fail (by decide)).status

variable (m : Bytes)

theorem requestLineLoop_sameFields (h : con.httpStatus = 0) : ∀ (s : Bytes) (i : Nat) (st : ReqLine),
    (requestLineLoop m splitVals con s i st).Spec (fun r => SameFields con r.con) Refused
  | [], i, st => ⟨h, fun _ => rfl⟩
  | c :: rest, i, st => by
    unfold requestLineLoop
    split
    · unfold requestLineEnd
      dsimp only
      split
      · exact (closed_failClose (by decide)).status
      · split
        · exact (closed_failClose (by decide)).status
        · refine (requestVersion_sameFields splitVals ?_ _).bind fun con₁ h₁ => ?_
          · exact h
          · refine (requestUri_sameFields splitVals _).bind fun r h₂ => ?_
            exact ⟨h₂.status, fun b => (h₂.view b).trans (h₁.view b)⟩
    · split
      · split
        · exact requestLineLoop_sameFields h _ _ _
        · exact requestLineLoop_sameFields h _ _ _
        · exact (closed_failClose (by decide)).status
      · exact requestLineLoop_sameFields h _ _ _

/-! ## Where the header loop starts -/

/-- The element the parser takes for the host has this name. -/
def HostOk (v : FieldView) : Prop :=
  ∀ a, v.host = some a → Settled v a ∧ ∀ {i ds}, v.headers.Live i ds → ds.addr = a → ds.Named .host

structure Started (v : FieldView) : Prop where
  ok : FieldsOk v
  host : HostOk v
  elements : ∀ {i ds}, v.headers.Live i ds → ds.Named .host
  contentLength : v.contentLength = 0
  conLengthSet : v.conLengthSet = false
  saved : ∀ f, v.saved f = none

omit [Malloc] in
theorem Ready.no_elements (h : Ready con) {i : Nat} {ds : DataString} :
    ¬ con.request.headers.Live i ds := by
  rintro ⟨hi, -⟩
  rw [h.empty] at hi
  omega

omit [Malloc] in
theorem Ready.started (h : Ready con) : Started (con.view false) := by
  refine ⟨⟨.of_used_zero h.empty, h.plain, h.addrs, fun hl => absurd hl h.no_elements⟩, ?_,
    fun hl => absurd hl h.no_elements, h.contentLength, rfl, h.saved⟩
  intro a ha
  have : con.request.httpHost = some a := ha
  rw [h.host] at this
  cases this

omit [Malloc] in
theorem Ready.congr (h : Ready con) {con' : Connection} (hs : SameFields con con') : Ready con' := by
  have hv := hs.view false
  have hheaders : con'.request.headers = con.request.headers := congrArg FieldView.headers hv
  have hallocs : con'.allocs = con.allocs := congrArg FieldView.allocs hv
  refine ⟨hs.status, ?_, ?_, ?_, (congrArg FieldView.contentLength hv).trans h.contentLength,
    (congrArg FieldView.host hv).trans h.host,
    fun f => (congrFun (congrArg FieldView.saved hv) f).trans (h.saved f)⟩
  · rw [hheaders]
    exact h.empty
  · rw [hheaders, hallocs]
    exact h.plain
  · rw [hheaders]
    exact h.addrs

theorem insertReqlineHost_started {con' : Connection} (h : Ready con) (host : Option Bytes)
    (hi : insertReqlineHost host con = .next con') : Started (con'.view false) := by
  cases host with
  | none =>
    cases hi
    exact h.started
  | some host =>
    have hst := h.started
    obtain ⟨hnew, hview⟩ := newField_spec' con false
    unfold insertReqlineHost at hi
    revert hi
    generalize newField con = nf at hnew hview
    obtain ⟨ds, con₁⟩ := nf
    intro hi
    dsimp only at hi hnew hview
    obtain ⟨con₂, hinsert, hi⟩ := Flow.bind_eq_next hi
    cases hi
    obtain ⟨hwf, hindex⟩ := hnew.plain hst.ok
    have hset : (ds.set (ascii "Host") host).isIndexKey = false := hindex
    obtain ⟨hkey, -⟩ := text_set ds (ascii "Host") host
    obtain ⟨headers, hins, rfl⟩ := insertField_next hwf hset hkey hinsert
    have new := hnew.isNew hst.ok
    generalize hv' : ((con₁.mapRequest fun r => { r with headers := headers }).mapRequest
      fun r => { r with httpHost := some ds.addr }).view false = v'
    have hheaders : v'.headers = headers := by rw [← hv']; rfl
    have hallocs : v'.allocs = con₁.allocs := by rw [← hv']; rfl
    obtain ⟨placed, slots, hok⟩ := new.placed hst.ok hins hheaders hallocs
    rw [← hheaders] at slots
    have hsettled : Settled v' (ds.set (ascii "Host") host).addr := new.settled rfl slots hallocs
    have elements : ∀ {i z}, v'.headers.Live i z → z.Named .host := by
      intro i z hz
      rw [hheaders] at hz
      cases placed with
      | merged _ live => exact absurd live h.no_elements
      | appended _ elements =>
        rcases elements.mp hz with ⟨-, rfl⟩ | hz
        · exact ⟨_, hkey, by decide⟩
        · exact absurd hz h.no_elements
    refine ⟨hok, ?_, elements, ?_, by rw [← hv']; rfl, ?_⟩
    · intro a ha
      rw [← hv'] at ha
      obtain rfl : ds.addr = a := Option.some.inj ha
      exact ⟨hsettled, fun hz _ => elements hz⟩
    · rw [← hv']
      exact (congrArg FieldView.contentLength hview).trans h.contentLength
    · intro f
      rw [← hv']
      have hsaved := (congrFun (congrArg FieldView.saved hview) f).trans (h.saved f)
      cases f <;> exact hsaved

/-! ## The run -/

def requestCopy (con : Connection) : Bytes := (copyRequest con).elim [] Buffer.bytes

def headerTrace (srv : Server) (con : Connection) : List HeaderState :=
  match copyRequest con with
  | none => []
  | some parseRequest =>
    let con := { con with parseRequest := parseRequest }
    let m := con.parseRequest.bytes
    match parseRequestLine srv con m with
    | .next r =>
      Flow.trace (headerRound ⟨srv.rejectExpect100With417, r.reqlineHost.isSome⟩ m) (m.length + 1)
        (headerStart r.con srv.splitVals r.i)
    | _ => []

/-- The run on a request that is accepted: the loop, and what follows it. -/
structure AcceptedRun (srv : Server) (con : Connection) (ret : Int) (con' : Connection)
    (m : Bytes) (cfg : FieldConf) (st₀ st : HeaderState) : Prop where
  copy : requestCopy con = m
  start : st₀.isKey = true ∧ st₀.inFolding = false
  started : Started st₀.view
  trace : headerTrace srv con = Flow.trace (headerRound cfg m) (m.length + 1) st₀
  loop : Flow.loop (headerRound cfg m) (m.length + 1) st₀ = .next st
  finish : finishRequest srv st = .next (ret, con')

theorem parseRequestLine_started (srv : Server) (h : Ready con) :
    (parseRequestLine srv con m).Spec
      (fun r => Started (r.con.view false) ∧ NoError r.con) Refused := by
  refine (requestLineLoop_sameFields srv.splitVals m h.status m 0 _).bind fun r hr => ?_
  split
  · exact (closed_failClose (by decide)).status
  · have hready : Ready r.con := h.congr hr
    refine Flow.Spec.bind
      (P := fun con : Connection => Started (con.view false) ∧ NoError con) ?_ fun con hcon => hcon
    have hcloses := insertReqlineHost_closes hready.status r.reqlineHost
    cases hi : insertReqlineHost r.reqlineHost r.con with
    | next con' => exact ⟨insertReqlineHost_started hready _ hi, hcloses.next hi⟩
    | ret e => exact (hcloses.ret hi).status
    | fault => trivial

/-- **An accepted request has run through all parts of the parser.** -/
theorem acceptedRun {srv srv' : Server} {ret : Int} {con' : Connection} (h : Ready con)
    (hp : httpRequestParse srv con = some (ret, con', srv')) (hs : con'.httpStatus = 0) :
    ∃ m cfg st₀ st, AcceptedRun srv con ret con' m cfg st₀ st := by
  unfold httpRequestParse at hp
  cases hcopy : copyRequest con with
  | none =>
    rw [hcopy] at hp
    cases hp
  | some b =>
    rw [hcopy] at hp
    have hcopied : Ready { con with parseRequest := b } :=
      ⟨h.status, h.empty, h.plain, h.addrs, h.contentLength, h.host, h.saved⟩
    have hline := parseRequestLine_started b.bytes srv hcopied
    unfold parseCopy at hp
    dsimp only at hp
    cases hr : parseRequestLine srv { con with parseRequest := b } b.bytes with
    | fault =>
      rw [hr] at hp
      cases hp
    | ret e =>
      rw [hr] at hp
      cases hp
      exact absurd hs (hline.ret hr)
    | next r =>
      rw [hr] at hp
      obtain ⟨hstarted, hno⟩ := hline.next hr
      have hloop : (parseHeader srv b.bytes r).Spec StateOk Closed :=
        Flow.loop_invariant (headerRound_closes _ _) _ hno
      simp only [Flow.next_bind] at hp
      cases hst : parseHeader srv b.bytes r with
      | fault =>
        rw [hst] at hp
        cases hp
      | ret e =>
        rw [hst] at hp
        cases hp
        exact absurd hs (hloop.ret hst).status
      | next st =>
        rw [hst] at hp
        have hfinish := finishRequest_closes srv (hloop.next hst)
        simp only [Flow.next_bind] at hp
        cases hf : finishRequest srv st with
        | fault =>
          rw [hf] at hp
          cases hp
        | ret e =>
          rw [hf] at hp
          cases hp
          exact absurd hs (hfinish.ret hf).status
        | next r' =>
          rw [hf] at hp
          cases hp
          refine ⟨b.bytes, ⟨srv.rejectExpect100With417, r.reqlineHost.isSome⟩,
            headerStart r.con srv.splitVals r.i, st, ?_, ⟨rfl, rfl⟩, hstarted, ?_, hst, hf⟩
          · simp [requestCopy, hcopy]
          · unfold headerTrace
            rw [hcopy]
            dsimp only
            rw [hr]

/-! ## The rounds of the loop -/

variable {v v' : FieldView} {k : LineKind}

theorem HostOk.keep (hv' : FieldsOk v') (c : Change v k v') (hhost : v'.host = v.host)
    (h : HostOk v) : HostOk v' := by
  intro a ha
  rw [hhost] at ha
  obtain ⟨hs, hnamed⟩ := h a ha
  refine ⟨c.settled hv' hs, ?_⟩
  intro i z hz hza
  rcases c.origin hz.2 with ⟨ds, key, value, h, n, -, new, rfl, -⟩ | ⟨j, y, hy, hkept⟩
  · exact absurd hza (new.addr_ne hs)
  · rw [hkept.named]
    have hya : y.addr = a := hkept.addr.symm.trans hza
    exact hnamed (hs.live hy hya) hya

theorem Change.hostOk (hv' : FieldsOk v') (c : Change v k v') (h : HostOk v) : HostOk v' := by
  have c' := c
  cases c with
  | same => exact h.keep hv' c' rfl
  | folded => exact h.keep hv' c' rfl
  | @stored key value ds h₁ h₂ a v₁ kind ne new handled placed slots =>
    generalize hf : knownField key knownFields = f at handled
    cases handled with
    | quiet => exact h.keep hv' c' rfl
    | contentLength => exact h.keep hv' c' rfl
    | saved => exact h.keep hv' c' rfl
    | host =>
      intro b hb
      obtain rfl : (ds.set key value).addr = b := Option.some.inj hb
      refine ⟨new.settled rfl slots rfl, ?_⟩
      intro i z hz hza
      rcases slots hz.2 with ⟨rfl, -⟩ | ⟨hne, -⟩
      · exact ⟨key, (text_set ds key value).1, hf⟩
      · exact absurd hza hne

/-- A line that starts with a blank has its value start with this blank. -/
structure FoldingOk (m : Bytes) (st : HeaderState) : Prop where
  isKey : st.isKey = true → st.inFolding = false
  blank : st.inFolding = true → (∃ c, m[st.value]? = some c ∧ isBlank c = true) ∧ st.value < st.i

omit [Malloc] in
theorem foldingOk_keyStep {st st' : HeaderState} {c : UInt8} (hf : st.inFolding = false)
    (hc : m[st.i]? = some c) (h : keyStep m st c = .next st') :
    FoldingOk m { st' with i := st'.i + 1 } := by
  have plain : ∀ {st₁ : HeaderState}, st₁.inFolding = false → FoldingOk m st₁ :=
    fun hf₁ => ⟨fun _ => hf₁, fun hf₂ => absurd (hf₁.symm.trans hf₂) Bool.false_ne_true⟩
  unfold keyStep at h
  split at h
  · cases h
    exact plain hf
  · split at h
    · cases h
    · split at h
      · next hblank =>
        split at h
        · cases h
          exact ⟨(fun hk => by cases hk), fun _ => ⟨⟨c, hc, hblank⟩, Nat.lt_succ_self _⟩⟩
        · dsimp only at h
          split at h
          · cases h
            exact plain hf
          · cases h
      · split at h
        · cases h
          exact plain hf
        · split at h
          · cases h
          · cases h
            exact plain hf

theorem foldingOk_valueStep {cfg : FieldConf} {st st' : HeaderState} {c : UInt8}
    (h : FoldingOk m st) (hkey : st.isKey = false) (hs : valueStep cfg m st c = .next st') :
    FoldingOk m { st' with i := st'.i + 1 } := by
  have later : FoldingOk m { st with i := st.i + 1 } :=
    ⟨h.isKey, fun hf => ⟨(h.blank hf).1, Nat.lt_succ_of_lt (h.blank hf).2⟩⟩
  unfold valueStep at hs
  split at hs
  · split at hs
    · rw [headerLineEnd_eq] at hs
      obtain ⟨st₁, -, hs⟩ := Flow.bind_eq_next hs
      cases hs
      exact ⟨fun _ => rfl, fun hf => by cases hf⟩
    · cases hs
  · split at hs
    · cases hs
    · split at hs
      · next hskip =>
        cases hs
        refine ⟨fun hk => absurd (hkey.symm.trans hk) Bool.false_ne_true, fun hf => ?_⟩
        exact absurd (h.blank hf).2 (by rw [hskip.2]; exact Nat.lt_irrefl _)
      · cases hs
        exact later

structure LoopOk (m : Bytes) (st : HeaderState) : Prop where
  fields : FieldsOk st.view
  host : HostOk st.view
  folding : FoldingOk m st

/-- **The step lemma** of the header loop. -/
theorem LoopOk.next {cfg : FieldConf} {st st' : HeaderState} (h : LoopOk m st)
    (hr : headerRound cfg m st = some (.next st')) :
    LoopOk m st' ∧ Change st.view (lineKind m st) st'.view := by
  obtain ⟨hok, hchange⟩ := (event_of_headerRound cfg m h.fields hr).change h.fields
  refine ⟨⟨hok, hchange.hostOk hok h.host, ?_⟩, hchange⟩
  unfold headerRound at hr
  split at hr
  · cases hr
  · split at hr
    · cases hr
    · next c hc =>
      obtain ⟨st₁, hstep, hr⟩ := Flow.bind_eq_next (Option.some.inj hr)
      cases hr
      unfold headerStep at hstep
      split at hstep
      · next hkey => exact foldingOk_keyStep m (h.folding.isKey hkey) hc hstep
      · next hkey => exact foldingOk_valueStep m h.folding (Bool.eq_false_iff.mpr hkey) hstep

theorem AcceptedRun.loopOk {srv : Server} {ret : Int} {con' : Connection} {cfg : FieldConf}
    {st₀ st : HeaderState} (h : AcceptedRun srv con ret con' m cfg st₀ st) : LoopOk m st₀ :=
  ⟨h.started.ok, h.started.host, fun _ => h.start.2,
    fun hf => absurd (h.start.2.symm.trans hf) Bool.false_ne_true⟩

/-! ## After the header -/

/-- What the checks behind the header leave of the fields: all but the value of the host. -/
structure Finished (srv : Server) (st : HeaderState) (ret : Int) (con' : Connection) : Prop where
  contentLength : con'.request.contentLength = st.con.request.contentLength
  saved : con'.request.saved = st.con.request.saved
  ret : ret = if st.conLengthSet = true ∧ con'.request.contentLength ≠ 0 then 1 else 0
  size : st.conLengthSet = true → con'.request.contentLength ≤ SSIZE_MAX
  headers : con'.request.headers = st.con.request.headers ∨ ∃ ndx ds host,
    st.con.request.headers.Slot ndx ds ∧ st.con.request.httpHost = some ds.addr ∧
      con'.request.headers = st.con.request.headers.setElement ndx { ds with value := host }

omit [Malloc] in
theorem checkVersion_request {st : HeaderState} {con' : Connection}
    (h : checkVersion st = .next con') : con'.request = st.con.request := by
  unfold checkVersion at h
  split at h
  · dsimp only at h
    split at h
    · cases h
    · obtain ⟨ds, -, h⟩ := Flow.bind_eq_next h
      split at h
      · cases h
      · cases h
        rfl
  · cases h
    rfl

omit [Malloc] in
theorem slot_of_headerAt {addr ndx : Nat} {ds : DataString}
    (h : con.headerAt addr = some (ndx, ds)) :
    con.request.headers.Slot ndx ds ∧ ds.addr = addr := by
  unfold Connection.headerAt at h
  obtain ⟨i, hi, h⟩ := Option.bind_eq_some_iff.mp h
  obtain ⟨o, ho, h⟩ := Option.bind_eq_some_iff.mp h
  obtain ⟨ds', rfl, h⟩ := Option.bind_eq_some_iff.mp h
  cases h
  obtain ⟨hlt, hp, -⟩ := List.findIdx?_eq_some_iff_getElem.mp hi
  rw [List.getElem?_eq_getElem hlt] at ho
  rw [Option.some.inj ho] at hp
  refine ⟨?_, by simpa using hp⟩
  unfold Arr.Slot
  rw [List.getElem?_eq_getElem hlt, ho]

omit [Malloc] in
theorem checkHost_request {con' : Connection} (h : checkHost con splitVals = .next con') :
    con' = con ∨ ∃ ndx ds host, con.request.headers.Slot ndx ds ∧
      con.request.httpHost = some ds.addr ∧ con' = con.mapRequest fun r =>
        { r with headers := r.headers.setElement ndx { ds with value := host } } := by
  unfold checkHost at h
  split at h
  · cases h
    exact Or.inl rfl
  · next addr haddr =>
    obtain ⟨⟨ndx, ds⟩, hat, hrest⟩ := Flow.bind_eq_next h
    have hat' : con.headerAt addr = some (ndx, ds) := by
      cases hx : con.headerAt addr with
      | none =>
        rw [hx] at hat
        cases hat
      | some r =>
        rw [hx] at hat
        cases hat
        rfl
    obtain ⟨hslot, rfl⟩ := slot_of_headerAt hat'
    dsimp only at hrest
    split at hrest
    · cases hrest
    · cases hrest
      exact Or.inr ⟨ndx, ds, _, hslot, haddr, rfl⟩

omit [Malloc] in
theorem checkMethod_eq {con' : Connection} {conLengthSet : Bool}
    (h : checkMethod con conLengthSet splitVals = .next con') : con' = con := by
  unfold checkMethod at h
  split at h <;> first | (split at h <;> cases h; rfl) | (cases h; rfl)

omit [Malloc] in
theorem checkSize_eq {con' : Connection} {maxRequestSize : Nat} {conLengthSet : Bool}
    (h : checkSize maxRequestSize con conLengthSet splitVals = .next con') :
    con' = con ∧ (conLengthSet = true → con.request.contentLength ≤ SSIZE_MAX) := by
  unfold checkSize at h
  split at h
  · split at h
    · cases h
    · next hsize =>
      split at h
      · cases h
      · cases h
        exact ⟨rfl, fun _ => by omega⟩
  · next hset =>
    cases h
    exact ⟨rfl, fun hs => absurd hs hset⟩

omit [Malloc] in
theorem finishRequest_finished {srv : Server} {st : HeaderState} {ret : Int} {con' : Connection}
    (h : finishRequest srv st = .next (ret, con')) : Finished srv st ret con' := by
  unfold finishRequest at h
  obtain ⟨con₁, h₁, hhost⟩ := Flow.bind_eq_next h
  obtain ⟨con₂, h₂, hmethod⟩ := Flow.bind_eq_next hhost
  obtain ⟨con₃, h₃, hsizes⟩ := Flow.bind_eq_next hmethod
  obtain ⟨con₄, h₄, hret⟩ := Flow.bind_eq_next hsizes
  have hversion := checkVersion_request h₁
  have hreq : con₁.request = st.con.request := hversion
  have h₃' : con₃ = con₂ := checkMethod_eq _ h₃
  have h₄' := checkSize_eq _ h₄
  obtain ⟨rfl, hsize⟩ := h₄'
  subst h₃'
  cases hret
  rcases checkHost_request _ h₂ with rfl | ⟨ndx, ds, host, hslot, haddr, rfl⟩
  · exact ⟨by rw [hreq], by rw [hreq], rfl, hsize, Or.inl (by rw [hreq])⟩
  · rw [hreq] at hslot haddr
    refine ⟨by rw [Connection.mapRequest_request, hreq], ?_, rfl, hsize,
      Or.inr ⟨ndx, ds, host, hslot, haddr, by rw [Connection.mapRequest_request, hreq]⟩⟩
    rw [Connection.mapRequest_request, hreq]
    funext f
    cases f <;> rfl

omit [Malloc] in
theorem Finished.live {srv : Server} {st : HeaderState} {ret : Int} {con' : Connection}
    (h : Finished srv st ret con') (hhost : HostOk st.view) {i : Nat} {z : DataString}
    {f : KnownField} (hf : f ≠ .host) (hz : z.Named f) :
    con'.request.headers.Live i z ↔ st.view.headers.Live i z := by
  rcases h.headers with he | ⟨ndx, ds, host, hslot, haddr, he⟩
  · rw [he]
    rfl
  · obtain ⟨hsettled, hnamed⟩ := hhost ds.addr haddr
    have hlive : st.view.headers.Live ndx ds := hsettled.live hslot rfl
    have hds : ds.Named .host := hnamed hlive rfl
    rw [he]
    refine (live_setElement hlive).trans ?_
    constructor
    · rintro (⟨rfl, rfl⟩ | ⟨-, hz'⟩)
      · exact absurd (DataString.Named.unique hz hds) hf
      · exact hz'
    · intro hz'
      refine Or.inr ⟨?_, hz'⟩
      rintro rfl
      obtain rfl := hz'.2.unique hlive.2
      exact hf (hz.unique hds)

end Accepted

theorem ready_keptConnection (text : Bytes) : Ready (keptConnection text) := by
  have hok : FieldsOk ((connectionInit { mimetypes := arrayInit, allowHttp11 := true }).view false) := by
    have hnone : ∀ {i ds}, ¬ (arrayInit : Arr DataString).Slot i ds := by
      intro i ds hs
      cases hs
    exact ⟨.of_used_zero rfl, fun hs => absurd hs hnone, fun hs => absurd hs hnone,
      fun hs => absurd hs.2 hnone⟩
  have hready := @ready_connectionReset zeroMalloc { mimetypes := arrayInit, allowHttp11 := true }
    { connectionInit { mimetypes := arrayInit, allowHttp11 := true } with
      keepAlive := true, requestCount := 1 } false hok rfl
  exact @Ready.receiveRequest zeroMalloc _ hready text

end Lighttpd
