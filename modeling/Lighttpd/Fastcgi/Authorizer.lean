import Lighttpd.Fastcgi.Accounting
import Lighttpd.Fastcgi.Response

/-!
# The answer of a FastCGI authorizer

An authorizer that approves of a request shouldn't affect the response, so its fields are not put
into the header. But the server looks into the fields all the same, and what it finds there stays
with the connection when the request is handled locally. So the answer leaves no trace exactly if it
has none of the fields that the server looks for (`handledLocally_same_iff`).
-/

namespace Lighttpd

open CLib

/-- What the response to a request that is handled locally depends on. -/
structure HandlingState where
  httpStatus : Int
  headers : Arr DataString
  parsedResponse : Nat
  contentLength : Int
  keepAlive : Bool
  transferEncoding : Nat
  writeQueue : Chunkqueue
  deriving DecidableEq

def BackendConnection.handlingState (con : BackendConnection) : HandlingState where
  httpStatus := con.httpStatus
  headers := con.response.headers
  parsedResponse := con.parsedResponse
  contentLength := con.responseLength
  keepAlive := con.response.keepAlive
  transferEncoding := con.transferEncoding
  writeQueue := con.writeQueue

def lookedFor (allowXsendfile : Bool) : List String :=
  ["Date", "Status", "Location", "Connection", "Content-Length"] ++
    if allowXsendfile then ["X-Sendfile2"] else []

def lineName (s : Bytes) : Option Bytes := (strchr s 58).map s.take

def SilentLine (allowXsendfile : Bool) (s : Bytes) : Prop :=
  ∀ key ∈ lineName s, ∀ name ∈ lookedFor allowXsendfile, isFieldName key name = false

instance (allowXsendfile : Bool) (s : Bytes) : Decidable (SilentLine allowXsendfile s) :=
  inferInstanceAs (Decidable (∀ key ∈ lineName s, _))

def SilentHeader (allowXsendfile : Bool) (text : Bytes) : Prop :=
  ∀ s ∈ responseLines (text.length + 1) text, SilentLine allowXsendfile s

/-- The header block that the packets complete, when `header` is collected already. -/
def headerBlock [Malloc] : Buffer → List FastcgiResponsePacket → Bytes
  | _, [] => []
  | header, packet :: packets =>
    if packet.type = FCGI_STDOUT then
      if packet.len = 0 then headerBlock header packets
      else
        match headerTerminator (collectHeader header packet) with
        | none => headerBlock (collectHeader header packet) packets
        | some (used, _) => cstr ((collectHeader header packet).ptr.take (used - 1))
    else if packet.type = FCGI_END_REQUEST then []
    else headerBlock header packets

structure FcgiAnswer.Waiting (ans : FcgiAnswer) : Prop where
  fileStarted : ans.hctx.remoteConn.fileStarted = false
  httpStatus : ans.hctx.remoteConn.httpStatus = 0
  parsedResponse : ans.hctx.remoteConn.parsedResponse = 0
  sendContentBody : ans.hctx.sendContentBody = true

section Lines

variable [Malloc] {stat : Buffer → Option StatCacheEntry} {host : FcgiExtensionHost}
  {allowXsendfile : Bool} {st : FcgiParse}

def FcgiParse.Marked (st : FcgiParse) : Prop :=
  st.con.parsedResponse ≠ 0 ∨ st.haveSendfile2 = true

theorem fcgiKnownField_silent {key : Bytes}
    (h : ∀ name ∈ lookedFor allowXsendfile, isFieldName key name = false) (sendContentBody : Bool)
    (value : Bytes) :
    fcgiKnownField stat allowXsendfile sendContentBody st key value = .next st := by
  have hno : ∀ name ∈ lookedFor allowXsendfile, ¬ isFieldName key name = true :=
    fun name hname hyes => Bool.false_ne_true ((h name hname).symm.trans hyes)
  unfold fcgiKnownField
  dsimp only
  rw [if_neg (hno "Date" (by simp [lookedFor])), if_neg (hno "Status" (by simp [lookedFor])),
    if_neg (hno "Location" (by simp [lookedFor])), if_neg (hno "Connection" (by simp [lookedFor])),
    if_neg, if_neg (hno "Content-Length" (by simp [lookedFor]))]
  rintro ⟨hallow, hyes, -⟩
  exact hno "X-Sendfile2" (by simp [lookedFor, hallow]) hyes

theorem sendfile2Loop_keeps (fuel : Nat) (pos : Bytes) (st : FcgiParse) :
    (sendfile2Loop stat fuel pos st).Spec
      (fun st' => st'.haveSendfile2 = st.haveSendfile2) fun _ => True := by
  induction fuel generalizing pos st with
  | zero => exact rfl
  | succ fuel ih =>
    unfold sendfile2Loop
    dsimp only
    split
    · exact rfl
    split
    · trivial
    refine Flow.Spec.bind (Flow.spec_ofOption (P := fun _ => True) fun _ _ => trivial) ?_
    rintro ⟨name, accesses⟩ -
    dsimp only
    split
    · trivial
    split
    · trivial
    split
    · trivial
    split
    · trivial
    split
    · trivial
    exact ih _ _

omit [Malloc] in
theorem or_ne_zero {a b : Nat} (h : b ≠ 0) : a ||| b ≠ 0 := by
  intro hzero
  exact h (Nat.or_eq_zero_iff.mp hzero).2

theorem fcgiKnownField_marks {key : Bytes} (value : Bytes)
    (h : st.Marked ∨ ∃ name ∈ lookedFor allowXsendfile, isFieldName key name = true) :
    (fcgiKnownField stat allowXsendfile true st key value).Spec FcgiParse.Marked
      fun _ => True := by
  unfold fcgiKnownField
  dsimp only
  split
  · exact Or.inl (or_ne_zero (by decide))
  next hdate =>
  split
  · exact Or.inl (or_ne_zero (by decide))
  next hstatus =>
  split
  · exact Or.inl (or_ne_zero (by decide))
  next hlocation =>
  split
  · exact Or.inl (or_ne_zero (by decide))
  next hconnection =>
  split
  · exact (sendfile2Loop_keeps _ _ _).mono (fun st' hkept => Or.inr hkept) fun _ _ => trivial
  next hsendfile =>
  split
  · exact Or.inl (or_ne_zero (by decide))
  next hlength =>
  refine h.resolve_right ?_
  rintro ⟨name, hname, hyes⟩
  unfold lookedFor at hname
  rcases List.mem_append.mp hname with hname | hname
  · simp only [List.mem_cons, List.not_mem_nil, or_false] at hname
    rcases hname with rfl | rfl | rfl | rfl | rfl
    · exact hdate hyes
    · exact hstatus hyes
    · exact hlocation hyes
    · exact hconnection hyes
    · exact hlength hyes
  · split at hname
    · next hallow =>
      obtain rfl := List.mem_singleton.mp hname
      exact hsendfile ⟨hallow, hyes, rfl⟩
    · exact absurd hname List.not_mem_nil

theorem fcgiResponseLine_silent {s : Bytes} (h : SilentLine allowXsendfile s)
    (hmode : host.mode = FCGI_AUTHORIZER) (happroved : st.con.Approved) (sendContentBody : Bool) :
    fcgiResponseLine stat host allowXsendfile sendContentBody st s = .next st := by
  unfold fcgiResponseLine
  cases hchr : strchr s 58 with
  | none => rfl
  | some keyLen =>
    have hnames := h (s.take keyLen) (by rw [lineName, hchr]; rfl)
    have hforward : ¬ ((host.mode ≠ FCGI_AUTHORIZER ∨ ¬ st.con.Approved) ∧
        strncaseeq (s.take keyLen).length (s.take keyLen) (ascii "Status") = false) :=
      fun hboth => hboth.1.elim (fun hne => hne hmode) fun hnot => hnot happroved
    dsimp only
    rw [if_neg hforward, Flow.next_bind]
    exact fcgiKnownField_silent hnames _ _

omit [Malloc] in
theorem not_silentLine_iff {s : Bytes} : ¬ SilentLine allowXsendfile s ↔
    ∃ key, lineName s = some key ∧
      ∃ name ∈ lookedFor allowXsendfile, isFieldName key name = true := by
  unfold SilentLine
  simp only [Option.mem_def, not_forall, exists_prop, Bool.not_eq_false]

theorem insertResponseField_parsed {con con' : BackendConnection} {key value : Bytes}
    (h : insertResponseField con key value = some con') :
    con'.parsedResponse = con.parsedResponse := by
  unfold insertResponseField at h
  simp only [Option.bind_eq_bind, Option.bind_eq_some_iff] at h
  obtain ⟨headers, -, h⟩ := h
  obtain rfl := Option.some.inj h
  rfl

theorem fcgiResponseLine_marks {s : Bytes} (h : st.Marked ∨ ¬ SilentLine allowXsendfile s) :
    (fcgiResponseLine stat host allowXsendfile true st s).Spec FcgiParse.Marked
      fun _ => True := by
  rw [not_silentLine_iff, lineName] at h
  unfold fcgiResponseLine
  cases hchr : strchr s 58 with
  | none =>
    refine h.resolve_right ?_
    rintro ⟨key, hkey, -⟩
    rw [hchr] at hkey
    nomatch hkey
  | some keyLen =>
    rw [hchr] at h
    have hinserted : ∀ {x : FcgiParsing BackendConnection}, x.Spec
        (fun con => con.parsedResponse = st.con.parsedResponse) (fun _ => True) →
        (x >>= fun con => fcgiKnownField stat allowXsendfile true { st with con := con }
          (s.take keyLen) ((s.drop (keyLen + 1)).dropWhile fun c => c == 32 || c == 9)).Spec
            FcgiParse.Marked fun _ => True := by
      intro x hx
      refine hx.bind fun con hcon => fcgiKnownField_marks _ ?_
      refine h.imp (fun hmarked => ?_) fun ⟨key, hkey, hname⟩ => ?_
      · unfold FcgiParse.Marked at hmarked ⊢
        dsimp only
        rwa [hcon]
      · obtain rfl := Option.some.inj hkey
        exact hname
    dsimp only
    split
    · exact hinserted (Flow.spec_ofOption fun con hcon => insertResponseField_parsed hcon)
    · exact hinserted rfl

theorem fcgiResponseLines_silent {ss : List Bytes} (h : ∀ s ∈ ss, SilentLine allowXsendfile s)
    (hmode : host.mode = FCGI_AUTHORIZER) (happroved : st.con.Approved) (sendContentBody : Bool) :
    fcgiResponseLines stat host allowXsendfile sendContentBody ss st = .next st := by
  induction ss with
  | nil => rfl
  | cons s ss ih =>
    obtain ⟨hs, hss⟩ := List.forall_mem_cons.mp h
    rw [fcgiResponseLines, fcgiResponseLine_silent hs hmode happroved, Flow.next_bind, ih hss]

theorem fcgiResponseLines_marks {ss : List Bytes}
    (h : st.Marked ∨ ∃ s ∈ ss, ¬ SilentLine allowXsendfile s) :
    (fcgiResponseLines stat host allowXsendfile true ss st).Spec FcgiParse.Marked
      fun _ => True := by
  induction ss generalizing st with
  | nil => exact h.resolve_right fun ⟨s, hs, _⟩ => List.not_mem_nil hs
  | cons s ss ih =>
    unfold fcgiResponseLines
    by_cases hs : st.Marked ∨ ¬ SilentLine allowXsendfile s
    · exact (fcgiResponseLine_marks hs).bind fun st' hst' => ih (Or.inl hst')
    · -- the line that leaves a mark is still to come
      rw [not_or, not_not] at hs
      refine Flow.Spec.bind (P := fun _ => True) ?_ fun st' _ => ih (Or.inr ?_)
      · cases fcgiResponseLine stat host allowXsendfile true st s <;> trivial
      · obtain ⟨t, ht, hnot⟩ := h.resolve_left hs.1
        rcases List.mem_cons.mp ht with rfl | ht
        · exact absurd hs.2 hnot
        · exact ⟨t, ht, hnot⟩

/-! ## The header block -/

omit [Malloc] in
theorem withLocation_parsed (con : BackendConnection) :
    con.withLocation.parsedResponse = con.parsedResponse := by
  unfold BackendConnection.withLocation
  split <;> rfl

theorem fcgiResponseEnd_marked {sendContentBody : Bool} {r : BackendConnection × Bool}
    (h : st.Marked) (hend : fcgiResponseEnd sendContentBody st = some r) :
    r.1.parsedResponse ≠ 0 := by
  unfold fcgiResponseEnd at hend
  split at hend
  · obtain ⟨con, hlength, rfl⟩ := Option.map_eq_some_iff.mp hend
    unfold sendfile2Length at hlength
    simp only [Option.bind_eq_bind, Option.bind_eq_some_iff] at hlength
    obtain ⟨headers, -, hlength⟩ := hlength
    obtain rfl := Option.some.inj hlength
    rw [withLocation_parsed]
    exact or_ne_zero (by decide)
  · next hno =>
    obtain rfl := Option.some.inj hend
    rw [withLocation_parsed]
    exact h.resolve_right hno

theorem fcgiResponseEnd_unmarked {sendContentBody : Bool} (h : ¬ st.Marked) :
    fcgiResponseEnd sendContentBody st = some (st.con, sendContentBody) := by
  obtain ⟨hparsed, hno⟩ := not_or.mp h
  have hlocation : st.con.withLocation = st.con := by
    unfold BackendConnection.withLocation
    rw [not_not.mp hparsed]
    rfl
  unfold fcgiResponseEnd
  rw [if_neg hno, hlocation]

theorem str_bufferCopyStringBuffer (b : Buffer) {src : Buffer} (h : src.used ≠ 0) :
    (bufferCopyStringBuffer b src).str = cstr (src.ptr.take (src.used - 1)) := by
  unfold bufferCopyStringBuffer
  rw [if_neg h]
  exact congrArg (·.2.2) (bufferCopyStringLen_view b _)

theorem fcgiResponseParse_spec {ans ans' : FcgiAnswer} {input : Buffer} (hinput : input.used ≠ 0)
    (hmode : host.mode = FCGI_AUTHORIZER) (h : ans.Waiting)
    (hrun : fcgiResponseParse stat host allowXsendfile ans input = some (ans', true)) :
    (SilentHeader allowXsendfile (cstr (input.ptr.take (input.used - 1))) →
      ans'.hctx.remoteConn = ans.hctx.remoteConn) ∧
    (¬ SilentHeader allowXsendfile (cstr (input.ptr.take (input.used - 1))) →
      ans'.hctx.remoteConn.parsedResponse ≠ 0) := by
  unfold fcgiResponseParse at hrun
  dsimp only at hrun
  rw [str_bufferCopyStringBuffer _ hinput, h.sendContentBody] at hrun
  unfold SilentHeader
  generalize cstr (input.ptr.take (input.used - 1)) = text at hrun ⊢
  constructor
  · intro hsilent
    have hunmarked : ¬ FcgiParse.Marked ⟨ans.hctx.remoteConn, false, 0⟩ := by
      rintro (hne | hyes)
      · exact hne h.parsedResponse
      · nomatch hyes
    rw [fcgiResponseLines_silent hsilent hmode (Or.inl h.httpStatus)] at hrun
    dsimp only at hrun
    rw [fcgiResponseEnd_unmarked hunmarked] at hrun
    obtain ⟨rfl, -⟩ := Prod.mk.inj (Option.some.inj hrun)
    rfl
  · intro hnot
    simp only [not_forall, exists_prop] at hnot
    have hmarks : (fcgiResponseLines stat host allowXsendfile true
        (responseLines (text.length + 1) text) ⟨ans.hctx.remoteConn, false, 0⟩).Spec
          FcgiParse.Marked fun _ => True :=
      fcgiResponseLines_marks (Or.inr hnot)
    generalize fcgiResponseLines stat host allowXsendfile true
      (responseLines (text.length + 1) text) ⟨ans.hctx.remoteConn, false, 0⟩ = lines at hrun hmarks
    cases lines with
    | fault => nomatch hrun
    | ret con => nomatch (Prod.mk.inj (Option.some.inj hrun)).2
    | next st =>
      simp only [Option.bind_eq_bind, Option.bind_eq_some_iff] at hrun
      obtain ⟨r, hend, hrun⟩ := hrun
      obtain ⟨rfl, -⟩ := Prod.mk.inj (Option.some.inj hrun)
      exact fcgiResponseEnd_marked hmarks hend

/-! ## The packets -/

/-- The header of an answer to `con₀` is complete. If it approves, the rest is not sent, and the
header has left a trace unless it is silent. -/
structure FcgiAnswer.Answered (con₀ : BackendConnection) (silent : Prop) (ans : FcgiAnswer) :
    Prop where
  fileStarted : ans.hctx.remoteConn.fileStarted = true
  ignored : ans.hctx.remoteConn.Approved → ans.hctx.sendContentBody = false
  same : ans.hctx.remoteConn.Approved → silent →
    ans.hctx.remoteConn.handlingState = con₀.handlingState
  marked : ans.hctx.remoteConn.Approved → ¬ silent → ans.hctx.remoteConn.parsedResponse ≠ 0

variable {con₀ : BackendConnection} {silent : Prop} {ans ans' : FcgiAnswer}

omit [Malloc] in
theorem FcgiAnswer.Answered.of_not_approved (hstarted : ans.hctx.remoteConn.fileStarted = true)
    (h : ¬ ans.hctx.remoteConn.Approved) : ans.Answered con₀ silent :=
  ⟨hstarted, fun happroved => absurd happroved h, fun happroved => absurd happroved h,
    fun happroved => absurd happroved h⟩

omit [Malloc] in
theorem answered_badGateway (ans : FcgiAnswer) : ans.badGateway.Answered con₀ silent := by
  refine .of_not_approved rfl ?_
  rintro (hzero | hok)
  · nomatch hzero
  · nomatch hok

theorem sendBody_kept (ans : FcgiAnswer) (mem : Bytes) :
    (ans.sendBody mem).hctx.remoteConn.httpStatus = ans.hctx.remoteConn.httpStatus ∧
      (ans.sendBody mem).hctx.remoteConn.fileStarted = ans.hctx.remoteConn.fileStarted := by
  unfold FcgiAnswer.sendBody
  dsimp only [FcgiAnswer.mapCon]
  split <;> exact ⟨rfl, rfl⟩

theorem sendfile_kept {ds : DataString} (h : sendfile stat ans ds = some (some ans')) :
    ans'.hctx.remoteConn.httpStatus = ans.hctx.remoteConn.httpStatus ∧
      ans'.hctx.remoteConn.fileStarted = ans.hctx.remoteConn.fileStarted := by
  unfold sendfile at h
  split at h
  · nomatch h
  · simp only [Option.bind_eq_bind, Option.bind_eq_some_iff] at h
    obtain ⟨headers, -, h⟩ := h
    obtain rfl := Option.some.inj (Option.some.inj h)
    exact ⟨rfl, rfl⟩

theorem sendfileField_kept (h : sendfileField stat allowXsendfile ans = some (some ans')) :
    ans'.hctx.remoteConn.httpStatus = ans.hctx.remoteConn.httpStatus ∧
      ans'.hctx.remoteConn.fileStarted = ans.hctx.remoteConn.fileStarted := by
  unfold sendfileField at h
  split at h
  · simp only [Option.bind_eq_bind, Option.bind_eq_some_iff] at h
    obtain ⟨first, -, h⟩ := h
    split at h
    · exact sendfile_kept h
    · obtain ⟨second, -, h⟩ := Option.bind_eq_some_iff.mp h
      split at h
      · exact sendfile_kept h
      · obtain rfl := Option.some.inj (Option.some.inj h)
        exact ⟨rfl, rfl⟩
  · obtain rfl := Option.some.inj (Option.some.inj h)
    exact ⟨rfl, rfl⟩

theorem fcgiHeaderDone_answered {header : Buffer} {used c : Nat} (hused : used ≠ 0)
    (hmode : host.mode = FCGI_AUTHORIZER) (h : ans.Waiting)
    (hrun : fcgiHeaderDone stat host allowXsendfile ans header used c = some ans') :
    ans'.Answered ans.hctx.remoteConn
      (SilentHeader allowXsendfile (cstr (header.ptr.take (used - 1)))) := by
  unfold fcgiHeaderDone at hrun
  dsimp only at hrun
  obtain ⟨⟨parsed, ok⟩, hparse, hrun⟩ := Option.bind_eq_some_iff.mp hrun
  cases ok with
  | false =>
    obtain rfl := Option.some.inj hrun
    exact answered_badGateway parsed
  | true =>
    have hwaiting : ({ ans with hctx := { ans.hctx with
        responseHeader := { header with used := used } } } : FcgiAnswer).Waiting :=
      ⟨h.fileStarted, h.httpStatus, h.parsedResponse, h.sendContentBody⟩
    obtain ⟨hsilent, hmarked⟩ := fcgiResponseParse_spec hused hmode hwaiting hparse
    dsimp only at hrun hsilent hmarked
    by_cases happroved : parsed.hctx.remoteConn.Approved
    · -- nothing but the header takes part
      have hstarted : (parsed.mapCon fun con =>
          { con with fileStarted := true }).hctx.remoteConn.Approved := happroved
      rw [if_pos ⟨hmode, hstarted⟩, sendfileField, if_neg fun hand => nomatch hand.2] at hrun
      dsimp only [Option.bind_eq_bind, Option.bind_some] at hrun
      rw [if_neg fun hand => nomatch hand.1] at hrun
      obtain rfl := Option.some.inj hrun
      refine ⟨rfl, fun _ => rfl, fun _ hs => ?_, fun _ hs => hmarked hs⟩
      exact congrArg BackendConnection.handlingState (hsilent hs) ▸ rfl
    · have hnot : ¬ (parsed.mapCon fun con =>
          { con with fileStarted := true }).hctx.remoteConn.Approved := happroved
      rw [if_neg fun hand => hnot hand.2] at hrun
      obtain ⟨field, hfield, hrun⟩ := Option.bind_eq_some_iff.mp hrun
      cases field with
      | none =>
        obtain rfl := Option.some.inj hrun
        exact answered_badGateway _
      | some sent =>
        obtain ⟨hstatus, hfile⟩ := sendfileField_kept hfield
        have hno : ∀ {con : BackendConnection}, con.httpStatus = sent.hctx.remoteConn.httpStatus →
            ¬ con.Approved := by
          intro con hcon hyes
          unfold BackendConnection.Approved at hyes
          rw [hcon, hstatus] at hyes
          exact hnot hyes
        dsimp only at hrun
        split at hrun
        · obtain rfl := Option.some.inj hrun
          obtain ⟨hbody, hbodyFile⟩ := sendBody_kept sent
            ((header.ptr.drop c).take (header.used - c))
          exact .of_not_approved (hbodyFile.trans hfile) (hno hbody)
        · obtain rfl := Option.some.inj hrun
          exact .of_not_approved hfile (hno rfl)

theorem fcgiStdout_answered {packet : FastcgiResponsePacket} (h : ans.Answered con₀ silent)
    (hrun : fcgiStdout stat host allowXsendfile ans packet = some ans') :
    ans'.Answered con₀ silent := by
  unfold fcgiStdout at hrun
  rw [if_neg fun hno : ans.hctx.remoteConn.fileStarted = false =>
    nomatch h.fileStarted.symm.trans hno] at hrun
  split at hrun
  · obtain rfl := Option.some.inj hrun
    exact h
  split at hrun
  · next hbody =>
    obtain rfl := Option.some.inj hrun
    obtain ⟨hstatus, hfile⟩ := sendBody_kept ans (packet.b.ptr.take packet.b.used)
    refine .of_not_approved (hfile.trans h.fileStarted) fun happroved => ?_
    unfold BackendConnection.Approved at happroved
    rw [hstatus] at happroved
    nomatch (h.ignored happroved).symm.trans hbody.1
  · obtain rfl := Option.some.inj hrun
    exact h

theorem fcgiEndRequest_approved
    (happroved : (fcgiEndRequest host ans).hctx.remoteConn.Approved) :
    ans.hctx.remoteConn.Approved ∧ (host.mode = FCGI_AUTHORIZER →
      (fcgiEndRequest host ans).hctx.remoteConn.handlingState =
        ans.hctx.remoteConn.handlingState) := by
  unfold fcgiEndRequest at happroved ⊢
  dsimp only at happroved ⊢
  split at happroved
  · next hsent =>
    rw [if_pos hsent]
    exact ⟨happroved, fun hmode => absurd happroved (hsent.resolve_left fun hne => hne hmode)⟩
  · next hsent =>
    rw [if_neg hsent]
    exact ⟨happroved, fun _ => rfl⟩

theorem fcgiDemuxPackets_answered (hmode : host.mode = FCGI_AUTHORIZER)
    (packets : List FastcgiResponsePacket) (h : ans.Answered con₀ silent)
    (hrun : fcgiDemuxPackets stat host allowXsendfile packets ans = some (ans', true))
    (happroved : ans'.hctx.remoteConn.Approved) :
    (silent → ans'.hctx.remoteConn.handlingState = con₀.handlingState) ∧
      (¬ silent → ans'.hctx.remoteConn.parsedResponse ≠ 0) := by
  induction packets generalizing ans with
  | nil => nomatch (Prod.mk.inj (Option.some.inj hrun)).2
  | cons packet packets ih =>
    unfold fcgiDemuxPackets at hrun
    split at hrun
    · obtain ⟨next, hstdout, hrun⟩ := Option.bind_eq_some_iff.mp hrun
      exact ih (fcgiStdout_answered h hstdout) hrun
    split at hrun
    · obtain ⟨rfl, -⟩ := Prod.mk.inj (Option.some.inj hrun)
      obtain ⟨hans, hstate⟩ := fcgiEndRequest_approved happroved
      have hparsed := congrArg HandlingState.parsedResponse (hstate hmode)
      refine ⟨fun hs => (hstate hmode).trans (h.same hans hs), fun hs hzero => ?_⟩
      exact h.marked hans hs (hparsed.symm.trans hzero)
    · exact ih h hrun

omit [Malloc] in
theorem headerTerminator_used {header : Buffer} {used c : Nat}
    (h : headerTerminator header = some (used, c)) : used ≠ 0 := by
  unfold headerTerminator at h
  split at h
  · obtain ⟨rfl, -⟩ := Prod.mk.inj (Option.some.inj h)
    exact Nat.succ_ne_zero _
  · obtain ⟨i, -, heq⟩ := Option.map_eq_some_iff.mp h
    obtain ⟨rfl, -⟩ := Prod.mk.inj heq
    exact Nat.succ_ne_zero _

theorem fcgiDemuxPackets_waiting (hmode : host.mode = FCGI_AUTHORIZER)
    (packets : List FastcgiResponsePacket) (h : ans.Waiting)
    (hrun : fcgiDemuxPackets stat host allowXsendfile packets ans = some (ans', true))
    (happroved : ans'.hctx.remoteConn.Approved) :
    (SilentHeader allowXsendfile (headerBlock ans.hctx.responseHeader packets) →
      ans'.hctx.remoteConn.handlingState = ans.hctx.remoteConn.handlingState) ∧
    (¬ SilentHeader allowXsendfile (headerBlock ans.hctx.responseHeader packets) →
      ans'.hctx.remoteConn.parsedResponse ≠ 0) := by
  induction packets generalizing ans with
  | nil => nomatch (Prod.mk.inj (Option.some.inj hrun)).2
  | cons packet packets ih =>
    unfold fcgiDemuxPackets at hrun
    unfold headerBlock
    by_cases hstdout : packet.type = FCGI_STDOUT
    · rw [if_pos hstdout] at hrun ⊢
      obtain ⟨next, hnext, hrun⟩ := Option.bind_eq_some_iff.mp hrun
      unfold fcgiStdout at hnext
      by_cases hlen : packet.len = 0
      · rw [if_pos hlen] at hnext ⊢
        obtain rfl := Option.some.inj hnext
        exact ih h hrun
      · rw [if_neg hlen, if_pos h.fileStarted] at hnext
        rw [if_neg hlen]
        dsimp only at hnext
        cases hend : headerTerminator (collectHeader ans.hctx.responseHeader packet) with
        | none =>
          rw [hend] at hnext
          have hwaiting : ({ ans with hctx := { ans.hctx with
              responseHeader := collectHeader ans.hctx.responseHeader packet } } :
                FcgiAnswer).Waiting :=
            ⟨h.fileStarted, h.httpStatus, h.parsedResponse, h.sendContentBody⟩
          obtain rfl := Option.some.inj hnext
          exact ih hwaiting hrun
        | some r =>
          obtain ⟨used, c⟩ := r
          rw [hend] at hnext
          have hanswered := fcgiHeaderDone_answered (headerTerminator_used hend) hmode h hnext
          exact fcgiDemuxPackets_answered hmode packets hanswered hrun happroved
    · rw [if_neg hstdout] at hrun ⊢
      split at hrun
      · next hendRequest =>
        -- the answer has no header
        rw [if_pos hendRequest]
        obtain ⟨rfl, -⟩ := Prod.mk.inj (Option.some.inj hrun)
        obtain ⟨-, hstate⟩ := fcgiEndRequest_approved happroved
        exact ⟨fun _ => hstate hmode, fun hnot => absurd (fun s hs => nomatch hs) hnot⟩
      · next hother =>
        rw [if_neg hother]
        exact ih h hrun

end Lines

section Local

variable [Malloc] {stat : Buffer → Option StatCacheEntry} {host : FcgiExtensionHost}
  {allowXsendfile : Bool} {ans : FcgiAnswer} {packets : List FastcgiResponsePacket}
  {con : BackendConnection}

def endPacket : FastcgiResponsePacket := ⟨bufferInit, 8, FCGI_END_REQUEST, 0, 1⟩

theorem handledLocally_endPacket (h : ans.Waiting) (hmode : host.mode = FCGI_AUTHORIZER) :
    ∃ con, handledLocally stat host allowXsendfile [endPacket] ans = some con ∧
      con.parsedResponse = 0 := by
  have happroved : (ans.mapCon fun con =>
      { con with fileFinished := true }).hctx.remoteConn.Approved := Or.inl h.httpStatus
  have hend : fcgiEndRequest host ans =
      ans.mapCon fun con => { con with fileFinished := true } := by
    unfold fcgiEndRequest
    exact if_neg fun hsent => hsent.elim (fun hne => hne hmode) fun hno => hno happroved
  refine ⟨authorized host (ans.mapCon fun con =>
    { con with fileFinished := true }).hctx.remoteConn, ?_, h.parsedResponse⟩
  unfold handledLocally
  rw [show fcgiDemuxPackets stat host allowXsendfile [endPacket] ans =
    some (fcgiEndRequest host ans, true) from rfl, hend, Option.bind_eq_bind, Option.bind_some]
  exact if_pos ⟨rfl, hmode, happroved⟩

theorem handledLocally_spec (h : ans.Waiting)
    (hlocal : handledLocally stat host allowXsendfile packets ans = some con) :
    (SilentHeader allowXsendfile (headerBlock ans.hctx.responseHeader packets) →
      con.handlingState = ans.hctx.remoteConn.handlingState) ∧
    (¬ SilentHeader allowXsendfile (headerBlock ans.hctx.responseHeader packets) →
      con.parsedResponse ≠ 0) := by
  unfold handledLocally at hlocal
  obtain ⟨⟨ans', fin⟩, hrun, hlocal⟩ := Option.bind_eq_some_iff.mp hlocal
  dsimp only at hlocal
  split at hlocal
  · next hcond =>
    obtain ⟨rfl, hmode, happroved⟩ := hcond
    obtain rfl := Option.some.inj hlocal
    obtain ⟨hsilent, hmarked⟩ := fcgiDemuxPackets_waiting hmode packets h hrun happroved
    refine ⟨fun hs => ?_, fun hs => hmarked hs⟩
    have hstate := hsilent hs
    unfold BackendConnection.handlingState at hstate ⊢
    unfold authorized
    simp only [HandlingState.mk.injEq] at hstate ⊢
    exact ⟨h.httpStatus.symm, hstate.2⟩
  · nomatch hlocal

theorem handledLocally_mode (hlocal : handledLocally stat host allowXsendfile packets ans =
    some con) : host.mode = FCGI_AUTHORIZER := by
  unfold handledLocally at hlocal
  obtain ⟨r, -, hlocal⟩ := Option.bind_eq_some_iff.mp hlocal
  dsimp only at hlocal
  split at hlocal
  · next hcond => exact hcond.2.1
  · nomatch hlocal

/-- **An answer that approves leaves no trace**, so that the request is handled as after every
answer with none of the fields that the server looks for, exactly if it has none itself. -/
theorem handledLocally_same_iff (h : ans.Waiting)
    (hlocal : handledLocally stat host allowXsendfile packets ans = some con) :
    (∀ packets' con', handledLocally stat host allowXsendfile packets' ans = some con' →
      SilentHeader allowXsendfile (headerBlock ans.hctx.responseHeader packets') →
      con.handlingState = con'.handlingState) ↔
    SilentHeader allowXsendfile (headerBlock ans.hctx.responseHeader packets) := by
  obtain ⟨hsilent, hmarked⟩ := handledLocally_spec h hlocal
  constructor
  · intro hsame
    by_contra hnot
    obtain ⟨con', hend, hzero⟩ : ∃ con',
        handledLocally stat host allowXsendfile [endPacket] ans = some con' ∧
          con'.parsedResponse = 0 :=
      handledLocally_endPacket h (handledLocally_mode hlocal)
    have hstate := hsame _ _ hend fun s hs => nomatch hs
    exact hmarked hnot ((congrArg HandlingState.parsedResponse hstate).trans hzero)
  · intro hs packets' con' hlocal' hs'
    exact (hsilent hs).trans ((handledLocally_spec h hlocal').1 hs').symm

end Local

def authorizerHost : FcgiExtensionHost := { childHost with mode := FCGI_AUTHORIZER }

def waitingAnswer : FcgiAnswer := ⟨handlerCtxInit bodilessConnection 0, bufferInit⟩

def stdoutPacket (text : Bytes) : FastcgiResponsePacket :=
  ⟨⟨text ++ [0], text.length + 1, 0⟩, text.length, FCGI_STDOUT, 0, 1⟩

/-- The request after the answer of an authorizer with these lines. -/
def afterAnswer (text : Bytes) : Option BackendConnection :=
  @handledLocally zeroMalloc (fun _ => none) authorizerHost false
    [stdoutPacket (text ++ ascii "\r\n\r\n"), endPacket] waitingAnswer

theorem waiting_waitingAnswer : waitingAnswer.Waiting := ⟨rfl, rfl, rfl, rfl⟩

theorem handledLocally_same_iff_user : ∃ con, afterAnswer (ascii "X-User: a") = some con ∧
    ((∀ packets' con', @handledLocally zeroMalloc (fun _ => none) authorizerHost false packets'
        waitingAnswer = some con' →
      SilentHeader false (@headerBlock zeroMalloc waitingAnswer.hctx.responseHeader packets') →
      con.handlingState = con'.handlingState) ↔
    SilentHeader false (@headerBlock zeroMalloc waitingAnswer.hctx.responseHeader
      [stdoutPacket (ascii "X-User: a\r\n\r\n"), endPacket])) := by
  have hsome : (afterAnswer (ascii "X-User: a")).isSome = true := by decide +kernel
  obtain ⟨con, hcon⟩ := Option.isSome_iff_exists.mp hsome
  exact ⟨con, hcon, @handledLocally_same_iff zeroMalloc _ _ _ _ _ _ waiting_waitingAnswer hcon⟩

/-- The `Content-Length` of the answer with a file of five bytes. -/
def localLength [Malloc] (con : BackendConnection) : Option (Option Bytes) := do
  let con := (con.appendBodyFile bufferInit 0 5).toRespondingConnection
  let con ← connectionHandleWritePrepare (fun _ => none)
    { con with fileFinished := true, httpStatus := 200 }
  let found ← arrayGetElement con.response.headers (ascii "Content-Length")
  some (found.map fun e => e.2.value.str)

/-- With a `Content-Length` of the authorizer, the file is sent without one. -/
theorem not_handledLocally_same :
    (¬ ∀ con con', afterAnswer (ascii "X-User: a") = some con →
      afterAnswer (ascii "Content-Length: 3") = some con' →
      con.handlingState = con'.handlingState) ∧
    (afterAnswer (ascii "X-User: a")).bind (@localLength zeroMalloc) = some (some (ascii "5")) ∧
      (afterAnswer (ascii "Content-Length: 3")).bind (@localLength zeroMalloc) = some none := by
  refine ⟨fun h => ?_, by decide +kernel, by decide +kernel⟩
  have hstates : (afterAnswer (ascii "X-User: a")).map (·.handlingState.parsedResponse) = some 0 ∧
      (afterAnswer (ascii "Content-Length: 3")).map (·.handlingState.parsedResponse) = some 4 := by
    decide +kernel
  obtain ⟨con, hcon, hzero⟩ := Option.map_eq_some_iff.mp hstates.1
  obtain ⟨con', hcon', hfour⟩ := Option.map_eq_some_iff.mp hstates.2
  rw [h con con' hcon hcon', hfour] at hzero
  nomatch hzero

end Lighttpd
