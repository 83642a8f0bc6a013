import Lighttpd.Fastcgi.ResponseHeader
import Lighttpd.Lib.BlankLines
import Mathlib.Data.List.Find

/-!
# Where the header of a FastCGI response ends

`fcgi_demux_response` searches what has arrived for CR LF CR LF and then for LF LF. So the first
blank line ends the header exactly if it is one of these two, and no CR LF CR LF has arrived with an
LF LF (`splitsAtBlank_iff`).
-/

namespace Lighttpd

open CLib

section Header

variable [Malloc] {stat : Buffer → Option StatCacheEntry} {host : FcgiExtensionHost}
  {allowXsendfile sendContentBody : Bool} {st : FcgiParse} {queue : Chunkqueue}

structure QueueKept (queue : Chunkqueue) (st : FcgiParse) : Prop where
  tidy : st.con.response.headers.Tidy
  writeQueue : st.haveSendfile2 = false → st.con.writeQueue = queue

variable (stat host allowXsendfile sendContentBody) in
theorem QueueKept.line (h : QueueKept queue st) {s : Bytes} (hs : IsCStr s) :
    (fcgiResponseLine stat host allowXsendfile sendContentBody st s).Total (QueueKept queue)
      fun _ => True := by
  cases hline : lineField s with
  | none =>
    rw [fcgiResponseLine_none stat host allowXsendfile sendContentBody hline]
    exact h
  | some f =>
    obtain ⟨hname, hvalue⟩ := isCStr_lineField hs hline
    obtain ⟨con, hrun, htidy, hqueue⟩ :=
      fcgiResponseLine_field stat host allowXsendfile sendContentBody hline h.tidy
    rw [hrun]
    refine (fcgiKnownField_spec hname hvalue _).mono (fun st' heffect => ⟨?_, fun hunsent => ?_⟩)
      fun _ _ => trivial
    · rw [heffect.headers]
      exact htidy
    · have hno := not_congr heffect.haveSendfile2
      rw [hunsent, not_or] at hno
      obtain ⟨hbefore, hobeyed⟩ := hno.mp Bool.false_ne_true
      rw [(heffect.unqueued hobeyed).1]
      exact hqueue.trans (h.writeQueue (Bool.not_eq_true _ ▸ hbefore))

variable (stat host allowXsendfile sendContentBody) in
theorem QueueKept.lines {ss : List Bytes} (hss : ∀ s ∈ ss, IsCStr s) (h : QueueKept queue st) :
    (fcgiResponseLines stat host allowXsendfile sendContentBody ss st).Total (QueueKept queue)
      fun _ => True := by
  induction ss generalizing st with
  | nil => exact h
  | cons s ss ih =>
    obtain ⟨hs, hss⟩ := List.forall_mem_cons.mp hss
    unfold fcgiResponseLines
    exact (h.line stat host allowXsendfile sendContentBody hs).bind fun st' hst' => ih hss hst'

variable (stat host allowXsendfile) in
/-- `fcgi_response_parse` comes to an end, and where the body is still sent it has queued
nothing. -/
theorem fcgiResponseParse_total (ans : FcgiAnswer) (input : Buffer) (hused : input.used ≠ 0)
    (htidy : ans.hctx.remoteConn.response.headers.Tidy) :
    ∃ ans' ok, fcgiResponseParse stat host allowXsendfile ans input = some (ans', ok) ∧
      ans'.hctx.responseHeader = ans.hctx.responseHeader ∧
      (ok = true → ans'.hctx.sendContentBody = true →
        ans'.hctx.remoteConn.response.headers.Tidy ∧
          ans'.hctx.remoteConn.writeQueue = ans.hctx.remoteConn.writeQueue) := by
  unfold fcgiResponseParse
  dsimp only
  rw [str_bufferCopyStringBuffer _ hused]
  have htext := isCStr_cstr (input.ptr.take (input.used - 1))
  generalize cstr (input.ptr.take (input.used - 1)) = t at htext
  rw [responseLines_eq (Nat.lt_succ_self _)]
  have hss : ∀ s ∈ blockLines t, IsCStr s := fun s hs h0 => htext (mem_of_mem_blockLines hs h0)
  have hstart : QueueKept ans.hctx.remoteConn.writeQueue ⟨ans.hctx.remoteConn, false, 0⟩ :=
    ⟨htidy, fun _ => rfl⟩
  have hlines := hstart.lines stat host allowXsendfile ans.hctx.sendContentBody hss
  generalize fcgiResponseLines stat host allowXsendfile ans.hctx.sendContentBody (blockLines t)
    ⟨ans.hctx.remoteConn, false, 0⟩ = run at hlines
  cases run with
  | fault => exact hlines.elim
  | ret con => exact ⟨_, false, rfl, rfl, nofun⟩
  | next st =>
    have hst : QueueKept ans.hctx.remoteConn.writeQueue st := hlines
    dsimp only
    unfold fcgiResponseEnd
    by_cases hsent : st.haveSendfile2 = true
    · obtain ⟨con, hlength, -⟩ := sendfile2Length_spec hst.tidy
      rw [if_pos hsent, hlength]
      exact ⟨_, true, rfl, rfl, nofun⟩
    · rw [if_neg hsent]
      refine ⟨_, true, rfl, rfl, fun _ _ => ?_⟩
      obtain ⟨hresponse, -, hqueue⟩ := withLocation_kept st.con
      dsimp only
      rw [hresponse, hqueue]
      exact ⟨hst.tidy, hst.writeQueue (Bool.not_eq_true _ ▸ hsent)⟩

/-! ## Files that are sent -/

variable {ans : FcgiAnswer}

variable (stat) in
theorem sendfile_total (ds : DataString) (htidy : ans.hctx.remoteConn.response.headers.Tidy) :
    ∃ r, sendfile stat ans ds = some r ∧ ∀ ans', r = some ans' →
      ans'.hctx.responseHeader = ans.hctx.responseHeader ∧
        ans'.hctx.sendContentBody = false := by
  unfold sendfile
  cases stat ds.value with
  | none => exact ⟨none, rfl, fun ans' hans' => nomatch hans'⟩
  | some sce =>
    obtain ⟨old, rest, htake⟩ : ∃ old rest, arrayGetUnusedElement
      ans.hctx.remoteConn.response.headers .string = (old, rest) := ⟨_, _, rfl⟩
    obtain ⟨headers, old', hrun, -⟩ := replaceLength_spec htidy htake sce.st.stSize
    dsimp only at hrun ⊢
    rw [htake, hrun]
    refine ⟨_, rfl, fun ans' hans' => ?_⟩
    obtain rfl := Option.some.inj hans'
    exact ⟨rfl, rfl⟩

variable (stat allowXsendfile) in
theorem sendfileField_total (ans : FcgiAnswer) (hsend : ans.hctx.sendContentBody = true →
      ans.hctx.remoteConn.response.headers.Tidy) :
    ∃ r, sendfileField stat allowXsendfile ans = some r ∧ ∀ ans', r = some ans' →
      ans'.hctx.responseHeader = ans.hctx.responseHeader ∧
        (ans' = ans ∨ ans'.hctx.sendContentBody = false) := by
  have hfile : ∀ (ds : DataString), ans.hctx.remoteConn.response.headers.Tidy →
      ∃ r, sendfile stat ans ds = some r ∧ ∀ ans', r = some ans' →
        ans'.hctx.responseHeader = ans.hctx.responseHeader ∧
          (ans' = ans ∨ ans'.hctx.sendContentBody = false) := by
    intro ds htidy
    obtain ⟨r, hrun, hr⟩ := sendfile_total stat ds htidy
    exact ⟨r, hrun, fun ans' hans' => ⟨(hr ans' hans').1, Or.inr (hr ans' hans').2⟩⟩
  have hsame : ∀ ans', some ans = some ans' →
      ans'.hctx.responseHeader = ans.hctx.responseHeader ∧
        (ans' = ans ∨ ans'.hctx.sendContentBody = false) := by
    intro ans' hans'
    obtain rfl := Option.some.inj hans'
    exact ⟨rfl, Or.inl rfl⟩
  unfold sendfileField
  split
  · next hallow =>
    have htidy := hsend hallow.2
    obtain ⟨first, hfirst, -⟩ := arrayGetElement_spec htidy.wf (ascii "X-LIGHTTPD-send-file")
    obtain ⟨second, hsecond, -⟩ := arrayGetElement_spec htidy.wf (ascii "X-Sendfile")
    dsimp only
    rw [hfirst]
    cases first with
    | some e => exact hfile e.2 htidy
    | none =>
      dsimp only [Option.bind_eq_bind, Option.bind_some]
      rw [hsecond]
      cases second with
      | some e => exact hfile e.2 htidy
      | none => exact ⟨_, rfl, hsame⟩
  · exact ⟨_, rfl, hsame⟩

end Header

section Body

variable [Malloc] {fs : Files} {ans : FcgiAnswer} {con : BackendConnection} {b s : Bytes}

def BackendConnection.httpChunk (con : BackendConnection) : HttpChunk :=
  ⟨con.writeQueue, con.transferEncoding, con.tmpChunkLen⟩

/-- The length of the body is not known to the client, which understands chunks. -/
def BackendConnection.Chunks (con : BackendConnection) : Prop :=
  con.request.httpVersion = .v11 ∧ con.parsedResponse &&& HTTP_CONTENT_LENGTH = 0

instance (con : BackendConnection) : Decidable con.Chunks := inferInstanceAs (Decidable (_ ∧ _))

/-- What is queued are these bytes of the body, in the coding that is chosen with the first ones. -/
structure QueuesBody (fs : Files) (con : BackendConnection) (b : Bytes) : Prop where
  body : BodySoFar fs con.httpChunk b
  coding : b ≠ [] → con.Chunks → con.transferEncoding = HTTP_TRANSFER_ENCODING_CHUNKED

omit [Malloc] in
theorem content_of_bodySoFar_nil {q : HttpChunk} (h : BodySoFar fs q []) :
    q.writeQueue.content fs = [] := by
  unfold BodySoFar at h
  split at h
  · obtain ⟨calls, hshort, hcontent, hpayload⟩ := h
    cases calls with
    | nil => exact hcontent
    | cons call calls =>
      have hpos := (hshort call List.mem_cons_self).2.1
      rw [List.map_cons, List.flatten_cons] at hpayload
      rw [(List.append_eq_nil_iff.mp hpayload).1] at hpos
      nomatch hpos
  · exact h

omit [Malloc] in
theorem QueuesBody.nil (h : con.writeQueue.content fs = []) : QueuesBody fs con [] :=
  ⟨bodySoFar_nil h, fun hne => absurd rfl hne⟩

theorem httpChunk_appendBody (con : BackendConnection) (mem : Bytes) :
    (con.appendBody mem).httpChunk = httpChunkAppendMem con.httpChunk mem := by
  have hcoding := httpChunkAppendMem_transferEncoding con.httpChunk mem
  have hqueue : (con.appendBody mem).httpChunk = { httpChunkAppendMem con.httpChunk mem with
      transferEncoding := con.httpChunk.transferEncoding } := rfl
  rw [hqueue]
  generalize httpChunkAppendMem con.httpChunk mem = q at hcoding
  obtain ⟨queue, coding, tmp⟩ := q
  obtain rfl : coding = con.httpChunk.transferEncoding := hcoding
  rfl

theorem QueuesBody.sendBody (h : QueuesBody fs ans.hctx.remoteConn b) (hne : s ≠ [])
    (hlt : s.length < 2 ^ 32) :
    QueuesBody fs (ans.sendBody (s ++ [0])).hctx.remoteConn (b ++ s) := by
  have hpos := List.length_pos_of_ne_nil hne
  unfold FcgiAnswer.sendBody
  dsimp only [FcgiAnswer.mapCon]
  generalize ans.hctx.remoteConn = con at h
  by_cases hchunks : con.request.httpVersion = .v11 ∧
      con.parsedResponse &&& HTTP_CONTENT_LENGTH = 0
  · -- the coding is chosen with the first piece, and each later piece finds it as it is
    rw [if_pos hchunks]
    have hbody : BodySoFar fs
        ⟨con.writeQueue, HTTP_TRANSFER_ENCODING_CHUNKED, con.tmpChunkLen⟩ b := by
      by_cases hb : b = []
      · subst hb
        have hempty : con.writeQueue.content fs = [] := content_of_bodySoFar_nil h.body
        exact bodySoFar_nil hempty
      · rw [← h.coding hb hchunks]
        exact h.body
    refine ⟨?_, fun _ _ => rfl⟩
    rw [httpChunk_appendBody]
    exact hbody.append hpos hlt
  · rw [if_neg hchunks]
    refine ⟨?_, fun _ hyes => absurd hyes hchunks⟩
    rw [httpChunk_appendBody]
    exact h.body.append hpos hlt

end Body

section Search

variable [Malloc] {header : Buffer} {packet : FastcgiResponsePacket} {r : Record} {t : Bytes}

omit [Malloc] in
theorem bufferSearchStringLen_text (h : header.Text t) {needle : Bytes} (hne : needle ≠ []) :
    bufferSearchStringLen header needle = firstOccurrence needle t := by
  have hlen := List.length_pos_of_ne_nil hne
  obtain ⟨behind, hptr⟩ := h.ptr_eq
  unfold bufferSearchStringLen
  rw [h.used]
  split
  · next hshort =>
    refine ((firstOccurrence_eq_none hne).mpr fun i hi => ?_).symm
    have := hi.le hne
    omega
  · unfold firstOccurrence
    refine List.find?_congr fun i hi => ?_
    have hle : i + needle.length ≤ t.length := by
      have := List.mem_range.mp hi
      omega
    rw [hptr, List.drop_append_of_le_length (by omega),
      List.take_append_of_le_length (by rw [List.length_drop]; omega), Bool.eq_iff_iff,
      beq_iff_eq, decide_eq_true_iff]
    unfold OccursAt
    rw [List.prefix_iff_eq_take, eq_comm]

omit [Malloc] in
theorem headerTerminator_text (h : header.Text t) :
    headerTerminator header = (searchBlank t).map fun d => (d.1 + 1, d.2) := by
  unfold headerTerminator searchBlank
  rw [bufferSearchStringLen_text h (by decide), bufferSearchStringLen_text h (by decide)]
  have hcrlf : ascii "\r\n\r\n" = crlfCrlf := by decide
  have hlf : ascii "\n\n" = lfLf := by decide
  rw [hcrlf, hlf]
  cases firstOccurrence crlfCrlf t with
  | some i => rfl
  | none => cases firstOccurrence lfLf t <;> rfl

theorem text_collectHeader (h : header.Shows t) (hcarries : packet.Carries r) :
    (collectHeader header packet).Text (t ++ r.content) := by
  have hcontent := hcarries.content
  have hcopy := shows_copyOrAppend h r.content
  have hused : packet.b.used ≠ 0 := by
    rw [hcontent.used]
    omega
  unfold collectHeader bufferCopyStringBuffer bufferAppendStringBuffer
  rw [if_neg hused, if_neg hused, take_of_holds hcontent.holds hcontent.used]
  exact hcopy

end Search

section Packets

variable [Malloc] {fs : Files} {ans : FcgiAnswer} {t : Bytes} {h c : Nat}

structure Collecting (ans : FcgiAnswer) (t : Bytes) : Prop where
  fileStarted : ans.hctx.remoteConn.fileStarted = false
  header : ans.hctx.responseHeader.Shows t
  queue : ans.hctx.remoteConn.writeQueue.first = []
  tidy : ans.hctx.remoteConn.response.headers.Tidy

/-- The header has ended in front of the `h`-th byte, and the body starts with the `c`-th one. -/
structure HeaderEnded (fs : Files) (ans : FcgiAnswer) (t : Bytes) (h c : Nat) : Prop where
  fileStarted : ans.hctx.remoteConn.fileStarted = true
  header : ans.hctx.responseHeader.ptr.take (ans.hctx.responseHeader.used - 1) = t.take h
  body : ans.hctx.sendContentBody = true → QueuesBody fs ans.hctx.remoteConn (t.drop c)

omit [Malloc] in
theorem headerEnded_badGateway
    (hheader : ans.hctx.responseHeader.ptr.take (ans.hctx.responseHeader.used - 1) = t.take h) :
    HeaderEnded fs ans.badGateway t h c := ⟨rfl, hheader, nofun⟩

variable (stat : Buffer → Option StatCacheEntry) (host : FcgiExtensionHost) (allowXsendfile : Bool)

theorem fcgiHeaderDone_split {header : Buffer} (htext : header.Text t) (hh : h ≤ t.length)
    (hc : c ≤ t.length) (hlt : t.length < c + 2 ^ 32)
    (hqueue : ans.hctx.remoteConn.writeQueue.first = [])
    (htidy : ans.hctx.remoteConn.response.headers.Tidy) :
    ∃ ans', fcgiHeaderDone stat host allowXsendfile ans header (h + 1) c = some ans' ∧
      HeaderEnded fs ans' t h c := by
  obtain ⟨behind, hptr⟩ := htext.ptr_eq
  have hcut : header.ptr.take (h + 1 - 1) = t.take h := by
    rw [hptr, Nat.add_sub_cancel, List.take_append_of_le_length hh]
  have hmem : (header.ptr.drop c).take (header.used - c) = t.drop c ++ [0] := by
    have hlen : header.used - c = (t.drop c).length + 1 := by
      rw [htext.used, List.length_drop]
      omega
    rw [hptr, List.drop_append_of_le_length hc, hlen, List.take_length_add_append]
    rfl
  obtain ⟨parsed, ok, hparse, hheader, hkept⟩ := fcgiResponseParse_total stat host allowXsendfile
    { ans with hctx := { ans.hctx with responseHeader := { header with used := h + 1 } } }
    { header with used := h + 1 } (Nat.succ_ne_zero h) htidy
  unfold fcgiHeaderDone
  dsimp only at hparse ⊢
  rw [hparse]
  have hparsed : parsed.hctx.responseHeader.ptr.take (parsed.hctx.responseHeader.used - 1) =
      t.take h := by
    rw [hheader]
    exact hcut
  cases ok with
  | false => exact ⟨_, rfl, headerEnded_badGateway hparsed⟩
  | true =>
    dsimp only [Option.bind_eq_bind, Option.bind_some]
    -- an authorizer that approves sends no body
    generalize hstarted : (if host.mode = FCGI_AUTHORIZER ∧ (parsed.mapCon fun con =>
      { con with fileStarted := true }).hctx.remoteConn.Approved then _ else _) = started
    have hfile : started.hctx.remoteConn.fileStarted = true := by
      subst hstarted
      split <;> rfl
    have hsame : started.hctx.responseHeader = parsed.hctx.responseHeader := by
      subst hstarted
      split <;> rfl
    have hsend : started.hctx.sendContentBody = true →
        started.hctx.remoteConn.response.headers.Tidy ∧
          started.hctx.remoteConn.writeQueue = ans.hctx.remoteConn.writeQueue := by
      subst hstarted
      split
      · exact fun hno => nomatch hno
      · exact fun hyes => hkept rfl hyes
    obtain ⟨field, hfield, hsent⟩ :=
      sendfileField_total stat allowXsendfile started fun hyes => (hsend hyes).1
    rw [hfield]
    rw [← hsame] at hparsed
    cases field with
    | none => exact ⟨_, rfl, headerEnded_badGateway hparsed⟩
    | some sent =>
      obtain ⟨hsentHeader, hbody⟩ := hsent sent rfl
      rw [← hsentHeader] at hparsed
      have hsentFile : sent.hctx.remoteConn.fileStarted = true :=
        (sendfileField_kept hfield).2.trans hfile
      have hnothing : sent.hctx.sendContentBody = true → QueuesBody fs sent.hctx.remoteConn [] := by
        intro hyes
        obtain rfl := hbody.resolve_right fun hno => nomatch hno.symm.trans hyes
        refine QueuesBody.nil ?_
        rw [(hsend hyes).2, Chunkqueue.content, hqueue]
        rfl
      rw [hmem, Option.bind_some]
      dsimp only
      by_cases hblen : sent.hctx.sendContentBody = true ∧ header.used - c > 1
      · rw [if_pos hblen]
        have hne : t.drop c ≠ [] := by
          rw [← List.length_pos_iff_ne_nil, List.length_drop]
          have := htext.used
          omega
        refine ⟨_, rfl, (sendBody_kept sent _).2.trans hsentFile, hparsed, fun _ => ?_⟩
        exact (hnothing hblen.1).sendBody hne (by rw [List.length_drop]; omega)
      · rw [if_neg hblen]
        refine ⟨_, rfl, hsentFile, hparsed, fun hyes => ?_⟩
        have hnil : t.drop c = [] := by
          rw [List.drop_eq_nil_iff]
          have := htext.used
          have := not_and.mp hblen hyes
          omega
        rw [hnil]
        exact hnothing hyes

theorem fcgiStdout_ended {packet : FastcgiResponsePacket} {r : Record} (hcarries : packet.Carries r)
    (hlt : r.content.length < 2 ^ 32) (hh : h ≤ t.length) (hc : c ≤ t.length)
    (hans : HeaderEnded fs ans t h c) : ∃ ans',
    fcgiStdout stat host allowXsendfile ans packet = some ans' ∧
      HeaderEnded fs ans' (t ++ r.content) h c := by
  have htext := hcarries.content
  have hheader : ans.hctx.responseHeader.ptr.take (ans.hctx.responseHeader.used - 1) =
      (t ++ r.content).take h := by
    rw [List.take_append_of_le_length hh]
    exact hans.header
  have hdrop : (t ++ r.content).drop c = t.drop c ++ r.content := List.drop_append_of_le_length hc
  have hnothing : r.content = [] → HeaderEnded fs ans (t ++ r.content) h c := by
    intro hnil
    refine ⟨hans.fileStarted, hheader, fun hsend => ?_⟩
    rw [hnil, List.append_nil]
    exact hans.body hsend
  unfold fcgiStdout
  by_cases hlen : packet.len = 0
  · rw [if_pos hlen]
    have hnil : r.content = [] := by
      rw [hcarries.len] at hlen
      exact List.length_eq_zero_iff.mp (by omega)
    exact ⟨ans, rfl, hnothing hnil⟩
  rw [if_neg hlen, if_neg fun hno : ans.hctx.remoteConn.fileStarted = false =>
    nomatch hans.fileStarted.symm.trans hno]
  by_cases hbody : ans.hctx.sendContentBody = true ∧ packet.b.used > 1
  · rw [if_pos hbody]
    have hne : r.content ≠ [] := by
      rw [← List.length_pos_iff_ne_nil]
      have := htext.used
      omega
    have hbytes : packet.b.ptr.take packet.b.used = r.content ++ [0] := htext.holds
    rw [hbytes]
    refine ⟨_, rfl, (sendBody_kept ans _).2.trans hans.fileStarted, hheader, fun _ => ?_⟩
    rw [hdrop]
    exact (hans.body hbody.1).sendBody hne hlt
  · rw [if_neg hbody]
    refine ⟨ans, rfl, hans.fileStarted, hheader, fun hsend => ?_⟩
    have hnil : r.content = [] := by
      have := htext.used
      have := not_and.mp hbody hsend
      exact List.length_eq_zero_iff.mp (by omega)
    exact (hnothing hnil).body hsend

variable (fs) in
theorem fcgiStdout_collecting {packet : FastcgiResponsePacket} {r : Record}
    (hcarries : packet.Carries r) (hlt : r.content.length < 2 ^ 32) (hans : Collecting ans t)
    (hnone : searchBlank t = none) : ∃ ans',
    fcgiStdout stat host allowXsendfile ans packet = some ans' ∧
      match searchBlank (t ++ r.content) with
      | none => ans'.hctx.remoteConn = ans.hctx.remoteConn ∧ Collecting ans' (t ++ r.content)
      | some (h, c) => HeaderEnded fs ans' (t ++ r.content) h c := by
  unfold fcgiStdout
  by_cases hlen : packet.len = 0
  · rw [if_pos hlen]
    have hnil : r.content = [] := by
      rw [hcarries.len] at hlen
      exact List.length_eq_zero_iff.mp (by omega)
    rw [hnil, List.append_nil, hnone]
    exact ⟨ans, rfl, rfl, hans⟩
  have htext := text_collectHeader hans.header hcarries
  rw [if_neg hlen, if_pos hans.fileStarted]
  dsimp only
  rw [headerTerminator_text htext]
  cases hfound : searchBlank (t ++ r.content) with
  | none =>
    exact ⟨_, rfl, rfl, hans.fileStarted, Or.inl htext, hans.queue, hans.tidy⟩
  | some d =>
    obtain ⟨h, c⟩ := d
    obtain ⟨n, hb, rfl, -⟩ := blankAt_of_searchBlank hfound
    have hle := hb.le
    have hbehind := searchBlank_behind hnone hfound
    have hlength : (t ++ r.content).length = t.length + r.content.length := List.length_append
    exact fcgiHeaderDone_split stat host allowXsendfile htext (by omega) (by omega) (by omega)
      hans.queue hans.tidy

def stdoutContents (records : List Record) : List Bytes :=
  (records.filter fun r => r.type = FCGI_STDOUT).map Record.content

variable {packets : List FastcgiResponsePacket} {records : List Record}

omit [Malloc] in
theorem stdoutContents_cons (r : Record) (records : List Record) :
    stdoutContents (r :: records) =
      if r.type = FCGI_STDOUT then r.content :: stdoutContents records
      else stdoutContents records := by
  unfold stdoutContents
  split
  · next h => rw [List.filter_cons_of_pos (by simpa using h), List.map_cons]
  · next h => rw [List.filter_cons_of_neg (by simpa using h)]

theorem fcgiDemuxPackets_ended
    (hcarries : List.Forall₂ FastcgiResponsePacket.Carries packets records)
    (hrecords : ∀ r ∈ records, r.type ≠ FCGI_END_REQUEST ∧ r.content.length < 2 ^ 32)
    (hh : h ≤ t.length) (hc : c ≤ t.length) (hans : HeaderEnded fs ans t h c) : ∃ ans',
    fcgiDemuxPackets stat host allowXsendfile packets ans = some (ans', false) ∧
      HeaderEnded fs ans' (t ++ (stdoutContents records).flatten) h c := by
  induction hcarries generalizing ans t with
  | nil =>
    refine ⟨ans, rfl, ?_⟩
    rw [show (stdoutContents []).flatten = [] from rfl, List.append_nil]
    exact hans
  | @cons packet r packets records hpacket hpackets ih =>
    obtain ⟨⟨hend, hlt⟩, hrecords⟩ := List.forall_mem_cons.mp hrecords
    rw [stdoutContents_cons]
    unfold fcgiDemuxPackets
    rw [hpacket.type]
    by_cases hstdout : r.type = FCGI_STDOUT
    · obtain ⟨next, hnext, hended⟩ :=
        fcgiStdout_ended stat host allowXsendfile hpacket hlt hh hc hans
      rw [if_pos hstdout, if_pos hstdout, hnext, List.flatten_cons, ← List.append_assoc]
      exact ih hrecords (by rw [List.length_append]; omega) (by rw [List.length_append]; omega)
        hended
    · rw [if_neg hstdout, if_neg hstdout, if_neg hend]
      exact ih hrecords hh hc hans

variable (fs) in
theorem fcgiDemuxPackets_collecting
    (hcarries : List.Forall₂ FastcgiResponsePacket.Carries packets records)
    (hrecords : ∀ r ∈ records, r.type ≠ FCGI_END_REQUEST ∧ r.content.length < 2 ^ 32)
    (hans : Collecting ans t) (hnone : searchBlank t = none) : ∃ ans',
    fcgiDemuxPackets stat host allowXsendfile packets ans = some (ans', false) ∧
      match searchPieces t (stdoutContents records) with
      | none => ans'.hctx.remoteConn = ans.hctx.remoteConn ∧
          Collecting ans' (t ++ (stdoutContents records).flatten)
      | some (h, c) => HeaderEnded fs ans' (t ++ (stdoutContents records).flatten) h c := by
  induction hcarries generalizing ans t with
  | nil =>
    refine ⟨ans, rfl, rfl, ?_⟩
    rw [show (stdoutContents []).flatten = [] from rfl, List.append_nil]
    exact hans
  | @cons packet r packets records hpacket hpackets ih =>
    obtain ⟨⟨hend, hlt⟩, hrecords⟩ := List.forall_mem_cons.mp hrecords
    rw [stdoutContents_cons]
    unfold fcgiDemuxPackets
    rw [hpacket.type]
    by_cases hstdout : r.type = FCGI_STDOUT
    · obtain ⟨next, hnext, hfound⟩ :=
        fcgiStdout_collecting fs stat host allowXsendfile hpacket hlt hans hnone
      rw [if_pos hstdout, if_pos hstdout, hnext, List.flatten_cons, ← List.append_assoc,
        searchPieces]
      cases hsearch : searchBlank (t ++ r.content) with
      | none =>
        rw [hsearch] at hfound
        obtain ⟨hcon, hcollecting⟩ := hfound
        rw [← hcon]
        exact ih hrecords hcollecting hsearch
      | some d =>
        rw [hsearch] at hfound
        obtain ⟨h, c⟩ := d
        obtain ⟨n, hb, rfl, -⟩ := blankAt_of_searchBlank hsearch
        have hle := hb.le
        exact fcgiDemuxPackets_ended stat host allowXsendfile hpackets hrecords (by omega)
          (by omega) hfound
    · rw [if_neg hstdout, if_neg hstdout, if_neg hend]
      exact ih hrecords hans hnone

/-! ## The first blank line -/

/-- The header is what stands in front of the first blank line of `s`, and the body is the rest. -/
def SplitsAtBlank (fs : Files) (packets : List FastcgiResponsePacket) (ans : FcgiAnswer)
    (s : Bytes) : Prop :=
  ∃ ans', fcgiDemuxPackets stat host allowXsendfile packets ans = some (ans', false) ∧
    match blankLine s with
    | none => ans'.hctx.remoteConn = ans.hctx.remoteConn ∧ ans'.hctx.responseHeader.Shows s
    | some (b, n) => HeaderEnded fs ans' s b (b + n)

/-- The first blank line is found in what has arrived with it. -/
def BlankFound (contents : List Bytes) : Prop :=
  ∀ d ∈ blankLine contents.flatten,
    FoundIn contents.flatten d.1 d.2 (arrived (d.1 + d.2) [] contents)

instance (contents : List Bytes) : Decidable (BlankFound contents) :=
  inferInstanceAs (Decidable (∀ d ∈ blankLine contents.flatten, _))

/-- **When the response is split at the first blank line.** -/
theorem splitsAtBlank_iff
    (hcarries : List.Forall₂ FastcgiResponsePacket.Carries packets records)
    (hrecords : ∀ r ∈ records, r.type ≠ FCGI_END_REQUEST ∧ r.content.length < 2 ^ 32)
    (hans : Collecting ans []) :
    SplitsAtBlank stat host allowXsendfile fs packets ans (stdoutContents records).flatten ↔
      BlankFound (stdoutContents records) := by
  obtain ⟨ans', hrun, hsplit⟩ := fcgiDemuxPackets_collecting fs stat host allowXsendfile hcarries
    hrecords hans rfl
  rw [List.nil_append] at hsplit
  unfold SplitsAtBlank BlankFound
  rw [hrun]
  cases hblank : blankLine (stdoutContents records).flatten with
  | none =>
    rw [searchPieces_none (t := []) hblank] at hsplit
    exact iff_of_true ⟨ans', rfl, hsplit.1, hsplit.2.header⟩ fun d hd => nomatch hd
  | some d =>
    obtain ⟨b, n⟩ := d
    have hfound := fun c => searchPieces_iff (t := []) (c := c) hblank
      (by have := (blankLine_eq_some.mp hblank).1.le; rw [List.length_nil]; omega)
    rw [List.nil_append] at hfound
    dsimp only
    constructor
    · rintro ⟨ans'', heq, hended⟩
      obtain rfl := (Prod.mk.inj (Option.some.inj heq)).1
      cases hsearch : searchPieces [] (stdoutContents records) with
      | none =>
        rw [hsearch] at hsplit
        have hstarted := hended.fileStarted
        rw [hsplit.1, hans.fileStarted] at hstarted
        nomatch hstarted
      | some d =>
        rw [hsearch] at hsplit
        obtain ⟨h, c⟩ := d
        -- two fronts of the stream are the same only if they have the same length
        have hsame := hended.header.symm.trans hsplit.header
        have hle := searchPieces_le hsearch
        have hlen := congrArg List.length hsame
        rw [List.length_take, List.length_take] at hlen
        have hb := (blankLine_eq_some.mp hblank).1.le
        obtain rfl : h = b := by
          rw [List.nil_append] at hle
          dsimp only at hle
          omega
        intro d hd
        obtain rfl := Option.some.inj hd
        exact ((hfound c).mp hsearch).2
    · intro hin
      rw [(hfound (b + n)).mpr ⟨rfl, hin (b, n) rfl⟩] at hsplit
      exact ⟨ans', rfl, hsplit⟩

end Packets

section Examples

def stdoutRecord (text : Bytes) : Record := ⟨FCGI_STDOUT, 1, text, 0⟩

theorem carries_stdoutPacket (text : Bytes) : (stdoutPacket text).Carries (stdoutRecord text) where
  type := rfl
  requestId := rfl
  padding := rfl
  len := rfl
  content := ⟨List.take_of_length_le (by simp [stdoutPacket]), rfl⟩

theorem collecting_waitingAnswer : Collecting waitingAnswer [] :=
  ⟨rfl, Or.inr ⟨rfl, rfl⟩, rfl, tidy_arrayInit⟩

/-- The blank line comes with two packets. -/
theorem splitsAtBlank_pieces : @SplitsAtBlank zeroMalloc (fun _ => none) childHost false ⟨[], []⟩
    [stdoutPacket (ascii "A: b\r\n\r"), stdoutPacket (ascii "\nhi")] waitingAnswer
    (ascii "A: b\r\n\r\nhi") := by
  let _ : Malloc := zeroMalloc
  have hcarries : List.Forall₂ FastcgiResponsePacket.Carries
      [stdoutPacket (ascii "A: b\r\n\r"), stdoutPacket (ascii "\nhi")]
      [stdoutRecord (ascii "A: b\r\n\r"), stdoutRecord (ascii "\nhi")] :=
    .cons (carries_stdoutPacket _) (.cons (carries_stdoutPacket _) .nil)
  exact (splitsAtBlank_iff (fun _ => none) childHost false hcarries (by decide)
    collecting_waitingAnswer).mpr (by decide)

/-- The body of this response has a blank line of the other style. -/
def mixedResponse : Bytes := ascii "A: b\n\nx\r\n\r\ny"

theorem not_splitsAtBlank_mixed : ¬ @SplitsAtBlank zeroMalloc (fun _ => none) childHost false
    ⟨[], []⟩ [stdoutPacket mixedResponse] waitingAnswer mixedResponse := by
  rintro ⟨ans', hrun, hsplit⟩
  have hheader : (@fcgiDemuxPackets zeroMalloc (fun _ => none) childHost false
      [stdoutPacket mixedResponse] waitingAnswer).map (fun r =>
        r.1.hctx.responseHeader.ptr.take (r.1.hctx.responseHeader.used - 1)) =
      some (ascii "A: b\n\nx\r\n") := by decide +kernel
  have hblank : blankLine mixedResponse = some (5, 1) := by decide
  rw [hrun, Option.map_some, Option.some.injEq] at hheader
  rw [hblank] at hsplit
  have hsame := hheader.symm.trans hsplit.header
  exact absurd hsame (by decide)

end Examples

end Lighttpd
