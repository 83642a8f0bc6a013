import Lighttpd.Connections.WritePrepare
import Lighttpd.Range.QueuedParts
import Lighttpd.ResponseFields

/-!
# `connection_handle_write_prepare`: the error document

The error document is appended to what is queued, and its length is written only where the framing
is open. So it is sent as it is exactly if an earlier handler left nothing in the queue, and no
length or no other one (`errorDocumentSent_iff`).
-/

namespace Lighttpd

open CLib Compare

section Document

variable [Malloc]

def pageText (status : Int) : Bytes :=
  (errorPage status bufferInit).ptr.take ((errorPage status bufferInit).used - 1)

def BuildsText (build : Buffer → Buffer) : Prop := ∃ t, ∀ b, (build b).Text t

theorem BuildsText.appendStringLen {build : Buffer → Buffer} (h : BuildsText build) (s : Bytes) :
    BuildsText fun b => bufferAppendStringLen (build b) (some s) := by
  obtain ⟨t, ht⟩ := h
  exact ⟨_, fun b => text_bufferAppendStringLen (ht b) s⟩

theorem BuildsText.appendLong {build : Buffer → Buffer} (h : BuildsText build) (v : Int) :
    BuildsText fun b => bufferAppendLong (build b) v := by
  obtain ⟨t, ht⟩ := h
  exact ⟨_, fun b => text_bufferAppendLong (ht b) v⟩

theorem BuildsText.appendString {build : Buffer → Buffer} (h : BuildsText build)
    (s : Option Bytes) : BuildsText fun b => bufferAppendString (build b) s := by
  obtain ⟨t, ht⟩ := h
  cases s with
  | none => exact ⟨t, ht⟩
  | some s => exact ⟨_, fun b => (text_bufferAppendString (ht b) s).1⟩

theorem errorPage_text (status : Int) (b : Buffer) :
    (errorPage status b).Text (pageText status) := by
  have hstart : ∀ s, BuildsText fun b => bufferCopyStringLen b (some s) :=
    fun s => ⟨s, fun b => text_bufferCopyStringLen b s⟩
  have hpart : ∀ {build : Buffer → Buffer}, BuildsText build → ∀ s : Bytes, BuildsText fun b =>
      bufferAppendString (bufferAppendStringLen (bufferAppendLong (bufferAppendStringLen (build b)
        (some s)) status) (some (ascii " - "))) (getHttpStatusName status) :=
    fun h s => (((h.appendStringLen s).appendLong status).appendStringLen _).appendString _
  obtain ⟨page, hpage⟩ : BuildsText (errorPage status) := by
    unfold errorPage
    refine BuildsText.appendStringLen (hpart (BuildsText.appendString (BuildsText.appendStringLen
      (BuildsText.appendLong (hstart _) status) _) _) _) _
  have htext : pageText status = page := take_of_holds (hpage _).holds (hpage _).used
  rw [htext]
  exact hpage b

variable (fs : Files) (stat : Buffer → Option StatCacheEntry) (con : RespondingConnection)

/-- What is at the name of an error file is a file, of the length that `stat` says. -/
def StatTells : Prop :=
  ∀ name sce, stat name = some sce → ∃ s, fs.content name.str = some s ∧ sce.st.stSize = s.length

def HasErrorfile : Prop :=
  bufferIsEmpty con.errorfilePrefix = false ∧ (stat (errorfile con)).isSome

def errorDocument : Bytes :=
  if bufferIsEmpty con.errorfilePrefix then pageText con.httpStatus
  else
    match stat (errorfile con) with
    | some _ => (fs.content (errorfile con).str).getD []
    | none => pageText con.httpStatus

def errorDocumentLength : Bytes := decimal (errorDocument fs stat con).length

/-- The body is the error document, and `Content-Length` is its length. -/
def ErrorDocumentSent (con' : RespondingConnection) : Prop :=
  con'.writeQueue.content fs = errorDocument fs stat con ∧
    HeaderIs con'.response.headers (ascii "Content-Length") (errorDocumentLength fs stat con)

/-- What was left for the error document: an empty queue, and no length or the right one; and a file
is not put into chunks. -/
def FitsErrorDocument : Prop :=
  con.writeQueue.content fs = [] ∧
  ¬ (HasErrorfile stat con ∧ con.transferEncoding &&& HTTP_TRANSFER_ENCODING_CHUNKED ≠ 0) ∧
  if con.openFraming then chunkqueueLength con.writeQueue = 0
  else HeaderIs con.response.headers (ascii "Content-Length") (errorDocumentLength fs stat con)

/-- The names in the header are in order, those that the function sets among them. -/
structure HeaderNames (K : Bytes → Prop) : Prop where
  order : PreorderOn bufferCaselessCompare K
  contentType : K (ascii "Content-Type" ++ [0])
  contentLength : K (ascii "Content-Length" ++ [0])

end Document

section Queue

variable [Malloc] {K : Bytes → Prop} {fs : Files} {stat : Buffer → Option StatCacheEntry}
  {con con' : RespondingConnection}

theorem errorfile_ended (con : RespondingConnection) : (errorfile con).Ended := by
  have hprefix := shows_bufferCopyStringBuffer (bufferReset con.physicalPath) con.errorfilePrefix
  have hnumber := text_bufferAppendLong_shows hprefix con.httpStatus
  have htext := text_bufferAppendStringLen hnumber (ascii ".html")
  exact ended_of_holds htext.holds htext.wf

theorem httpChunkAppendFile_queued (fs : Files) {q : HttpChunk} {fn : Buffer} (hfn : fn.Ended)
    (offset len : Int) :
    (q.chunked ∧ ∃ size closing, size ≠ [] ∧
      (httpChunkAppendFile q fn offset len).writeQueue.content fs =
        q.writeQueue.content fs ++ (size ++ fs.part fn.str offset len ++ closing)) ∨
    (¬ q.chunked ∧ (httpChunkAppendFile q fn offset len).writeQueue.content fs =
        q.writeQueue.content fs ++ fs.part fn.str offset len ∧
      chunkqueueLength (httpChunkAppendFile q fn offset len).writeQueue =
        chunkqueueLength q.writeQueue + len) := by
  by_cases hchunked : q.chunked
  · refine .inl ⟨hchunked, sizeText (len % 2 ^ 32).toNat ++ crlf, _, ?_,
      (content_httpChunkAppendFile fs hchunked hfn offset len).2⟩
    exact List.append_ne_nil_of_right_ne_nil _ (List.cons_ne_nil _ _)
  · have hqueue : (httpChunkAppendFile q fn offset len).writeQueue =
        chunkqueueAppendFile q.writeQueue fn offset len := by
      unfold httpChunkAppendFile
      simp only [hchunked, false_and, if_false]
    rw [hqueue]
    refine .inr ⟨hchunked, content_appendFile fs q.writeQueue hfn offset len, ?_⟩
    rw [(grows_appendFile q.writeQueue fn offset len).length]
    by_cases hlen : len = 0
    · simp [hlen]
    · simp [hlen, QueuedPiece.length]

/-- What the error document does to the connection: the header gets a type, and the document stands
behind what is in the queue. -/
structure DocumentQueued (K : Bytes → Prop) (fs : Files) (stat : Buffer → Option StatCacheEntry)
    (con con' : RespondingConnection) : Prop where
  owner : SameOwner con con'
  finished : con'.fileFinished = true
  framing : con'.parsedResponse = con.parsedResponse ∧ con'.transferEncoding = con.transferEncoding
  fields : ResponseFields K con'.response.headers
  length : ∀ value, HeaderIs con'.response.headers (ascii "Content-Length") value ↔
    HeaderIs con.response.headers (ascii "Content-Length") value
  queue : (HasErrorfile stat con ∧ con.transferEncoding &&& HTTP_TRANSFER_ENCODING_CHUNKED ≠ 0 ∧
      ∃ size closing, size ≠ [] ∧ con'.writeQueue.content fs =
        con.writeQueue.content fs ++ (size ++ errorDocument fs stat con ++ closing)) ∨
    (¬ (HasErrorfile stat con ∧ con.transferEncoding &&& HTTP_TRANSFER_ENCODING_CHUNKED ≠ 0) ∧
      con'.writeQueue.content fs = con.writeQueue.content fs ++ errorDocument fs stat con ∧
      chunkqueueLength con'.writeQueue =
        chunkqueueLength con.writeQueue + (errorDocument fs stat con).length)

theorem overwriteContentType (hK : HeaderNames K) {headers : Arr DataString}
    (h : ResponseFields K headers) (value : Option Bytes) :
    ∃ headers', responseHeaderOverwrite headers (ascii "Content-Type") value = some headers' ∧
      ResponseFields K headers' ∧
      ∀ v, HeaderIs headers' (ascii "Content-Length") v ↔
        HeaderIs headers (ascii "Content-Length") v := by
  obtain ⟨headers', hrun, hfields, -, -⟩ :=
    responseHeaderOverwrite_spec hK.order hK.contentType h value
  exact ⟨headers', hrun, hfields, fun v => headerIs_overwrite_other hK.order hK.contentType h
    hK.contentLength (by decide) hrun⟩

theorem queueErrorPage_queued (hK : HeaderNames K)
    (h : ResponseFields K con.response.headers)
    (hpage : errorDocument fs stat con = pageText con.httpStatus)
    (hfile : ¬ HasErrorfile stat con) (path : Buffer) :
    ∃ con', queueErrorPage { con with fileFinished := false, physicalPath := path } = some con' ∧
      DocumentQueued K fs stat con con' := by
  obtain ⟨headers', hrun, hfields, hlength⟩ :=
    overwriteContentType hK h (some (ascii "text/html"))
  have hgrows : Grows con.writeQueue
      ((chunkqueueGetAppendBuffer con.writeQueue).mapLastMem (errorPage con.httpStatus))
      [.text (pageText con.httpStatus)] :=
    grows_appendMem (first_mapLastMem (congrArg (· ++ _)
      (chunkqueueGetUnusedChunk_first con.writeQueue)) (errorPage con.httpStatus)) rfl rfl
      (errorPage_text con.httpStatus _)
  unfold queueErrorPage
  dsimp only
  rw [hrun]
  refine ⟨_, rfl, ⟨rfl, rfl, rfl⟩, rfl, ⟨rfl, rfl⟩, hfields, hlength, .inr ⟨?_, ?_, ?_⟩⟩
  · exact fun hchunked => hfile hchunked.1
  · rw [content_eq_queued, content_eq_queued, hpage]
    simp only [hgrows.queued, List.map_append, List.flatten_append]
    simp [QueuedPiece.content]
  · rw [hpage]
    simpa [QueuedPiece.length] using hgrows.length

theorem queueErrorDocument_queued (hK : HeaderNames K) (htells : StatTells fs stat)
    (h : ResponseFields K con.response.headers) :
    ∃ con', queueErrorDocument stat con = some con' ∧ DocumentQueued K fs stat con con' := by
  unfold queueErrorDocument
  dsimp only
  by_cases hempty : bufferIsEmpty con.errorfilePrefix = true
  · rw [if_pos hempty]
    refine queueErrorPage_queued hK h ?_ ?_ con.physicalPath
    · exact if_pos hempty
    · exact fun hfile => absurd (hfile.1.symm.trans hempty) Bool.false_ne_true
  rw [if_neg hempty]
  have hstat : stat (errorfile { con with fileFinished := false }) = stat (errorfile con) := rfl
  rw [hstat]
  cases hsce : stat (errorfile con) with
  | none =>
    refine queueErrorPage_queued hK h ?_ ?_ (errorfile con)
    · unfold errorDocument
      rw [if_neg hempty, hsce]
    · rintro ⟨-, hsome⟩
      rw [hsce] at hsome
      exact nomatch hsome
  | some sce =>
    obtain ⟨s, hs, hsize⟩ := htells _ sce hsce
    have hfile : HasErrorfile stat con := ⟨by simpa using hempty, by rw [hsce]; rfl⟩
    have hdocument : errorDocument fs stat con = s := by
      unfold errorDocument
      rw [if_neg hempty, hsce]
      simp only [hs, Option.getD_some]
    have hpart : fs.part (errorfile con).str 0 sce.st.stSize = s := by
      unfold Files.part
      rw [hs, hsize]
      simp
    obtain ⟨headers', hrun, hfields, hlength⟩ :=
      overwriteContentType hK h sce.contentType.constBufLen
    have hqueue := @httpChunkAppendFile_queued _ fs ⟨con.writeQueue, con.transferEncoding,
      con.tmpChunkLen⟩ _ (errorfile_ended con) 0 sce.st.stSize
    rw [hpart, hsize] at hqueue
    simp only [RespondingConnection.appendFile, hrun, hsize]
    refine ⟨_, rfl, ⟨rfl, rfl, rfl⟩, rfl, ⟨rfl, rfl⟩, hfields, hlength, ?_⟩
    rw [hdocument]
    rcases hqueue with ⟨hchunked, hcontent⟩ | ⟨hplain, hcontent, hlen⟩
    · exact .inl ⟨hfile, hchunked, hcontent⟩
    · exact .inr ⟨fun h => hplain h.2, hcontent, hlen⟩

theorem setContentLength_length (hK : HeaderNames K) (h : ResponseFields K con.response.headers)
    (hmethod : con.request.httpMethod ≠ .head)
    (hstatus : 400 ≤ con.httpStatus ∧ con.httpStatus < 600) :
    ∃ con', setContentLength con = some con' ∧ con'.writeQueue = con.writeQueue ∧
      con'.request = con.request ∧
      ∀ v, HeaderIs con'.response.headers (ascii "Content-Length") v ↔
        if con.openFraming then v = decimal (chunkqueueLength con.writeQueue)
        else HeaderIs con.response.headers (ascii "Content-Length") v := by
  unfold setContentLength
  by_cases hopen : con.openFraming
  · have htext : (bufferCopyOffT con.tmpBuf (chunkqueueLength con.writeQueue)).Text
        (decimal (chunkqueueLength con.writeQueue)) :=
      text_bufferAppendLong_shows (.inr ⟨rfl, rfl⟩) _
    obtain ⟨headers', hrun, -, -, -⟩ := responseHeaderOverwrite_spec hK.order hK.contentLength h
      (some (decimal (chunkqueueLength con.writeQueue)))
    have hbody : ¬ ((100 ≤ con.httpStatus ∧ con.httpStatus < 200) ∨ con.httpStatus = 204 ∨
        con.httpStatus = 304) := by omega
    simp only [if_pos hopen, if_neg hbody, htext.constBufLen]
    rw [if_pos (.inr hmethod), hrun]
    exact ⟨_, rfl, rfl, rfl, fun v =>
      headerIs_overwrite hK.order hK.contentLength h (isCStr_decimal _) hrun⟩
  · simp only [if_neg hopen]
    exact ⟨con, rfl, rfl, rfl, fun _ => Iff.rfl⟩

theorem writePrepare_errorDocument (hK : HeaderNames K) (htells : StatTells fs stat)
    (hfields : ResponseFields K con.response.headers) (hmode : con.mode = DIRECT)
    (hmethod : con.request.httpMethod = .get ∨ con.request.httpMethod = .post)
    (hstatus : 400 ≤ con.httpStatus ∧ con.httpStatus < 600) :
    ∃ con₁ con', DocumentQueued K fs stat con con₁ ∧
      connectionHandleWritePrepare stat con = some con' ∧ con'.writeQueue = con₁.writeQueue ∧
      ∀ v, HeaderIs con'.response.headers (ascii "Content-Length") v ↔
        if con.openFraming then v = decimal (chunkqueueLength con₁.writeQueue)
        else HeaderIs con.response.headers (ascii "Content-Length") v := by
  obtain ⟨con₁, hrun₁, hqueued⟩ := queueErrorDocument_queued hK htells hfields
  have hhead : con.request.httpMethod ≠ .head := by
    rcases hmethod with h | h <;> rw [h] <;> decide
  have hdirect : con.mode ≠ DIRECT ∨ con.request.httpMethod ∈ directMethods := by
    rcases hmethod with h | h <;> rw [h] <;> exact .inr (by decide)
  obtain ⟨con₂, hrun₂, hqueue, hrequest, hlength⟩ := setContentLength_length hK hqueued.fields
    (by rwa [hqueued.owner.request]) (by rwa [hqueued.owner.httpStatus])
  have hdefault : defaultStatus 403 con = con := if_neg (by omega)
  have hchoose : chooseBody stat con = some con₁ := by
    unfold chooseBody
    rw [if_neg (by omega), if_neg, hrun₁]
    rintro (h | h)
    · exact h hmode
    · omega
  refine ⟨con₁, con₂, hqueued, ?_, hqueue, fun v => ?_⟩
  · unfold connectionHandleWritePrepare prepareMethod
    rw [if_pos hdirect]
    simp only [Option.bind_eq_bind, Option.bind_some]
    rw [hdefault, hchoose]
    simp only [Option.bind_some, frameBody, hqueued.finished, if_true, hrun₂, dropBody]
    rw [if_neg (by rwa [hrequest, hqueued.owner.request])]
  · have hopen : con₁.openFraming ↔ con.openFraming := by
      unfold RespondingConnection.openFraming
      rw [hqueued.framing.1, hqueued.framing.2]
    rw [hlength, hqueued.length]
    simp only [hopen]

end Queue

/-! ## Examples -/

/-- A request for a file that is not there, with `queue` left by an earlier handler. -/
def missingRequest (status : Int) (queue : Chunkqueue) : RespondingConnection :=
  { fileRequest with httpStatus := status, writeQueue := queue }

def errorHeaderNames (key : Bytes) : Prop :=
  key = ascii "Content-Type" ++ [0] ∨ key = ascii "Content-Length" ++ [0]

theorem headerNames_error : HeaderNames errorHeaderNames where
  order := by
    constructor
    · rintro x y (rfl | rfl) (rfl | rfl) <;> decide
    · rintro x y z (rfl | rfl) (rfl | rfl) (rfl | rfl) <;> decide
  contentType := .inl rfl
  contentLength := .inr rfl

end Lighttpd
