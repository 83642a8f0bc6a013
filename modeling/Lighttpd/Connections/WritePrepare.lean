import Lighttpd.Staticfile.Subrequest

/-!
# `connections.c`: `connection_handle_write_prepare`

A request that was handled gets its last touches, before the header is written: a status if it has
none, the error document, and the framing of the body. The header itself (`http_response_write_header`)
is left out; it is queued in front of the body. What `stat_cache_get_entry` answers for an error file
is a parameter, and system calls of the queue are left out.
-/

namespace Lighttpd

open CLib

/-! ## Names -/

/-- `http_status` -/
def httpStatusNames : List (Int × String) := [
  (100, "Continue"), (101, "Switching Protocols"), (102, "Processing"), (200, "OK"),
  (201, "Created"), (202, "Accepted"), (203, "Non-Authoritative Information"),
  (204, "No Content"), (205, "Reset Content"), (206, "Partial Content"), (207, "Multi-status"),
  (300, "Multiple Choices"), (301, "Moved Permanently"), (302, "Found"), (303, "See Other"),
  (304, "Not Modified"), (305, "Use Proxy"), (306, "(Unused)"), (307, "Temporary Redirect"),
  (400, "Bad Request"), (401, "Unauthorized"), (402, "Payment Required"), (403, "Forbidden"),
  (404, "Not Found"), (405, "Method Not Allowed"), (406, "Not Acceptable"),
  (407, "Proxy Authentication Required"), (408, "Request Timeout"), (409, "Conflict"),
  (410, "Gone"), (411, "Length Required"), (412, "Precondition Failed"),
  (413, "Request Entity Too Large"), (414, "Request-URI Too Long"),
  (415, "Unsupported Media Type"), (416, "Requested Range Not Satisfiable"),
  (417, "Expectation Failed"), (422, "Unprocessable Entity"), (423, "Locked"),
  (424, "Failed Dependency"), (426, "Upgrade Required"), (500, "Internal Server Error"),
  (501, "Not Implemented"), (502, "Bad Gateway"), (503, "Service Not Available"),
  (504, "Gateway Timeout"), (505, "HTTP Version Not Supported"), (507, "Insufficient Storage")]

def getHttpStatusName (i : Int) : Option Bytes :=
  (httpStatusNames.find? fun e => e.1 == i).map fun e => ascii e.2

def HTTP_STATUS : Nat := 1
def HTTP_CONNECTION : Nat := 2
def HTTP_CONTENT_LENGTH : Nat := 4
def HTTP_DATE : Nat := 8
def HTTP_LOCATION : Nat := 16

/-- `n &= ~flag` -/
def clearFlag (n flag : Nat) : Nat := n ^^^ (n &&& flag)

section Operations

variable [Malloc]

/-! ## The status and the body -/

/-- The body is not chunked, and a length in the header is not the backend's. -/
def RespondingConnection.unframed (con : RespondingConnection) : RespondingConnection :=
  { con with
    transferEncoding := clearFlag con.transferEncoding HTTP_TRANSFER_ENCODING_CHUNKED
    parsedResponse := clearFlag con.parsedResponse HTTP_CONTENT_LENGTH }

def directMethods : List HttpMethod :=
  [.get, .post, .head, .put, .mkcol, .delete, .copy, .move, .propfind, .proppatch, .lock, .unlock]

def prepareMethod (con : RespondingConnection) : Option RespondingConnection :=
  if con.mode ≠ DIRECT ∨ con.request.httpMethod ∈ directMethods then some con
  else if con.request.httpMethod = .options then
    if (con.httpStatus = 0 ∨ con.httpStatus = 200) ∧ con.uriPath.used ≠ 0 ∧
        con.uriPath.ptr.head? ≠ some 42 then do
      let headers ← responseHeaderInsert con.response.headers (ascii "Allow")
        (some (ascii "OPTIONS, GET, HEAD, POST"))
      let con := (setHeaders con headers).unframed
      some { con with
        httpStatus := 200
        fileFinished := true
        writeQueue := (chunkqueueReset con.writeQueue).1 }
    else some con
  else if con.httpStatus = 400 ∨ con.httpStatus = 414 ∨ con.httpStatus = 505 ∨
      con.httpStatus = 207 then some con
  else some { con with httpStatus := 501 }

def errorPage (status : Int) (b : Buffer) : Buffer :=
  let b := bufferCopyStringLen b (some (
    ascii "<?xml version=\"1.0\" encoding=\"iso-8859-1\"?>\n" ++
    ascii "<!DOCTYPE html PUBLIC \"-//W3C//DTD XHTML 1.0 Transitional//EN\"\n" ++
    ascii "         \"http://www.w3.org/TR/xhtml1/DTD/xhtml1-transitional.dtd\">\n" ++
    ascii "<html xmlns=\"http://www.w3.org/1999/xhtml\" xml:lang=\"en\" lang=\"en\">\n" ++
    ascii " <head>\n  <title>"))
  let b := bufferAppendLong b status
  let b := bufferAppendStringLen b (some (ascii " - "))
  let b := bufferAppendString b (getHttpStatusName status)
  let b := bufferAppendStringLen b (some (ascii "</title>\n </head>\n <body>\n  <h1>"))
  let b := bufferAppendLong b status
  let b := bufferAppendStringLen b (some (ascii " - "))
  let b := bufferAppendString b (getHttpStatusName status)
  bufferAppendStringLen b (some (ascii "</h1>\n </body>\n</html>\n"))

def queueErrorPage (con : RespondingConnection) : Option RespondingConnection := do
  let headers ← responseHeaderOverwrite con.response.headers (ascii "Content-Type")
    (some (ascii "text/html"))
  some { setHeaders con headers with
    fileFinished := true
    physicalPath := bufferReset con.physicalPath
    writeQueue := (chunkqueueGetAppendBuffer con.writeQueue).mapLastMem (errorPage con.httpStatus) }

def errorfile (con : RespondingConnection) : Buffer :=
  let path := bufferCopyStringBuffer (bufferReset con.physicalPath) con.errorfilePrefix
  bufferAppendStringLen (bufferAppendLong path con.httpStatus) (some (ascii ".html"))

variable (stat : Buffer → Option StatCacheEntry)

def queueErrorDocument (con : RespondingConnection) : Option RespondingConnection :=
  let con := { con with fileFinished := false }
  if bufferIsEmpty con.errorfilePrefix then queueErrorPage con
  else
    let con := { con with physicalPath := errorfile con }
    match stat con.physicalPath with
    | some sce => do
      let con := con.appendFile con.physicalPath 0 sce.st.stSize
      let headers ← responseHeaderOverwrite con.response.headers (ascii "Content-Type")
        sce.contentType.constBufLen
      some { setHeaders con headers with fileFinished := true }
    | none => queueErrorPage con

def chooseBody (con : RespondingConnection) : Option RespondingConnection :=
  if con.httpStatus = 204 ∨ con.httpStatus = 205 ∨ con.httpStatus = 304 then
    some { con.unframed with
      writeQueue := (chunkqueueReset con.writeQueue).1
      fileFinished := true }
  else if con.mode ≠ DIRECT ∨ con.httpStatus < 400 ∨ con.httpStatus ≥ 600 then some con
  else queueErrorDocument stat con

/-! ## The framing -/

def RespondingConnection.openFraming (con : RespondingConnection) : Prop :=
  con.parsedResponse &&& HTTP_CONTENT_LENGTH = 0 ∧
    con.transferEncoding &&& HTTP_TRANSFER_ENCODING_CHUNKED = 0

instance (con : RespondingConnection) : Decidable con.openFraming :=
  inferInstanceAs (Decidable (_ ∧ _))

def setContentLength (con : RespondingConnection) : Option RespondingConnection :=
  if con.openFraming then
    let qlen := chunkqueueLength con.writeQueue
    if (100 ≤ con.httpStatus ∧ con.httpStatus < 200) ∨ con.httpStatus = 204 ∨
        con.httpStatus = 304 then do
      match ← arrayGetElement con.response.headers (ascii "Content-Length") with
      | some (ndx, ds) => some (setHeaders con
          (con.response.headers.setElement ndx { ds with value := bufferReset ds.value }))
      | none => some con
    else if qlen > 0 ∨ con.request.httpMethod ≠ .head then do
      let tmpBuf := bufferCopyOffT con.tmpBuf qlen
      let headers ← responseHeaderOverwrite con.response.headers (ascii "Content-Length")
        tmpBuf.constBufLen
      some { setHeaders con headers with tmpBuf := tmpBuf }
    else some con
  else some con

/-- Whether a connection can be kept whose body is still to come. -/
def decideKeepAlive (con : RespondingConnection) : RespondingConnection :=
  let con := if con.openFraming then { con with keepAlive := false } else con
  if con.parsedResponse &&& HTTP_CONNECTION ≠ 0 ∧ con.keepAlive = true ∧
      con.response.keepAlive = false then { con with keepAlive := false } else con

def frameBody (con : RespondingConnection) : Option RespondingConnection :=
  if con.fileFinished then setContentLength con else some (decideKeepAlive con)

/-- A `HEAD` request gets the header alone. -/
def dropBody (con : RespondingConnection) : RespondingConnection :=
  if con.request.httpMethod = .head then
    { con with
      fileFinished := true
      writeQueue := (chunkqueueReset con.writeQueue).1
      transferEncoding := clearFlag con.transferEncoding HTTP_TRANSFER_ENCODING_CHUNKED }
  else con

def defaultStatus (status : Int) (con : RespondingConnection) : RespondingConnection :=
  if con.httpStatus = 0 then { con with httpStatus := status } else con

def connectionHandleWritePrepare (con : RespondingConnection) : Option RespondingConnection := do
  let con ← prepareMethod con
  let con ← chooseBody stat (defaultStatus 403 con)
  let con ← frameBody con
  some (dropBody con)

end Operations

/-! ## Behind `http_response_prepare` -/

/-- `conf.error_handler` and `con->error_handler`; and once the error handler was called,
`error_handler_saved_status`. -/
structure ErrorHandler where
  conf : Buffer
  own : Buffer
  saved : Option { status : Int // status = 403 ∨ status = 404 }

/-- `CON_STATE_HANDLE_REQUEST` for `HANDLER_FINISHED`: the connection as it is in
`CON_STATE_RESPONSE_START`, or nothing if the error handler is to handle the request again. -/
def requestFinished (e : ErrorHandler) (con : RespondingConnection) : Option RespondingConnection :=
  if con.mode = DIRECT ∧ (con.httpStatus = 404 ∨ con.httpStatus = 403) then
    match e.saved with
    | none => if bufferIsEmpty e.conf ∧ bufferIsEmpty e.own then some con else none
    | some status => some { con with httpStatus := status }
  else some (defaultStatus 200 con)

section Finished

variable [Malloc] {stat : Buffer → Option StatCacheEntry} {con con' : RespondingConnection}

/-- A step that changes neither the request, its owner nor its status. -/
structure SameOwner (con con' : RespondingConnection) : Prop where
  request : con'.request = con.request
  mode : con'.mode = con.mode
  httpStatus : con'.httpStatus = con.httpStatus

omit [Malloc] in
theorem SameOwner.refl (con : RespondingConnection) : SameOwner con con := ⟨rfl, rfl, rfl⟩

theorem queueErrorPage_finished (h : queueErrorPage con = some con') :
    SameOwner con con' ∧ con'.fileFinished = true := by
  unfold queueErrorPage at h
  simp only [Option.bind_eq_bind, Option.bind_eq_some_iff] at h
  obtain ⟨headers, -, h⟩ := h
  obtain rfl := Option.some.inj h
  exact ⟨⟨rfl, rfl, rfl⟩, rfl⟩

theorem queueErrorDocument_finished (h : queueErrorDocument stat con = some con') :
    SameOwner con con' ∧ con'.fileFinished = true := by
  unfold queueErrorDocument at h
  dsimp only at h
  split at h
  · obtain ⟨hsame, hfinished⟩ := queueErrorPage_finished h
    exact ⟨⟨hsame.request, hsame.mode, hsame.httpStatus⟩, hfinished⟩
  split at h
  · simp only [Option.bind_eq_bind, Option.bind_eq_some_iff] at h
    obtain ⟨headers, -, h⟩ := h
    obtain rfl := Option.some.inj h
    exact ⟨⟨rfl, rfl, rfl⟩, rfl⟩
  · obtain ⟨hsame, hfinished⟩ := queueErrorPage_finished h
    exact ⟨⟨hsame.request, hsame.mode, hsame.httpStatus⟩, hfinished⟩

/-- The status goes without a body, or with an error document. -/
def BodyChosen (con : RespondingConnection) : Prop :=
  con.httpStatus = 204 ∨ con.httpStatus = 205 ∨ con.httpStatus = 304 ∨
    con.mode = DIRECT ∧ 400 ≤ con.httpStatus ∧ con.httpStatus < 600

theorem chooseBody_finished (h : chooseBody stat con = some con') :
    SameOwner con con' ∧
      (con'.fileFinished = true ↔ con.fileFinished = true ∨ BodyChosen con) := by
  unfold chooseBody at h
  split at h
  · next hstatus =>
    obtain rfl := Option.some.inj h
    refine ⟨⟨rfl, rfl, rfl⟩, iff_of_true rfl (Or.inr ?_)⟩
    unfold BodyChosen
    tauto
  next hstatus =>
  split at h
  · next hother =>
    obtain rfl := Option.some.inj h
    refine ⟨.refl con, (or_iff_left ?_).symm⟩
    rintro (h204 | h205 | h304 | ⟨hmode, hlow, hhigh⟩)
    · exact hstatus (Or.inl h204)
    · exact hstatus (Or.inr (Or.inl h205))
    · exact hstatus (Or.inr (Or.inr h304))
    · rcases hother with hne | hlt | hge
      · exact hne hmode
      · omega
      · omega
  · next hother =>
    obtain ⟨hsame, hfinished⟩ := queueErrorDocument_finished h
    refine ⟨hsame, iff_of_true hfinished (Or.inr (Or.inr (Or.inr (Or.inr ?_))))⟩
    have hmode : con.mode = DIRECT := by
      by_contra hne
      exact hother (Or.inl hne)
    exact ⟨hmode, by omega, by omega⟩

theorem setContentLength_same (h : setContentLength con = some con') :
    SameOwner con con' ∧ con'.fileFinished = con.fileFinished := by
  unfold setContentLength at h
  dsimp only at h
  split at h
  · split at h
    · simp only [Option.bind_eq_bind, Option.bind_eq_some_iff] at h
      obtain ⟨found, -, h⟩ := h
      cases found with
      | none =>
        obtain rfl := Option.some.inj h
        exact ⟨.refl con, rfl⟩
      | some ds =>
        obtain rfl := Option.some.inj h
        exact ⟨⟨rfl, rfl, rfl⟩, rfl⟩
    split at h
    · simp only [Option.bind_eq_bind, Option.bind_eq_some_iff] at h
      obtain ⟨headers, -, h⟩ := h
      obtain rfl := Option.some.inj h
      exact ⟨⟨rfl, rfl, rfl⟩, rfl⟩
    · obtain rfl := Option.some.inj h
      exact ⟨.refl con, rfl⟩
  · obtain rfl := Option.some.inj h
    exact ⟨.refl con, rfl⟩

omit [Malloc] in
theorem decideKeepAlive_same (con : RespondingConnection) :
    SameOwner con (decideKeepAlive con) ∧ (decideKeepAlive con).fileFinished = con.fileFinished := by
  unfold decideKeepAlive
  dsimp only
  split <;> split <;> exact ⟨⟨rfl, rfl, rfl⟩, rfl⟩

theorem frameBody_same (h : frameBody con = some con') :
    SameOwner con con' ∧ con'.fileFinished = con.fileFinished := by
  unfold frameBody at h
  split at h
  · exact setContentLength_same h
  · obtain rfl := Option.some.inj h
    exact decideKeepAlive_same con

omit [Malloc] in
theorem defaultStatus_owner (status : Int) (con : RespondingConnection) :
    (defaultStatus status con).request = con.request ∧ (defaultStatus status con).mode = con.mode ∧
      (defaultStatus status con).fileFinished = con.fileFinished := by
  unfold defaultStatus
  split <;> exact ⟨rfl, rfl, rfl⟩

theorem connectionHandleWritePrepare_finished
    (hmethod : con.mode ≠ DIRECT ∨ con.request.httpMethod ∈ directMethods)
    (h : connectionHandleWritePrepare stat con = some con') :
    con'.mode = con.mode ∧ con'.httpStatus = (defaultStatus 403 con).httpStatus ∧
      (con'.fileFinished = true ↔ con.fileFinished = true ∨ con.request.httpMethod = .head ∨
        BodyChosen (defaultStatus 403 con)) := by
  unfold connectionHandleWritePrepare prepareMethod at h
  rw [if_pos hmethod] at h
  simp only [Option.bind_eq_bind, Option.bind_some, Option.bind_eq_some_iff] at h
  obtain ⟨con₁, hchoose, con₂, hframe, h⟩ := h
  obtain rfl := Option.some.inj h
  obtain ⟨hown₁, hfinished⟩ := chooseBody_finished hchoose
  obtain ⟨hown₂, hframed⟩ := frameBody_same hframe
  obtain ⟨hrequest, hmode, hunfinished⟩ := defaultStatus_owner 403 con
  rw [hunfinished] at hfinished
  have hhead : con₂.request.httpMethod = con.request.httpMethod := by
    rw [hown₂.request, hown₁.request, hrequest]
  have hsame : con₂.mode = con.mode := by
    rw [hown₂.mode, hown₁.mode, hmode]
  have hstatus : con₂.httpStatus = (defaultStatus 403 con).httpStatus := by
    rw [hown₂.httpStatus, hown₁.httpStatus]
  unfold dropBody
  split
  · next hdrop =>
    exact ⟨hsame, hstatus, iff_of_true rfl (Or.inr (Or.inl (hhead ▸ hdrop)))⟩
  · next hkeep =>
    refine ⟨hsame, hstatus, ?_⟩
    rw [hframed, hfinished]
    rw [hhead] at hkeep
    tauto

theorem connectionHandleWritePrepare_keeps
    (h : connectionHandleWritePrepare stat con = some con') (hfinished : con.fileFinished = true) :
    con'.fileFinished = true := by
  unfold connectionHandleWritePrepare at h
  simp only [Option.bind_eq_bind, Option.bind_eq_some_iff] at h
  obtain ⟨con₁, hmethod, con₂, hchoose, con₃, hframe, h⟩ := h
  have hchecked : con₁.fileFinished = true := by
    unfold prepareMethod at hmethod
    split at hmethod
    · obtain rfl := Option.some.inj hmethod
      exact hfinished
    split at hmethod
    · split at hmethod
      · simp only [Option.bind_eq_bind, Option.bind_eq_some_iff] at hmethod
        obtain ⟨headers, -, hmethod⟩ := hmethod
        obtain rfl := Option.some.inj hmethod
        rfl
      · obtain rfl := Option.some.inj hmethod
        exact hfinished
    split at hmethod
    · obtain rfl := Option.some.inj hmethod
      exact hfinished
    · obtain rfl := Option.some.inj hmethod
      exact hfinished
  have hchosen : con₂.fileFinished = true := by
    apply (chooseBody_finished hchoose).2.mpr
    rw [(defaultStatus_owner 403 con₁).2.2]
    exact Or.inl hchecked
  have hframed : con₃.fileFinished = true := (frameBody_same hframe).2.trans hchosen
  obtain rfl := Option.some.inj h
  unfold dropBody
  split
  · rfl
  · exact hframed

/-! ## From `http_response_prepare` to the body -/

omit [Malloc] in
theorem requestFinished_owner {e : ErrorHandler} (h : requestFinished e con = some con') :
    con'.request = con.request ∧ con'.mode = con.mode ∧ con'.fileFinished = con.fileFinished ∧
      con'.httpStatus ≠ 0 ∧ (BodyChosen con' ↔ BodyChosen con) := by
  unfold requestFinished at h
  split at h
  · next herror =>
    obtain ⟨hmode, hstatus⟩ := herror
    have hchosen : BodyChosen con :=
      Or.inr (Or.inr (Or.inr ⟨hmode, by omega, by omega⟩))
    split at h
    · split at h
      · obtain rfl := Option.some.inj h
        exact ⟨rfl, rfl, rfl, by omega, Iff.rfl⟩
      · nomatch h
    · next status _ =>
      obtain rfl := Option.some.inj h
      have hsaved := status.property
      refine ⟨rfl, rfl, rfl, ?_, iff_of_true ?_ hchosen⟩
      · show (status : Int) ≠ 0
        omega
      · refine Or.inr (Or.inr (Or.inr ⟨hmode, ?_, ?_⟩))
        · show (400 : Int) ≤ status
          omega
        · show (status : Int) < 600
          omega
  · obtain rfl := Option.some.inj h
    unfold defaultStatus
    split
    · next hzero =>
      refine ⟨rfl, rfl, rfl, (by decide : (200 : Int) ≠ 0), ?_⟩
      simp [BodyChosen, hzero]
    · next hset => exact ⟨rfl, rfl, rfl, hset, Iff.rfl⟩

/-- What is sent is the whole answer: the body is complete, or there is an error document. -/
def CompleteResponse (con : RespondingConnection) : Prop :=
  con.fileFinished = true ∨ con.mode = DIRECT ∧ 400 ≤ con.httpStatus ∧ con.httpStatus < 600

theorem completeResponse_iff {e : ErrorHandler} {con₁ con₂ : RespondingConnection}
    (hready : con.mode ≠ DIRECT ∨ con.request.httpMethod ∈ directMethods ∨ con.fileFinished = true)
    (hresponse : requestFinished e con = some con₁)
    (hwrite : connectionHandleWritePrepare stat con₁ = some con₂) :
    CompleteResponse con₂ ↔
      con.fileFinished = true ∨ con.request.httpMethod = .head ∨ BodyChosen con := by
  obtain ⟨hrequest, hmode, hfinished, hstatus, hchosen⟩ := requestFinished_owner hresponse
  by_cases hdone : con.fileFinished = true
  · rw [← hfinished] at hdone
    exact iff_of_true (Or.inl (connectionHandleWritePrepare_keeps hwrite hdone))
      (Or.inl (hfinished ▸ hdone))
  have hmethod : con₁.mode ≠ DIRECT ∨ con₁.request.httpMethod ∈ directMethods := by
    rw [hmode, hrequest]
    tauto
  obtain ⟨hmode₂, hstatus₂, hfinished₂⟩ := connectionHandleWritePrepare_finished hmethod hwrite
  have hdefault : defaultStatus 403 con₁ = con₁ := by
    unfold defaultStatus
    rw [if_neg hstatus]
  rw [hdefault, hfinished, hrequest, hchosen] at hfinished₂
  rw [hdefault] at hstatus₂
  unfold CompleteResponse
  rw [hfinished₂]
  refine or_iff_left_of_imp ?_
  rw [hmode₂, hstatus₂]
  intro herror
  exact Or.inr (Or.inr (hchosen.mp (Or.inr (Or.inr (Or.inr herror)))))

end Finished

end Lighttpd
