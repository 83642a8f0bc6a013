import Lighttpd.Base
import Lighttpd.Connections.WritePrepare
import Lighttpd.QueueContent

/-!
# `mod_webdav.c`: what `DELETE` reports

`Plugins.Webdav` has what `webdav_delete_dir` does to the files; this is what it says about it. The
buffer for the multistatus loses its content with each failure (`webdav_gen_response_status_tag`
copies the status line over it), and the result is that of the last entry. So the report is right
only when there is nothing to report (`deleteReports_iff`).
-/

namespace Lighttpd.WebdavDelete

open CLib

/-! ## The code -/

/-- The values of `errno` that are told apart. -/
inductive DavErrno where
  | eacces
  | eperm
  | enoent
  | other
  deriving DecidableEq, Repr

/-- The entries of a directory in the order of `readdir`, each with the answers of the system calls
for the path that it has. -/
inductive DirEntries where
  | done
  /-- `.` or `..` -/
  | dots (rest : DirEntries)
  /-- `stat` fails. -/
  | unseen (name : Bytes) (rest : DirEntries)
  | file (name : Bytes) (unlink : Option DavErrno) (rest : DirEntries)
  | dir (name : Bytes) (opendir : Bool) (inside : DirEntries) (rmdir : Option DavErrno)
      (rest : DirEntries)
  deriving DecidableEq, Repr

/-- `physical` -/
structure Physical where
  path : Buffer
  relPath : Buffer

/-- The status for a failed `unlink` or `rmdir`. -/
def failureStatus : DavErrno → Int
  | .eacces | .eperm => 403
  | .enoent | .other => 501

section Code

variable [Malloc]

def webdavGenResponseStatusTag (version : HttpVersion) (dst : Physical) (status : Int)
    (b : Buffer) : Buffer :=
  let b := bufferAppendStringLen b (some (ascii
    "<D:response xmlns:ns0=\"urn:uuid:c2f41010-65b3-11d1-a29f-00aa00c14882/\">\n"))
  let b := bufferAppendStringLen b (some (ascii "<D:href>\n"))
  let b := bufferAppendStringBuffer b dst.relPath
  let b := bufferAppendStringLen b (some (ascii "</D:href>\n"))
  let b := bufferAppendStringLen b (some (ascii "<D:status>\n"))
  let b :=
    if version = .v11 then bufferCopyStringLen b (some (ascii "HTTP/1.1 "))
    else bufferCopyStringLen b (some (ascii "HTTP/1.0 "))
  let b := bufferAppendLong b status
  let b := bufferAppendStringLen b (some (ascii " "))
  let b := bufferAppendString b (getHttpStatusName status)
  let b := bufferAppendStringLen b (some (ascii "</D:status>\n"))
  bufferAppendStringLen b (some (ascii "</D:response>\n"))

/-- Without `USE_PROPPATCH`, as the module is built. -/
def webdavDeleteFile (version : HttpVersion) (unlink : Option DavErrno) (dst : Physical)
    (b : Buffer) : Bool × Buffer :=
  match unlink with
  | some e => (true, webdavGenResponseStatusTag version dst (failureStatus e) b)
  | none => (false, b)

/-- `d` for the entry `name` of `dst`. -/
def entryPath (dst d : Physical) (name : Bytes) : Physical where
  path :=
    let path := bufferAppendSlash (bufferCopyStringBuffer d.path dst.path)
    bufferAppendString path (some name)
  relPath :=
    let relPath := bufferAppendSlash (bufferCopyStringBuffer d.relPath dst.relPath)
    bufferAppendString relPath (some name)

/-- The loop of `webdav_delete_dir`, with `d` and `have_multi_status`. -/
def deleteLoop (version : HttpVersion) : DirEntries → Physical → Physical → Bool → Buffer →
    Bool × Buffer
  | .done, _, _, haveMultiStatus, b => (haveMultiStatus, b)
  | .dots rest, dst, d, haveMultiStatus, b => deleteLoop version rest dst d haveMultiStatus b
  -- rmdir is left to fail
  | .unseen name rest, dst, d, haveMultiStatus, b =>
    deleteLoop version rest dst (entryPath dst d name) haveMultiStatus b
  | .file name unlink rest, dst, d, _, b =>
    let d := entryPath dst d name
    let (haveMultiStatus, b) := webdavDeleteFile version unlink d b
    deleteLoop version rest dst d haveMultiStatus b
  | .dir name opendir inside rmdir rest, dst, d, _, b =>
    let d := entryPath dst d name
    let (haveMultiStatus, b) :=
      if opendir then deleteLoop version inside d ⟨bufferInit, bufferInit⟩ false b else (false, b)
    match rmdir with
    | some e =>
      deleteLoop version rest dst d true (webdavGenResponseStatusTag version d (failureStatus e) b)
    | none => deleteLoop version rest dst d haveMultiStatus b

def webdavDeleteDir (version : HttpVersion) (opendir : Bool) (entries : DirEntries)
    (dst : Physical) (b : Buffer) : Bool × Buffer :=
  if opendir then deleteLoop version entries dst ⟨bufferInit, bufferInit⟩ false b else (false, b)

/-- The body of the answer, in the buffer `b`. -/
def multiStatusBody (multiStatusResp b : Buffer) : Buffer :=
  let b := bufferCopyStringLen b (some (ascii "<?xml version=\"1.0\" encoding=\"utf-8\"?>\n"))
  let b := bufferAppendStringLen b (some (ascii "<D:multistatus xmlns:D=\"DAV:\">\n"))
  let b := bufferAppendStringBuffer b multiStatusResp
  bufferAppendStringLen b (some (ascii "</D:multistatus>\n"))

/-- What the system says about `physical.path`. -/
structure DeleteAnswers where
  stat : Except DavErrno Bool
  opendir : Bool
  entries : DirEntries
  rmdir : Option DavErrno
  unlink : Option DavErrno

/-- `HTTP_METHOD_DELETE` in `mod_webdav_subrequest_handler`, from the `stat` on; it returns
`HANDLER_FINISHED` in each case. `stat` says whether the path is a directory. -/
def webdavDelete (con : Connection) (physical : Physical) (sys : DeleteAnswers) :
    Option Connection :=
  match sys.stat with
  | .error e => some { con with httpStatus := if e = .enoent then 404 else 403 }
  | .ok true =>
    let (failed, multiStatusResp) :=
      webdavDeleteDir con.request.httpVersion sys.opendir sys.entries physical bufferInit
    if failed then do
      let headers ← responseHeaderOverwrite con.response.headers (ascii "Content-Type")
        (some (ascii "text/xml; charset=\"utf-8\""))
      some { con with
        response := { con.response with headers := headers }
        writeQueue := (chunkqueueGetAppendBuffer con.writeQueue).mapLastMem
          (multiStatusBody multiStatusResp)
        httpStatus := 207, fileFinished := true }
    else
      match sys.rmdir with
      | some e => some { con with httpStatus := if e = .enoent then 404 else 501 }
      | none => some { con with httpStatus := 204 }
  | .ok false =>
    match sys.unlink with
    | some e =>
      some { con with
        httpStatus := if e = .eperm then 403 else if e = .enoent then 404 else 501 }
    | none => some { con with httpStatus := 204 }

end Code

/-! ## What is to be reported -/

def pathBelow (dir name : Bytes) : Bytes :=
  if dir ≠ [] ∧ dir.getLast? ≠ some 47 then dir ++ [47] ++ name else dir ++ name

/-- The paths of the entries that are not removed, in the order in which that turns out; where a
directory is not opened, nothing below it is `tried`. -/
def DirEntries.left (dir : Bytes) (tried : Bool) : DirEntries → List Bytes
  | .done => []
  | .dots rest => rest.left dir tried
  | .unseen name rest => pathBelow dir name :: rest.left dir tried
  | .file name unlink rest =>
    (if tried = false ∨ unlink.isSome then [pathBelow dir name] else []) ++ rest.left dir tried
  | .dir name opendir inside rmdir rest =>
    inside.left (pathBelow dir name) (tried && opendir) ++
      (if tried = false ∨ rmdir.isSome then [pathBelow dir name] else []) ++ rest.left dir tried

def statusTail (version : HttpVersion) (status : Int) : Bytes :=
  (if version = .v11 then ascii "HTTP/1.1 " else ascii "HTTP/1.0 ") ++ decimal status ++
    ascii " " ++ (getHttpStatusName status).getD [] ++ ascii "</D:status>\n" ++
      ascii "</D:response>\n"

def elementStart : Bytes :=
  ascii "<D:response xmlns:ns0=\"urn:uuid:c2f41010-65b3-11d1-a29f-00aa00c14882/\">\n"

def responseElement (version : HttpVersion) (href : Bytes) (status : Int) : Bytes :=
  elementStart ++ (ascii "<D:href>\n" ++ href ++ ascii "</D:href>\n" ++ ascii "<D:status>\n" ++
    statusTail version status)

/-- The text has one complete element for each of the paths, in their order. -/
def Reports (version : HttpVersion) (left : List Bytes) (text : Bytes) : Prop :=
  ∃ elements, List.Forall₂ (fun href element => ∃ status,
    element = responseElement version href status) left elements ∧ text = elements.flatten

section Buffers

variable [Malloc] {version : HttpVersion} {entries : DirEntries} {dst d : Physical} {b : Buffer}
  {rel : Bytes} {flag opendir : Bool}

theorem text_webdavGenResponseStatusTag (version : HttpVersion) (dst : Physical) (status : Int)
    (b : Buffer) :
    (webdavGenResponseStatusTag version dst status b).Text (statusTail version status) := by
  unfold webdavGenResponseStatusTag statusTail
  dsimp only
  generalize bufferAppendStringLen _ (some (ascii "<D:status>\n")) = before
  have hline : (if version = .v11 then bufferCopyStringLen before (some (ascii "HTTP/1.1 "))
      else bufferCopyStringLen before (some (ascii "HTTP/1.0 "))).Text
        (if version = .v11 then ascii "HTTP/1.1 " else ascii "HTTP/1.0 ") := by
    split
    · exact text_bufferCopyStringLen _ _
    · exact text_bufferCopyStringLen _ _
  have hstatus := text_bufferAppendStringLen (text_bufferAppendLong hline status) (ascii " ")
  have hname : ∀ {b : Buffer} {t : Bytes}, b.Text t →
      (bufferAppendString b (getHttpStatusName status)).Text
        (t ++ (getHttpStatusName status).getD []) := by
    intro b t h
    cases getHttpStatusName status with
    | none => exact (List.append_nil t).symm ▸ h
    | some name => exact (text_bufferAppendString h name).1
  exact text_bufferAppendStringLen (text_bufferAppendStringLen (hname hstatus) _) _

/-- The buffer is as before, or holds the end of the element of some failure. -/
def OnlyTail (version : HttpVersion) (b b' : Buffer) : Prop :=
  b' = b ∨ ∃ e, b'.Text (statusTail version (failureStatus e))

omit [Malloc] in
theorem OnlyTail.trans {b₁ b₂ b₃ : Buffer} (h : OnlyTail version b₁ b₂)
    (h' : OnlyTail version b₂ b₃) : OnlyTail version b₁ b₃ := by
  rcases h' with rfl | htail
  · exact h
  · exact .inr htail

theorem deleteLoop_onlyTail (version : HttpVersion) (entries : DirEntries) (dst d : Physical)
    (flag : Bool) (b : Buffer) :
    OnlyTail version b (deleteLoop version entries dst d flag b).2 := by
  induction entries generalizing dst d flag b with
  | done => exact .inl rfl
  | dots rest ih => exact ih dst d flag b
  | unseen name rest ih => exact ih dst _ flag b
  | file name unlink rest ih =>
    refine OnlyTail.trans ?_ (ih dst _ _ _)
    cases unlink with
    | none => exact .inl rfl
    | some e => exact .inr ⟨e, text_webdavGenResponseStatusTag version _ _ b⟩
  | dir name opendir inside rmdir rest ihInside ih =>
    have hinside : OnlyTail version b (if opendir then
        deleteLoop version inside (entryPath dst d name) ⟨bufferInit, bufferInit⟩ false b
        else (false, b)).2 := by
      split
      · exact ihInside _ _ _ b
      · exact .inl rfl
    cases rmdir with
    | none => exact hinside.trans (ih dst _ _ _)
    | some e =>
      exact OnlyTail.trans (.inr ⟨e, text_webdavGenResponseStatusTag version _ _ _⟩)
        (ih dst _ _ _)

theorem deleteLoop_of_left (h : entries.left rel true = []) (dst d : Physical) (b : Buffer) :
    deleteLoop version entries dst d false b = (false, b) := by
  induction entries generalizing rel dst d with
  | done => rfl
  | dots rest ih => exact ih h dst d
  | unseen name rest ih => cases h
  | file name unlink rest ih =>
    obtain ⟨hentry, hrest⟩ := List.append_eq_nil_iff.mp h
    cases unlink with
    | none => exact ih hrest dst _
    | some e => cases hentry
  | dir name opendir inside rmdir rest ihInside ih =>
    obtain ⟨hentries, hrest⟩ := List.append_eq_nil_iff.mp h
    obtain ⟨hinside, hentry⟩ := List.append_eq_nil_iff.mp hentries
    cases rmdir with
    | some e => cases hentry
    | none =>
      rw [Bool.true_and] at hinside
      unfold deleteLoop
      cases opendir with
      | false => exact ih hrest dst _
      | true =>
        dsimp only
        rw [if_pos rfl, ihInside hinside]
        exact ih hrest dst _

omit [Malloc] in
theorem length_elementStart : elementStart.length = 72 := by decide +kernel

omit [Malloc] in
theorem length_statusTail_lt (version : HttpVersion) (e : DavErrno) :
    (statusTail version (failureStatus e)).length < elementStart.length := by
  have hline : (if version = .v11 then ascii "HTTP/1.1 " else ascii "HTTP/1.0 ").length = 9 := by
    split <;> rfl
  have hrest : ∀ status : Int, status = 403 ∨ status = 501 → (decimal status ++ ascii " " ++
      (getHttpStatusName status).getD [] ++ ascii "</D:status>\n" ++
        ascii "</D:response>\n").length ≤ 45 := by
    rintro status (rfl | rfl) <;> decide +kernel
  have hstatus : failureStatus e = 403 ∨ failureStatus e = 501 := by
    cases e with
    | eacces | eperm => exact .inl rfl
    | enoent | other => exact .inr rfl
  have hlen := hrest _ hstatus
  rw [length_elementStart, statusTail]
  simp only [List.length_append] at hlen ⊢
  omega

omit [Malloc] in
theorem length_of_reports {left : List Bytes} {text : Bytes} (h : Reports version left text)
    (hne : left ≠ []) : elementStart.length ≤ text.length := by
  obtain ⟨elements, hall, rfl⟩ := h
  cases hall with
  | nil => exact absurd rfl hne
  | @cons href element left elements hfirst hrest =>
    obtain ⟨status, rfl⟩ := hfirst
    rw [List.flatten_cons, List.length_append, responseElement, List.length_append, Nat.add_assoc]
    exact Nat.le_add_right _ _

theorem not_reports {left : List Bytes} {old text : Bytes} (hold : b.Shows old)
    (h : Reports version left text) (hne : left ≠ []) :
    ¬ (webdavDeleteDir version opendir entries dst b).2.Shows (old ++ text) := by
  intro hshows
  have hlong := length_of_reports h hne
  have htail : OnlyTail version b (webdavDeleteDir version opendir entries dst b).2 := by
    unfold webdavDeleteDir
    split
    · exact deleteLoop_onlyTail version entries dst _ false b
    · exact .inl rfl
  rcases htail with heq | ⟨e, htext⟩
  · rw [heq] at hshows
    have hnil : text = [] := List.append_right_eq_self.mp (hshows.unique hold)
    rw [hnil, length_elementStart] at hlong
    exact absurd hlong (by decide)
  · have hshort := length_statusTail_lt version e
    rw [Buffer.Shows.unique (.inl htext) hshows, List.length_append] at hshort
    omega

end Buffers

section Reported

variable [Malloc] {version : HttpVersion} {entries : DirEntries} {dst : Physical} {b : Buffer}
  {rel old : Bytes} {opendir : Bool}

/-- The result says whether something is left, and the buffer has a complete element for each entry
that is. `rel` is `dst->rel_path`. -/
structure DeleteReports (version : HttpVersion) (opendir : Bool) (entries : DirEntries)
    (dst : Physical) (rel : Bytes) (b : Buffer) (old : Bytes) : Prop where
  result : (webdavDeleteDir version opendir entries dst b).1 = true ↔ entries.left rel opendir ≠ []
  buffer : ∃ text, Reports version (entries.left rel opendir) text ∧
    (webdavDeleteDir version opendir entries dst b).2.Shows (old ++ text)

theorem webdavDeleteDir_of_left (h : entries.left rel opendir = []) (dst : Physical) (b : Buffer) :
    webdavDeleteDir version opendir entries dst b = (false, b) := by
  unfold webdavDeleteDir
  cases opendir with
  | false => rfl
  | true => exact deleteLoop_of_left h dst _ b

theorem deleteReports_iff_left (hold : b.Shows old) :
    DeleteReports version opendir entries dst rel b old ↔ entries.left rel opendir = [] := by
  constructor
  · intro h
    obtain ⟨text, hreports, hshows⟩ := h.buffer
    by_contra hne
    exact not_reports hold hreports hne hshows
  · intro hnil
    have hrun : webdavDeleteDir version opendir entries dst b = (false, b) :=
      webdavDeleteDir_of_left hnil dst b
    refine ⟨?_, [], ?_, ?_⟩
    · rw [hrun, hnil]
      exact ⟨nofun, fun h => absurd rfl h⟩
    · rw [hnil]
      exact ⟨[], .nil, rfl⟩
    · rw [hrun, List.append_nil]
      exact hold

/-- The answer to `DELETE` for a directory: 207 with an element for each entry that is left, if
there are any. -/
structure ReportsLeft (con con' : Connection) (left : List Bytes) : Prop where
  status : con'.httpStatus = 207 ↔ left ≠ []
  body : left ≠ [] → ∃ text c, Reports con.request.httpVersion left text ∧
    con'.writeQueue.first.getLast? = some c ∧
    c.mem.Text (ascii "<?xml version=\"1.0\" encoding=\"utf-8\"?>\n" ++
      ascii "<D:multistatus xmlns:D=\"DAV:\">\n" ++ text ++ ascii "</D:multistatus>\n")

variable {con con' : Connection} {physical : Physical} {sys : DeleteAnswers}

theorem text_multiStatusBody {multiStatusResp : Buffer} {multi : Bytes}
    (h : multiStatusResp.Shows multi) (b : Buffer) : (multiStatusBody multiStatusResp b).Text
      (ascii "<?xml version=\"1.0\" encoding=\"utf-8\"?>\n" ++
        ascii "<D:multistatus xmlns:D=\"DAV:\">\n" ++ multi ++ ascii "</D:multistatus>\n") := by
  have hstart := text_bufferAppendStringLen (text_bufferCopyStringLen b
    (ascii "<?xml version=\"1.0\" encoding=\"utf-8\"?>\n"))
    (ascii "<D:multistatus xmlns:D=\"DAV:\">\n")
  have hbody := text_bufferAppendStringBuffer_take hstart multiStatusResp
  rw [h.take] at hbody
  exact text_bufferAppendStringLen hbody (ascii "</D:multistatus>\n")

theorem webdavDelete_failed (hdir : sys.stat = .ok true)
    (h : webdavDelete con physical sys = some con') (hstatus : con'.httpStatus = 207) :
    ∃ multi c, (webdavDeleteDir con.request.httpVersion sys.opendir sys.entries physical
        bufferInit).2.Shows multi ∧
      con'.writeQueue.first.getLast? = some c ∧
      c.mem.Text (ascii "<?xml version=\"1.0\" encoding=\"utf-8\"?>\n" ++
        ascii "<D:multistatus xmlns:D=\"DAV:\">\n" ++ multi ++ ascii "</D:multistatus>\n") := by
  unfold webdavDelete at h
  rw [hdir] at h
  dsimp only at h
  have htail : OnlyTail con.request.httpVersion bufferInit (webdavDeleteDir
      con.request.httpVersion sys.opendir sys.entries physical bufferInit).2 := by
    unfold webdavDeleteDir
    split
    · exact deleteLoop_onlyTail _ _ _ _ false _
    · exact .inl rfl
  generalize webdavDeleteDir con.request.httpVersion sys.opendir sys.entries physical bufferInit =
    result at h htail
  obtain ⟨failed, multiStatusResp⟩ := result
  obtain ⟨multi, hmulti⟩ : ∃ multi, multiStatusResp.Shows multi := by
    rcases htail with heq | ⟨e, htext⟩
    · exact ⟨[], .inr ⟨congrArg Buffer.used heq, rfl⟩⟩
    · exact ⟨_, .inl htext⟩
  dsimp only at h
  split at h
  · obtain ⟨headers, -, hcon⟩ := Option.bind_eq_some_iff.mp h
    obtain rfl := Option.some.inj hcon
    obtain ⟨cs, c, hfirst⟩ : ∃ cs c, (chunkqueueGetAppendBuffer con.writeQueue).first =
        cs ++ [c] := ⟨_, _, rfl⟩
    refine ⟨multi, { c with mem := multiStatusBody multiStatusResp c.mem }, hmulti, ?_, ?_⟩
    · rw [first_mapLastMem hfirst]
      exact List.getLast?_concat
    · exact text_multiStatusBody hmulti c.mem
  · split at h
    · obtain rfl := Option.some.inj h
      dsimp only at hstatus
      split at hstatus <;> exact absurd hstatus (by decide)
    · obtain rfl := Option.some.inj h
      cases hstatus

theorem reportsLeft_iff_left (hdir : sys.stat = .ok true) (rel : Bytes) :
    (∃ con', webdavDelete con physical sys = some con' ∧
      ReportsLeft con con' (sys.entries.left rel sys.opendir)) ↔
      sys.entries.left rel sys.opendir = [] := by
  constructor
  · rintro ⟨con', hrun, hreports⟩
    by_contra hne
    obtain ⟨multi, c, hmulti, hlast, htext⟩ :=
      webdavDelete_failed hdir hrun (hreports.status.mpr hne)
    obtain ⟨text, c', hall, hlast', htext'⟩ := hreports.body hne
    obtain rfl : c = c' := Option.some.inj (hlast.symm.trans hlast')
    obtain rfl : multi = text :=
      List.append_cancel_left (List.append_cancel_right (htext.unique htext'))
    exact not_reports (.inr ⟨rfl, rfl⟩) hall hne hmulti
  · intro hnil
    have hrun : webdavDeleteDir con.request.httpVersion sys.opendir sys.entries physical bufferInit
        = (false, bufferInit) := webdavDeleteDir_of_left hnil physical bufferInit
    unfold webdavDelete
    rw [hdir]
    dsimp only
    rw [hrun]
    dsimp only
    rw [if_neg Bool.false_ne_true, hnil]
    cases sys.rmdir with
    | none => exact ⟨_, rfl, ⟨nofun, fun h => absurd rfl h⟩, fun h => absurd rfl h⟩
    | some e =>
      refine ⟨_, rfl, ⟨fun h => ?_, fun h => absurd rfl h⟩, fun h => absurd rfl h⟩
      dsimp only at h
      split at h <;> exact absurd h (by decide)

/-- **The failures of a `DELETE` are reported** only if there are none: neither
`webdav_delete_dir` nor the answer is right where an entry is left. -/
theorem deleteReports_iff : (∀ (version : HttpVersion) (opendir : Bool) (entries : DirEntries)
      (dst : Physical) (rel : Bytes) (b : Buffer) (old : Bytes), b.Shows old →
      (DeleteReports version opendir entries dst rel b old ↔ entries.left rel opendir = [])) ∧
    ∀ (con : Connection) (physical : Physical) (rel : Bytes) (sys : DeleteAnswers),
      sys.stat = .ok true →
      ((∃ con', webdavDelete con physical sys = some con' ∧
        ReportsLeft con con' (sys.entries.left rel sys.opendir)) ↔
        sys.entries.left rel sys.opendir = []) :=
  ⟨fun _ _ _ _ _ _ _ => deleteReports_iff_left, fun _ _ rel _ hdir =>
    reportsLeft_iff_left hdir rel⟩

end Reported

/-- A directory with two files, of which the first one cannot be removed. -/
def twoFiles : DirEntries := .dots (.dots (.file (ascii "a") (some .eperm)
  (.file (ascii "b") none .done)))

def collection : Physical := ⟨textBuffer (ascii "/srv/d/"), textBuffer (ascii "/d/")⟩

/-- Nothing is left of an empty directory, and of the other one `/d/a`. -/
theorem deleteReports_iff_files :
    @DeleteReports zeroMalloc .v11 true .done collection (ascii "/d/") bufferInit [] ∧
    ¬ @DeleteReports zeroMalloc .v11 true twoFiles collection (ascii "/d/") bufferInit [] := by
  have hiff := (@deleteReports_iff zeroMalloc).1 .v11 true
  have hinit : bufferInit.Shows [] := .inr ⟨rfl, rfl⟩
  exact ⟨(hiff .done collection (ascii "/d/") bufferInit [] hinit).mpr rfl, fun h => absurd
    ((hiff twoFiles collection (ascii "/d/") bufferInit [] hinit).mp h) (by decide +kernel)⟩

/-- The flag is that of the second file. -/
theorem not_deleteReports_two :
    (@webdavDeleteDir zeroMalloc .v11 true twoFiles collection bufferInit).1 = false ∧
    twoFiles.left (ascii "/d/") true = [ascii "/d/a"] ∧
    ¬ @DeleteReports zeroMalloc .v11 true twoFiles collection (ascii "/d/") bufferInit [] := by
  have hresult : (@webdavDeleteDir zeroMalloc .v11 true twoFiles collection bufferInit).1 =
      false := by decide +kernel
  refine ⟨hresult, by decide +kernel, fun h => ?_⟩
  have htrue := (@DeleteReports.result zeroMalloc _ _ _ _ _ _ _ h).mpr (by decide +kernel)
  rw [hresult] at htrue
  cases htrue

end Lighttpd.WebdavDelete
