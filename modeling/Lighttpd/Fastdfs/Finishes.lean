import Lighttpd.Fastdfs.Subrequest
import Lighttpd.Connections.WritePrepare

/-!
# Requests that `mod_fastdfs` takes

`mod_fastdfs_physical_handler` takes every request, and `mod_fastdfs_subrequest` answers those with
`GET`, unless the date in the request is a part of the file's. The others stay with the plugin, and
without an error document: the response is complete only for `HEAD`, which has no body
(`fastdfsFinishes_iff`). No other plugin handles a request that one has taken.
-/

namespace Lighttpd

open CLib

/-- The plugin in place `i` has the id `i + 1`. The settings are read here, too. -/
def modFastdfsPhysicalHandler (i : Nat) (con : RespondingConnection) : RespondingConnection :=
  if con.httpStatus ≠ 0 then con
  else if con.uriPath.used = 0 then con
  else if con.physicalPath.used = 0 then con
  else if con.mode ≠ DIRECT then con
  else if con.fileFinished then con
  else { con with mode := i + 1 }

section Prepare

variable [Malloc] {σ : Type} (client : FdfsClient σ) (resize : ResizeImage) (i : Nat)
  (lib : TimeLib) (a : FastdfsInput) (s : σ) (srv : Server) (rangeBuf : Buffer)

/-- The end of `http_response_prepare`, for a request that was taken. -/
def prepareFastdfs (con : RespondingConnection) :
    Option (HandlerT × σ × Server × RespondingConnection × Buffer) :=
  match modFastdfsSubrequest client resize (i + 1) lib a s srv con rangeBuf with
  | some (.goOn, result) => some (.finished, result)
  | result => result

/-- A file is to be sent, but a date in the request is compared that is only the beginning of the
file's. -/
def FastdfsComparesPart (con : RespondingConnection) : Prop :=
  client.trackerGetConnection s = true ∧
    ∃ fileId s' content info srv' con' mtime, getFileId a.relPath = some fileId ∧
      fastdfsContent client resize s fileId a.conversion = some (s', .ok (content, info)) ∧
      fastdfsHeaders srv con info = some (srv', con', mtime) ∧ PartOfDate con' a.conditions mtime

variable {client resize i lib a s srv rangeBuf} {con con' : RespondingConnection}

theorem fastdfsBody_finished {mtime content rangeBuf' : Buffer}
    (h : fastdfsBody a con mtime content rangeBuf = some (con', rangeBuf')) :
    con'.fileFinished = true := by
  unfold fastdfsBody at h
  simp only [Option.bind_eq_bind, Option.bind_eq_some_iff] at h
  obtain ⟨range, -, h⟩ := h
  cases range with
  | none =>
    obtain ⟨rfl, -⟩ := Prod.mk.inj (Option.some.inj h)
    rfl
  | some range =>
    simp only [Option.bind_eq_some_iff] at h
    obtain ⟨⟨ret, con₁, rangeBuf₁⟩, hparse, h⟩ := h
    have hfinished := parseRange_fileFinished hparse
    obtain ⟨rfl, -⟩ := Prod.mk.inj (Option.some.inj h)
    by_cases hret : ret = 0
    · rw [if_pos hret]
      exact hfinished
    · rw [if_neg hret]
      exact hfinished

/-- The rest of the request machine can complete the answer of `con`. -/
structure Completes (con : RespondingConnection) (P : Prop) : Prop where
  ready : con.mode ≠ DIRECT ∨ con.request.httpMethod ∈ directMethods ∨ con.fileFinished = true
  complete : con.fileFinished = true ∨ con.request.httpMethod = .head ∨ BodyChosen con ↔ P

omit [Malloc] in
theorem Completes.of_finished (h : con.fileFinished = true) : Completes con True :=
  ⟨Or.inr (Or.inr h), iff_of_true (Or.inl h) trivial⟩

omit [Malloc] in
theorem Completes.congr {P Q : Prop} (h : Completes con P) (hPQ : P ↔ Q) : Completes con Q :=
  ⟨h.ready, h.complete.trans hPQ⟩

omit [Malloc] in
theorem Completes.setPath {P : Prop} (h : Completes con P) (path : Buffer) :
    Completes { con with physicalPath := path } P := ⟨h.ready, h.complete⟩

omit [Malloc] in
theorem Completes.of_empty (hstatus : con.httpStatus = 0) (hmode : con.mode ≠ DIRECT)
    (hfresh : con.fileFinished = false) : Completes con (con.request.httpMethod = .head) := by
  refine ⟨Or.inl hmode, ?_⟩
  have hnone : ¬ BodyChosen con := by
    rintro (h | h | h | ⟨h, -⟩)
    · omega
    · omega
    · omega
    · exact hmode h
  rw [hfresh]
  simp [hnone]

theorem fastdfsAnswer_completes {mtime content rangeBuf' : Buffer}
    (hstatus : con.httpStatus = 0) (hmode : con.mode ≠ DIRECT) (hfresh : con.fileFinished = false)
    (hmethod : con.request.httpMethod = .get)
    (h : fastdfsAnswer lib a con mtime content rangeBuf = some (con', rangeBuf')) :
    Completes con' (¬ PartOfDate con a.conditions mtime) := by
  unfold fastdfsAnswer at h
  by_cases hpart : PartOfDate con a.conditions mtime
  · rw [handleCachable_part lib hpart] at h
    obtain ⟨rfl, -⟩ := Prod.mk.inj (Option.some.inj h)
    refine ((Completes.of_empty hstatus hmode hfresh).congr
      (iff_of_false ?_ (not_not_intro hpart))).setPath _
    rw [hmethod]
    decide
  · have hanswered := handleCachable_answered lib hpart
    have houtcome := handleCachable_outcome lib con a.conditions mtime
    obtain ⟨⟨r, con₁⟩, hresult⟩ : ∃ result, httpResponseHandleCachable lib con a.conditions mtime =
      result := ⟨_, rfl⟩
    rw [hresult] at hanswered houtcome
    rw [hresult] at h
    dsimp only at houtcome
    rcases hanswered with ⟨hr, hnew⟩ | ⟨hr, -⟩
    · obtain rfl : r = .finished := hr
      obtain ⟨rfl, -⟩ := Prod.mk.inj (Option.some.inj h)
      cases houtcome with
      | same =>
        dsimp only at hnew
        omega
      | notModified =>
        exact ⟨Or.inl hmode, iff_of_true (Or.inr (Or.inr (Or.inr (Or.inr (Or.inl rfl))))) hpart⟩
      | failed =>
        have hget : con.request.httpMethod ∈ directMethods := by
          rw [hmethod]
          decide
        have herror : BodyChosen { con with httpStatus := 412, mode := DIRECT } :=
          Or.inr (Or.inr (Or.inr ⟨rfl, (by decide : (400 : Int) ≤ 412),
            (by decide : (412 : Int) < 600)⟩))
        exact ⟨Or.inr (Or.inl hget), iff_of_true (Or.inr (Or.inr herror)) hpart⟩
    · obtain rfl : r = .goOn := hr
      exact (Completes.of_finished (fastdfsBody_finished h)).congr (iff_of_true trivial hpart)

theorem fastdfsContent_error {s' : σ} {fileId : Bytes} {conversion : Option Conversion}
    {status : Int}
    (h : fastdfsContent client resize s fileId conversion = some (s', .error status)) :
    status = 404 ∨ status = 500 := by
  have herror : ∀ result, errorStatus result = 404 ∨ errorStatus result = 500 := by
    intro result
    unfold errorStatus
    split
    · exact Or.inl rfl
    · exact Or.inr rfl
  have hstatus : ∀ {t : σ} {n : Int}, some (t, (Except.error n : Except Int (Buffer × FdfsFileInfo))) =
      some (s', .error status) → n = status := by
    intro t n heq
    exact Except.error.inj (Prod.mk.inj (Option.some.inj heq)).2
  unfold fastdfsContent at h
  split at h
  · split at h
    · split at h
      · unfold resizedContent at h
        simp only [Option.bind_eq_bind, Option.bind_eq_some_iff] at h
        obtain ⟨master, -, h⟩ := h
        split at h
        · next result _ =>
          rw [← hstatus h]
          exact herror result
        · simp only [Option.bind_eq_some_iff] at h
          obtain ⟨⟨result, img⟩, -, h⟩ := h
          split at h
          · dsimp only at h
            split at h
            · next result' _ =>
              rw [← hstatus h]
              exact herror result'
            · nomatch h
          · exact Or.inr (hstatus h).symm
      · exact Or.inl (hstatus h).symm
    · exact Or.inr (hstatus h).symm
  · split at h
    · next result _ =>
      rw [← hstatus h]
      exact herror result
    · nomatch h

/-- A taken request, with what the plugin's checks ask of it. -/
structure FastdfsTaken (i : Nat) (con : RespondingConnection) : Prop where
  httpStatus : con.httpStatus = 0
  uriPath : con.uriPath.used ≠ 0
  physicalPath : con.physicalPath.used ≠ 0
  mode : con.mode = i + 1
  fresh : con.fileFinished = false

omit [Malloc] in
theorem taken_of_physicalHandler (h : (modFastdfsPhysicalHandler i con).mode ≠ DIRECT)
    (hdirect : con.mode = DIRECT) : FastdfsTaken i (modFastdfsPhysicalHandler i con) ∧
      (modFastdfsPhysicalHandler i con).request = con.request := by
  unfold modFastdfsPhysicalHandler at h ⊢
  split at h
  · exact absurd hdirect h
  next hstatus =>
  split at h
  · exact absurd hdirect h
  next huri =>
  split at h
  · exact absurd hdirect h
  next hpath =>
  rw [if_neg (not_not_intro hdirect)] at h ⊢
  split at h
  · exact absurd hdirect h
  next hfresh =>
  rw [if_neg hstatus, if_neg huri, if_neg hpath, if_neg hfresh]
  exact ⟨⟨not_not.mp hstatus, huri, hpath, rfl, by simpa using hfresh⟩, rfl⟩

theorem prepareFastdfs_completes {r : HandlerT} {s' : σ} {srv' : Server} {rangeBuf' : Buffer}
    (htaken : FastdfsTaken i con)
    (h : prepareFastdfs client resize i lib a s srv rangeBuf con =
      some (r, s', srv', con', rangeBuf')) :
    Completes con' (con.request.httpMethod = .head ∨
      con.request.httpMethod = .get ∧ ¬ FastdfsComparesPart client resize a s srv con) := by
  obtain ⟨hstatus, huri, hpath, hmode, hfresh⟩ := htaken
  have hother : con.mode ≠ DIRECT := by
    rw [hmode]
    exact Nat.succ_ne_zero i
  have hempty := Completes.of_empty hstatus hother hfresh
  unfold prepareFastdfs modFastdfsSubrequest at h
  by_cases hmethod : con.request.httpMethod ≠ .get
  · rw [if_pos (by simp [hmethod])] at h
    simp only [Option.some.injEq, Prod.mk.injEq] at h
    obtain ⟨-, -, -, rfl, -⟩ := h
    exact hempty.congr (or_iff_left fun hget => hmethod hget.1).symm
  have hget : con.request.httpMethod = .get := not_not.mp hmethod
  have hhead : con.request.httpMethod ≠ .head := by
    rw [hget]
    decide
  have herror : ∀ status : Int, 400 ≤ status → status < 600 →
      Completes (fastdfsExit status con) True := by
    intro status hlow hhigh
    have hdirect : con.request.httpMethod ∈ directMethods := by
      rw [hget]
      decide
    exact ⟨Or.inr (Or.inl hdirect),
      iff_of_true (Or.inr (Or.inr (Or.inr (Or.inr (Or.inr ⟨rfl, hlow, hhigh⟩))))) trivial⟩
  rw [if_neg (by simp [hstatus, huri, hpath, hmode, hfresh, hget])] at h
  by_cases htracker : client.trackerGetConnection s = true
  swap
  · rw [if_pos htracker] at h
    simp only [Option.some.injEq, Prod.mk.injEq] at h
    obtain ⟨-, -, -, rfl, -⟩ := h
    refine (herror 500 (by decide) (by decide)).congr (iff_of_true trivial (Or.inr ⟨hget, ?_⟩))
    exact fun hpart => htracker hpart.1
  rw [if_neg (not_not_intro htracker)] at h
  cases hfile : getFileId a.relPath with
  | none =>
    rw [hfile] at h
    nomatch h
  | some fileId =>
  cases hcontent : fastdfsContent client resize s fileId a.conversion with
  | none =>
    simp only [hfile, hcontent, Option.bind_eq_bind, Option.bind_some, Option.bind_none] at h
    nomatch h
  | some found =>
  obtain ⟨s₁, answer⟩ := found
  simp only [hfile, hcontent, Option.bind_eq_bind, Option.bind_some] at h
  cases answer with
  | error status =>
    simp only [Option.some.injEq, Prod.mk.injEq] at h
    obtain ⟨-, -, -, rfl, -⟩ := h
    have hstatus := fastdfsContent_error hcontent
    refine (herror status (by omega) (by omega)).congr (iff_of_true trivial (Or.inr ⟨hget, ?_⟩))
    rintro ⟨-, fileId', s'', content, info, srv'', con'', mtime, hfile', hcontent', -⟩
    rw [hfile] at hfile'
    obtain rfl := Option.some.inj hfile'
    rw [hcontent] at hcontent'
    nomatch (Prod.mk.inj (Option.some.inj hcontent')).2
  | ok delivered =>
    obtain ⟨content, info⟩ := delivered
    cases hheaders : fastdfsHeaders srv con info with
    | none =>
      simp only [hheaders, Option.bind_none] at h
      nomatch h
    | some prepared =>
    obtain ⟨srv₁, con₁, mtime⟩ := prepared
    cases hanswer : fastdfsAnswer lib a con₁ mtime content rangeBuf with
    | none =>
      simp only [hheaders, hanswer, Option.bind_some, Option.bind_none] at h
      nomatch h
    | some answered =>
    obtain ⟨con₂, rangeBuf₂⟩ := answered
    simp only [hheaders, hanswer, Option.bind_some, Option.some.injEq, Prod.mk.injEq] at h
    obtain ⟨-, -, -, rfl, -⟩ := h
    obtain ⟨headers, etag, rfl⟩ := fastdfsHeaders_only hheaders
    have hcompletes := fun hs hm hf hg => fastdfsAnswer_completes hs hm hf hg hanswer
    refine (hcompletes hstatus hother hfresh hget).congr ?_
    have hpart : FastdfsComparesPart client resize a s srv con ↔
        PartOfDate { setHeaders con headers with etag := etag } a.conditions mtime := by
      constructor
      · rintro ⟨-, fileId', s'', content', info', srv'', con'', mtime', hfile', hcontent', hheaders',
          hpart⟩
        rw [hfile] at hfile'
        obtain rfl := Option.some.inj hfile'
        rw [hcontent] at hcontent'
        obtain ⟨rfl, hdelivered⟩ := Prod.mk.inj (Option.some.inj hcontent')
        obtain ⟨rfl, rfl⟩ := Prod.mk.inj (Except.ok.inj hdelivered)
        rw [hheaders] at hheaders'
        obtain ⟨rfl, heq⟩ := Prod.mk.inj (Option.some.inj hheaders')
        obtain ⟨rfl, rfl⟩ := Prod.mk.inj heq
        exact hpart
      · exact fun hpart => ⟨htracker, fileId, s₁, content, info, srv₁, _, mtime, hfile, hcontent,
          hheaders, hpart⟩
    rw [hpart]
    simp [hget]

/-- **A request that `mod_fastdfs` takes is finished** exactly for `HEAD`, and for `GET` if no date is
compared that is only the beginning of the file's. -/
theorem fastdfsFinishes_iff {stat : Buffer → Option StatCacheEntry} {e : ErrorHandler}
    {con₁ con₂ con₃ : RespondingConnection} {s' : σ} {srv' : Server} {rangeBuf' : Buffer}
    (hdirect : con.mode = DIRECT) (htaken : (modFastdfsPhysicalHandler i con).mode ≠ DIRECT)
    (hprepare : prepareFastdfs client resize i lib a s srv rangeBuf
      (modFastdfsPhysicalHandler i con) = some (.finished, s', srv', con₁, rangeBuf'))
    (hresponse : requestFinished e con₁ = some con₂)
    (hwrite : connectionHandleWritePrepare stat con₂ = some con₃) :
    CompleteResponse con₃ ↔ con.request.httpMethod = .head ∨ con.request.httpMethod = .get ∧
      ¬ FastdfsComparesPart client resize a s srv (modFastdfsPhysicalHandler i con) := by
  obtain ⟨htaken, hrequest⟩ := taken_of_physicalHandler htaken hdirect
  have hcompletes := prepareFastdfs_completes htaken hprepare
  rw [hrequest] at hcompletes
  exact (completeResponse_iff hcompletes.ready hresponse hwrite).trans hcompletes.complete

end Prepare

def methodRequest (method : HttpMethod) : RespondingConnection :=
  { fileRequest with request := { fileRequest.request with httpMethod := method } }

def noErrorHandler : ErrorHandler := ⟨bufferInit, bufferInit, none⟩

/-- A `POST` request is left with an empty queue and an unfinished body. -/
theorem not_fastdfsFinishes_post : letI : Malloc := zeroMalloc
    ∃ r s' srv' con₁ con₂ con₃ rangeBuf', prepareFastdfs oneSlave threeBytes 0 noTimes slaveInput none
        (serverInit 0) bufferInit (modFastdfsPhysicalHandler 0 (methodRequest .post)) =
          some (r, s', srv', con₁, rangeBuf') ∧ r = .finished ∧
      requestFinished noErrorHandler con₁ = some con₂ ∧
      connectionHandleWritePrepare (fun _ => none) con₂ = some con₃ ∧ ¬ CompleteResponse con₃ := by
  let _ : Malloc := zeroMalloc
  refine ⟨.finished, none, serverInit 0, modFastdfsPhysicalHandler 0 (methodRequest .post), _, _,
    bufferInit, by decide +kernel, rfl, rfl, rfl, ?_⟩
  rintro (hfinished | ⟨hmode, -⟩)
  · exact absurd hfinished (by decide +kernel)
  · exact absurd hmode (by decide +kernel)

theorem fastdfsFinishes_iff_head : letI : Malloc := zeroMalloc
    ∃ con₂ con₃, requestFinished noErrorHandler (modFastdfsPhysicalHandler 0 (methodRequest .head)) =
        some con₂ ∧ connectionHandleWritePrepare (fun _ => none) con₂ = some con₃ ∧
      CompleteResponse con₃ := by
  let _ : Malloc := zeroMalloc
  have hprepare : prepareFastdfs oneSlave threeBytes 0 noTimes slaveInput none (serverInit 0)
      bufferInit (modFastdfsPhysicalHandler 0 (methodRequest .head)) =
      some (.finished, none, serverInit 0, modFastdfsPhysicalHandler 0 (methodRequest .head),
        bufferInit) := by
    decide +kernel
  have hresponse : requestFinished noErrorHandler
      (modFastdfsPhysicalHandler 0 (methodRequest .head)) =
        some (defaultStatus 200 (modFastdfsPhysicalHandler 0 (methodRequest .head))) := rfl
  obtain ⟨con₃, hwrite⟩ : ∃ con₃, connectionHandleWritePrepare (fun _ => none)
      (defaultStatus 200 (modFastdfsPhysicalHandler 0 (methodRequest .head))) = some con₃ :=
    ⟨_, rfl⟩
  refine ⟨_, con₃, hresponse, hwrite, ?_⟩
  exact (fastdfsFinishes_iff rfl (by decide +kernel) hprepare hresponse hwrite).mpr (Or.inl rfl)

end Lighttpd
