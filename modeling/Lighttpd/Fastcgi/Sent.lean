import Lighttpd.Fastcgi.Accounting

/-!
# The request that is sent

Whatever connections failed before, a context that is about to be connected has an empty write queue
(`HandlerCtx.Sound`), so what `fcgi_create_env` queues is one request, and all of it. Nothing of a
temporary file belongs to a chunk of memory (`Plain`), so a file is removed with the last of its
chunks only.
-/

namespace Lighttpd

open CLib

/-! ## Chunks of memory have no files -/

/-- No chunk waits to be used again, and only chunks of files may have a temporary one. -/
structure Chunkqueue.Plain (wb : Chunkqueue) : Prop where
  unused : wb.unused = []
  files : ∀ c ∈ wb.first, c.type ≠ .file → c.file.isTemp = false

theorem Chunkqueue.Plain.bytesIn {wb : Chunkqueue} (h : wb.Plain) (n : Int) :
    { wb with bytesIn := n }.Plain := ⟨h.unused, h.files⟩

theorem Chunkqueue.Plain.modifyMem {wb : Chunkqueue} (h : wb.Plain) (i : Nat)
    (f : Buffer → Buffer) : (wb.modify i fun c => { c with mem := f c.mem }).Plain := by
  refine ⟨h.unused, fun c hmem htype => ?_⟩
  obtain ⟨n, hn⟩ := List.getElem?_of_mem hmem
  simp only [Chunkqueue.modify, List.getElem?_modify, Option.map_eq_map,
    Option.map_eq_some_iff] at hn
  obtain ⟨d, hd, rfl⟩ := hn
  split
  · next hi =>
    rw [if_pos hi] at htype
    exact h.files d (List.mem_of_getElem? hd) htype
  · next hi =>
    rw [if_neg hi] at htype
    exact h.files d (List.mem_of_getElem? hd) htype

theorem Chunkqueue.Plain.append {wb : Chunkqueue} (h : wb.Plain) {c : Chunk}
    (hc : c.type ≠ .file → c.file.isTemp = false) : (chunkqueueAppendChunk wb c).Plain := by
  refine ⟨h.unused, fun d hmem htype => ?_⟩
  rcases List.mem_append.mp hmem with hmem | hmem
  · exact h.files d hmem htype
  · obtain rfl := List.mem_singleton.mp hmem
    exact hc htype

section Code

variable [Malloc] {wb wb' reqCq reqCq' : Chunkqueue} {calls : List Syscall}

omit [Malloc] in
theorem Chunkqueue.Plain.appendBuffer (h : wb.Plain) : (chunkqueueGetAppendBuffer wb).Plain := by
  unfold chunkqueueGetAppendBuffer
  rw [getUnusedChunk_nil h.unused]
  exact h.append fun _ => rfl

theorem Chunkqueue.Plain.appendBytes (h : wb.Plain) (s : Bytes) : (appendBytes wb s).2.Plain :=
  h.appendBuffer.modifyMem _ fun mem => bufferCopyMemory mem (some s)

theorem Chunkqueue.Plain.appendMemory (h : wb.Plain) (i : Nat) (s : Bytes) :
    (appendMemory i s wb).Plain := h.modifyMem i fun mem => bufferAppendMemory mem (some s)

omit [Malloc] in
theorem Chunkqueue.Plain.addVirtualZero (h : wb.Plain) (i : Nat) : (addVirtualZero i wb).Plain :=
  h.modifyMem i fun mem => { mem with used := mem.used + 1 }

theorem Chunkqueue.Plain.appendFile (h : wb.Plain) (fn : Buffer) (offset len : Int) :
    (chunkqueueAppendFile wb fn offset len).Plain := by
  unfold chunkqueueAppendFile
  rw [getUnusedChunk_nil h.unused]
  split
  · exact h
  · exact h.append fun hfile => absurd rfl hfile

theorem takeFromBody_plain {i : Nat} {room n : Int} (h : wb.Plain)
    (hrun : takeFromBody i room wb reqCq = some (n, wb', reqCq', calls)) : wb'.Plain := by
  unfold takeFromBody at hrun
  split at hrun
  · cases hrun
  · next c cs hfirst =>
    split at hrun
    · simp only at hrun
      split at hrun
      · cases hrun
      · split at hrun
        · split at hrun
          · cases hrun
          · next last hlast =>
            split at hrun
            · cases hrun
            · next hstolen =>
              cases hrun
              have happended := h.appendFile c.file.name c.offset
                (min (c.file.length - c.offset) room)
              refine ⟨happended.unused, fun d hmem htype => ?_⟩
              rcases List.mem_append.mp hmem with hmem | hmem
              · exact happended.files d (List.mem_of_mem_dropLast hmem) htype
              · obtain rfl := List.mem_singleton.mp hmem
                exact absurd (not_not.mp fun hfile => hstolen (Or.inl hfile)) htype
        · cases hrun
          exact (h.appendFile _ _ _).bytesIn _
    · simp only at hrun
      split at hrun
      · cases hrun
      · split at hrun
        · cases hrun
          exact (h.appendMemory i _).bytesIn _
        · cases hrun
          exact (h.appendMemory i _).bytesIn _
    · cases hrun
      exact h

theorem fillRecord_plain {i : Nat} {weWant : Int} : ∀ (fuel : Nat) {written : Int}
    {wb reqCq wb' reqCq' : Chunkqueue} {calls : List Syscall}, wb.Plain →
    fillRecord i weWant fuel written wb reqCq = some (wb', reqCq', calls) → wb'.Plain
  | 0, _, _, _, _, _, _, _, hrun => by cases hrun
  | fuel + 1, written, wb, reqCq, wb', reqCq', calls, h, hrun => by
    unfold fillRecord at hrun
    split at hrun
    · cases hrun
      exact h
    · simp only [Option.bind_eq_bind, Option.bind_eq_some_iff, Option.some.injEq,
        Prod.mk.injEq] at hrun
      obtain ⟨_, hturn, _, hrest, rfl, -⟩ := hrun
      exact fillRecord_plain fuel (takeFromBody_plain h hturn) hrest

theorem sendBody_plain {requestId : Nat} : ∀ (fuel : Nat) {offset : Int}
    {wb reqCq wb' reqCq' : Chunkqueue} {calls : List Syscall}, wb.Plain →
    sendBody requestId fuel offset wb reqCq = some (wb', reqCq', calls) → wb'.Plain
  | 0, _, _, _, _, _, _, _, hrun => by cases hrun
  | fuel + 1, offset, wb, reqCq, wb', reqCq', calls, h, hrun => by
    unfold sendBody at hrun
    split at hrun
    · cases hrun
      exact h
    · simp only [Option.bind_eq_bind, Option.bind_eq_some_iff, Option.some.injEq,
        Prod.mk.injEq] at hrun
      obtain ⟨header, -, _, hfill, _, hrest, rfl, -⟩ := hrun
      have hfilled := fillRecord_plain fuel ((h.appendBytes header).bytesIn _) hfill
      exact sendBody_plain fuel (hfilled.addVirtualZero _) hrest

theorem fcgiCreateEnv_plain {fuel mode requestId : Nat} {vars : List FcgiEnvVar}
    {con con' : BackendConnection} {ret : Int} (h : wb.Plain)
    (hrun : fcgiCreateEnv fuel mode vars requestId con wb = some (ret, con', wb', calls)) :
    wb'.Plain := by
  simp only [fcgiCreateEnv, Option.bind_eq_bind, Option.bind_eq_some_iff] at hrun
  obtain ⟨header, -, hrun⟩ := hrun
  have hbegun := h.appendBytes (header ++ beginBody mode)
  split at hrun
  · cases hrun
    exact hbegun
  · simp only [Option.bind_eq_some_iff, Option.some.injEq, Prod.mk.injEq] at hrun
    obtain ⟨wb₁, hparams, ⟨wb₂, _, _⟩, hsent, wb₃, hend, -, -, rfl, -⟩ := hrun
    have hparams' : wb₁.Plain := by
      simp only [queueParams, Option.bind_eq_bind, Option.bind_eq_some_iff, Option.some.injEq]
        at hparams
      obtain ⟨_, -, _, -, rfl⟩ := hparams
      exact ((((hbegun.appendMemory _ _).appendMemory _ _).appendMemory _ _).addVirtualZero
        _).bytesIn _
    have hsent' : wb₂.Plain := by
      split at hsent
      · exact sendBody_plain fuel hparams' hsent
      · cases hsent
        exact hparams'
    simp only [queueEnd, Option.bind_eq_bind, Option.bind_eq_some_iff, Option.some.injEq] at hend
    obtain ⟨_, -, rfl⟩ := hend
    exact ((hsent'.appendBytes _).addVirtualZero _).bytesIn _

/-! ## One request -/

/-- A file is removed with no chunk but one that refers to it, and not before the last one. -/
def RemovedLast (cs : List Chunk) : Prop :=
  ∀ l c r name, cs = l ++ c :: r → Syscall.unlink name ∈ (chunkReset c).2 →
    c.type = .file ∧ c.file.name.str = name ∧ ∀ d ∈ r, d.type = .file → d.file.name.str ≠ name

omit [Malloc] in
theorem chunkReset_unlink {c : Chunk} {name : Bytes} (h : Syscall.unlink name ∈ (chunkReset c).2) :
    c.file.isTemp = true ∧ c.file.name.str = name := by
  simp only [chunkReset, List.mem_append, List.mem_map] at h
  rcases h with (h | ⟨_, -, h⟩) | ⟨_, -, h⟩
  · split at h
    · next htemp =>
      obtain rfl := Syscall.unlink.inj (List.mem_singleton.mp h)
      exact ⟨htemp.1, rfl⟩
    · cases h
  · cases h
  · cases h

omit [Malloc] in
theorem Owned.removedLast (h : Owned (fileRefs wb.first) []) (hplain : wb.Plain) :
    RemovedLast wb.first := by
  intro l c r name hsplit hunlink
  obtain ⟨htemp, rfl⟩ := chunkReset_unlink hunlink
  have htype : c.type = .file := by
    by_contra hother
    have hnot := hplain.files c (by simp [hsplit]) hother
    rw [htemp] at hnot
    cases hnot
  refine ⟨htype, rfl, fun d hd hdtype heq => ?_⟩
  have hrefs : fileRefs wb.first =
      fileRefs l ++ (c.file.name.str, c.file.isTemp) :: fileRefs r := by
    rw [hsplit, fileRefs_append, fileRefs_file htype]
  refine ((h _ _ _ _ hrefs).mp htemp).1 (List.mem_map.mpr ⟨(d.file.name.str, d.file.isTemp), ?_, heq⟩)
  exact List.mem_filterMap.mpr ⟨d, hd, if_pos hdtype⟩

/-- The write queue holds one request: what is read from it are the records of FastCGI, with the
environment `params` and the `body`. -/
structure OneRequest (fs : Files) (mode : Nat) (params body : Bytes) (wb wb' : Chunkqueue)
    (calls : List Syscall) : Prop where
  records : ∃ stdin : List Record,
    Record.parseAll (wb'.content fs) =
        (⟨FCGI_BEGIN_REQUEST, 1, beginBody mode, 0⟩ :: ⟨FCGI_PARAMS, 1, params, 0⟩ ::
          ⟨FCGI_PARAMS, 1, [], 0⟩ :: (stdin ++ [⟨FCGI_STDIN, 1, [], 0⟩]), []) ∧
      (∀ r ∈ stdin, r.type = FCGI_STDIN ∧ r.requestId = 1 ∧ r.content ≠ []) ∧
      (stdin.map Record.content).flatten = body
  lengths : ∀ r ∈ (Record.parseAll (wb'.content fs)).1, r.content.length ≤ FCGI_MAX_LENGTH
  bytesIn : wb'.bytesIn = wb.bytesIn + (wb'.content fs).length
  removed : RemovedLast wb'.first

/-- The body of a request: chunks of memory, or of temporary files. Its length is that of the
request, and `request_content_queue.bytes_in`. -/
structure HasBody (fs : Files) (con : BackendConnection) (kind : ChunkType) (body : Bytes) :
    Prop where
  chunks : kind = .mem ∧ MemBody con.requestContentQueue body ∨
    kind = .file ∧ TempBody fs con.requestContentQueue body
  bytesIn : con.requestContentQueue.bytesIn = body.length
  contentLength : body ≠ [] → con.request.contentLength ≠ 0

theorem requestFramed {s : FcgiPlugin} (h : FcgiPlugin.Run (fun _ _ => True) s) {c : HandlerCtx}
    (hc : c ∈ s.ctxs) (hstate : c.state = .init ∨ c.state = .connectDelayed) {fs : Files}
    {kind : ChunkType} {body : Bytes} (hbody : HasBody fs c.remoteConn kind body) (mode : Nat)
    {vars : List FcgiEnvVar} {env : Buffer} (henv : fcgiEnv vars = some env) :
    ∃ (wb' reqCq' : Chunkqueue) (calls : List Syscall),
      fcgiCreateEnv (createEnvFuel c.remoteConn) mode vars
          (if c.requestId = 0 then 1 else c.requestId) c.remoteConn c.wb =
        some (0, { c.remoteConn with requestContentQueue := reqCq' }, wb', calls) ∧
      OneRequest fs mode env.bytes body c.wb wb' calls ∧
      reqCq'.first = [] ∧ (kind = .file → ∀ name, Syscall.unlink name ∉ calls) := by
  have hsound := h.sound (G := False) fun _ _ _ hfalse => hfalse.elim
  obtain ⟨-, hwb, hid, -⟩ := (hsound.ctxs c hc).fresh hstate
  rw [if_pos hid, hwb]
  have hqueued : BodyQueued fs kind chunkqueueInit c.remoteConn.requestContentQueue body := by
    rcases hbody.chunks with ⟨rfl, hmem⟩ | ⟨rfl, htemp⟩
    · exact ⟨hmem, rfl⟩
    · exact ⟨htemp, Owned.nil _⟩
  have hfuel : body.length + 1 < createEnvFuel c.remoteConn := by
    rw [createEnvFuel, hbody.bytesIn]
    omega
  obtain ⟨stdin, wb', reqCq', calls, hrun, hreq⟩ := fcgiCreateEnv_spec
    (createEnvFuel c.remoteConn) mode 1 c.remoteConn henv rfl hqueued hbody.bytesIn
    hbody.contentLength hfuel
  obtain ⟨henvlen, henvmax⟩ := fcgiEnv_spec henv
  have hcontent : wb'.content fs = ((headRecords mode 1 env.bytes ++ stdin ++ [endRecord 1]).map
      Record.encode).flatten := hreq.content
  -- every record fits its header
  have hfits : ∀ r ∈ headRecords mode 1 env.bytes ++ stdin ++ [endRecord 1],
      r.Fits ∧ r.content.length ≤ FCGI_MAX_LENGTH := by
    have hmax : FCGI_MAX_LENGTH < 65536 := by decide
    have hfit : ∀ r : Record, (r.type = FCGI_BEGIN_REQUEST ∨ r.type = FCGI_PARAMS ∨
        r.type = FCGI_STDIN) → r.requestId = 1 → r.padding = 0 →
          r.content.length ≤ FCGI_MAX_LENGTH → r.Fits ∧ r.content.length ≤ FCGI_MAX_LENGTH := by
      intro r htype hone hpad hlen
      refine ⟨⟨?_, by omega, by omega, by omega⟩, hlen⟩
      rcases htype with htype | htype | htype
      · rw [htype]
        decide
      · rw [htype]
        decide
      · rw [htype]
        decide
    intro r hr
    simp only [headRecords, endRecord, List.mem_append, List.mem_cons, List.not_mem_nil,
      or_false] at hr
    rcases hr with ((rfl | rfl | rfl) | hr) | rfl
    · exact hfit _ (Or.inl rfl) rfl rfl (by simp [beginBody, FCGI_MAX_LENGTH])
    · exact hfit _ (Or.inr (Or.inl rfl)) rfl rfl (by simp only; omega)
    · exact hfit _ (Or.inr (Or.inl rfl)) rfl rfl (Nat.zero_le _)
    · obtain ⟨htype, hone, hpad, -, hlen⟩ := hreq.records r hr
      exact hfit r (Or.inr (Or.inr htype)) hone hpad hlen
    · exact hfit _ (Or.inr (Or.inr rfl)) rfl rfl (Nat.zero_le _)
  have hparse : Record.parseAll (wb'.content fs) =
      (headRecords mode 1 env.bytes ++ stdin ++ [endRecord 1], []) := by
    rw [hcontent]
    exact Record.parseAll_encode _ fun r hr => (hfits r hr).1
  have howned : Owned (fileRefs wb'.first) [] := by
    have hqueued' := hreq.queued
    rcases hbody.chunks with ⟨rfl, -⟩ | ⟨rfl, -⟩
    · rw [hqueued'.2]
      exact Owned.nil []
    · have hrest := hqueued'.2
      rw [hqueued'.left] at hrest
      exact hrest
  have hplain : wb'.Plain := fcgiCreateEnv_plain ⟨rfl, fun d hd => by cases hd⟩ hrun
  refine ⟨wb', reqCq', calls, hrun, ⟨⟨stdin, ?_, fun r hr => ?_, hreq.body⟩, ?_, ?_,
    howned.removedLast hplain⟩, hreq.queued.left, hreq.harmless⟩
  · rw [hparse]
    rfl
  · obtain ⟨htype, hone, -, hne, -⟩ := hreq.records r hr
    exact ⟨htype, hone, hne⟩
  · rw [hparse]
    intro r hr
    exact (hfits r hr).2
  · rw [hreq.bytesIn, hcontent]

/-! ## An environment that does not fit -/

theorem le_used_of_fcgiEnvAdd {env env' : Buffer} {key val : Bytes}
    (h : fcgiEnvAdd env (some key) (some val) = some env') : val.length ≤ env'.used := by
  simp only [fcgiEnvAdd, Option.ite_none_left_eq_some] at h
  obtain ⟨-, h⟩ := h
  obtain rfl := Option.some.inj h
  simp only [List.length_append]
  omega

def longQuery (uri query : Bytes) : List FcgiEnvVar :=
  [⟨some (ascii "REQUEST_URI"), some uri, true⟩, ⟨some (ascii "QUERY_STRING"), some query, true⟩]

theorem fcgiEnv_longQuery {uri query : Bytes} (h : FCGI_MAX_LENGTH ≤ uri.length + query.length) :
    fcgiEnv (longQuery uri query) = none := by
  unfold fcgiEnv longQuery fcgiEnvAddAll
  cases hone : fcgiEnvAdd (bufferPrepareCopy bufferInit 1024) (some (ascii "REQUEST_URI"))
    (some uri) with
  | none => rfl
  | some env =>
    have hused := le_used_of_fcgiEnvAdd hone
    have htwo : fcgiEnvAdd env (some (ascii "QUERY_STRING")) (some query) = none := by
      simp only [fcgiEnvAdd]
      exact if_pos (by omega)
    simp only [fcgiEnvAddAll, htwo, if_true]

end Code

/-- A request with the body `ab`. -/
def bodyConnection : BackendConnection :=
  { bodilessConnection with
    request := { bodilessConnection.request with contentLength := 2 }
    requestContentQueue := { chunkqueueInit with
      first := [{ chunkInit with type := .mem, mem := ⟨ascii "ab" ++ [0], 3, 0⟩ }], bytesIn := 2 } }

theorem bodyConnection_hasBody (fs : Files) :
    HasBody fs { bodyConnection with mode := 3 } .mem (ascii "ab") := by
  refine ⟨Or.inl ⟨rfl, fun c hc => ?_, by decide⟩, rfl, fun _ => by decide⟩
  obtain rfl := List.mem_singleton.mp hc
  exact ⟨⟨rfl, by decide, by decide, by decide⟩, by decide⟩

def failedConnect : List FcgiEvent :=
  [.check bodyConnection 0 false,
    .subrequest 0 { connected with write := { connected.write with connect := .delayed } },
    .subrequest 0 { connected with write := { connected.write with sockopt := .error } }]

theorem failedConnect_expected : ∀ event ∈ failedConnect, event.Expected := by
  intro event hmem
  simp only [failedConnect, List.mem_cons, List.not_mem_nil, or_false] at hmem
  rcases hmem with rfl | rfl | rfl
  · exact Int.le_of_lt (Int.ofNat_lt.mpr (Nat.zero_lt_two))
  · exact takesBytes_takeAll
  · exact takesBytes_takeAll

theorem failedConnect_run : ∃ s c, @FcgiPlugin.Run zeroMalloc (fun _ _ => True) s ∧ c ∈ s.ctxs ∧
    c.state = .init ∧ c.reconnects = 1 ∧ c.remoteConn = { bodyConnection with mode := 3 } := by
  have hone : (failedConnect.foldlM (@FcgiPlugin.step zeroMalloc) childServer).map
      (fun s => s.ctxs.map fun c => (c.state, c.reconnects, c.remoteConn)) =
        some [(.init, 1, { bodyConnection with mode := 3 })] := by decide +kernel
  obtain ⟨s, hs, hctxs⟩ := Option.map_eq_some_iff.mp hone
  obtain ⟨c, hc, hfacts⟩ := List.map_eq_singleton_iff.mp hctxs
  obtain ⟨hstate, hreconnects, hcon⟩ := by simpa only [Prod.mk.injEq] using hfacts
  refine ⟨s, c, ?_, by simp [hc], hstate, hreconnects, hcon⟩
  refine Reachable.run ?_ (Reachable.start childServer_started) hs
  intro event hmem _
  exact ⟨failedConnect_expected event hmem, trivial⟩

theorem requestFramed_failedConnect : ∃ s c env wb' reqCq' calls,
    @FcgiPlugin.Run zeroMalloc (fun _ _ => True) s ∧ c ∈ s.ctxs ∧ c.reconnects = 1 ∧
      @fcgiCreateEnv zeroMalloc (createEnvFuel c.remoteConn) FCGI_RESPONDER
          (longQuery (ascii "/?q") (ascii "q")) (if c.requestId = 0 then 1 else c.requestId)
          c.remoteConn c.wb =
        some (0, { c.remoteConn with requestContentQueue := reqCq' }, wb', calls) ∧
      OneRequest ⟨[], []⟩ FCGI_RESPONDER env (ascii "ab") c.wb wb' calls := by
  obtain ⟨s, c, hrun, hc, hstate, hreconnects, hcon⟩ := failedConnect_run
  have hsome : (@fcgiEnv zeroMalloc (longQuery (ascii "/?q") (ascii "q"))).isSome := by
    decide +kernel
  obtain ⟨env, henv⟩ := Option.isSome_iff_exists.mp hsome
  have hbody : HasBody ⟨[], []⟩ c.remoteConn .mem (ascii "ab") := by
    rw [hcon]
    exact bodyConnection_hasBody _
  obtain ⟨wb', reqCq', calls, hcreated, hone, -⟩ :=
    @requestFramed zeroMalloc s hrun c hc (Or.inl hstate) ⟨[], []⟩ .mem (ascii "ab") hbody FCGI_RESPONDER
      _ env henv
  exact ⟨s, c, env.bytes, wb', reqCq', calls, hrun, hc, hreconnects, hcreated, hone⟩

/-- With a query of 40000 bytes there is no request, and -1. -/
theorem requestFramed_longQuery : ¬ ∀ s, @FcgiPlugin.Run zeroMalloc (fun _ _ => True) s →
    ∀ c ∈ s.ctxs, c.state = .init ∨ c.state = .connectDelayed → ∀ fs kind body,
      HasBody fs c.remoteConn kind body → ∀ mode vars, ∃ ret con' params wb' calls,
        @fcgiCreateEnv zeroMalloc (createEnvFuel c.remoteConn) mode vars
            (if c.requestId = 0 then 1 else c.requestId) c.remoteConn c.wb =
          some (ret, con', wb', calls) ∧ OneRequest fs mode params body c.wb wb' calls := by
  intro hall
  obtain ⟨s, c, hrun, hc, hstate, -, hcon⟩ := failedConnect_run
  have hbody : HasBody ⟨[], []⟩ c.remoteConn .mem (ascii "ab") := by
    rw [hcon]
    exact bodyConnection_hasBody _
  let query : Bytes := List.replicate 40000 113
  have hlen : query.length = 40000 := List.length_replicate
  have hnone : @fcgiEnv zeroMalloc (longQuery (ascii "/?" ++ query) query) = none := by
    apply @fcgiEnv_longQuery zeroMalloc
    rw [List.length_append, hlen, FCGI_MAX_LENGTH]
    omega
  obtain ⟨ret, con', params, wb', calls, hcreated, hone⟩ := hall s hrun c hc (Or.inl hstate) _ _ _
    hbody FCGI_RESPONDER (longQuery (ascii "/?" ++ query) query)
  obtain ⟨wb₁, hfailed, hkept⟩ := @fcgiCreateEnv_failed zeroMalloc (createEnvFuel c.remoteConn)
    FCGI_RESPONDER _ (if c.requestId = 0 then 1 else c.requestId) c.remoteConn c.wb hnone
  rw [hfailed] at hcreated
  obtain ⟨-, -, rfl, -⟩ := by simpa only [Option.some.injEq, Prod.mk.injEq] using hcreated
  -- nothing is counted, so nothing could be read
  have hin := hone.bytesIn
  have hnil : wb₁.content ⟨[], []⟩ = [] := List.length_eq_zero_iff.mp (by omega)
  obtain ⟨stdin, hparse, -⟩ := hone.records
  rw [hnil, Record.parseAll_of_none rfl] at hparse
  cases hparse

end Lighttpd
