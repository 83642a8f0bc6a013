import Lighttpd.Lib.Machine
import Lighttpd.Fastcgi.Contexts

/-!
# The counters over whole runs

The loads are right in every run. The count of the running processes is right as long as no process
that is marked as running is found dead in the branch of `fcgi_handle_fdevent` with `waitpid`, which
counts its successor and not its end.
-/

namespace Lighttpd

open CLib

section Code

variable {G : Prop} {b : Backends} {c : HandlerCtx} {curTs : Int} {exts : List FcgiExtension}
  {handled : FcgiHandled}

/-! ## Runs -/

/-- What the rest of the server and the network do: bodies are not shorter than nothing, and what is
written is what is taken. -/
def FcgiEvent.Expected : FcgiEvent → Prop
  | .check con _ _ => 0 ≤ con.requestContentQueue.bytesIn
  | .subrequest _ answer => TakesBytes answer.write.write
  | .fdevent _ answer => TakesBytes answer.subrequest.write.write
  | _ => True

/-- In the branch with `waitpid`, a process is found dead that is marked as running. -/
def FcgiPlugin.ReapsRunning (s : FcgiPlugin) : FcgiEvent → Prop
  | .fdevent i answer => ∃ c p proc, s.ctxs[i]? = some c ∧ c.state = .read ∧
      answer.revents.readable = true ∧ answer.demuxed.fin = -1 ∧ c.proc = some p ∧
      s.backends.proc p = some proc ∧ proc.pid ≠ 0 ∧ answer.wait = .exited ∧ proc.state = .running
  | _ => False

structure FcgiPlugin.Started (s : FcgiPlugin) : Prop where
  hosts : ∀ host ∈ s.backends.hosts, ∃ curTs conf answers,
    setDefaultsHost curTs conf answers = some host
  loads : s.backends.loads = []
  ctxs : s.ctxs = []

/-- The counters are right, and every context is as it should be. -/
structure FcgiPlugin.Sound (G : Prop) (s : FcgiPlugin) : Prop where
  accounted : Accounted G s.backends s.ctxs
  ctxs : ∀ c ∈ s.ctxs, c.Sound

theorem fcgiCheckExtension_spec {id : Nat} {con : BackendConnection} {ext : Nat}
    {uriPathHandler : Bool} {ret : HandlerT}
    (hrun : fcgiCheckExtension id b exts con ext uriPathHandler = some (ret, .inl c)) :
    ∃ con' : BackendConnection, con'.requestContentQueue = con.requestContentQueue ∧
      c = handlerCtxInit con' ext := by
  unfold fcgiCheckExtension at hrun
  split at hrun
  · cases hrun
  · simp only [Option.bind_eq_bind, Option.bind_eq_some_iff] at hrun
    obtain ⟨extension, -, found, -, hrun⟩ := hrun
    cases found with
    | none => cases hrun
    | some n =>
      simp only [Option.bind_eq_some_iff] at hrun
      obtain ⟨host, -, hrun⟩ := hrun
      split at hrun
      · cases hrun
      · cases hrun
        exact ⟨{ con with mode := id }, rfl, rfl⟩

theorem spawnProcs_spec {answers : Nat → SpawnAnswer} : ∀ {n pno : Nat}
    {host host' : FcgiExtensionHost}, spawnProcs curTs answers n pno host = some host' →
      host.Counted → host.load = 0 → (∀ proc ∈ host.first, proc.load = 0) →
        host'.Counted ∧ host'.load = 0 ∧ ∀ proc ∈ host'.first, proc.load = 0
  | 0, _, _, _, hrun, hcount, hload, hloads => by
    obtain rfl := Option.some.inj hrun
    exact ⟨hcount, hload, hloads⟩
  | n + 1, pno, host, host', hrun, hcount, hload, hloads => by
    unfold spawnProcs at hrun
    simp only at hrun
    split at hrun
    · cases hrun
    · next active proc hspawn =>
      obtain ⟨rfl, hrunning, hproc⟩ := fcgiSpawnConnection_spec hspawn
      refine spawnProcs_spec hrun ⟨?_, hcount.unused⟩ hload ?_
      · simp only
        rw [countP_cons_active, FcgiProc.active, if_pos hrunning, hcount.active]
        omega
      · intro q hq
        rcases List.mem_cons.mp hq with rfl | hq
        · exact hproc
        · exact hloads q hq

theorem setDefaultsHost_spec {conf host : FcgiExtensionHost} {answers : Nat → SpawnAnswer}
    (hrun : setDefaultsHost curTs conf answers = some host) :
    host.Counted ∧ host.load = 0 ∧ ∀ proc ∈ host.first, proc.load = 0 := by
  unfold setDefaultsHost at hrun
  simp only at hrun
  split at hrun
  · refine spawnProcs_spec hrun ⟨rfl, rfl⟩ rfl ?_
    intro q hq
    cases hq
  · obtain rfl := Option.some.inj hrun
    refine ⟨⟨rfl, rfl⟩, rfl, ?_⟩
    intro q hq
    obtain rfl := List.mem_singleton.mp hq
    rfl

theorem FcgiPlugin.Started.sound {s : FcgiPlugin} (h : s.Started) (G : Prop) : s.Sound G := by
  have hhosts : ∀ host ∈ s.backends.hosts, host.Counted ∧ host.load = 0 ∧
      ∀ proc ∈ host.first, proc.load = 0 := by
    intro host hmem
    obtain ⟨curTs, conf, answers, hrun⟩ := h.hosts host hmem
    exact setDefaultsHost_spec hrun
  refine ⟨⟨fun n host hn => ?_, fun p proc hp => ?_, ?_, fun _ host hmem => ?_⟩, ?_⟩
  · rw [(hhosts host (List.mem_of_getElem? hn)).2.1, h.ctxs]
    rfl
  · obtain ⟨host, hhost, hfirst⟩ := Backends.proc_eq_some hp
    rw [(hhosts host (List.mem_of_getElem? hhost)).2.2 proc (List.mem_of_getElem? hfirst), h.ctxs]
    rfl
  · rw [h.loads]
    simp
  · exact (hhosts host hmem).1
  · rw [h.ctxs]
    simp

theorem FcgiPlugin.Sound.put {s : FcgiPlugin} (h : s.Sound G) {i : Nat} (hi : s.ctxs[i]? = some c)
    (hrun : Accounted G s.backends (c :: s.ctxs.eraseIdx i) → c.Sound →
      handled.Settled G (s.ctxs.eraseIdx i)) : (s.put i handled).Sound G := by
  obtain ⟨hlt, hget⟩ := List.getElem?_eq_some_iff.mp hi
  have hperm : s.ctxs.Perm (c :: s.ctxs.eraseIdx i) := by
    rw [← hget]
    exact (List.getElem_cons_eraseIdx_perm hlt).symm
  have hsettled := hrun (h.accounted.perm hperm) (h.ctxs c (List.mem_of_getElem? hi))
  have hothers : ∀ d ∈ s.ctxs.eraseIdx i, d.Sound := fun d hd =>
    h.ctxs d (List.mem_of_mem_eraseIdx hd)
  unfold FcgiPlugin.put
  unfold FcgiHandled.Settled at hsettled
  cases hleft : handled.left with
  | inl c' =>
    rw [hleft] at hsettled
    have hset : (s.ctxs.set i c').Perm (c' :: s.ctxs.eraseIdx i) :=
      List.set_perm_cons_eraseIdx hlt c'
    refine ⟨hsettled.1.perm hset.symm, fun d hd => ?_⟩
    rcases List.mem_cons.mp (hset.mem_iff.mp hd) with rfl | hd
    · exact hsettled.2
    · exact hothers d hd
  | inr con =>
    rw [hleft] at hsettled
    exact ⟨hsettled, hothers⟩

theorem triggerHosts_spec {restarts : Nat → Nat → RestartAnswer} {waits : Nat → Nat → WaitAnswer} :
    ∀ {hosts hosts' : List FcgiExtensionHost} {n : Nat},
      triggerHosts curTs restarts waits n hosts = some hosts' →
        List.Forall₂ (Maintains G) hosts hosts'
  | [], hosts', _, hrun => by
    obtain rfl := Option.some.inj hrun
    exact List.Forall₂.nil
  | host :: hosts, hosts', n, hrun => by
    simp only [triggerHosts, Option.bind_eq_bind, Option.bind_eq_some_iff,
      Option.some.injEq] at hrun
    obtain ⟨host', hone, rest, hrest, rfl⟩ := hrun
    exact List.Forall₂.cons (triggerHost_spec hone G) (triggerHosts_spec hrest)

variable [Malloc]

theorem FcgiPlugin.Sound.step {s s' : FcgiPlugin} {event : FcgiEvent} (h : s.Sound G)
    (hevent : event.Expected) (hG : G → ¬ s.ReapsRunning event)
    (hrun : s.step event = some s') : s'.Sound G := by
  cases event with
  | check con ext uriPathHandler =>
    simp only [FcgiPlugin.step, Option.bind_eq_bind, Option.bind_eq_some_iff] at hrun
    obtain ⟨⟨ret, left⟩, hcheck, hrun⟩ := hrun
    cases left with
    | inr _ =>
      obtain rfl := Option.some.inj hrun
      exact h
    | inl c =>
      obtain rfl := Option.some.inj hrun
      obtain ⟨con', hcon, rfl⟩ := fcgiCheckExtension_spec hcheck
      refine ⟨?_, fun d hd => ?_⟩
      · exact (h.accounted.add (c := handlerCtxInit con' ext) rfl rfl).perm
          (List.perm_append_singleton _ _).symm
      · rcases List.mem_append.mp hd with hd | hd
        · exact h.ctxs d hd
        · obtain rfl := List.mem_singleton.mp hd
          refine HandlerCtx.Sound.of_fresh (Or.inl rfl) (fun m p hm => ?_) ⟨rfl, rfl, rfl, ?_⟩
          · cases hm
          · change 0 ≤ con'.requestContentQueue.bytesIn
            rw [hcon]
            exact hevent
  | subrequest i answer =>
    simp only [FcgiPlugin.step, Option.bind_eq_bind, Option.bind_eq_some_iff,
      Option.some.injEq] at hrun
    obtain ⟨c, hi, handled, hhandle, rfl⟩ := hrun
    exact h.put hi fun hacc hc => modFastcgiHandleSubrequest_spec hevent hacc hc hhandle
  | fdevent i answer =>
    simp only [FcgiPlugin.step, Option.bind_eq_bind, Option.bind_eq_some_iff,
      Option.some.injEq] at hrun
    obtain ⟨c, hi, -, -, handled, hhandle, rfl⟩ := hrun
    refine h.put hi fun hacc hc => fcgiHandleFdevent_spec hevent ?_ hacc hc hhandle
    intro hg hstate hreadable hfin p proc hp hproc hpid hwait hrunning
    exact hG hg ⟨c, p, proc, hi, hstate, hreadable, hfin, hp, hproc, hpid, hwait, hrunning⟩
  | close i =>
    simp only [FcgiPlugin.step, Option.bind_eq_bind, Option.bind_eq_some_iff,
      Option.some.injEq] at hrun
    obtain ⟨c, hi, ⟨b₁, con⟩, hclose, rfl⟩ := hrun
    exact h.put hi fun hacc hc => fcgiConnectionClose_spec hacc hc.holding hclose
  | trigger restarts waits =>
    simp only [FcgiPlugin.step, Option.bind_eq_bind, Option.bind_eq_some_iff,
      Option.some.injEq] at hrun
    obtain ⟨hosts, hall, rfl⟩ := hrun
    exact ⟨h.accounted.maintained ⟨rfl, triggerHosts_spec hall⟩, h.ctxs⟩
  | tick now =>
    obtain rfl := Option.some.inj hrun
    exact ⟨h.accounted, h.ctxs⟩

/-- The states that events as they are expected lead to; `guard` says more about them. -/
def FcgiPlugin.Run (guard : FcgiPlugin → FcgiEvent → Prop) : FcgiPlugin → Prop :=
  Reachable FcgiPlugin.step (fun s event => event.Expected ∧ guard s event) FcgiPlugin.Started

theorem FcgiPlugin.Run.sound {guard : FcgiPlugin → FcgiEvent → Prop} {s : FcgiPlugin}
    (h : FcgiPlugin.Run guard s) (hG : ∀ s event, guard s event → G → ¬ s.ReapsRunning event) :
    s.Sound G := by
  apply Reachable.invariant (P := FcgiPlugin.Sound G) _ _ h
  · intro s hs
    exact hs.sound G
  · intro s event s' hs hg hrun
    exact hs.step hg.1 (hG s event hg.2) hrun

/-! ## The loads -/

theorem loadsCounted {s : FcgiPlugin} (h : FcgiPlugin.Run (fun _ _ => True) s) :
    (∀ (n : Nat) (host : FcgiExtensionHost), s.backends.hosts[n]? = some host →
      host.load = s.ctxs.countP (HandlerCtx.onHost n)) ∧
    (∀ (p : Nat × Nat) (proc : FcgiProc), s.backends.proc p = some proc →
      proc.load = s.ctxs.countP (HandlerCtx.onProc p)) ∧
    (∀ load ∈ s.backends.loads, 0 ≤ load) ∧
    (s.ctxs = [] → ∀ host ∈ s.backends.hosts,
      host.load = 0 ∧ ∀ proc ∈ host.first, proc.load = 0) := by
  have hsound := h.sound (G := False) fun _ _ _ hfalse => hfalse.elim
  obtain ⟨hhost, hproc, hpublished, -⟩ := hsound.accounted
  refine ⟨hhost, hproc, hpublished, fun hnone host hmem => ?_⟩
  obtain ⟨n, hn⟩ := List.getElem?_of_mem hmem
  refine ⟨?_, fun proc hfirst => ?_⟩
  · rw [hhost n host hn, hnone]
    rfl
  · obtain ⟨i, hi⟩ := List.getElem?_of_mem hfirst
    rw [hproc (n, i) proc (by simp [Backends.proc, hn, hi]), hnone]
    rfl

/-! ## The running processes -/

omit [Malloc] in
theorem chooseProc_some (procs : List FcgiProc) (i : Nat) (best : Nat × Int) :
    (chooseProc procs i (some best)).isSome := by
  induction procs generalizing i best with
  | nil => rfl
  | cons proc procs ih =>
    obtain ⟨k, load⟩ := best
    unfold chooseProc
    split
    · exact ih _ _
    · exact ih _ _

omit [Malloc] in
theorem chooseProc_eq_none {procs : List FcgiProc} {i : Nat} :
    chooseProc procs i none = none ↔ procs.countP (·.state = .running) = 0 := by
  induction procs generalizing i with
  | nil => simp [chooseProc]
  | cons proc procs ih =>
    unfold chooseProc
    by_cases hrunning : proc.state = .running
    · have hsome := chooseProc_some procs (i + 1) (i, proc.load)
      rw [if_pos hrunning, List.countP_cons_of_pos (by simpa using hrunning)]
      constructor
      · intro hnone
        rw [hnone] at hsome
        cases hsome
      · intro hzero
        cases hzero
    · rw [if_neg hrunning, List.countP_cons_of_neg (by simpa using hrunning)]
      exact ih

theorem activeProcsCounted {s : FcgiPlugin}
    (h : FcgiPlugin.Run (fun s event => ¬ s.ReapsRunning event) s) :
    ∀ host ∈ s.backends.hosts, host.activeProcs = host.first.countP (·.state = .running) ∧
      (host.activeProcs = 0 ↔ chooseProc host.first 0 none = none) := by
  intro host hmem
  have hsound := h.sound (G := True) fun _ _ hnot _ => hnot
  have hcount := (hsound.accounted.active trivial host hmem).active
  refine ⟨hcount, ?_⟩
  rw [chooseProc_eq_none, hcount]
  omega

end Code

/-! ## A child that dies -/

def takeAll (wb : Chunkqueue) : Chunkqueue × Int :=
  ({ wb with first := [], bytesOut := wb.bytesOut + (wb.first.map Chunk.unsent).sum }, 0)

theorem takesBytes_takeAll : TakesBytes takeAll := by
  intro wb
  exact ⟨[], _, rfl, by simp⟩

def bodilessConnection : BackendConnection :=
  { connectionInit { mimetypes := arrayInit, allowHttp11 := true } with
    transferEncoding := 0, parsedResponse := 0, responseLength := -1, etag := bufferInit
    rangeRequests := true, errorfilePrefix := bufferInit, tmpChunkLen := bufferInit
    tmpBuf := bufferInit, requestContentQueue := chunkqueueInit, fileStarted := false
    docRoot := bufferInit }

def childHost : FcgiExtensionHost where
  first := []
  unusedProcs := []
  maxProcs := 1
  numProcs := 0
  activeProcs := 0
  maxId := 0
  disableTime := 60
  port := 2000
  unixsocket := bufferInit
  binPath := ⟨ascii "/fcgi" ++ [0], 6, 0⟩
  docroot := bufferInit
  mode := FCGI_RESPONDER
  checkLocal := false
  load := 0

def childServer : FcgiPlugin where
  id := 3
  backends := ⟨(setDefaultsHost 0 childHost fun _ => .child 100).toList, []⟩
  exts := [⟨[0], -1⟩]
  ctxs := []
  curTs := 0

def connected : SubrequestAnswer where
  write := ⟨.ok, .fd 7, true, .ok, [], takeAll⟩
  restarts := fun _ => ⟨.alive, .failed⟩

def childDied : FdeventAnswer where
  revents := ⟨true, false, false, false⟩
  demuxed := ⟨-1, { bodilessConnection with mode := 3 }, chunkqueueInit, bufferInit, true⟩
  wait := .exited
  spawn := .child 101
  subrequest := connected

theorem childServer_started : childServer.Started := by
  refine ⟨fun host hmem => ?_, rfl, rfl⟩
  exact ⟨0, childHost, fun _ => .child 100, Option.mem_toList.mp hmem⟩

def requestSent : List FcgiEvent :=
  [.check bodilessConnection 0 false, .subrequest 0 connected]

theorem requestSent_expected : ∀ event ∈ requestSent, event.Expected := by
  intro event hmem
  rcases List.mem_cons.mp hmem with rfl | hmem
  · exact Int.le_refl 0
  · obtain rfl := List.mem_singleton.mp hmem
    exact takesBytes_takeAll

theorem loadsCounted_requestSent : ∃ s, @FcgiPlugin.Run zeroMalloc (fun _ _ => True) s ∧
    s.ctxs.length = 1 ∧
    (∀ (n : Nat) (host : FcgiExtensionHost), s.backends.hosts[n]? = some host →
      host.load = s.ctxs.countP (HandlerCtx.onHost n)) ∧
    (∀ (p : Nat × Nat) (proc : FcgiProc), s.backends.proc p = some proc →
      proc.load = s.ctxs.countP (HandlerCtx.onProc p)) := by
  have hone : (requestSent.foldlM (@FcgiPlugin.step zeroMalloc) childServer).map
      (fun s => s.ctxs.length) = some 1 := by decide +kernel
  obtain ⟨s, hs, hlen⟩ := Option.map_eq_some_iff.mp hone
  have hrun : @FcgiPlugin.Run zeroMalloc (fun _ _ => True) s := by
    refine Reachable.run ?_ (Reachable.start childServer_started) hs
    intro event hmem _
    exact ⟨requestSent_expected event hmem, trivial⟩
  obtain ⟨hhost, hproc, -⟩ := @loadsCounted zeroMalloc s hrun
  exact ⟨s, hrun, hlen, hhost, hproc⟩

theorem activeProcsCounted_requestSent :
    ∃ s, @FcgiPlugin.Run zeroMalloc (fun s event => ¬ s.ReapsRunning event) s ∧
      s.ctxs.length = 1 ∧
      ∀ host ∈ s.backends.hosts, host.activeProcs = host.first.countP (·.state = .running) ∧
        (host.activeProcs = 0 ↔ chooseProc host.first 0 none = none) := by
  have hone : (requestSent.foldlM (@FcgiPlugin.step zeroMalloc) childServer).map
      (fun s => s.ctxs.length) = some 1 := by decide +kernel
  obtain ⟨s, hs, hlen⟩ := Option.map_eq_some_iff.mp hone
  have hrun : @FcgiPlugin.Run zeroMalloc (fun s event => ¬ s.ReapsRunning event) s := by
    refine Reachable.run ?_ (Reachable.start childServer_started) hs
    intro event hmem t
    refine ⟨requestSent_expected event hmem, ?_⟩
    rcases List.mem_cons.mp hmem with rfl | hmem
    · exact id
    · obtain rfl := List.mem_singleton.mp hmem
      exact id
  exact ⟨s, hrun, hlen, @activeProcsCounted zeroMalloc s hrun⟩

/-- The successor of a running process is counted, and the process still is. -/
theorem activeProcs_childDied : ¬ ∀ s, @FcgiPlugin.Run zeroMalloc (fun _ _ => True) s →
    ∀ host ∈ s.backends.hosts, host.activeProcs = host.first.countP (·.state = .running) := by
  intro hall
  have hdied : ((requestSent ++ [FcgiEvent.fdevent 0 childDied]).foldlM (@FcgiPlugin.step zeroMalloc)
      childServer).map (fun (s : FcgiPlugin) => s.backends.hosts.map fun host =>
        (host.activeProcs, host.first.countP (·.state = .running))) = some [(2, 1)] := by
    decide +kernel
  obtain ⟨s, hs, hcounts⟩ := Option.map_eq_some_iff.mp hdied
  have hrun : @FcgiPlugin.Run zeroMalloc (fun _ _ => True) s := by
    refine Reachable.run ?_ (Reachable.start childServer_started) hs
    intro event hmem _
    rcases List.mem_append.mp hmem with hmem | hmem
    · exact ⟨requestSent_expected event hmem, trivial⟩
    · obtain rfl := List.mem_singleton.mp hmem
      exact ⟨takesBytes_takeAll, trivial⟩
  obtain ⟨host, hhost, hcount⟩ := List.map_eq_singleton_iff.mp hcounts
  have hcounted := hall s hrun host (by simp [hhost])
  obtain ⟨hactive, hrunning⟩ := Prod.mk.inj hcount
  rw [hactive, hrunning] at hcounted
  cases hcounted

end Lighttpd
