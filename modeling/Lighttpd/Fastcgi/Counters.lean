import Lighttpd.Fastcgi.Requests
import Mathlib.Data.List.Perm.Basic
import Mathlib.Data.List.Count

/-!
# What the counters count

`active_procs` counts the running processes of a host, `load` the contexts of a host or a process.
Each operation on the hosts is one of two kinds: it keeps all loads (`Maintains`), or it changes one
load together with the context it is for.
-/

namespace Lighttpd

/-! ## Places in a list -/

theorem forall₂_modify {α : Type} {R : α → α → Prop} (hrefl : ∀ a, R a a) (f : α → α) :
    ∀ (l : List α) (i : Nat), (∀ a, l[i]? = some a → R a (f a)) → List.Forall₂ R l (l.modify i f)
  | [], i, _ => by simp
  | a :: l, 0, h => List.Forall₂.cons (h a rfl) (List.forall₂_same.mpr fun x _ => hrefl x)
  | a :: l, i + 1, h => by
    rw [List.modify_succ_cons]
    exact List.Forall₂.cons (hrefl a) (forall₂_modify hrefl f l i h)

theorem forall₂_set {α : Type} {R : α → α → Prop} (hrefl : ∀ a, R a a) {x : α} :
    ∀ (l : List α) (i : Nat), (∀ a, l[i]? = some a → R a x) → List.Forall₂ R l (l.set i x)
  | [], i, _ => by simp
  | a :: l, 0, h => List.Forall₂.cons (h a rfl) (List.forall₂_same.mpr fun x _ => hrefl x)
  | a :: l, i + 1, h => List.Forall₂.cons (hrefl a) (forall₂_set hrefl l i h)

theorem forall₂_getElem? {α : Type} {R : α → α → Prop} : ∀ {l l' : List α}, List.Forall₂ R l l' →
    ∀ {i : Nat} {b : α}, l'[i]? = some b → ∃ a, l[i]? = some a ∧ R a b
  | _, _, .nil, i, b, h => by simp at h
  | _, _, .cons hab _, 0, b, h => by
    obtain rfl := Option.some.inj h
    exact ⟨_, rfl, hab⟩
  | _, _, .cons _ hl, i + 1, b, h => forall₂_getElem? hl h

theorem countP_modify {α : Type} (q : α → Bool) (f : α → α) : ∀ (l : List α) (i : Nat) {a : α},
    l[i]? = some a →
      (l.modify i f).countP q + (if q a then 1 else 0) = l.countP q + if q (f a) then 1 else 0
  | [], i, a, h => by simp at h
  | x :: l, 0, a, h => by
    obtain rfl := Option.some.inj h
    rw [List.modify_zero_cons, List.countP_cons, List.countP_cons]
    omega
  | x :: l, i + 1, a, h => by
    have ih := countP_modify q f l i h
    rw [List.modify_succ_cons, List.countP_cons, List.countP_cons]
    omega

/-! ## Running processes -/

/-- `active_procs` is the number of running processes. Adaptive spawning is disabled, so there are
no unused ones. -/
structure FcgiExtensionHost.Counted (host : FcgiExtensionHost) : Prop where
  active : host.activeProcs = host.first.countP (·.state = .running)
  unused : host.unusedProcs = []

/-- The loads stay as they are, and if `G` holds the count of the running processes stays right. -/
structure Maintains (G : Prop) (host host' : FcgiExtensionHost) : Prop where
  load : host'.load = host.load
  loads : host'.first.map (·.load) = host.first.map (·.load)
  counted : G → host.Counted → host'.Counted

theorem Maintains.refl (G : Prop) (host : FcgiExtensionHost) : Maintains G host host :=
  ⟨rfl, rfl, fun _ h => h⟩

def FcgiProc.active (proc : FcgiProc) : Int := if proc.state = .running then 1 else 0

theorem fcgiSpawnConnection_spec {curTs active active' : Int} {proc proc' : FcgiProc}
    {answer : SpawnAnswer} (h : fcgiSpawnConnection curTs active proc answer = some (active', proc')) :
    active' = active + 1 ∧ proc'.state = .running ∧ proc'.load = proc.load := by
  cases answer with
  | failed => cases h
  | inUse | child _ | forkFailed =>
    obtain ⟨rfl, rfl⟩ := Prod.mk.inj (Option.some.inj h)
    exact ⟨rfl, rfl, rfl⟩

theorem restartDied_spec (curTs : Int) (binPath : Buffer) (active : Int) {proc : FcgiProc}
    (answer : RestartAnswer) (hproc : proc.active = 0) :
    (restartDied curTs binPath active proc answer).1 =
        active + (restartDied curTs binPath active proc answer).2.1.active ∧
      (restartDied curTs binPath active proc answer).2.1.load = proc.load := by
  unfold restartDied
  split
  · split
    · simp [hproc]
    · cases hspawn : fcgiSpawnConnection curTs active proc answer.spawn with
      | none => simp [hproc]
      | some found =>
        obtain ⟨active', proc'⟩ := found
        obtain ⟨rfl, hrun, hload⟩ := fcgiSpawnConnection_spec hspawn
        simp [FcgiProc.active, hrun, hload]
  · split
    · simp [hproc]
    · simp [FcgiProc.active]

theorem restartProc_spec {curTs active active' : Int} {binPath : Buffer} {proc proc' : FcgiProc}
    {answer : RestartAnswer} {stop : Bool}
    (h : restartProc curTs binPath active proc answer = some (active', proc', stop)) :
    active' + proc.active = active + proc'.active ∧ proc'.load = proc.load := by
  have hdied : ∀ q : FcgiProc, q.active = 0 → q.load = proc.load → proc.active = 0 →
      some (restartDied curTs binPath active q answer) = some (active', proc', stop) →
      active' + proc.active = active + proc'.active ∧ proc'.load = proc.load := by
    intro q hq hload hproc heq
    obtain ⟨h1, h2⟩ := restartDied_spec curTs binPath active answer hq
    rw [Option.some.inj heq] at h1 h2
    simp only at h1 h2
    exact ⟨by omega, h2.trans hload⟩
  unfold restartProc at h
  split at h
  · cases h
  · cases h
  · cases h
    exact ⟨rfl, rfl⟩
  · next hstate =>
    split at h
    · cases h
      exact ⟨rfl, rfl⟩
    · cases h
      simp [FcgiProc.active, hstate]
  · next hstate =>
    have hproc : proc.active = 0 := by simp [FcgiProc.active, hstate]
    split at h
    · exact hdied { proc with state := .died } rfl rfl hproc h
    · split at h
      · split at h
        · cases h
          exact ⟨rfl, rfl⟩
        · cases h
          simp [FcgiProc.active, hstate]
      · exact hdied { proc with state := .died } rfl rfl hproc h
      · exact hdied { proc with state := .died } rfl rfl hproc h
  · next hstate =>
    have hproc : proc.active = 0 := by simp [FcgiProc.active, hstate]
    exact hdied proc hproc rfl hproc h

theorem countP_cons_active (proc : FcgiProc) (procs : List FcgiProc) :
    (((proc :: procs).countP (·.state = .running) : Nat) : Int) =
      proc.active + (procs.countP (·.state = .running) : Nat) := by
  rw [List.countP_cons, FcgiProc.active]
  by_cases h : proc.state = .running
  · simp [h]
    omega
  · simp [h]

theorem restartProcs_spec {curTs : Int} {binPath : Buffer} {answers : Nat → RestartAnswer} :
    ∀ {procs procs' : List FcgiProc} {i : Nat} {active active' : Int},
      restartProcs curTs binPath answers i active procs = some (active', procs') →
        active' + (procs.countP (·.state = .running) : Nat) =
            active + (procs'.countP (·.state = .running) : Nat) ∧
          procs'.map (·.load) = procs.map (·.load)
  | [], procs', i, active, active', h => by
    cases h
    exact ⟨rfl, rfl⟩
  | proc :: procs, procs', i, active, active', h => by
    unfold restartProcs at h
    cases hone : restartProc curTs binPath active proc (answers i) with
    | none =>
      rw [hone] at h
      cases h
    | some found =>
      obtain ⟨active₁, proc₁, stop⟩ := found
      obtain ⟨hactive, hload⟩ := restartProc_spec hone
      rw [hone] at h
      cases stop with
      | true =>
        cases h
        rw [countP_cons_active, countP_cons_active]
        exact ⟨by omega, by rw [List.map_cons, List.map_cons, hload]⟩
      | false =>
        simp only [Option.map_eq_some_iff] at h
        obtain ⟨⟨active₂, procs₂⟩, hrest, heq⟩ := h
        simp only [Prod.mk.injEq] at heq
        obtain ⟨rfl, rfl⟩ := heq
        obtain ⟨hrest₁, hrest₂⟩ := restartProcs_spec hrest
        rw [countP_cons_active, countP_cons_active]
        exact ⟨by omega, by rw [List.map_cons, List.map_cons, hload, hrest₂]⟩

theorem fcgiRestartDeadProcs_spec {curTs : Int} {host host' : FcgiExtensionHost}
    {answers : Nat → RestartAnswer} (h : fcgiRestartDeadProcs curTs host answers = some host')
    (G : Prop) : Maintains G host host' := by
  simp only [fcgiRestartDeadProcs, Option.map_eq_some_iff] at h
  obtain ⟨⟨active, procs⟩, hrun, rfl⟩ := h
  obtain ⟨hactive, hloads⟩ := restartProcs_spec hrun
  refine ⟨rfl, hloads, fun _ hcount => ⟨?_, hcount.unused⟩⟩
  have hold := hcount.active
  simp only
  omega

theorem reapUnused_spec (waits : Nat → WaitAnswer) : ∀ (procs : List FcgiProc) (i : Nat)
    (host : FcgiExtensionHost), (reapUnused waits i host procs).1.load = host.load ∧
      (reapUnused waits i host procs).1.first = host.first
  | [], _, _ => ⟨rfl, rfl⟩
  | proc :: procs, i, host => by
    unfold reapUnused
    simp only
    split
    · exact reapUnused_spec waits procs (i + 1) _
    · exact reapUnused_spec waits procs (i + 1) _

theorem triggerHost_spec {curTs : Int} {host host' : FcgiExtensionHost}
    {restarts : Nat → RestartAnswer} {waits : Nat → WaitAnswer}
    (h : triggerHost curTs host restarts waits = some host') (G : Prop) : Maintains G host host' := by
  simp only [triggerHost, Option.map_eq_some_iff] at h
  obtain ⟨host₁, hrestart, rfl⟩ := h
  have hone := fcgiRestartDeadProcs_spec hrestart G
  obtain ⟨hload, hfirst⟩ := reapUnused_spec waits host₁.unusedProcs 0 host₁
  refine ⟨hload.trans hone.load, ?_, fun hG hcount => ?_⟩
  · rw [← hone.loads, ← hfirst]
  · have hcount' := hone.counted hG hcount
    rw [hcount'.unused]
    exact ⟨hcount'.active, rfl⟩

/-! ## The hosts as a whole -/

/-- Only one kind of change: no load is another one afterwards. -/
structure Maintained (G : Prop) (b b' : Backends) : Prop where
  loads : b'.loads = b.loads
  hosts : List.Forall₂ (Maintains G) b.hosts b'.hosts

namespace Maintained

variable {G : Prop} {b b' : Backends}

theorem refl (G : Prop) (b : Backends) : Maintained G b b :=
  ⟨rfl, List.forall₂_same.mpr fun host _ => Maintains.refl G host⟩

theorem modifyHost (h : Nat) {f : FcgiExtensionHost → FcgiExtensionHost}
    (hf : ∀ host, b.hosts[h]? = some host → Maintains G host (f host)) :
    Maintained G b (b.modifyHost h f) :=
  ⟨rfl, forall₂_modify (Maintains.refl G) f b.hosts h hf⟩

theorem setHost {h : Nat} {host host' : FcgiExtensionHost} (hh : b.hosts[h]? = some host)
    (hm : Maintains G host host') : Maintained G b { b with hosts := b.hosts.set h host' } := by
  refine ⟨rfl, forall₂_set (Maintains.refl G) b.hosts h fun old hold => ?_⟩
  obtain rfl := Option.some.inj (hh.symm.trans hold)
  exact hm

theorem host (hm : Maintained G b b') {h : Nat} {host' : FcgiExtensionHost}
    (hh : b'.hosts[h]? = some host') :
    ∃ host, b.hosts[h]? = some host ∧ Maintains G host host' :=
  forall₂_getElem? hm.hosts hh

theorem proc (hm : Maintained G b b') {p : Nat × Nat} {proc' : FcgiProc}
    (hp : b'.proc p = some proc') : ∃ proc, b.proc p = some proc ∧ proc'.load = proc.load := by
  simp only [Backends.proc, Option.bind_eq_bind, Option.bind_eq_some_iff] at hp ⊢
  obtain ⟨host', hh, hp⟩ := hp
  obtain ⟨host, hhost, hmaint⟩ := hm.host hh
  have hloads := congrArg (·[p.2]?) hmaint.loads
  simp only [List.getElem?_map, hp, Option.map_some] at hloads
  cases hq : host.first[p.2]? with
  | none =>
    rw [hq] at hloads
    cases hloads
  | some proc =>
    rw [hq] at hloads
    exact ⟨proc, ⟨host, hhost, hq⟩, Option.some.inj hloads⟩

end Maintained

theorem Backends.modifyHost_modifyHost (b : Backends) (h : Nat)
    (f g : FcgiExtensionHost → FcgiExtensionHost) :
    (b.modifyHost h f).modifyHost h g = b.modifyHost h (g ∘ f) := by
  simp only [Backends.modifyHost, List.modify_modify_eq]

theorem Backends.proc_eq_some {b : Backends} {p : Nat × Nat} {proc : FcgiProc}
    (hp : b.proc p = some proc) :
    ∃ host, b.hosts[p.1]? = some host ∧ host.first[p.2]? = some proc := by
  simpa only [Backends.proc, Option.bind_eq_bind, Option.bind_eq_some_iff] using hp

theorem Maintains.modifyFirst {G : Prop} {host : FcgiExtensionHost} {i : Nat} {proc : FcgiProc}
    (hproc : host.first[i]? = some proc) {f : FcgiProc → FcgiProc} (hload : (f proc).load = proc.load)
    {active : Int} (hactive : G → active + proc.active = host.activeProcs + (f proc).active) :
    Maintains G host { host with first := host.first.modify i f, activeProcs := active } := by
  refine ⟨rfl, ?_, fun hG hcount => ⟨?_, hcount.unused⟩⟩
  · apply List.ext_getElem?
    intro j
    simp only [List.getElem?_map, List.getElem?_modify]
    split
    · next hij => simp [← hij, hproc, hload]
    · simp
  · have hmod := countP_modify (fun q => decide (q.state = .running)) f host.first i hproc
    have hold := hcount.active
    have hnew := hactive hG
    simp only [FcgiProc.active] at hnew
    simp only [decide_eq_true_eq] at hmod
    simp only
    by_cases hrun : proc.state = .running
    · by_cases hrun' : (f proc).state = .running
      · simp only [hrun, hrun', if_true] at hmod hnew
        omega
      · simp only [hrun, hrun', if_true, if_false] at hmod hnew
        omega
    · by_cases hrun' : (f proc).state = .running
      · simp only [hrun, hrun', if_true, if_false] at hmod hnew
        omega
      · simp only [hrun, hrun', if_false] at hmod hnew
        omega

theorem Maintained.stopProc (G : Prop) {b : Backends} {h i : Nat} {proc : FcgiProc}
    (hproc : b.proc (h, i) = some proc) {f : FcgiProc → FcgiProc}
    (hload : (f proc).load = proc.load) (hstate : (f proc).state ≠ .running) :
    Maintained G b (if proc.state = .running then
      (b.modifyProc (h, i) f).modifyHost h fun host => { host with
        activeProcs := host.activeProcs - 1 }
      else b.modifyProc (h, i) f) := by
  obtain ⟨host, hhost, hfirst⟩ := Backends.proc_eq_some hproc
  simp only at hhost hfirst
  have hf : (f proc).active = 0 := if_neg hstate
  split
  · next hrun =>
    rw [Backends.modifyProc, Backends.modifyHost_modifyHost]
    apply Maintained.modifyHost
    intro host' hhost'
    obtain rfl := Option.some.inj (hhost.symm.trans hhost')
    apply Maintains.modifyFirst hfirst hload
    intro _
    rw [hf]
    simp only [FcgiProc.active, if_pos hrun]
    omega
  · next hrun =>
    apply Maintained.modifyHost
    intro host' hhost'
    obtain rfl := Option.some.inj (hhost.symm.trans hhost')
    apply Maintains.modifyFirst hfirst hload
    intro _
    rw [hf]
    simp only [FcgiProc.active, if_neg hrun]

theorem Maintained.touch (G : Prop) (b : Backends) (p : Nat × Nat) (curTs : Int) :
    Maintained G b (b.modifyProc p fun proc => { proc with lastUsed := curTs }) := by
  apply Maintained.modifyHost
  intro host _
  cases hproc : host.first[p.2]? with
  | none =>
    rw [List.modify_eq_self (List.getElem?_eq_none_iff.mp hproc)]
    exact Maintains.refl G host
  | some proc =>
    apply Maintains.modifyFirst hproc
    · rfl
    · intro _
      rfl

/-! ## The loads -/

def HandlerCtx.onHost (h : Nat) (c : HandlerCtx) : Bool := decide (c.host = some h)

def HandlerCtx.onProc (p : Nat × Nat) (c : HandlerCtx) : Bool :=
  c.gotProc && decide (c.proc = some p)

/-- The loads count the contexts, no published one was below zero, and if `G` holds the running
processes are counted. -/
structure Accounted (G : Prop) (b : Backends) (ctxs : List HandlerCtx) : Prop where
  host : ∀ (h : Nat) (host : FcgiExtensionHost), b.hosts[h]? = some host →
    host.load = ctxs.countP (HandlerCtx.onHost h)
  proc : ∀ (p : Nat × Nat) (proc : FcgiProc), b.proc p = some proc →
    proc.load = ctxs.countP (HandlerCtx.onProc p)
  published : ∀ load ∈ b.loads, 0 ≤ load
  active : G → ∀ host ∈ b.hosts, host.Counted

/-- The loads of hosts change by `dh` and those of processes by `dp`, and `load` is published. -/
structure LoadStep (dh : Nat → Int) (dp : Nat × Nat → Int) (load : Int) (b b' : Backends) : Prop where
  host : ∀ (h : Nat) (host' : FcgiExtensionHost), b'.hosts[h]? = some host' →
    ∃ host, b.hosts[h]? = some host ∧ host'.load = host.load + dh h ∧
      (host.Counted → host'.Counted)
  proc : ∀ (p : Nat × Nat) (proc' : FcgiProc), b'.proc p = some proc' →
    ∃ proc, b.proc p = some proc ∧ proc'.load = proc.load + dp p
  published : b'.loads = b.loads ++ [load]

theorem Backends.proc_modifyHost {b : Backends} {h : Nat} {f : FcgiExtensionHost → FcgiExtensionHost}
    (hf : ∀ host, (f host).first = host.first) (p : Nat × Nat) :
    (b.modifyHost h f).proc p = b.proc p := by
  simp only [Backends.proc, Backends.modifyHost, List.getElem?_modify, Option.bind_eq_bind,
    Option.map_eq_map]
  cases b.hosts[p.1]? with
  | none => rfl
  | some host =>
    simp only [Option.map_some, Option.bind_some]
    split
    · rw [hf]
    · rfl

theorem Backends.proc_modifyProc (b : Backends) (p q : Nat × Nat) (f : FcgiProc → FcgiProc) :
    (b.modifyProc p f).proc q = if p = q then (b.proc q).map f else b.proc q := by
  obtain ⟨h, i⟩ := p
  obtain ⟨n, j⟩ := q
  simp only [Backends.proc, Backends.modifyProc, Backends.modifyHost, List.getElem?_modify,
    Option.bind_eq_bind, Option.map_eq_map, Prod.mk.injEq]
  cases b.hosts[n]? with
  | none => simp
  | some host =>
    by_cases hh : h = n
    · by_cases hi : i = j
      · simp [hh, hi]
      · simp [hh, hi]
    · simp [hh]

theorem hostLoadBy_spec {d : Int} {b b' : Backends} {h : Nat} (hrun : hostLoadBy d b h = some b') :
    ∃ host, b.hosts[h]? = some host ∧
      LoadStep (fun n => if n = h then d else 0) (fun _ => 0) (host.load + d) b b' := by
  simp only [hostLoadBy, Option.bind_eq_bind, Option.bind_eq_some_iff, Option.some.injEq] at hrun
  obtain ⟨host, hhost, rfl⟩ := hrun
  refine ⟨host, hhost, fun n host' hn => ?_, fun p proc' hp => ?_, rfl⟩
  · simp only [Backends.modifyHost, List.getElem?_modify, Option.map_eq_map,
      Option.map_eq_some_iff] at hn
    obtain ⟨old, hold, rfl⟩ := hn
    refine ⟨old, hold, ?_, fun hcount => ?_⟩
    · by_cases hh : h = n
      · simp [hh]
      · simp [hh, Ne.symm hh]
    · split
      · exact ⟨hcount.active, hcount.unused⟩
      · exact hcount
  · have hsame : (b.modifyHost h fun host => { host with load := host.load + d }).proc p =
        b.proc p := by
      apply Backends.proc_modifyHost
      intro _
      rfl
    exact ⟨proc', hsame.symm.trans hp, by simp⟩

theorem procLoadBy_spec {d : Int} {b b' : Backends} {p : Nat × Nat}
    (hrun : procLoadBy d b p = some b') :
    ∃ proc, b.proc p = some proc ∧
      LoadStep (fun _ => 0) (fun q => if q = p then d else 0) (proc.load + d) b b' := by
  simp only [procLoadBy, Option.bind_eq_bind, Option.bind_eq_some_iff, Option.some.injEq] at hrun
  obtain ⟨proc, hproc, rfl⟩ := hrun
  refine ⟨proc, hproc, fun n host' hn => ?_, fun q proc' hq => ?_, rfl⟩
  · simp only [Backends.modifyProc, Backends.modifyHost, List.getElem?_modify, Option.map_eq_map,
      Option.map_eq_some_iff] at hn
    obtain ⟨old, hold, rfl⟩ := hn
    refine ⟨old, hold, ?_, fun hcount => ?_⟩
    · split <;> simp
    · split
      · refine ⟨?_, hcount.unused⟩
        have hsame : (old.first.modify p.2 fun proc => { proc with load := proc.load + d }).countP
            (·.state = .running) = old.first.countP (·.state = .running) := by
          cases hp : old.first[p.2]? with
          | none => rw [List.modify_eq_self (List.getElem?_eq_none_iff.mp hp)]
          | some proc =>
            have := countP_modify (fun q => decide (q.state = .running))
              (fun proc => { proc with load := proc.load + d }) old.first p.2 hp
            simp only at this
            omega
        simp only [hsame]
        exact hcount.active
      · exact hcount
  · have hmod := Backends.proc_modifyProc b p q fun proc => { proc with load := proc.load + d }
    change (b.modifyProc p _).proc q = some proc' at hq
    rw [hmod] at hq
    split at hq
    · next hpq =>
      obtain ⟨old, hold, rfl⟩ := Option.map_eq_some_iff.mp hq
      exact ⟨old, hold, by simp [hpq]⟩
    · next hpq => exact ⟨proc', hq, by simp [Ne.symm hpq]⟩

namespace Accounted

variable {G : Prop} {b b' : Backends} {c c' : HandlerCtx} {ctxs ctxs' : List HandlerCtx}

theorem perm (h : Accounted G b ctxs) (hp : ctxs.Perm ctxs') : Accounted G b ctxs' :=
  ⟨fun n host hn => by rw [h.host n host hn, hp.countP_eq],
    fun p proc hn => by rw [h.proc p proc hn, hp.countP_eq], h.published, h.active⟩

theorem maintained (h : Accounted G b ctxs) (hm : Maintained G b b') : Accounted G b' ctxs := by
  refine ⟨fun n host' hn => ?_, fun p proc' hp => ?_, ?_, fun hG host' hmem => ?_⟩
  · obtain ⟨host, hhost, hmaint⟩ := hm.host hn
    rw [hmaint.load, h.host n host hhost]
  · obtain ⟨proc, hproc, hload⟩ := hm.proc hp
    rw [hload, h.proc p proc hproc]
  · rw [hm.loads]
    exact h.published
  · obtain ⟨n, hn⟩ := List.getElem?_of_mem hmem
    obtain ⟨host, hhost, hmaint⟩ := hm.host hn
    exact hmaint.counted hG (h.active hG host (List.mem_of_getElem? hhost))

theorem congr (h : Accounted G b (c :: ctxs)) (hhost : c'.host = c.host)
    (hgot : c'.gotProc = c.gotProc) (hproc : c.gotProc = true → c'.proc = c.proc) :
    Accounted G b (c' :: ctxs) := by
  refine ⟨fun n host hn => ?_, fun p proc hp => ?_, h.published, h.active⟩
  · rw [h.host n host hn, List.countP_cons, List.countP_cons, HandlerCtx.onHost,
      HandlerCtx.onHost, hhost]
  · have hone : c'.onProc p = c.onProc p := by
      rw [HandlerCtx.onProc, HandlerCtx.onProc, hgot]
      cases hg : c.gotProc with
      | false => rfl
      | true => rw [hproc hg]
    rw [h.proc p proc hp, List.countP_cons, List.countP_cons, hone]

theorem drop (h : Accounted G b (c :: ctxs)) (hhost : c.host = none) (hgot : c.gotProc = false) :
    Accounted G b ctxs := by
  refine ⟨fun n host hn => ?_, fun p proc hp => ?_, h.published, h.active⟩
  · rw [h.host n host hn, List.countP_cons, HandlerCtx.onHost, hhost]
    rfl
  · rw [h.proc p proc hp, List.countP_cons, HandlerCtx.onProc, hgot]
    rfl

theorem add (h : Accounted G b ctxs) (hhost : c.host = none) (hgot : c.gotProc = false) :
    Accounted G b (c :: ctxs) := by
  refine ⟨fun n host hn => ?_, fun p proc hp => ?_, h.published, h.active⟩
  · rw [h.host n host hn, List.countP_cons, HandlerCtx.onHost, hhost]
    rfl
  · rw [h.proc p proc hp, List.countP_cons, HandlerCtx.onProc, hgot]
    rfl

theorem loadStep {dh : Nat → Int} {dp : Nat × Nat → Int} {load : Int} (h : Accounted G b ctxs)
    (hs : LoadStep dh dp load b b')
    (hhost : ∀ n, ((ctxs'.countP (HandlerCtx.onHost n) : Nat) : Int) =
      ctxs.countP (HandlerCtx.onHost n) + dh n)
    (hproc : ∀ p, ((ctxs'.countP (HandlerCtx.onProc p) : Nat) : Int) =
      ctxs.countP (HandlerCtx.onProc p) + dp p) (hload : 0 ≤ load) : Accounted G b' ctxs' := by
  refine ⟨fun n host' hn => ?_, fun p proc' hp => ?_, fun x hx => ?_, fun hG host' hmem => ?_⟩
  · obtain ⟨host, hold, heq, -⟩ := hs.host n host' hn
    rw [heq, h.host n host hold, hhost]
  · obtain ⟨proc, hold, heq⟩ := hs.proc p proc' hp
    rw [heq, h.proc p proc hold, hproc]
  · rw [hs.published] at hx
    rcases List.mem_append.mp hx with hx | hx
    · exact h.published x hx
    · obtain rfl := List.mem_singleton.mp hx
      exact hload
  · obtain ⟨n, hn⟩ := List.getElem?_of_mem hmem
    obtain ⟨host, hold, -, hcount⟩ := hs.host n host' hn
    exact hcount (h.active hG host (List.mem_of_getElem? hold))

theorem assign (h : Accounted G b (c :: ctxs)) (hc : c.host = none) {n : Nat}
    (hrun : hostLoadBy 1 b n = some b') : Accounted G b' ({ c with host := some n } :: ctxs) := by
  obtain ⟨host, hhost, hs⟩ := hostLoadBy_spec hrun
  refine h.loadStep hs (fun m => ?_) (fun p => ?_) ?_
  · rw [List.countP_cons, List.countP_cons]
    by_cases hm : m = n
    · simp [HandlerCtx.onHost, hc, hm]
    · simp [HandlerCtx.onHost, hc, hm, Ne.symm hm]
  · rw [List.countP_cons, List.countP_cons, Int.add_zero]
    rfl
  · have hload := h.host n host hhost
    omega

theorem reset (h : Accounted G b (c :: ctxs)) {n : Nat} (hc : c.host = some n)
    (hrun : hostLoadBy (-1) b n = some b') : Accounted G b' ({ c with host := none } :: ctxs) := by
  obtain ⟨host, hhost, hs⟩ := hostLoadBy_spec hrun
  refine h.loadStep hs (fun m => ?_) (fun p => ?_) ?_
  · rw [List.countP_cons, List.countP_cons]
    by_cases hm : m = n
    · have hold : c.onHost m = true := by simp [HandlerCtx.onHost, hc, hm]
      have hnew : HandlerCtx.onHost m { c with host := none } = false := by
        simp [HandlerCtx.onHost]
      simp only [hold, hnew, if_pos hm, Bool.false_eq_true, if_false, if_true]
      omega
    · simp [HandlerCtx.onHost, hc, hm, Ne.symm hm]
  · rw [List.countP_cons, List.countP_cons, Int.add_zero]
    rfl
  · have hload := h.host n host hhost
    rw [List.countP_cons] at hload
    simp only [HandlerCtx.onHost, hc, decide_true, if_true] at hload
    omega

theorem inc (h : Accounted G b (c :: ctxs)) (hc : c.gotProc = false) {p : Nat × Nat}
    (hp : c.proc = some p) (hrun : fcgiProcLoadInc b p = some b') :
    Accounted G b' ({ c with gotProc := true } :: ctxs) := by
  obtain ⟨proc, hproc, hs⟩ := procLoadBy_spec hrun
  refine h.loadStep hs (fun m => ?_) (fun q => ?_) ?_
  · rw [List.countP_cons, List.countP_cons, Int.add_zero]
    rfl
  · rw [List.countP_cons, List.countP_cons]
    by_cases hq : q = p
    · simp [HandlerCtx.onProc, hc, hp, hq]
    · simp [HandlerCtx.onProc, hc, hp, hq, Ne.symm hq]
  · have hload := h.proc p proc hproc
    omega

theorem dec (h : Accounted G b (c :: ctxs)) (hc : c.gotProc = true) {p : Nat × Nat}
    (hp : c.proc = some p) (hrun : fcgiProcLoadDec b p = some b') :
    Accounted G b' ({ c with gotProc := false } :: ctxs) := by
  obtain ⟨proc, hproc, hs⟩ := procLoadBy_spec hrun
  refine h.loadStep hs (fun m => ?_) (fun q => ?_) ?_
  · rw [List.countP_cons, List.countP_cons, Int.add_zero]
    rfl
  · rw [List.countP_cons, List.countP_cons]
    by_cases hq : q = p
    · have hold : c.onProc q = true := by simp [HandlerCtx.onProc, hc, hp, hq]
      have hnew : HandlerCtx.onProc q { c with gotProc := false } = false := rfl
      simp only [hold, hnew, if_pos hq, Bool.false_eq_true, if_false, if_true]
      omega
    · simp [HandlerCtx.onProc, hc, hp, hq, Ne.symm hq]
  · have hload := h.proc p proc hproc
    rw [List.countP_cons] at hload
    simp only [HandlerCtx.onProc, hc, hp, decide_true, Bool.and_self, if_true] at hload
    omega

end Accounted

end Lighttpd
