import Lighttpd.Fastcgi.Counters
import Lighttpd.Fastcgi.Framing

/-!
# What a context holds

Between two events every context is in one of four states, and what it holds follows from the state
(`HandlerCtx.Sound`): the load of a process is taken once, when the connection is there, and given
back once. Each handler keeps the counters right for the other contexts and for what it leaves.
-/

namespace Lighttpd

open CLib

structure HandlerCtx.Sound (c : HandlerCtx) : Prop where
  bound : ∀ h p, c.host = some h → c.proc = some p → p.1 = h
  state : c.state = .init ∨ c.state = .connectDelayed ∨ c.state = .write ∨ c.state = .read
  fresh : c.state = .init ∨ c.state = .connectDelayed →
    c.gotProc = false ∧ c.wb = chunkqueueInit ∧ c.requestId = 0 ∧
      0 ≤ c.remoteConn.requestContentQueue.bytesIn
  connected : c.state = .write ∨ c.state = .read →
    c.gotProc = true ∧ c.host.isSome ∧ c.proc.isSome ∧ 0 < c.wb.bytesIn
  sent : c.state = .read → c.wb.bytesOut = c.wb.bytesIn

def HandlerCtx.Holding (c : HandlerCtx) : Prop :=
  c.gotProc = true → c.host.isSome ∧ c.proc.isSome

theorem HandlerCtx.Sound.holding {c : HandlerCtx} (h : c.Sound) : c.Holding := by
  intro hgot
  rcases h.state with hs | hs | hs | hs
  · exact absurd hgot (by rw [(h.fresh (Or.inl hs)).1]; decide)
  · exact absurd hgot (by rw [(h.fresh (Or.inr hs)).1]; decide)
  · exact ⟨(h.connected (Or.inl hs)).2.1, (h.connected (Or.inl hs)).2.2.1⟩
  · exact ⟨(h.connected (Or.inr hs)).2.1, (h.connected (Or.inr hs)).2.2.1⟩

theorem HandlerCtx.Sound.of_fresh {c : HandlerCtx} (hstate : c.state = .init ∨ c.state = .connectDelayed)
    (hbound : ∀ h p, c.host = some h → c.proc = some p → p.1 = h)
    (hfresh : c.gotProc = false ∧ c.wb = chunkqueueInit ∧ c.requestId = 0 ∧
      0 ≤ c.remoteConn.requestContentQueue.bytesIn) : c.Sound := by
  refine ⟨hbound, ?_, fun _ => hfresh, ?_, ?_⟩
  · rcases hstate with hs | hs
    · exact Or.inl hs
    · exact Or.inr (Or.inl hs)
  · rcases hstate with hs | hs
    · simp [hs]
    · simp [hs]
  · rcases hstate with hs | hs
    · simp [hs]
    · simp [hs]

def Chunk.unsent (c : Chunk) : Int :=
  match c.type with
  | .mem => c.mem.used - 1 - c.offset
  | .file => c.file.length - c.offset
  | .unused => 0

/-- `network_backend_write` takes bytes off the chunks, and adds their number to `bytes_out`. -/
def TakesBytes (write : Chunkqueue → Chunkqueue × Int) : Prop :=
  ∀ wb, ∃ (first : List Chunk) (n : Int),
    (write wb).1 = { wb with first := first, bytesOut := wb.bytesOut + n } ∧
      (first.map Chunk.unsent).sum + n = (wb.first.map Chunk.unsent).sum

theorem TakesBytes.bytesIn {write : Chunkqueue → Chunkqueue × Int} (h : TakesBytes write)
    (wb : Chunkqueue) : (write wb).1.bytesIn = wb.bytesIn := by
  obtain ⟨first, n, heq, -⟩ := h wb
  rw [heq]

section Code

variable {G : Prop} {b b' : Backends} {c c' : HandlerCtx} {ctxs : List HandlerCtx} {curTs : Int}
  {exts : List FcgiExtension} {handled : FcgiHandled}

theorem handlerCtxFree_spec (h : Accounted G b (c :: ctxs)) (hgot : c.gotProc = false)
    (hrun : handlerCtxFree b c = some b') : Accounted G b' ctxs := by
  unfold handlerCtxFree at hrun
  cases hhost : c.host with
  | none =>
    rw [hhost] at hrun
    obtain rfl := Option.some.inj hrun
    exact h.drop hhost hgot
  | some n =>
    rw [hhost] at hrun
    exact (h.reset hhost hrun).drop rfl hgot

theorem releaseProc_free (hgot : c.gotProc = false) : releaseProc b c = some b := by
  unfold releaseProc
  split
  · rw [hgot]
    rfl
  · rfl

theorem fcgiConnectionClose_spec {con : BackendConnection} (h : Accounted G b (c :: ctxs))
    (hc : c.Holding) (hrun : fcgiConnectionClose b c = some (b', con)) : Accounted G b' ctxs := by
  simp only [fcgiConnectionClose, Option.bind_eq_bind, Option.bind_eq_some_iff,
    Option.some.injEq, Prod.mk.injEq] at hrun
  obtain ⟨b₁, hreleased, b₂, hfreed, rfl, -⟩ := hrun
  cases hgot : c.gotProc with
  | false =>
    rw [releaseProc_free hgot, ite_self] at hreleased
    obtain rfl := Option.some.inj hreleased
    exact handlerCtxFree_spec h hgot hfreed
  | true =>
    obtain ⟨hhost, hproc⟩ := hc hgot
    obtain ⟨p, hp⟩ := Option.isSome_iff_exists.mp hproc
    rw [if_pos hhost, releaseProc, hp] at hreleased
    simp only [hgot, if_true] at hreleased
    have hdec := h.dec hgot hp hreleased
    exact handlerCtxFree_spec hdec rfl hfreed

theorem fcgiReconnect_spec (h : Accounted G b (c :: ctxs)) (hc : c.Sound)
    (hstate : c.state = .init ∨ c.state = .connectDelayed)
    (hrun : fcgiReconnect b c = some (b', c')) : Accounted G b' (c' :: ctxs) ∧ c'.Sound := by
  obtain ⟨hgot, hwb, -, hin⟩ := hc.fresh hstate
  simp only [fcgiReconnect, fcgiHostReset, Option.bind_eq_bind, Option.bind_eq_some_iff,
    Option.some.injEq, Prod.mk.injEq] at hrun
  obtain ⟨b₁, hreleased, n, hn, b₂, hreset, rfl, rfl⟩ := hrun
  rw [releaseProc_free (by exact hgot)] at hreleased
  obtain rfl := Option.some.inj hreleased
  refine ⟨(h.reset hn hreset).congr rfl rfl fun _ => rfl, ?_⟩
  apply HandlerCtx.Sound.of_fresh (Or.inl rfl)
  · intro m p hm
    cases hm
  · exact ⟨hgot, hwb, rfl, hin⟩

def FcgiHandled.Settled (G : Prop) (ctxs : List HandlerCtx) (handled : FcgiHandled) : Prop :=
  match handled.left with
  | .inl c => Accounted G handled.backends (c :: ctxs) ∧ c.Sound
  | .inr _ => Accounted G handled.backends ctxs

theorem FcgiHandled.settled_closed (h : Accounted G b (c :: ctxs)) (hc : c.Holding) {ret : HandlerT}
    {f : BackendConnection → BackendConnection}
    (hrun : ((fcgiConnectionClose b c).bind fun x => some (⟨ret, x.1, exts, .inr (f x.2)⟩ : FcgiHandled)) =
      some handled) : handled.Settled G ctxs := by
  simp only [Option.bind_eq_some_iff, Option.some.injEq] at hrun
  obtain ⟨⟨b₁, con⟩, hclose, rfl⟩ := hrun
  exact fcgiConnectionClose_spec h hc hclose

theorem FcgiHandled.settled_reconnected (h : Accounted G b (c :: ctxs)) (hc : c.Sound)
    (hstate : c.state = .init ∨ c.state = .connectDelayed) {ret : HandlerT}
    (hrun : ((fcgiReconnect b c).bind fun x => some (⟨ret, x.1, exts, .inl x.2⟩ : FcgiHandled)) =
      some handled) : handled.Settled G ctxs := by
  simp only [Option.bind_eq_some_iff, Option.some.injEq] at hrun
  obtain ⟨⟨b₁, c₁⟩, hagain, rfl⟩ := hrun
  exact fcgiReconnect_spec h hc hstate hagain

/-! ## Children that are gone -/

theorem respawn_spec {answer : FdeventAnswer} {h i : Nat}
    (hG : G → ∀ proc, b.proc (h, i) = some proc → proc.pid ≠ 0 → answer.wait = .exited →
      proc.state ≠ .running)
    (hrun : respawn curTs b h (h, i) answer = some b') : Maintained G b b' := by
  simp only [respawn, Option.bind_eq_bind, Option.bind_eq_some_iff] at hrun
  obtain ⟨host, hhost, proc, hproc, hrun⟩ := hrun
  obtain ⟨host₁, hhost₁, hfirst⟩ := Backends.proc_eq_some hproc
  simp only at hhost₁ hfirst
  obtain rfl := Option.some.inj (hhost.symm.trans hhost₁)
  split at hrun
  · next hgone =>
    have hold : G → proc.active = 0 := fun hg => if_neg (hG hg proc hproc hgone.1 hgone.2.2)
    split at hrun
    · next active proc' hspawn =>
      obtain ⟨rfl, hrunning, hload⟩ := fcgiSpawnConnection_spec hspawn
      obtain rfl := Option.some.inj hrun
      rw [Backends.modifyProc, Backends.modifyHost_modifyHost]
      apply Maintained.modifyHost
      intro host₂ hhost₂
      obtain rfl := Option.some.inj (hhost.symm.trans hhost₂)
      apply Maintains.modifyFirst hfirst hload
      intro hg
      have hnew : proc'.active = 1 := if_pos hrunning
      rw [hold hg, hnew]
      omega
    · obtain rfl := Option.some.inj hrun
      apply Maintained.modifyHost
      intro host₂ hhost₂
      obtain rfl := Option.some.inj (hhost.symm.trans hhost₂)
      apply Maintains.modifyFirst hfirst
      · rfl
      · intro hg
        rw [hold hg]
        simp [FcgiProc.active]
  · obtain rfl := Option.some.inj hrun
    exact Maintained.refl G b

theorem responseFailed_spec {answer : FdeventAnswer}
    (hG : G → ∀ p proc, c.proc = some p → b.proc p = some proc → proc.pid ≠ 0 →
      answer.wait = .exited → proc.state ≠ .running)
    (h : Accounted G b (c :: ctxs)) (hc : c.Sound) (hstate : c.state = .read)
    (hrun : responseFailed curTs b exts c answer = some handled) : handled.Settled G ctxs := by
  simp only [responseFailed, Option.bind_eq_bind, Option.bind_eq_some_iff] at hrun
  obtain ⟨n, hn, ⟨m, i⟩, hp, b₁, hrespawn, hrun⟩ := hrun
  obtain rfl := hc.bound n _ hn hp
  have h₁ := h.maintained (respawn_spec (fun hg proc hproc => hG hg (m, i) proc hp hproc) hrespawn)
  have hpos := (hc.connected (Or.inr hstate)).2.2.2
  have hsent := hc.sent hstate
  split at hrun
  · split at hrun
    · next hagain => omega
    · exact FcgiHandled.settled_closed h₁ hc.holding (f := giveUp 500) hrun
  · exact FcgiHandled.settled_closed h₁ hc.holding (f := id) hrun

/-! ## Connecting and writing -/

/-- What `fcgi_write_request` leaves: a context as it is between two events, or one that could not
send its request and goes away. -/
structure Wrote (G : Prop) (ret : HandlerT) (b : Backends) (c : HandlerCtx)
    (ctxs : List HandlerCtx) : Prop where
  accounted : Accounted G b (c :: ctxs)
  holding : c.Holding
  sound : c.Sound ∨ ret = .error ∧ c.state = .prepareWrite

theorem Wrote.of_sound {ret : HandlerT} (h : Accounted G b (c :: ctxs)) (hc : c.Sound) :
    Wrote G ret b c ctxs :=
  ⟨h, hc.holding, Or.inl hc⟩

theorem writeOut_spec {write : Chunkqueue → Chunkqueue × Int} (hwrite : TakesBytes write)
    (h : Accounted G b (c :: ctxs)) (hc : c.Sound) (hstate : c.state = .write) :
    Wrote G (writeOut write c).1 b (writeOut write c).2 ctxs := by
  obtain ⟨hgot, hhost, hproc, hin⟩ := hc.connected (Or.inl hstate)
  have hkept : (chunkqueueRemoveFinishedChunks (write c.wb).1).1.bytesIn = c.wb.bytesIn :=
    hwrite.bytesIn c.wb
  have hwait : { c with wb := (chunkqueueRemoveFinishedChunks (write c.wb).1).1 }.Sound := by
    refine ⟨hc.bound, hc.state, fun hs => ?_, fun _ => ⟨hgot, hhost, hproc, ?_⟩, fun hs => ?_⟩
    · simp only [hstate] at hs
      exact absurd hs (by decide)
    · rw [hkept]
      exact hin
    · exact absurd (hstate.symm.trans hs) (by decide)
  unfold writeOut
  simp only
  split
  · exact Wrote.of_sound (h.congr rfl rfl fun _ => rfl) hwait
  · split
    · next hall =>
      refine Wrote.of_sound (h.congr rfl rfl fun _ => rfl)
        ⟨hc.bound, by simp, fun hs => ?_, fun _ => ⟨hgot, hhost, hproc, ?_⟩, fun _ => hall⟩
      · exact absurd hs (by simp)
      · rw [hkept]
        exact hin
    · exact Wrote.of_sound (h.congr rfl rfl fun _ => rfl) hwait

theorem fcgiHostDisable_spec
    (hbound : ∀ h p, c.host = some h → c.proc = some p → p.1 = h)
    (hrun : fcgiHostDisable curTs b c = some b') : Maintained G b b' := by
  simp only [fcgiHostDisable, Option.bind_eq_bind, Option.bind_eq_some_iff] at hrun
  obtain ⟨n, hn, host, -, ⟨_, i⟩, hp, proc, hproc, hrun⟩ := hrun
  obtain rfl := hbound n _ hn hp
  split at hrun
  · obtain rfl := Option.some.inj hrun
    apply Maintained.stopProc G hproc
    · rfl
    · unfold disableProc
      simp only
      split <;> simp
  · obtain rfl := Option.some.inj hrun
    exact Maintained.refl G b

theorem overloadProc_spec
    (hbound : ∀ h p, c.host = some h → c.proc = some p → p.1 = h)
    (hrun : overloadProc curTs b c = some b') : Maintained G b b' := by
  simp only [overloadProc, Option.bind_eq_bind, Option.bind_eq_some_iff] at hrun
  obtain ⟨n, hn, host, -, ⟨_, i⟩, hp, proc, hproc, hrun⟩ := hrun
  obtain rfl := hbound n _ hn hp
  split at hrun
  · obtain rfl := Option.some.inj hrun
    apply Maintained.stopProc G hproc
    · rfl
    · simp
  · obtain rfl := Option.some.inj hrun
    exact Maintained.refl G b

variable [Malloc]

theorem prepareWrite_spec {answer : WriteAnswer} {ret : HandlerT}
    (hwrite : TakesBytes answer.write) (h : Accounted G b (c :: ctxs))
    (hbound : ∀ h p, c.host = some h → c.proc = some p → p.1 = h)
    (hgot : c.gotProc = false) (hwb : c.wb = chunkqueueInit)
    (hin : 0 ≤ c.remoteConn.requestContentQueue.bytesIn) (hstate : c.state = .prepareWrite)
    (hrun : prepareWrite curTs b c answer = some (ret, b', c')) : Wrote G ret b' c' ctxs := by
  simp only [prepareWrite, Option.bind_eq_bind, Option.bind_eq_some_iff] at hrun
  obtain ⟨p, hp, n, hn, host, -, b₁, hinc, ⟨env, con, wb, calls⟩, henv, hrun⟩ := hrun
  have hload := (h.inc hgot hp hinc).maintained (Maintained.touch G b₁ p curTs)
  simp only at hrun
  split at hrun
  · next hfailed =>
    obtain ⟨rfl, rfl, rfl⟩ := by simpa only [Option.some.injEq, Prod.mk.injEq] using hrun
    refine ⟨hload.congr rfl rfl fun _ => rfl, fun _ => ?_, Or.inr ⟨rfl, hstate⟩⟩
    simp [hn, hp]
  · next hdone =>
    have hpos := fcgiCreateEnv_bytesIn henv hdone hin
    rw [hwb] at hpos
    obtain ⟨rfl, rfl, rfl⟩ := by simpa only [Option.some.injEq, Prod.mk.injEq] using hrun
    refine writeOut_spec hwrite (hload.congr rfl rfl fun _ => rfl) ⟨hbound, by simp, ?_, ?_, ?_⟩ rfl
    · intro hs
      exact absurd hs (by simp)
    · intro _
      exact ⟨rfl, by simp [hn], by simp [hp], hpos⟩
    · intro hs
      cases hs
theorem connectProc_spec {answer : WriteAnswer} {ret : HandlerT}
    (hwrite : TakesBytes answer.write) (h : Accounted G b (c :: ctxs)) (hc : c.Sound)
    (hstate : c.state = .init) (hrun : connectProc curTs b c answer = some (ret, b', c')) :
    Wrote G ret b' c' ctxs := by
  have hfresh := hc.fresh (Or.inl hstate)
  have hgot := hfresh.1
  -- whatever the process is, the context is one that is not connected
  have hfound : ∀ (i : Nat) (fd : Option Nat) (pid : Int) (n : Nat), c.host = some n →
      HandlerCtx.Sound { c with proc := some (n, i), fd := fd, pid := pid } := by
    intro i fd pid n hn
    refine HandlerCtx.Sound.of_fresh (Or.inl hstate) (fun m p hm hp => ?_) hfresh
    obtain rfl := Option.some.inj hp
    exact Option.some.inj (hn.symm.trans hm)
  have hcount : ∀ {b₁ : Backends} {c₁ : HandlerCtx}, Maintained G b b₁ → c₁.host = c.host →
      c₁.gotProc = c.gotProc → Accounted G b₁ (c₁ :: ctxs) := by
    intro b₁ c₁ hm hhost₁ hgot₁
    refine (h.maintained hm).congr hhost₁ hgot₁ fun hg => ?_
    rw [hgot] at hg
    cases hg
  simp only [connectProc, Option.bind_eq_bind, Option.bind_eq_some_iff] at hrun
  obtain ⟨n, hn, host, -, hrun⟩ := hrun
  split at hrun
  · obtain ⟨rfl, rfl, rfl⟩ := by simpa only [Option.some.injEq, Prod.mk.injEq] using hrun
    refine Wrote.of_sound (hcount (Maintained.refl G b) rfl rfl)
      (HandlerCtx.Sound.of_fresh (Or.inl hstate) (fun m p _ hp => ?_) hfresh)
    cases hp
  · next i load hchosen =>
    split at hrun
    · obtain ⟨rfl, rfl, rfl⟩ := by simpa only [Option.some.injEq, Prod.mk.injEq] using hrun
      exact Wrote.of_sound (hcount (Maintained.refl G b) rfl rfl) (hfound i _ _ n hn)
    · obtain ⟨rfl, rfl, rfl⟩ := by simpa only [Option.some.injEq, Prod.mk.injEq] using hrun
      exact Wrote.of_sound (hcount (Maintained.refl G b) rfl rfl) (hfound i _ _ n hn)
    · next fd hsocket =>
      split at hrun
      · obtain ⟨rfl, rfl, rfl⟩ := by simpa only [Option.some.injEq, Prod.mk.injEq] using hrun
        exact Wrote.of_sound (hcount (Maintained.refl G b) rfl rfl) (hfound i _ _ n hn)
      · simp only [Option.bind_eq_some_iff] at hrun
        obtain ⟨proc, hproc, hrun⟩ := hrun
        obtain ⟨pid, hpid⟩ : ∃ pid : Int, (if proc.isLocal = true then
            ({ c with proc := some (n, i), fd := some fd, pid := proc.pid } : HandlerCtx)
            else { c with proc := some (n, i), fd := some fd }) =
              { c with proc := some (n, i), fd := some fd, pid := pid } := by
          split
          · exact ⟨proc.pid, rfl⟩
          · exact ⟨c.pid, rfl⟩
        rw [hpid] at hrun
        have hsound := hfound i (some fd) pid n hn
        split at hrun
        · obtain ⟨rfl, rfl, rfl⟩ := by simpa only [Option.some.injEq, Prod.mk.injEq] using hrun
          exact Wrote.of_sound (hcount (Maintained.refl G b) rfl rfl)
            (HandlerCtx.Sound.of_fresh (Or.inr rfl) hsound.bound hfresh)
        · simp only [Option.bind_eq_some_iff, Option.some.injEq, Prod.mk.injEq] at hrun
          obtain ⟨b₁, hdown, rfl, rfl, rfl⟩ := hrun
          exact Wrote.of_sound (hcount (overloadProc_spec hsound.bound hdown) rfl rfl) hsound
        · simp only [Option.bind_eq_some_iff, Option.some.injEq, Prod.mk.injEq] at hrun
          obtain ⟨b₁, hdown, rfl, rfl, rfl⟩ := hrun
          exact Wrote.of_sound (hcount (fcgiHostDisable_spec hsound.bound hdown) rfl rfl) hsound
        · have hready : Accounted G b ({ c with
              proc := some (n, i), fd := some fd, pid := pid, reconnects := 0,
              state := .prepareWrite } :: ctxs) := hcount (Maintained.refl G b) rfl rfl
          exact prepareWrite_spec hwrite hready hsound.bound hgot hfresh.2.1 hfresh.2.2.2 rfl hrun

theorem fcgiWriteRequest_spec {answer : WriteAnswer} {ret : HandlerT}
    (hwrite : TakesBytes answer.write) (h : Accounted G b (c :: ctxs)) (hc : c.Sound)
    (hrun : fcgiWriteRequest curTs b c answer = some (ret, b', c')) : Wrote G ret b' c' ctxs := by
  unfold fcgiWriteRequest at hrun
  split at hrun
  · obtain ⟨rfl, rfl, rfl⟩ := by simpa only [Option.some.injEq, Prod.mk.injEq] using hrun
    exact Wrote.of_sound h hc
  · simp only [Option.bind_eq_bind, Option.bind_eq_some_iff] at hrun
    obtain ⟨host, -, hrun⟩ := hrun
    split at hrun
    · obtain ⟨rfl, rfl, rfl⟩ := by simpa only [Option.some.injEq, Prod.mk.injEq] using hrun
      exact Wrote.of_sound h hc
    · split at hrun
      · next hstate =>
        obtain ⟨hgot, hwb, -, hin⟩ := hc.fresh (Or.inr hstate)
        have hdisable : ((fcgiHostDisable curTs b c).bind fun b => some (HandlerT.error, b, c)) =
            some (ret, b', c') → Wrote G ret b' c' ctxs := by
          intro hfailed
          simp only [Option.bind_eq_some_iff, Option.some.injEq, Prod.mk.injEq] at hfailed
          obtain ⟨b₁, hdown, rfl, rfl, rfl⟩ := hfailed
          exact Wrote.of_sound (h.maintained (fcgiHostDisable_spec hc.bound hdown)) hc
        split at hrun
        · have hready : Accounted G b ({ c with state := .prepareWrite } :: ctxs) :=
            h.congr rfl rfl fun _ => rfl
          exact prepareWrite_spec hwrite hready hc.bound hgot hwb hin rfl hrun
        · exact hdisable hrun
        · exact hdisable hrun
      · next hstate => exact connectProc_spec hwrite h hc hstate hrun
      · next hstate => exact absurd hc.state (by simp [hstate])
      · next hstate =>
        obtain ⟨rfl, rfl, rfl⟩ := by simpa only [Option.some.injEq, Prod.mk.injEq] using hrun
        exact writeOut_spec hwrite h hc hstate
      · obtain ⟨rfl, rfl, rfl⟩ := by simpa only [Option.some.injEq, Prod.mk.injEq] using hrun
        exact Wrote.of_sound h hc
      · next hstate => exact absurd hc.state (by simp [hstate])

/-! ## The handlers -/

theorem handleWritten_spec {answer : SubrequestAnswer} (hwrite : TakesBytes answer.write.write)
    (h : Accounted G b (c :: ctxs)) (hc : c.Sound)
    (hrun : handleWritten curTs b exts c answer = some handled) : handled.Settled G ctxs := by
  simp only [handleWritten, Option.bind_eq_bind, Option.bind_eq_some_iff] at hrun
  obtain ⟨⟨ret, b₁, c₁⟩, hwritten, hrun⟩ := hrun
  have hw := fcgiWriteRequest_spec hwrite h hc hwritten
  have hsound : ret ≠ .error → c₁.Sound := fun hret =>
    hw.sound.resolve_right fun hfailed => hret hfailed.1
  simp only at hrun
  split at hrun
  · split at hrun
    · next hstate =>
      have hc₁ : c₁.Sound := hw.sound.resolve_right fun hfailed => by
        simp [hfailed.2] at hstate
      simp only [Option.bind_eq_some_iff] at hrun
      obtain ⟨n, -, host, hhost, host', hrestart, hrun⟩ := hrun
      have hrestarted := hw.accounted.maintained
        (Maintained.setHost hhost (fcgiRestartDeadProcs_spec hrestart G))
      split at hrun
      · exact FcgiHandled.settled_reconnected hrestarted hc₁ hstate hrun
      · exact FcgiHandled.settled_closed hrestarted hc₁.holding (f := giveUp 503) hrun
    · exact FcgiHandled.settled_closed hw.accounted hw.holding
        (f := fun con => giveUp (if con.httpStatus ≠ 400 then 503 else con.httpStatus) con) hrun
  · obtain rfl := Option.some.inj hrun
    exact ⟨hw.accounted, hsound (by simp)⟩
  · obtain rfl := Option.some.inj hrun
    exact ⟨hw.accounted, hsound (by simp)⟩
  · next hret _ _ =>
    obtain rfl := Option.some.inj hrun
    exact ⟨hw.accounted, hsound hret⟩

theorem modFastcgiHandleSubrequest_spec {id : Nat} {answer : SubrequestAnswer}
    (hwrite : TakesBytes answer.write.write) (h : Accounted G b (c :: ctxs)) (hc : c.Sound)
    (hrun : modFastcgiHandleSubrequest id curTs b exts c answer = some handled) :
    handled.Settled G ctxs := by
  unfold modFastcgiHandleSubrequest at hrun
  split at hrun
  · obtain rfl := Option.some.inj hrun
    exact ⟨h, hc⟩
  · split at hrun
    · exact handleWritten_spec hwrite h hc hrun
    · next hhost =>
      simp only [Option.bind_eq_bind, Option.bind_eq_some_iff] at hrun
      obtain ⟨ext, -, ndx, -, hrun⟩ := hrun
      split at hrun
      · exact FcgiHandled.settled_closed h hc.holding
          (f := fun con => { con with httpStatus := 500, mode := DIRECT }) hrun
      · simp only [fcgiHostAssign, Option.bind_eq_bind, Option.bind_eq_some_iff,
          Option.some.injEq] at hrun
        obtain ⟨n, -, _, ⟨b₁, hassign, rfl⟩, hrun⟩ := hrun
        have hstate : c.state = .init ∨ c.state = .connectDelayed := by
          rcases hc.state with hs | hs | hs
          · exact Or.inl hs
          · exact Or.inr hs
          · have hsome := (hc.connected hs).2.1
            rw [hhost] at hsome
            cases hsome
        have hfresh := hc.fresh hstate
        have hassigned : Accounted G b₁ ({ c with host := some n, proc := none } :: ctxs) := by
          refine (h.assign hhost hassign).congr rfl rfl fun hg => ?_
          rw [hfresh.1] at hg
          cases hg
        refine handleWritten_spec hwrite hassigned ?_ hrun
        refine HandlerCtx.Sound.of_fresh hstate (fun m p _ hp => ?_) hfresh
        cases hp

theorem handleOtherEvents_spec {id : Nat} {answer : FdeventAnswer}
    (hwrite : TakesBytes answer.subrequest.write.write)
    (h : Accounted G b (c :: ctxs)) (hc : c.Sound)
    (hrun : handleOtherEvents id curTs b exts c answer = some handled) :
    handled.Settled G ctxs := by
  unfold handleOtherEvents at hrun
  split at hrun
  · exact modFastcgiHandleSubrequest_spec hwrite h hc hrun
  · split at hrun
    · split at hrun
      · exact modFastcgiHandleSubrequest_spec hwrite h hc hrun
      · simp only [Option.bind_eq_bind, Option.bind_eq_some_iff] at hrun
        obtain ⟨p, -, proc, -, hrun⟩ := hrun
        split at hrun
        · obtain rfl := Option.some.inj hrun
          exact ⟨h, hc⟩
        · exact FcgiHandled.settled_closed h hc.holding (f := fun con => con) hrun
    · split at hrun
      · exact FcgiHandled.settled_closed h hc.holding (f := fun con => con) hrun
      · obtain rfl := Option.some.inj hrun
        exact ⟨h, hc⟩

theorem fcgiHandleFdevent_spec {id : Nat} {answer : FdeventAnswer}
    (hwrite : TakesBytes answer.subrequest.write.write)
    (hG : G → c.state = .read → answer.revents.readable = true → answer.demuxed.fin = -1 →
      ∀ p proc, c.proc = some p → b.proc p = some proc → proc.pid ≠ 0 →
        answer.wait = .exited → proc.state ≠ .running)
    (h : Accounted G b (c :: ctxs)) (hc : c.Sound)
    (hrun : fcgiHandleFdevent id curTs b exts c answer = some handled) :
    handled.Settled G ctxs := by
  unfold fcgiHandleFdevent at hrun
  split at hrun
  · next hread =>
    obtain ⟨hreadable, hstate⟩ := hread
    have hconnected := hc.connected (Or.inr hstate)
    -- what the response does to the context leaves everything that is counted
    have hread : HandlerCtx.Sound { c with
        remoteConn := answer.demuxed.con, rb := answer.demuxed.rb
        responseHeader := answer.demuxed.responseHeader
        sendContentBody := answer.demuxed.sendContentBody } := by
      refine ⟨hc.bound, hc.state, fun hs => ?_, fun _ => hconnected, hc.sent⟩
      simp [hstate] at hs
    have hcounts : Accounted G b ({ c with
        remoteConn := answer.demuxed.con, rb := answer.demuxed.rb
        responseHeader := answer.demuxed.responseHeader
        sendContentBody := answer.demuxed.sendContentBody } :: ctxs) :=
      h.congr rfl rfl fun _ => rfl
    simp only at hrun
    split at hrun
    · simp only [Option.bind_eq_bind, Option.bind_eq_some_iff] at hrun
      obtain ⟨n, -, host, -, ⟨b₁, con⟩, hclose, hrun⟩ := hrun
      have hclosed := fcgiConnectionClose_spec hcounts hread.holding hclose
      split at hrun
      · obtain rfl := Option.some.inj hrun
        exact hclosed
      · obtain rfl := Option.some.inj hrun
        exact hclosed
    · split at hrun
      · next hfin =>
        refine responseFailed_spec ?_ hcounts hread hstate hrun
        intro hg
        exact hG hg hstate hreadable hfin
      · exact handleOtherEvents_spec hwrite hcounts hread hrun
  · exact handleOtherEvents_spec hwrite h hc hrun

end Code

end Lighttpd
