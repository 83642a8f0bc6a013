import Mathlib.Data.List.Infix

/-!
# Deterministic machines with effects

A machine takes one action at a time; a step changes the state and gives out effects. The rules
carry what one step preserves to whole runs: an invariant, and a simulation between two machines
that take the same actions. Both hold along the runs whose every step meets a guard on the state
before it (`Guarded`). Where a step need not be possible, a run is a derivation (`Reachable`).
-/

structure Machine (σ α ε : Type) where
  step : σ → α → σ × List ε

namespace Machine

variable {σ τ α ε : Type}

def run (M : Machine σ α ε) : σ → List α → σ × List ε
  | s, [] => (s, [])
  | s, a :: as =>
    let (s', out) := M.step s a
    let (s'', outs) := M.run s' as
    (s'', out ++ outs)

/-- Every step of the run starts in a state that meets the guard. -/
def Guarded (M : Machine σ α ε) (guard : σ → α → Prop) : σ → List α → Prop
  | _, [] => True
  | s, a :: as => guard s a ∧ M.Guarded guard (M.step s a).1 as

variable {M : Machine σ α ε} {N : Machine τ α ε} {guard : σ → α → Prop}

@[simp] theorem run_nil (s : σ) : M.run s [] = (s, []) := rfl

theorem run_cons (s : σ) (a : α) (as : List α) : M.run s (a :: as) =
    ((M.run (M.step s a).1 as).1, (M.step s a).2 ++ (M.run (M.step s a).1 as).2) := rfl

theorem run_append (s : σ) (as bs : List α) : M.run s (as ++ bs) =
    ((M.run (M.run s as).1 bs).1, (M.run s as).2 ++ (M.run (M.run s as).1 bs).2) := by
  induction as generalizing s with
  | nil => simp
  | cons a as ih => simp only [List.cons_append, run_cons, ih, List.append_assoc]

theorem guarded_append {s : σ} {as bs : List α} : M.Guarded guard s (as ++ bs) ↔
    M.Guarded guard s as ∧ M.Guarded guard (M.run s as).1 bs := by
  induction as generalizing s with
  | nil => simp [Guarded]
  | cons a as ih =>
    simp only [List.cons_append, Guarded, ih, and_assoc]
    rfl

theorem Guarded.of_prefix {s : σ} {as bs : List α} (h : M.Guarded guard s bs) (hp : as <+: bs) :
    M.Guarded guard s as := by
  obtain ⟨cs, rfl⟩ := hp
  exact (guarded_append.mp h).1

theorem Guarded.of_forall (h : ∀ s a, guard s a) : ∀ (as : List α) (s : σ), M.Guarded guard s as
  | [], _ => trivial
  | _ :: as, _ => ⟨h _ _, .of_forall h as _⟩

/-- **The invariant rule.** -/
theorem run_invariant {P : σ → Prop} (hstep : ∀ s a, guard s a → P s → P (M.step s a).1) :
    ∀ (as : List α) {s : σ}, P s → M.Guarded guard s as → P (M.run s as).1
  | [], _, hP, _ => hP
  | a :: as, s, hP, hg => run_invariant hstep as (hstep s a hg.1 hP) hg.2

/-- **An exact guard**: it keeps the invariant, and no step without it leads to a state with the
property. -/
theorem forall_prefix_iff_guarded {P Q : σ → Prop}
    (hstep : ∀ s a, guard s a → P s → P (M.step s a).1) (hQ : ∀ s, P s → Q s)
    (hneed : ∀ s a, P s → Q (M.step s a).1 → guard s a) (as : List α) {s : σ} (hP : P s) :
    (∀ bs, bs <+: as → Q (M.run s bs).1) ↔ M.Guarded guard s as := by
  constructor
  · intro h
    induction as generalizing s with
    | nil => trivial
    | cons a as ih =>
      have hg : guard s a := hneed s a hP (h [a] (List.prefix_append [a] as))
      refine ⟨hg, ih (hstep s a hg hP) fun bs hbs => ?_⟩
      exact h (a :: bs) ((List.cons_prefix_cons).mpr ⟨rfl, hbs⟩)
  · intro hg bs hbs
    exact hQ _ (run_invariant hstep bs hP (hg.of_prefix hbs))

/-- The invariant rule for an invariant on the state and the effects so far. -/
theorem run_log_invariant {P : σ → List ε → Prop}
    (hstep : ∀ s log a, P s log → P (M.step s a).1 (log ++ (M.step s a).2)) :
    ∀ (as : List α) {s : σ} {log : List ε}, P s log → P (M.run s as).1 (log ++ (M.run s as).2)
  | [], s, log, hP => by simpa using hP
  | a :: as, s, log, hP => by
    have := run_log_invariant hstep as (hstep s log a hP)
    rwa [List.append_assoc] at this

/-- **The simulation rule.** -/
theorem run_simulation {R : σ → τ → Prop}
    (hstep : ∀ s t a, R s t → guard s a →
      R (M.step s a).1 (N.step t a).1 ∧ (M.step s a).2 = (N.step t a).2) :
    ∀ (as : List α) {s : σ} {t : τ}, R s t → M.Guarded guard s as →
      R (M.run s as).1 (N.run t as).1 ∧ (M.run s as).2 = (N.run t as).2
  | [], _, _, hR, _ => ⟨hR, rfl⟩
  | a :: as, s, t, hR, hg => by
    obtain ⟨hR', hout⟩ := hstep s t a hR hg.1
    obtain ⟨hR'', houts⟩ := run_simulation hstep as hR' hg.2
    exact ⟨hR'', by rw [run_cons, run_cons, hout, houts]⟩

/-- From `s` the actions have the effects `outs` exactly if `P`, and then they end in `t`. -/
structure Follows (M : Machine σ α ε) (s : σ) (as : List α) (outs : List ε) (P : Prop) (t : σ) :
    Prop where
  effects : (M.run s as).2 = outs ↔ P
  ends : P → (M.run s as).1 = t

theorem Follows.nil (s : σ) : M.Follows s [] [] True s :=
  ⟨iff_of_true rfl trivial, fun _ => rfl⟩

theorem Follows.congr {s t : σ} {as : List α} {outs : List ε} {P Q : Prop}
    (h : M.Follows s as outs P t) (hPQ : P ↔ Q) : M.Follows s as outs Q t :=
  ⟨h.effects.trans hPQ, fun hQ => h.ends (hPQ.mpr hQ)⟩

theorem Follows.of_run {s t : σ} {as : List α} {outs : List ε} (h : M.run s as = (t, outs)) :
    M.Follows s as outs True t := by
  constructor
  · rw [h]
    exact iff_of_true rfl trivial
  · intro _
    rw [h]

theorem Follows.append {s t u : σ} {as bs : List α} {outs outs' : List ε} {P Q : Prop}
    (h : M.Follows s as outs P t) (hlength : (M.run s as).2.length = outs.length)
    (h' : P → M.Follows t bs outs' Q u) : M.Follows s (as ++ bs) (outs ++ outs') (P ∧ Q) u := by
  rw [← h.effects]
  constructor
  · rw [run_append]
    constructor
    · intro heq
      obtain ⟨hfirst, hsecond⟩ := List.append_inj heq hlength
      have hP := h.effects.mp hfirst
      rw [h.ends hP] at hsecond
      exact ⟨hfirst, (h' hP).effects.mp hsecond⟩
    · rintro ⟨hfirst, hQ⟩
      have hP := h.effects.mp hfirst
      have hsecond := (h' hP).effects.mpr hQ
      rw [← h.ends hP] at hsecond
      dsimp only
      rw [hfirst, hsecond]
  · rintro ⟨hfirst, hQ⟩
    have hP := h.effects.mp hfirst
    rw [run_append, h.ends hP]
    exact (h' hP).ends hQ

end Machine

/-- The states that steps which meet the guard lead to. -/
inductive Reachable {σ α : Type} (step : σ → α → Option σ) (guard : σ → α → Prop) (init : σ → Prop) :
    σ → Prop
  | start {s : σ} (h : init s) : Reachable step guard init s
  | step {s s' : σ} {a : α} (hs : Reachable step guard init s) (hg : guard s a)
      (h : step s a = some s') : Reachable step guard init s'

namespace Reachable

variable {σ α : Type} {step : σ → α → Option σ} {guard : σ → α → Prop} {init : σ → Prop}

/-- The invariant rule. -/
theorem invariant {P : σ → Prop} (hinit : ∀ s, init s → P s)
    (hstep : ∀ s a s', P s → guard s a → step s a = some s' → P s') {s : σ}
    (h : Reachable step guard init s) : P s := by
  induction h with
  | start h => exact hinit _ h
  | step _ hg h ih => exact hstep _ _ _ ih hg h

theorem run {as : List α} (hg : ∀ a ∈ as, ∀ s, guard s a) {s s' : σ}
    (hs : Reachable step guard init s) (h : as.foldlM step s = some s') :
    Reachable step guard init s' := by
  induction as generalizing s with
  | nil =>
    obtain rfl := Option.some.inj h
    exact hs
  | cons a as ih =>
    simp only [List.foldlM_cons, Option.bind_eq_bind, Option.bind_eq_some_iff] at h
    obtain ⟨t, hone, hrest⟩ := h
    exact ih (fun b hb => hg b (List.mem_cons_of_mem a hb))
      (hs.step (hg a List.mem_cons_self s) hone) hrest

end Reachable
