import Mathlib.Logic.Basic

/-!
# Functions with early returns

A part of a C function that can leave the function ends in one of three ways: it goes on, the
function returns, or a read or a write was outside its object. `Spec P Q` is the partial
correctness of such a part: what goes on meets `P`, what returns meets `Q`. `Total P Q` says that
there is no fault, too.
-/

namespace CLib

inductive Flow (ε α : Type) where
  | next (a : α)
  | ret (e : ε)
  | fault
  deriving DecidableEq, Repr

namespace Flow

variable {ε α β : Type}

protected def bind (x : Flow ε α) (f : α → Flow ε β) : Flow ε β :=
  match x with
  | next a => f a
  | ret e => ret e
  | fault => fault

instance : Monad (Flow ε) where
  pure := next
  bind := Flow.bind

@[simp] theorem next_bind (a : α) (f : α → Flow ε β) : (next a >>= f) = f a := rfl

@[simp] theorem ret_bind (e : ε) (f : α → Flow ε β) : (ret e >>= f) = ret e := rfl

@[simp] theorem fault_bind (f : α → Flow ε β) : (fault >>= f) = fault := rfl

def ofOption : Option α → Flow ε α
  | some a => next a
  | none => fault

@[simp] theorem ofOption_some (a : α) : (ofOption (some a) : Flow ε α) = next a := rfl

@[simp] theorem ofOption_none : (ofOption none : Flow ε α) = fault := rfl

/-! ## Partial correctness -/

def Spec (P : α → Prop) (Q : ε → Prop) : Flow ε α → Prop
  | next a => P a
  | ret e => Q e
  | fault => True

variable {P P' : α → Prop} {Q Q' : ε → Prop} {R : β → Prop}

@[simp] theorem spec_next {a : α} : (next a : Flow ε α).Spec P Q ↔ P a := Iff.rfl

@[simp] theorem spec_ret {e : ε} : (ret e : Flow ε α).Spec P Q ↔ Q e := Iff.rfl

@[simp] theorem spec_fault : (fault : Flow ε α).Spec P Q := trivial

theorem Spec.mono {x : Flow ε α} (h : x.Spec P Q) (hP : ∀ a, P a → P' a)
    (hQ : ∀ e, Q e → Q' e) : x.Spec P' Q' := by
  cases x with
  | next a => exact hP a h
  | ret e => exact hQ e h
  | fault => trivial

/-- **The rule of sequential composition.** -/
theorem Spec.bind {x : Flow ε α} {f : α → Flow ε β} (h : x.Spec P Q)
    (hf : ∀ a, P a → (f a).Spec R Q) : (x >>= f).Spec R Q := by
  cases x with
  | next a => exact hf a h
  | ret e => exact h
  | fault => trivial

theorem spec_ofOption {o : Option α} (h : ∀ a, o = some a → P a) :
    (ofOption o : Flow ε α).Spec P Q := by
  cases o with
  | none => trivial
  | some a => exact h a rfl

theorem Spec.next {x : Flow ε α} (h : x.Spec P Q) {a : α} (hx : x = next a) : P a := by
  subst hx
  exact h

theorem Spec.ret {x : Flow ε α} (h : x.Spec P Q) {e : ε} (hx : x = ret e) : Q e := by
  subst hx
  exact h

theorem bind_eq_next {x : Flow ε α} {f : α → Flow ε β} {b : β} (h : (x >>= f) = next b) :
    ∃ a, x = next a ∧ f a = next b := by
  cases x with
  | next a => exact ⟨a, rfl, h⟩
  | ret e => cases h
  | fault => cases h

/-! ## Total correctness -/

/-- The same, and there is no fault. -/
def Total (P : α → Prop) (Q : ε → Prop) : Flow ε α → Prop
  | next a => P a
  | ret e => Q e
  | fault => False

theorem Total.mono {x : Flow ε α} (h : x.Total P Q) (hP : ∀ a, P a → P' a)
    (hQ : ∀ e, Q e → Q' e) : x.Total P' Q' := by
  cases x with
  | next a => exact hP a h
  | ret e => exact hQ e h
  | fault => exact h

theorem Total.bind {x : Flow ε α} {f : α → Flow ε β} (h : x.Total P Q)
    (hf : ∀ a, P a → (f a).Total R Q) : (x >>= f).Total R Q := by
  cases x with
  | next a => exact hf a h
  | ret e => exact h
  | fault => exact h.elim

/-! ## Loops -/

variable {σ : Type}

/-- A loop: `step s` is `none` where it ends. `fuel` bounds the number of rounds. -/
def loop (step : σ → Option (Flow ε σ)) : Nat → σ → Flow ε σ
  | 0, s => next s
  | fuel + 1, s =>
    match step s with
    | none => next s
    | some x => x >>= loop step fuel

def trace (step : σ → Option (Flow ε σ)) : Nat → σ → List σ
  | 0, _ => []
  | fuel + 1, s =>
    match step s with
    | none => []
    | some (next s') => s :: trace step fuel s'
    | some _ => [s]

variable {step : σ → Option (Flow ε σ)} {guard I : σ → Prop}

/-- **The invariant rule**, along runs whose every round starts in a state that meets the guard. -/
theorem loop_spec (hstep : ∀ s x, step s = some x → guard s → I s → x.Spec I Q) :
    ∀ (fuel : Nat) {s : σ}, I s → (∀ t ∈ trace step fuel s, guard t) →
      (loop step fuel s).Spec I Q
  | 0, _, hs, _ => hs
  | fuel + 1, s, hs, hg => by
    unfold loop
    unfold trace at hg
    cases hx : step s with
    | none => exact hs
    | some x =>
      rw [hx] at hg
      cases x with
      | next s' =>
        have hI : I s' := hstep s _ hx (hg s (by simp)) hs
        exact loop_spec hstep fuel hI fun t ht => hg t (by simp [ht])
      | ret e => exact hstep s _ hx (hg s (by simp)) hs
      | fault => trivial

/-- The invariant rule without a guard. -/
theorem loop_invariant (hstep : ∀ s x, step s = some x → I s → x.Spec I Q) (fuel : Nat) {s : σ}
    (hs : I s) : (loop step fuel s).Spec I Q :=
  loop_spec (fun s x hx (_ : True) => hstep s x hx) fuel hs fun _ _ => trivial

theorem loop_persists {bad : σ → Prop} (hinv : ∀ s s', step s = some (next s') → I s → I s')
    (hbreak : ∀ s s', step s = some (next s') → I s → ¬ guard s → bad s')
    (hkeep : ∀ s s', step s = some (next s') → I s → bad s → bad s') :
    ∀ (fuel : Nat) {s s' : σ}, I s → (bad s ∨ ∃ t ∈ trace step fuel s, ¬ guard t) →
      loop step fuel s = next s' → bad s'
  | 0, s, s', _, hbad, he => by
    obtain rfl : s = s' := by simpa [loop] using he
    rcases hbad with h | ⟨t, ht, -⟩
    · exact h
    · simp [trace] at ht
  | fuel + 1, s, s', hs, hbad, he => by
    unfold loop at he
    unfold trace at hbad
    cases hx : step s with
    | none =>
      rw [hx] at he hbad
      obtain rfl : s = s' := by simpa using he
      simpa using hbad
    | some x =>
      rw [hx] at he hbad
      cases x with
      | next t =>
        refine loop_persists hinv hbreak hkeep fuel (hinv s t hx hs) ?_ he
        rcases hbad with h | ⟨u, hu, hg⟩
        · exact Or.inl (hkeep s t hx hs h)
        · rcases List.mem_cons.mp hu with rfl | hu
          · exact Or.inl (hbreak u t hx hs hg)
          · exact Or.inr ⟨u, hu, hg⟩
      | ret e => cases he
      | fault => cases he

end Flow

end CLib
