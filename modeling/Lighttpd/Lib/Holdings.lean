import Mathlib.Data.Multiset.AddSub

/-!
# Things that are taken and given back

A log says which things were taken and which were given back. Its replay keeps the multiset of what
is held; it has no value where something is given back that is not held, so a log that leads from
nothing to nothing gives back everything it takes, exactly once. What else is held does not matter
(`holdings_add`).
-/

inductive Access (ρ : Type) where
  | got (r : ρ)
  | gave (r : ρ)
  deriving DecidableEq, Repr

section Holdings

variable {ρ : Type} [DecidableEq ρ]

def holdings : Multiset ρ → List (Access ρ) → Option (Multiset ρ)
  | held, [] => some held
  | held, .got r :: log => holdings (r ::ₘ held) log
  | held, .gave r :: log => if r ∈ held then holdings (held.erase r) log else none

/-- Everything that was taken has been given back once, and nothing else has. -/
def Settled (log : List (Access ρ)) : Prop := holdings 0 log = some 0

instance (log : List (Access ρ)) : Decidable (Settled log) :=
  inferInstanceAs (Decidable (_ = _))

variable {held held' : Multiset ρ} {log log' : List (Access ρ)}

theorem holdings_append (held : Multiset ρ) (log log' : List (Access ρ)) :
    holdings held (log ++ log') = (holdings held log).bind (holdings · log') := by
  induction log generalizing held with
  | nil => rfl
  | cons a log ih =>
    cases a with
    | got r => exact ih (r ::ₘ held)
    | gave r =>
      rw [List.cons_append, holdings, holdings]
      split
      · exact ih (held.erase r)
      · rfl

theorem holdings_trans {held'' : Multiset ρ} (h : holdings held log = some held')
    (h' : holdings held' log' = some held'') : holdings held (log ++ log') = some held'' := by
  rw [holdings_append, h, Option.bind_some, h']

theorem holdings_add (h : holdings held log = some held') (rest : Multiset ρ) :
    holdings (held + rest) log = some (held' + rest) := by
  induction log generalizing held with
  | nil =>
    obtain rfl := Option.some.inj h
    rfl
  | cons a log ih =>
    cases a with
    | got r =>
      rw [holdings] at h ⊢
      rw [← Multiset.cons_add]
      exact ih h
    | gave r =>
      rw [holdings] at h ⊢
      split at h
      · next hmem =>
        rw [if_pos (Multiset.mem_add.mpr (Or.inl hmem)), Multiset.erase_add_left_pos rest hmem]
        exact ih h
      · nomatch h

theorem holdings_got (held : Multiset ρ) (rs : List ρ) :
    holdings held (rs.map .got) = some (held + rs) := by
  induction rs generalizing held with
  | nil => exact congrArg some (Multiset.add_zero held).symm
  | cons r rs ih =>
    rw [List.map_cons, holdings, ih, ← Multiset.cons_coe, Multiset.add_cons, Multiset.cons_add]

theorem holdings_gave (rs : List ρ) (held : Multiset ρ) :
    holdings ((rs : Multiset ρ) + held) (rs.map .gave) = some held := by
  induction rs with
  | nil => exact congrArg some (Multiset.zero_add held)
  | cons r rs ih =>
    have hmem : r ∈ ((r :: rs : List ρ) : Multiset ρ) + held :=
      Multiset.mem_add.mpr (Or.inl List.mem_cons_self)
    rw [List.map_cons, holdings, if_pos hmem, ← Multiset.cons_coe, Multiset.cons_add,
      Multiset.erase_cons_head]
    exact ih

end Holdings
