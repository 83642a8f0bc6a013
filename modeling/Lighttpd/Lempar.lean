import Lighttpd.Lib.CString
import Mathlib.Data.List.Forall2

/-!
# `lempar.c`: the driver of a generated parser

The tables and the actions come from the grammar. A call with one token reduces, perhaps many times,
until it shifts the token, accepts or fails; `yyidx` is the height of the stack less one. A read
outside the tables or below the stack has no value. Under conditions on the tables that can be
checked state by state (`Sound`), a call ends and keeps the stack one that the automaton can have
(`ssiexprparser_spec` for the tables of `mod_ssi`).

The grammar has the symbol `error`, so `YYERRORSYMBOL` is defined. Destructors and traces are left
out.
-/

namespace Lighttpd

structure LemonTables where
  yyAction : List Nat
  yyLookahead : List Nat
  yyShiftOfst : List Int
  yyShiftUseDflt : Int
  yyReduceOfst : List Int
  yyReduceUseDflt : Int
  yyDefault : List Nat
  yyRuleInfo : List (Nat × Nat)
  yyNState : Nat
  yyNRule : Nat
  yyNoCode : Nat
  yyErrorSymbol : Nat
  yyStackDepth : Nat

/-- The code in the grammar: what a rule makes of the values of its symbols, and of a failure. The
values of the symbols come in the order of the rule. -/
structure LemonActions (V C : Type) where
  reduceAction : Nat → List V → C → Option (V × C)
  parseFailure : C → C
  errorMinor : V

/-- `yyStackEntry` -/
structure YyStackEntry (V : Type) where
  stateno : Nat
  major : Nat
  minor : V
  deriving DecidableEq, Repr

/-- `yyParser`; the top of the stack comes first. -/
structure YyParser (V : Type) where
  yystack : List (YyStackEntry V)
  yyerrcnt : Int
  deriving DecidableEq, Repr

namespace LemonTables

variable (T : LemonTables)

def yyErrorAction : Nat := T.yyNState + T.yyNRule

def yyAcceptAction : Nat := T.yyNState + T.yyNRule + 1

def yyNoAction : Nat := T.yyNState + T.yyNRule + 2

/-- The same code for shifting terminals and for non-terminals after a reduction. -/
def yyFindAction (ofst : List Int) (useDflt : Int) (stateno lookahead : Nat) : Option Nat := do
  let i ← ofst[stateno]?
  let dflt ← T.yyDefault[stateno]?
  if i = useDflt then some dflt
  else if lookahead = T.yyNoCode then some T.yyNoAction
  else if i + lookahead < 0 ∨ T.yyLookahead[(i + lookahead).toNat]? ≠ some lookahead then some dflt
  else T.yyAction[(i + lookahead).toNat]?

def yyFindShiftAction : Nat → Nat → Option Nat := T.yyFindAction T.yyShiftOfst T.yyShiftUseDflt

def yyFindReduceAction : Nat → Nat → Option Nat := T.yyFindAction T.yyReduceOfst T.yyReduceUseDflt

end LemonTables

section Driver

variable {V C : Type} (T : LemonTables) (A : LemonActions V C)

def yyShift (stack : List (YyStackEntry V)) (newState major : Nat) (minor : V) :
    List (YyStackEntry V) :=
  if stack.length ≥ T.yyStackDepth then [] else ⟨newState, major, minor⟩ :: stack

def yyReduce (stack : List (YyStackEntry V)) (ctx : C) (ruleno : Nat) :
    Option (List (YyStackEntry V) × C) := do
  let (lhs, nrhs) ← T.yyRuleInfo[ruleno]?
  let (minor, ctx) ← A.reduceAction ruleno ((stack.take nrhs).map (·.minor)).reverse ctx
  let top ← (stack.drop nrhs).head?
  let act ← T.yyFindReduceAction top.stateno lhs
  if act < T.yyNState then some (yyShift T (stack.drop nrhs) act lhs minor, ctx)
  else if act = T.yyAcceptAction then some ([], ctx)
  else some (stack.drop nrhs, ctx)

/-- The stack is popped until a state shifts the error symbol, which comes with the state. -/
def popToError : List (YyStackEntry V) → Option (List (YyStackEntry V) × Nat)
  | [] => some ([], T.yyNoAction)
  | top :: stack => do
    let act ← T.yyFindShiftAction top.stateno T.yyErrorSymbol
    if act ≥ T.yyNState then popToError stack else some (top :: stack, act)

/-- A syntax error: the stack, and the token if it is tried again. -/
def yySyntaxError (top : YyStackEntry V) (stack : List (YyStackEntry V)) (ctx : C) (major : Nat)
    (yyerrorhit : Bool) : Option (List (YyStackEntry V) × C × Nat) :=
  if top.major = T.yyErrorSymbol ∨ yyerrorhit then some (top :: stack, ctx, T.yyNoCode)
  else do
    let (stack, act) ← popToError T (top :: stack)
    if stack = [] ∨ major = 0 then some ([], A.parseFailure ctx, T.yyNoCode)
    else some (yyShift T stack act T.yyErrorSymbol A.errorMinor, ctx, major)

/-- One round: the parser, the context, the token and `yyerrorhit`. -/
def yyRound (p : YyParser V) (ctx : C) (major : Nat) (minor : V) (yyendofinput yyerrorhit : Bool) :
    Option (YyParser V × C × Nat × Bool) :=
  match p.yystack with
  | [] => none
  | top :: stack => do
    let act ← T.yyFindShiftAction top.stateno major
    if act < T.yyNState then
      let stack := yyShift T (top :: stack) act major minor
      some (⟨stack, p.yyerrcnt - 1⟩, ctx,
        if yyendofinput ∧ stack ≠ [] then 0 else T.yyNoCode, yyerrorhit)
    else if act < T.yyNState + T.yyNRule then do
      let (stack, ctx) ← yyReduce T A (top :: stack) ctx (act - T.yyNState)
      some (⟨stack, p.yyerrcnt⟩, ctx, major, yyerrorhit)
    else if act = T.yyErrorAction then do
      let (stack, ctx, major) ← yySyntaxError T A top stack ctx major yyerrorhit
      some (⟨stack, 3⟩, ctx, major, true)
    else some (⟨[], p.yyerrcnt⟩, ctx, T.yyNoCode, yyerrorhit)

/-- `do .. while`: `fuel` bounds the number of rounds. -/
def yyLoop : Nat → YyParser V → C → Nat → V → Bool → Bool → Option (YyParser V × C)
  | 0, _, _, _, _, _, _ => none
  | fuel + 1, p, ctx, major, minor, yyendofinput, yyerrorhit => do
    let (p, ctx, major, yyerrorhit) ← yyRound T A p ctx major minor yyendofinput yyerrorhit
    if major ≠ T.yyNoCode ∧ p.yystack ≠ [] then
      yyLoop fuel p ctx major minor yyendofinput yyerrorhit
    else some (p, ctx)

/-- A call with one token; `0` is the end of the input. The value at the bottom of the stack is
never read. The bound on the rounds is enough for `Sound` tables. -/
def yyParse (p : YyParser V) (ctx : C) (major : Nat) (minor : V) : Option (YyParser V × C) :=
  if p.yystack = [] ∧ major = 0 then some (p, ctx)
  else
    let p := if p.yystack = [] then ⟨[⟨0, 0, A.errorMinor⟩], -1⟩ else p
    yyLoop T A ((T.yyStackDepth + 1) * (T.yyNState + 1)) p ctx major minor (major == 0) false

end Driver

/-! ## Stacks of the automaton -/

/-- The grammar that the tables were made from: the symbols below `terminals` are tokens, and each
symbol has values of its own type. -/
structure LemonGrammar (V : Type) where
  terminals : Nat
  lhs : Nat → Nat
  rhs : Nat → List Nat
  typed : Nat → V → Prop

namespace LemonTables

variable {V C : Type} (T : LemonTables) (G : LemonGrammar V)

/-- From the state `p` the symbol `X` leads to the state `s`. -/
def Edge (p X s : Nat) : Prop :=
  s < T.yyNState ∧
    (if X < G.terminals then T.yyFindShiftAction p X else T.yyFindReduceAction p X) = some s

instance (p X s : Nat) : Decidable (T.Edge G p X s) := inferInstanceAs (Decidable (_ ∧ _))

/-- A path of the automaton from its first state, each symbol with a value of its own type. -/
inductive Stacked : List (YyStackEntry V) → Prop
  | start (v : V) : Stacked [⟨0, 0, v⟩]
  | push {top : YyStackEntry V} {stack : List (YyStackEntry V)} {X s : Nat} {v : V} :
    Stacked (top :: stack) → X < T.yyNoCode → T.Edge G top.stateno X s → G.typed X v →
      Stacked (⟨s, X, v⟩ :: top :: stack)

/-- Every path that ends in `s` ends with these symbols, the last one first. -/
def Pops : List Nat → Nat → Prop
  | [], _ => True
  | X :: Xs, s => s ≠ 0 ∧ ∀ p < T.yyNState, ∀ Y < T.yyNoCode, T.Edge G p Y s → Y = X ∧ Pops Xs p

instance decidablePops : ∀ (Xs : List Nat) (s : Nat), Decidable (T.Pops G Xs s)
  | [], _ => .isTrue trivial
  | _ :: Xs, _ =>
    have := decidablePops Xs
    inferInstanceAs (Decidable (_ ∧ _))

/-- In the state `s` the rule `r` can be reduced: its symbols are on the stack, and a rule with one
symbol leads to a state of lower rank. -/
def Reducible (rank : Nat → Nat) (s r : Nat) : Prop :=
  T.Pops G (G.rhs r).reverse s ∧ ∀ p < T.yyNState, ∃ act ∈ T.yyFindReduceAction p (G.lhs r),
    act < T.yyNState → (G.rhs r).length = 1 → rank act < rank s

instance (rank : Nat → Nat) (s r : Nat) : Decidable (T.Reducible G rank s r) :=
  inferInstanceAs (Decidable (_ ∧ _))

/-- What is checked of the tables, state by state, and of the actions. -/
structure Sound (A : LemonActions V C) (rank : Nat → Nat) : Prop where
  depth : 1 ≤ T.yyStackDepth
  states : 0 < T.yyNState
  noCode : G.terminals ≤ T.yyNoCode
  rank_le : ∀ s < T.yyNState, rank s ≤ T.yyNState
  shift : ∀ s < T.yyNState, ∀ X < G.terminals,
    ∃ act ∈ T.yyFindShiftAction s X, act < T.yyNState → X ≠ 0
  error : ∀ s < T.yyNState, ∃ act ∈ T.yyFindShiftAction s T.yyErrorSymbol, T.yyNState ≤ act
  rule : ∀ r < T.yyNRule, T.yyRuleInfo[r]? = some (G.lhs r, (G.rhs r).length) ∧
    G.terminals ≤ G.lhs r ∧ G.lhs r < T.yyNoCode ∧ G.rhs r ≠ []
  reduce : ∀ s < T.yyNState, ∀ r < T.yyNRule,
    (∃ X < G.terminals, T.yyFindShiftAction s X = some (T.yyNState + r)) → T.Reducible G rank s r
  action : ∀ r < T.yyNRule, ∀ vs ctx, List.Forall₂ G.typed (G.rhs r) vs →
    ∃ v ctx', A.reduceAction r vs ctx = some (v, ctx') ∧ G.typed (G.lhs r) v

variable {T G} {A : LemonActions V C} {rank : Nat → Nat} {top : YyStackEntry V}
  {stack : List (YyStackEntry V)}

theorem Stacked.state_lt (h : T.Stacked G (top :: stack)) (hs : 0 < T.yyNState) :
    top.stateno < T.yyNState := by
  cases h with
  | start v => exact hs
  | push _ _ hedge _ => exact hedge.1

theorem Stacked.pop (hs : 0 < T.yyNState) : ∀ {Xs : List Nat} {top : YyStackEntry V}
    {stack : List (YyStackEntry V)}, T.Stacked G (top :: stack) → T.Pops G Xs top.stateno →
    ∃ popped top' stack', top :: stack = popped ++ top' :: stack' ∧
      T.Stacked G (top' :: stack') ∧ List.Forall₂ G.typed Xs (popped.map (·.minor)) := by
  intro Xs
  induction Xs with
  | nil => exact fun {top stack} h _ => ⟨[], top, stack, rfl, h, List.Forall₂.nil⟩
  | cons X Xs ih =>
    intro top stack h hpops
    obtain ⟨hstate, hedges⟩ := hpops
    cases h with
    | start v => exact absurd rfl hstate
    | @push below _ Y s v hbelow hY hedge htyped =>
      obtain ⟨rfl, hpops⟩ := hedges _ (hbelow.state_lt hs) _ hY hedge
      obtain ⟨popped, top', stack', heq, hleft, hvalues⟩ := ih hbelow hpops
      refine ⟨⟨s, Y, v⟩ :: popped, top', stack', ?_, hleft, List.Forall₂.cons htyped hvalues⟩
      rw [heq]
      rfl

variable (T G) in
/-- The stacks between two calls: none, or one of the automaton within the depth. -/
def Legal (stack : List (YyStackEntry V)) : Prop :=
  stack = [] ∨ T.Stacked G stack ∧ stack.length ≤ T.yyStackDepth

variable (T rank) in
def weight (stack : List (YyStackEntry V)) : Nat :=
  stack.length * (T.yyNState + 1) + (stack.head?.map (rank ·.stateno)).getD 0

theorem weight_lt_of_length_lt (hrank : ∀ s < T.yyNState, rank s ≤ T.yyNState)
    {stack' : List (YyStackEntry V)} (hstate : ∀ e ∈ stack'.head?, e.stateno < T.yyNState)
    (hlength : stack'.length < stack.length) : T.weight rank stack' < T.weight rank stack := by
  have htop : (stack'.head?.map (rank ·.stateno)).getD 0 ≤ T.yyNState := by
    cases hhead : stack'.head? with
    | none => exact Nat.zero_le _
    | some e => exact hrank _ (hstate e hhead)
  have hmul : (stack'.length + 1) * (T.yyNState + 1) ≤ stack.length * (T.yyNState + 1) :=
    Nat.mul_le_mul_right _ hlength
  rw [Nat.add_one_mul] at hmul
  unfold weight
  omega

theorem Stacked.shift (h : T.Stacked G (top :: stack)) {X s : Nat} {v : V}
    (hX : X < T.yyNoCode) (hedge : T.Edge G top.stateno X s) (htyped : G.typed X v) :
    T.Legal G (yyShift T (top :: stack) s X v) := by
  unfold yyShift
  split
  · exact Or.inl rfl
  · exact Or.inr ⟨.push h hX hedge htyped, by simp only [List.length_cons] at *; omega⟩

theorem Sound.reduction (hT : T.Sound G A rank)
    (h : T.Stacked G (top :: stack)) (hdepth : (top :: stack).length ≤ T.yyStackDepth)
    {r X : Nat} (hr : r < T.yyNRule) (hX : X < G.terminals)
    (hfound : T.yyFindShiftAction top.stateno X = some (T.yyNState + r)) (ctx : C) :
    ∃ stack' ctx', yyReduce T A (top :: stack) ctx r = some (stack', ctx') ∧
      T.Legal G stack' ∧
      (stack' = [] ∨ T.weight rank stack' < T.weight rank (top :: stack)) := by
  obtain ⟨hinfo, hlhs, hsymbol, hrhs⟩ := hT.rule r hr
  obtain ⟨hpops, hgoto⟩ := hT.reduce _ (h.state_lt hT.states) r hr ⟨X, hX, hfound⟩
  obtain ⟨popped, top', stack', heq, hleft, hvalues⟩ := h.pop hT.states hpops
  have hlength : popped.length = (G.rhs r).length := by
    rw [← List.length_map (·.minor), ← hvalues.length_eq, List.length_reverse]
  have htake : (top :: stack).take (G.rhs r).length = popped := by
    rw [heq, ← hlength, List.take_left]
  have hdrop : (top :: stack).drop (G.rhs r).length = top' :: stack' := by
    rw [heq, ← hlength, List.drop_left]
  obtain ⟨v, ctx', hact, hv⟩ := hT.action r hr (popped.map (·.minor)).reverse ctx
    (by simpa only [List.reverse_reverse] using List.rel_reverse hvalues)
  obtain ⟨act, hfind, hlower⟩ := hgoto top'.stateno (hleft.state_lt hT.states)
  rw [Option.mem_def] at hfind
  have hheight : (top :: stack).length = (G.rhs r).length + (top' :: stack').length := by
    rw [heq, List.length_append, hlength]
  have hpos : 0 < (G.rhs r).length := List.length_pos_of_ne_nil hrhs
  simp only [yyReduce, hinfo, htake, hdrop, hact, hfind, List.head?_cons, Option.bind_eq_bind,
    Option.bind_some]
  split
  next hstate =>
    refine ⟨_, _, rfl, hleft.shift hsymbol ⟨hstate, ?_⟩ hv, ?_⟩
    · rw [if_neg (Nat.not_lt_of_ge hlhs)]
      exact hfind
    unfold yyShift
    split
    · exact Or.inl rfl
    refine Or.inr ?_
    rcases Nat.lt_or_ge 1 (G.rhs r).length with hone | hone
    · exact weight_lt_of_length_lt hT.rank_le (by simpa using hstate)
        (by rw [hheight, List.length_cons]; omega)
    · have hrank := hlower hstate (by omega)
      have hsame : (top :: stack).length = (top' :: stack').length + 1 := by omega
      simp only [weight, hsame, List.length_cons, List.head?_cons, Option.map_some,
        Option.getD_some]
      omega
  next =>
    split
    · exact ⟨_, _, rfl, Or.inl rfl, Or.inl rfl⟩
    · refine ⟨_, _, rfl, Or.inr ⟨hleft, by omega⟩, Or.inr ?_⟩
      exact weight_lt_of_length_lt hT.rank_le (by simpa using hleft.state_lt hT.states) (by omega)

theorem Sound.popToError (hT : T.Sound G A rank) :
    ∀ {stack : List (YyStackEntry V)}, (stack = [] ∨ T.Stacked G stack) →
      Lighttpd.popToError T stack = some ([], T.yyNoAction) := by
  intro stack
  induction stack with
  | nil => exact fun _ => rfl
  | cons top stack ih =>
    intro h
    have h := h.resolve_left (List.cons_ne_nil _ _)
    obtain ⟨act, hfind, hge⟩ := hT.error _ (h.state_lt hT.states)
    rw [Option.mem_def] at hfind
    simp only [Lighttpd.popToError, hfind, Option.bind_eq_bind, Option.bind_some, ge_iff_le, hge,
      if_true]
    refine ih ?_
    cases h with
    | start v => exact Or.inl rfl
    | push hbelow _ _ _ => exact Or.inr hbelow

theorem Sound.round (hT : T.Sound G A rank)
    (h : T.Stacked G (top :: stack)) (hdepth : (top :: stack).length ≤ T.yyStackDepth)
    {major : Nat} {minor : V} (hmajor : major < G.terminals)
    (htyped : major ≠ 0 → G.typed major minor) (yyerrcnt : Int) (ctx : C) (yyerrorhit : Bool) :
    ∃ p' ctx' major' hit', yyRound T A ⟨top :: stack, yyerrcnt⟩ ctx major minor (major == 0)
        yyerrorhit = some (p', ctx', major', hit') ∧ T.Legal G p'.yystack ∧
      (major' = T.yyNoCode ∨ p'.yystack = [] ∨
        major' = major ∧ T.weight rank p'.yystack < T.weight rank (top :: stack)) := by
  obtain ⟨act, hfind, hshift⟩ := hT.shift _ (h.state_lt hT.states) _ hmajor
  rw [Option.mem_def] at hfind
  simp only [yyRound, hfind, Option.bind_eq_bind, Option.bind_some]
  split
  next hstate =>
    have hnonzero := hshift hstate
    have hedge : T.Edge G top.stateno major act := ⟨hstate, by rw [if_pos hmajor, hfind]⟩
    refine ⟨_, _, _, _, rfl, h.shift (Nat.lt_of_lt_of_le hmajor hT.noCode) hedge (htyped hnonzero),
      Or.inl ?_⟩
    simp [hnonzero]
  next hstate =>
    split
    next hrule =>
      obtain ⟨stack', ctx', hreduced, hlegal, hlower⟩ := hT.reduction h hdepth
        (r := act - T.yyNState) (by omega) hmajor (by rw [hfind]; congr 1; omega) ctx
      rw [hreduced]
      exact ⟨_, _, _, _, rfl, hlegal, hlower.elim (Or.inr ∘ Or.inl) fun hlower =>
        Or.inr (Or.inr ⟨rfl, hlower⟩)⟩
    next =>
      split
      next =>
        unfold yySyntaxError
        split
        · exact ⟨_, _, _, _, rfl, Or.inr ⟨h, hdepth⟩, Or.inl rfl⟩
        · rw [hT.popToError (Or.inr h)]
          exact ⟨_, _, _, _, rfl, Or.inl rfl, Or.inl rfl⟩
      next => exact ⟨_, _, _, _, rfl, Or.inl rfl, Or.inl rfl⟩

/-- The rounds end, by induction on their bound: the weight of the stack is below it. -/
theorem Sound.loop (hT : T.Sound G A rank) {major : Nat} {minor : V}
    (hmajor : major < G.terminals) (htyped : major ≠ 0 → G.typed major minor) :
    ∀ {fuel : Nat} {top : YyStackEntry V} {stack : List (YyStackEntry V)} (yyerrcnt : Int) (ctx : C)
      (yyerrorhit : Bool), T.Stacked G (top :: stack) →
      (top :: stack).length ≤ T.yyStackDepth → T.weight rank (top :: stack) < fuel →
      ∃ p' ctx', yyLoop T A fuel ⟨top :: stack, yyerrcnt⟩ ctx major minor (major == 0) yyerrorhit =
        some (p', ctx') ∧ T.Legal G p'.yystack := by
  intro fuel
  induction fuel with
  | zero => exact fun _ _ _ _ _ hfuel => absurd hfuel (Nat.not_lt_zero _)
  | succ fuel ih =>
    intro top stack yyerrcnt ctx yyerrorhit h hdepth hfuel
    obtain ⟨p', ctx', major', hit', hround, hlegal, hnext⟩ :=
      hT.round h hdepth hmajor htyped yyerrcnt ctx yyerrorhit
    simp only [yyLoop, hround, Option.bind_eq_bind, Option.bind_some]
    split
    next hcont =>
      obtain ⟨rfl, hlower⟩ := (hnext.resolve_left hcont.1).resolve_left hcont.2
      obtain ⟨hstacked, hheight⟩ := hlegal.resolve_left hcont.2
      obtain ⟨_ | ⟨top', stack'⟩, errcnt'⟩ := p'
      · exact absurd rfl hcont.2
      · exact ih errcnt' ctx' hit' hstacked hheight
          (Nat.lt_of_lt_of_le hlower (Nat.le_of_lt_succ hfuel))
    next => exact ⟨_, _, rfl, hlegal⟩

theorem Sound.parse (hT : T.Sound G A rank) {p : YyParser V}
    (hp : T.Legal G p.yystack) {major : Nat} {minor : V} (hmajor : major < G.terminals)
    (htyped : major ≠ 0 → G.typed major minor) (ctx : C) :
    ∃ p' ctx', yyParse T A p ctx major minor = some (p', ctx') ∧
      T.Legal G p'.yystack := by
  have hweight : ∀ {top : YyStackEntry V} {stack}, T.Stacked G (top :: stack) →
      (top :: stack).length ≤ T.yyStackDepth →
      T.weight rank (top :: stack) < (T.yyStackDepth + 1) * (T.yyNState + 1) := by
    intro top stack h hdepth
    have hrank := hT.rank_le _ (h.state_lt hT.states)
    have hmul := Nat.mul_le_mul_right (T.yyNState + 1) hdepth
    rw [Nat.add_one_mul]
    simp only [weight, List.head?_cons, Option.map_some, Option.getD_some]
    omega
  obtain ⟨_ | ⟨top, stack⟩, yyerrcnt⟩ := p
  · simp only [yyParse, if_true, true_and]
    split
    · exact ⟨_, _, rfl, Or.inl rfl⟩
    · exact hT.loop hmajor htyped _ _ _ (.start _) hT.depth (hweight (.start _) hT.depth)
  · obtain ⟨h, hdepth⟩ := hp.resolve_left (List.cons_ne_nil _ _)
    simp only [yyParse, List.cons_ne_nil, false_and, if_false]
    exact hT.loop hmajor htyped _ _ _ h hdepth (hweight h hdepth)

end LemonTables

end Lighttpd
