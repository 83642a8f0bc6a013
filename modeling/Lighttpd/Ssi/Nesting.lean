import Lighttpd.Lib.Machine
import Lighttpd.Ssi.Expr

/-!
# `mod_ssi.c`: `if`, `elif`, `else` and `endif`

Four scalars stand for the stack of the open `if` directives. One of them remembers the depth of the
branch that was hidden last, also when that branch is long closed. An `if` is not evaluated at that
depth or deeper, unless the depth is zero, and an `elif` behind the taken branch hides its own only
at that depth. So the blocks that are shown are the right ones as long as the depth that is
remembered suits each of these directives (`ssiNesting_follows`).

What a log message says is left out.
-/

namespace Lighttpd

open CLib

/-! ## The directives -/

/-- The commands of `process_ssi_stmt` -/
inductive SsiCmd where
  | ssiUnset
  | ssiEcho
  | ssiFsize
  | ssiInclude
  | ssiFlastmod
  | ssiConfig
  | ssiPrintenv
  | ssiSet
  | ssiIf
  | ssiElif
  | ssiElse
  | ssiEndif
  | ssiExec
  deriving DecidableEq, Repr

def ssicmds : List (Bytes × SsiCmd) :=
  [(ascii "echo", .ssiEcho), (ascii "include", .ssiInclude), (ascii "flastmod", .ssiFlastmod),
    (ascii "fsize", .ssiFsize), (ascii "config", .ssiConfig), (ascii "printenv", .ssiPrintenv),
    (ascii "set", .ssiSet), (ascii "if", .ssiIf), (ascii "elif", .ssiElif),
    (ascii "endif", .ssiEndif), (ascii "else", .ssiElse), (ascii "exec", .ssiExec)]

/-- A match of `ssi_regex` from `start` up to `stop`: the command, and up to two attributes. -/
structure SsiMatch where
  start : Nat
  stop : Nat
  command : Bytes
  attributes : List (Bytes × Bytes)
  deriving DecidableEq, Repr

def SsiMatch.ssicmd (m : SsiMatch) : SsiCmd :=
  ((ssicmds.find? fun cmd => m.command = cmd.1).map Prod.snd).getD .ssiUnset

/-- The loop of `if` and `elif`: the last `expr` counts. -/
def SsiMatch.expr (m : SsiMatch) : Option Bytes :=
  m.attributes.foldl (fun expr a => if a.1 = ascii "expr" then some a.2 else expr) none

/-- What `ssi_eval_expr` returns: -1, 0 or 1. -/
inductive SsiTruth where
  | failed
  | no
  | yes
  deriving DecidableEq, Repr

/-! ## The four scalars -/

/-- The nesting fields of the plugin data; the last two are flags. -/
structure SsiNesting where
  ifLevel : Int
  ifIsFalseLevel : Int
  ifIsFalse : Bool
  ifIsFalseEndif : Bool
  deriving DecidableEq, Repr

def SsiNesting.init : SsiNesting := ⟨0, 0, false, false⟩

namespace SsiNesting

variable (n : SsiNesting)

def hide : SsiNesting := { n with ifIsFalse := true, ifIsFalseLevel := n.ifLevel }

/-- `switch (ssi_eval_expr(srv, con, p, expr))` -/
def switch : SsiTruth → SsiNesting
  | .failed | .no => n.hide
  | .yes => { n with ifIsFalse := false }

def up : SsiNesting := { n with ifLevel := n.ifLevel + 1 }

def down : SsiNesting := { n with ifLevel := n.ifLevel - 1 }

def ssiIf (truth : SsiTruth) : SsiNesting :=
  if ¬ n.ifIsFalse ∧ (n.ifIsFalseLevel = 0 ∨ n.ifLevel < n.ifIsFalseLevel) then (n.switch truth).up
  else n.up

/-- `SSI_ELSE` on its own level. -/
def otherwise : SsiNesting :=
  if n.ifIsFalse then
    if n.ifLevel = n.ifIsFalseLevel ∧ ¬ n.ifIsFalseEndif then { n with ifIsFalse := false } else n
  else n.hide

def ssiElse : SsiNesting := n.down.otherwise.up

/-- `SSI_ELIF` on its own level. -/
def orElse (truth : SsiTruth) : SsiNesting :=
  if n.ifLevel = n.ifIsFalseLevel then
    if n.ifIsFalse ∧ ¬ n.ifIsFalseEndif then n.switch truth
    else { n.hide with ifIsFalseEndif := true }
  else n

def ssiElif (truth : SsiTruth) : SsiNesting := (n.down.orElse truth).up

def close : SsiNesting :=
  if n.ifLevel = n.ifIsFalseLevel then { n with ifIsFalse := false, ifIsFalseEndif := false } else n

def ssiEndif : SsiNesting := n.down.close

end SsiNesting

variable (eval : SsiMatch → SsiTruth)

/-- What a directive does to the nesting, where `eval` says what its expression evaluates to. -/
def processSsiNesting (n : SsiNesting) (m : SsiMatch) : SsiNesting :=
  match m.ssicmd with
  | .ssiIf => if m.expr.isNone then n else n.ssiIf (eval m)
  | .ssiElif => if m.expr.isNone then n else n.ssiElif (eval m)
  | .ssiElse => n.ssiElse
  | .ssiEndif => n.ssiEndif
  | _ => n

/-- The directives in their order. The effect of each says whether the text in front of it, and the
directive itself, is output. -/
def ssiNesting : Machine SsiNesting SsiMatch Bool where
  step n m := (processSsiNesting eval n m, [!n.ifIsFalse])

/-! ## The documents that are well nested -/

/-- A directive with this command; a condition has an expression. -/
abbrev SsiStmt (cmd : SsiCmd) : Type :=
  { m : SsiMatch // m.ssicmd = cmd ∧ (cmd = .ssiIf ∨ cmd = .ssiElif → m.expr.isNone = false) }

/-- A directive that is no part of an `if`. -/
abbrev SsiPlain : Type :=
  { m : SsiMatch // m.ssicmd ∉ [SsiCmd.ssiIf, .ssiElif, .ssiElse, .ssiEndif] }

mutual

inductive SsiBlock where
  | nil
  | plain (m : SsiPlain) (rest : SsiBlock)
  | chain (m : SsiStmt .ssiIf) (body : SsiBlock) (tail : SsiTail) (rest : SsiBlock)

/-- What follows a branch up to its `endif`. -/
inductive SsiTail where
  | ssiEndif (m : SsiStmt .ssiEndif)
  | ssiElse (m : SsiStmt .ssiElse) (body : SsiBlock) (last : SsiStmt .ssiEndif)
  | ssiElif (m : SsiStmt .ssiElif) (body : SsiBlock) (tail : SsiTail)

end

mutual

def SsiBlock.stmts : SsiBlock → List SsiMatch
  | .nil => []
  | .plain m rest => m.val :: rest.stmts
  | .chain m body tail rest => m.val :: (body.stmts ++ (tail.stmts ++ rest.stmts))

def SsiTail.stmts : SsiTail → List SsiMatch
  | .ssiEndif m => [m.val]
  | .ssiElse m body last => m.val :: (body.stmts ++ [last.val])
  | .ssiElif m body tail => m.val :: (body.stmts ++ tail.stmts)

end

def holds (m : SsiMatch) : Bool := eval m == .yes

mutual

/-- What the nesting says is output: `live` tells whether the block is. -/
def SsiBlock.shown (live : Bool) : SsiBlock → List Bool
  | .nil => []
  | .plain _ rest => live :: rest.shown live
  | .chain m body tail rest =>
    let taken := holds eval m.val
    live :: (body.shown (live && taken) ++ (tail.shown live (live && taken) taken ++
      rest.shown live))

/-- `live` tells whether the chain is output, `branch` whether the branch before is, and `taken`
whether the expression of a branch so far is true. -/
def SsiTail.shown (live branch taken : Bool) : SsiTail → List Bool
  | .ssiEndif _ => [branch]
  | .ssiElse _ body _ => branch :: (body.shown (live && !taken) ++ [live && !taken])
  | .ssiElif m body tail =>
    let here := live && (!taken && holds eval m.val)
    branch :: (body.shown here ++ tail.shown live here (taken || holds eval m.val))

end

/-! ## The depth of the branch that was hidden last -/

mutual

/-- The depth of the branch hidden last, after a block at the depth `d` that is output, where it was
`s` before. -/
def SsiBlock.hidden (d s : Nat) : SsiBlock → Nat
  | .nil => s
  | .plain _ rest => rest.hidden d s
  | .chain m body tail rest =>
    rest.hidden d (if holds eval m.val then tail.hidden d true (body.hidden (d + 1) s)
      else tail.hidden d false d)

def SsiTail.hidden (d : Nat) (taken : Bool) (s : Nat) : SsiTail → Nat
  | .ssiEndif _ => s
  | .ssiElse _ body _ => if taken then d else body.hidden (d + 1) s
  | .ssiElif m body tail =>
    if taken then d
    else if holds eval m.val then tail.hidden d true (body.hidden (d + 1) s)
    else tail.hidden d false s

end

mutual

/-- Where a block at the depth `d` is output, every `if` whose expression is false is further out than
the branch hidden last, or the depth of that branch is zero; every `elif` behind the taken branch is
at the depth of the branch hidden last. -/
def SsiBlock.Suits (d s : Nat) : SsiBlock → Prop
  | .nil => True
  | .plain _ rest => rest.Suits d s
  | .chain m body tail rest =>
    if holds eval m.val then
      body.Suits (d + 1) s ∧ tail.Suits d true (body.hidden eval (d + 1) s) ∧
        rest.Suits d (tail.hidden eval d true (body.hidden eval (d + 1) s))
    else (s = 0 ∨ d < s) ∧ tail.Suits d false d ∧ rest.Suits d (tail.hidden eval d false d)

def SsiTail.Suits (d : Nat) (taken : Bool) (s : Nat) : SsiTail → Prop
  | .ssiEndif _ => True
  | .ssiElse _ body _ => if taken then True else body.Suits (d + 1) s
  | .ssiElif m body tail =>
    if taken then s = d
    else if holds eval m.val then
      body.Suits (d + 1) s ∧ tail.Suits d true (body.hidden eval (d + 1) s)
    else tail.Suits d false s

end

section Runs

variable {eval} {n : SsiNesting}

theorem Machine.Follows.stmt {m : SsiMatch} {ms : List SsiMatch} {live : Bool} {shown : List Bool}
    {P : Prop} {t : SsiNesting} (hlive : n.ifIsFalse = !live)
    (h : (ssiNesting eval).Follows (processSsiNesting eval n m) ms shown P t) :
    (ssiNesting eval).Follows n (m :: ms) (live :: shown) P t := by
  have hstep : (ssiNesting eval).run n [m] = (processSsiNesting eval n m, [live]) := by
    rw [Machine.run_cons]
    simp only [Machine.run_nil, ssiNesting, hlive, Bool.not_not, List.append_nil]
  have hstart := Machine.Follows.of_run hstep
  have hlength : ((ssiNesting eval).run n [m]).2.length = [live].length := by rw [hstep]
  exact (hstart.append hlength fun _ => h).congr (iff_of_eq (true_and P))

theorem length_ssiNesting (ms : List SsiMatch) :
    ∀ n : SsiNesting, ((ssiNesting eval).run n ms).2.length = ms.length := by
  induction ms with
  | nil => exact fun _ => rfl
  | cons m ms ih =>
    intro n
    rw [Machine.run_cons, List.length_append, ih, List.length_cons, Nat.add_comm]
    rfl

theorem head_ssiNesting {m : SsiMatch} {ms : List SsiMatch} :
    ((ssiNesting eval).run n (m :: ms)).2.head? = some !n.ifIsFalse := by
  rw [Machine.run_cons]
  rfl

theorem processSsiNesting_plain (m : SsiPlain) : processSsiNesting eval n m.val = n := by
  have h := m.property
  simp only [List.mem_cons, List.not_mem_nil, or_false, not_or] at h
  unfold processSsiNesting
  split
  · exact absurd ‹_› h.1
  · exact absurd ‹_› h.2.1
  · exact absurd ‹_› h.2.2.1
  · exact absurd ‹_› h.2.2.2
  · rfl

theorem processSsiNesting_if (m : SsiStmt .ssiIf) :
    processSsiNesting eval n m.val = n.ssiIf (eval m.val) := by
  simp [processSsiNesting, m.property.1, m.property.2 (Or.inl rfl)]

theorem processSsiNesting_elif (m : SsiStmt .ssiElif) :
    processSsiNesting eval n m.val = n.ssiElif (eval m.val) := by
  simp [processSsiNesting, m.property.1, m.property.2 (Or.inr rfl)]

theorem processSsiNesting_else (m : SsiStmt .ssiElse) :
    processSsiNesting eval n m.val = n.ssiElse := by
  simp only [processSsiNesting, m.property.1]

theorem processSsiNesting_endif (m : SsiStmt .ssiEndif) :
    processSsiNesting eval n m.val = n.ssiEndif := by
  simp only [processSsiNesting, m.property.1]

end Runs

/-! ## The lengths -/

mutual

theorem SsiBlock.length_shown (live : Bool) :
    ∀ b : SsiBlock, (b.shown eval live).length = b.stmts.length
  | .nil => rfl
  | .plain _ rest => by
    simp only [SsiBlock.shown, SsiBlock.stmts, List.length_cons, rest.length_shown]
  | .chain _ body tail rest => by
    simp only [SsiBlock.shown, SsiBlock.stmts, List.length_cons, List.length_append,
      body.length_shown, tail.length_shown, rest.length_shown]

theorem SsiTail.length_shown (live branch taken : Bool) :
    ∀ t : SsiTail, (t.shown eval live branch taken).length = t.stmts.length
  | .ssiEndif _ => rfl
  | .ssiElse _ body _ => by
    simp only [SsiTail.shown, SsiTail.stmts, List.length_cons, List.length_append,
      body.length_shown, List.length_nil]
  | .ssiElif _ body tail => by
    simp only [SsiTail.shown, SsiTail.stmts, List.length_cons, List.length_append,
      body.length_shown, tail.length_shown]

end

theorem SsiBlock.length_run (b : SsiBlock) (n : SsiNesting) (live : Bool) :
    ((ssiNesting eval).run n b.stmts).2.length = (b.shown eval live).length := by
  rw [length_ssiNesting, b.length_shown]

theorem SsiTail.length_run (t : SsiTail) (n : SsiNesting) (live branch taken : Bool) :
    ((ssiNesting eval).run n t.stmts).2.length = (t.shown eval live branch taken).length := by
  rw [length_ssiNesting, t.length_shown]

section Hidden

variable {eval} {n : SsiNesting}

theorem SsiNesting.ssiIf_of_hidden (h : n.ifIsFalse = true) (truth : SsiTruth) :
    n.ssiIf truth = n.up := by
  unfold ssiIf
  simp [h]

theorem SsiNesting.down_up : n.up.down = n := by
  simp [up, down]

theorem SsiNesting.up_down : n.down.up = n := by
  simp [up, down]

theorem SsiNesting.ssiElse_of_inner (h : n.ifIsFalse = true) (hlevel : n.ifIsFalseLevel < n.ifLevel - 1) :
    n.ssiElse = n := by
  have hne : n.down.ifLevel ≠ n.down.ifIsFalseLevel := Ne.symm (Int.ne_of_lt hlevel)
  have hfalse : n.down.ifIsFalse = true := h
  unfold ssiElse otherwise
  rw [if_pos hfalse, if_neg (fun hand => hne hand.1), up_down]

theorem SsiNesting.ssiElif_of_inner (hlevel : n.ifIsFalseLevel ≠ n.ifLevel - 1)
    (truth : SsiTruth) : n.ssiElif truth = n := by
  have hne : n.down.ifLevel ≠ n.down.ifIsFalseLevel := Ne.symm hlevel
  unfold ssiElif orElse
  rw [if_neg hne, up_down]

theorem SsiNesting.ssiEndif_of_inner (hlevel : n.ifIsFalseLevel < n.ifLevel - 1) :
    n.ssiEndif = n.down := by
  have hne : n.down.ifLevel ≠ n.down.ifIsFalseLevel := Ne.symm (Int.ne_of_lt hlevel)
  unfold ssiEndif close
  rw [if_neg hne]

mutual

theorem SsiBlock.follows_hidden : ∀ (b : SsiBlock) {n : SsiNesting}, n.ifIsFalse = true →
    n.ifIsFalseLevel < n.ifLevel →
    (ssiNesting eval).Follows n b.stmts (b.shown eval false) True n
  | .nil, n, _, _ => .nil n
  | .plain m rest, n, h, hlevel => by
    refine Machine.Follows.stmt h ?_
    rw [processSsiNesting_plain]
    exact rest.follows_hidden h hlevel
  | .chain m body tail rest, n, h, hlevel => by
    have hup : n.up.ifIsFalseLevel < n.up.ifLevel - 1 := by
      simp only [SsiNesting.up]
      omega
    refine Machine.Follows.stmt h ?_
    rw [processSsiNesting_if, SsiNesting.ssiIf_of_hidden h]
    have hbody := body.follows_hidden (n := n.up) h (by omega)
    have htail := tail.follows_hidden (holds eval m.val) (n := n.up) h hup
    rw [SsiNesting.down_up] at htail
    have hrest := rest.follows_hidden h hlevel
    have hchain := htail.append (tail.length_run eval _ false false (holds eval m.val)) fun _ => hrest
    exact (hbody.append (body.length_run eval _ false) fun _ => hchain).congr (by simp)

theorem SsiTail.follows_hidden (taken : Bool) : ∀ (t : SsiTail) {n : SsiNesting},
    n.ifIsFalse = true → n.ifIsFalseLevel < n.ifLevel - 1 →
    (ssiNesting eval).Follows n t.stmts (t.shown eval false false taken) True n.down
  | .ssiEndif m, n, h, hlevel => by
    refine Machine.Follows.stmt h ?_
    rw [processSsiNesting_endif, SsiNesting.ssiEndif_of_inner hlevel]
    exact .nil n.down
  | .ssiElse m body last, n, h, hlevel => by
    refine Machine.Follows.stmt h ?_
    rw [processSsiNesting_else, SsiNesting.ssiElse_of_inner h hlevel]
    have hbody := body.follows_hidden h (by omega : n.ifIsFalseLevel < n.ifLevel)
    have hlast : (ssiNesting eval).Follows n [last.val] [false] True n.down := by
      refine Machine.Follows.stmt h ?_
      rw [processSsiNesting_endif, SsiNesting.ssiEndif_of_inner hlevel]
      exact .nil n.down
    exact (hbody.append (body.length_run eval _ false) fun _ => hlast).congr (by simp)
  | .ssiElif m body tail, n, h, hlevel => by
    refine Machine.Follows.stmt h ?_
    rw [processSsiNesting_elif, SsiNesting.ssiElif_of_inner (by omega)]
    have hbody := body.follows_hidden h (by omega : n.ifIsFalseLevel < n.ifLevel)
    have htail := tail.follows_hidden (taken || holds eval m.val) h hlevel
    exact (hbody.append (body.length_run eval _ false) fun _ => htail).congr (by simp)

end

end Hidden

section Shown

variable {eval}

theorem SsiTail.head_shown (live branch taken : Bool) (t : SsiTail) :
    (t.shown eval live branch taken).head? = some branch := by
  cases t <;> rfl

theorem follows_never {n : SsiNesting} (h : n.ifIsFalse = false) (body : SsiBlock) (tail : SsiTail)
    (live taken : Bool) (ms : List SsiMatch) (outs : List Bool) (t : SsiNesting) :
    (ssiNesting eval).Follows n (body.stmts ++ (tail.stmts ++ ms))
      (body.shown eval false ++ (tail.shown eval live false taken ++ outs)) False t := by
  have hright : (body.shown eval false ++ (tail.shown eval live false taken ++ outs)).head? =
      some false := by
    cases body with
    | nil =>
      simp only [SsiBlock.shown, List.nil_append, List.head?_append, tail.head_shown,
        Option.some_or]
    | plain => rfl
    | chain => rfl
  have hcode : ((ssiNesting eval).run n (body.stmts ++ (tail.stmts ++ ms))).2.head? = some true := by
    obtain ⟨m, ms', hms⟩ : ∃ m ms', body.stmts ++ (tail.stmts ++ ms) = m :: ms' := by
      cases body with
      | nil => cases tail <;> exact ⟨_, _, rfl⟩
      | plain => exact ⟨_, _, rfl⟩
      | chain => exact ⟨_, _, rfl⟩
    rw [hms, head_ssiNesting, h]
    rfl
  refine ⟨iff_of_false ?_ id, False.elim⟩
  intro heq
  rw [heq, hright] at hcode
  nomatch hcode

namespace SsiNesting

variable (d s : Nat)

/-- At the depth `d` where output is not hidden and `s` was hidden last. -/
def live : SsiNesting := ⟨d, s, false, false⟩

/-- In a chain at the depth `d` whose taken branch is closed by an `elif`. -/
def done : SsiNesting := ⟨d + 1, d, true, true⟩

/-- In a chain at the depth `d` none of whose branches was taken. -/
def waiting : SsiNesting := ⟨d + 1, d, true, false⟩

variable {d s}

theorem live_ssiIf {truth : SsiTruth} (h : truth = .yes) :
    (live d s).ssiIf truth = live (d + 1) s := by
  subst h
  unfold ssiIf
  split <;> rfl

theorem live_ssiIf_no {truth : SsiTruth} (h : truth ≠ .yes) (hdepth : s = 0 ∨ d < s) :
    (live d s).ssiIf truth = waiting d := by
  have hcond : ¬ (live d s).ifIsFalse = true ∧
      ((live d s).ifIsFalseLevel = 0 ∨ (live d s).ifLevel < (live d s).ifIsFalseLevel) := by
    refine ⟨Bool.false_ne_true, ?_⟩
    simp only [live]
    omega
  unfold ssiIf
  rw [if_pos hcond]
  cases truth with
  | yes => exact absurd rfl h
  | failed | no => rfl

theorem live_ssiIf_skip (truth : SsiTruth) (hdepth : ¬ (s = 0 ∨ d < s)) :
    (live d s).ssiIf truth = live (d + 1) s := by
  have hcond : ¬ (¬ (live d s).ifIsFalse = true ∧
      ((live d s).ifIsFalseLevel = 0 ∨ (live d s).ifLevel < (live d s).ifIsFalseLevel)) := by
    rintro ⟨-, h⟩
    simp only [live] at h
    omega
  unfold ssiIf
  rw [if_neg hcond]
  rfl

theorem live_down : (live (d + 1) s).down = live d s := by
  simp [live, down]

theorem done_down : (done d).down = ⟨d, d, true, true⟩ := by
  simp [done, down]

theorem waiting_down : (waiting d).down = ⟨d, d, true, false⟩ := by
  simp [waiting, down]

theorem live_ssiEndif : (live (d + 1) s).ssiEndif = live d s := by
  unfold ssiEndif close
  rw [live_down]
  split <;> rfl

theorem live_ssiElse : (live (d + 1) s).ssiElse = waiting d := by
  unfold ssiElse
  rw [live_down]
  rfl

theorem live_ssiElif (truth : SsiTruth) : (live (d + 1) d).ssiElif truth = done d := by
  unfold ssiElif orElse
  rw [live_down, if_pos (show (live d d).ifLevel = (live d d).ifIsFalseLevel from rfl)]
  rfl

theorem live_ssiElif_skip (truth : SsiTruth) (h : s ≠ d) :
    (live (d + 1) s).ssiElif truth = live (d + 1) s := by
  apply ssiElif_of_inner
  simp only [live]
  omega

theorem done_ssiEndif : (done d).ssiEndif = live d d := by
  unfold ssiEndif close
  rw [done_down, if_pos rfl]
  rfl

theorem done_ssiElse : (done d).ssiElse = done d := by
  unfold ssiElse otherwise
  rw [done_down]
  simp [up, done]

theorem done_ssiElif (truth : SsiTruth) : (done d).ssiElif truth = done d := by
  unfold ssiElif orElse
  rw [done_down, if_pos rfl]
  rfl

theorem waiting_ssiEndif : (waiting d).ssiEndif = live d d := by
  unfold ssiEndif close
  rw [waiting_down, if_pos rfl]
  rfl

theorem waiting_ssiElse : (waiting d).ssiElse = live (d + 1) d := by
  unfold ssiElse otherwise
  rw [waiting_down]
  simp [up, live]

theorem waiting_ssiElif {truth : SsiTruth} (h : truth = .yes) :
    (waiting d).ssiElif truth = live (d + 1) d := by
  subst h
  unfold ssiElif orElse
  rw [waiting_down]
  simp [up, live, switch]

theorem waiting_ssiElif_no {truth : SsiTruth} (h : truth ≠ .yes) :
    (waiting d).ssiElif truth = waiting d := by
  unfold ssiElif orElse
  rw [waiting_down, if_pos rfl, if_pos ⟨rfl, by simp⟩]
  cases truth with
  | yes => exact absurd rfl h
  | failed | no => rfl

end SsiNesting

variable (eval) in
theorem SsiBlock.follows_inner (b : SsiBlock) {d : Nat} {n : SsiNesting} (h : n.ifIsFalse = true)
    (hfalse : n.ifIsFalseLevel = d) (hlevel : n.ifLevel = d + 1) :
    (ssiNesting eval).Follows n b.stmts (b.shown eval false) True n :=
  b.follows_hidden h (by omega)

theorem SsiTail.follows_done {d : Nat} : ∀ t : SsiTail,
    (ssiNesting eval).Follows (.done d) t.stmts (t.shown eval true false true) True (.live d d)
  | .ssiEndif m => by
    refine Machine.Follows.stmt rfl ?_
    rw [processSsiNesting_endif, SsiNesting.done_ssiEndif]
    exact .nil _
  | .ssiElse m body last => by
    refine Machine.Follows.stmt rfl ?_
    rw [processSsiNesting_else, SsiNesting.done_ssiElse]
    have hbody := body.follows_inner eval (n := .done d) rfl rfl rfl
    have hlast : (ssiNesting eval).Follows (.done d) [last.val] [false] True (.live d d) := by
      refine Machine.Follows.stmt rfl ?_
      rw [processSsiNesting_endif, SsiNesting.done_ssiEndif]
      exact .nil _
    exact (hbody.append (body.length_run eval _ false) fun _ => hlast).congr (by simp)
  | .ssiElif m body tail => by
    refine Machine.Follows.stmt rfl ?_
    rw [processSsiNesting_elif, SsiNesting.done_ssiElif]
    have hbody := body.follows_inner eval (n := .done d) rfl rfl rfl
    have htail := tail.follows_done (d := d)
    exact (hbody.append (body.length_run eval _ false) fun _ => htail).congr (by simp)

mutual

theorem SsiBlock.follows_live (d s : Nat) : ∀ b : SsiBlock,
    (ssiNesting eval).Follows (.live d s) b.stmts (b.shown eval true) (b.Suits eval d s)
      (.live d (b.hidden eval d s))
  | .nil => .nil _
  | .plain m rest => by
    apply Machine.Follows.stmt rfl
    rw [processSsiNesting_plain]
    exact rest.follows_live d s
  | .chain m body tail rest => by
    apply Machine.Follows.stmt rfl
    rw [processSsiNesting_if]
    simp only [SsiBlock.Suits, SsiBlock.hidden]
    by_cases hm : eval m.val = .yes
    · have hholds : holds eval m.val = true := by simp [holds, hm]
      rw [SsiNesting.live_ssiIf hm]
      simp only [hholds, Bool.and_self, if_true]
      have hbody := body.follows_live (d + 1) s
      have htail := tail.follows_taken d (body.hidden eval (d + 1) s)
      have hrest := rest.follows_live d (tail.hidden eval d true (body.hidden eval (d + 1) s))
      exact hbody.append (body.length_run eval _ true) fun _ =>
        htail.append (tail.length_run eval _ true true true) fun _ => hrest
    · have hholds : holds eval m.val = false := by simp [holds, hm]
      simp only [hholds, Bool.and_false, Bool.false_eq_true, if_false]
      by_cases hdepth : s = 0 ∨ d < s
      · rw [SsiNesting.live_ssiIf_no hm hdepth]
        have hbody := body.follows_inner eval (n := .waiting d) rfl rfl rfl
        have htail := tail.follows_waiting d
        have hrest := rest.follows_live d (tail.hidden eval d false d)
        have hchain := htail.append (tail.length_run eval _ true false false) fun _ => hrest
        exact (hbody.append (body.length_run eval _ false) fun _ => hchain).congr
          (by simp only [true_and, hdepth])
      · rw [SsiNesting.live_ssiIf_skip _ hdepth]
        exact (follows_never rfl body tail true false _ _ _).congr (by simp [hdepth])

theorem SsiTail.follows_taken (d s : Nat) : ∀ t : SsiTail,
    (ssiNesting eval).Follows (.live (d + 1) s) t.stmts (t.shown eval true true true)
      (t.Suits eval d true s) (.live d (t.hidden eval d true s))
  | .ssiEndif m => by
    apply Machine.Follows.stmt rfl
    rw [processSsiNesting_endif, SsiNesting.live_ssiEndif]
    exact .nil _
  | .ssiElse m body last => by
    apply Machine.Follows.stmt rfl
    rw [processSsiNesting_else, SsiNesting.live_ssiElse]
    have hbody := body.follows_inner eval (n := .waiting d) rfl rfl rfl
    have hlast : (ssiNesting eval).Follows (.waiting d) [last.val] [false] True (.live d d) := by
      refine Machine.Follows.stmt rfl ?_
      rw [processSsiNesting_endif, SsiNesting.waiting_ssiEndif]
      exact .nil _
    exact (hbody.append (body.length_run eval _ false) fun _ => hlast).congr
      (by simp [SsiTail.Suits])
  | .ssiElif m body tail => by
    apply Machine.Follows.stmt rfl
    rw [processSsiNesting_elif]
    by_cases hs : s = d
    · subst hs
      rw [SsiNesting.live_ssiElif]
      have hbody := body.follows_inner eval (n := .done s) rfl rfl rfl
      have htail := @SsiTail.follows_done eval s tail
      exact (hbody.append (body.length_run eval _ false) fun _ => htail).congr
        (by simp [SsiTail.Suits])
    · rw [SsiNesting.live_ssiElif_skip _ hs]
      have hnever := @follows_never eval (.live (d + 1) s) rfl body tail true true [] []
        (.live d d)
      rw [List.append_nil, List.append_nil] at hnever
      exact hnever.congr (by simp [SsiTail.Suits, hs])

theorem SsiTail.follows_waiting (d : Nat) : ∀ t : SsiTail,
    (ssiNesting eval).Follows (.waiting d) t.stmts (t.shown eval true false false)
      (t.Suits eval d false d) (.live d (t.hidden eval d false d))
  | .ssiEndif m => by
    refine Machine.Follows.stmt rfl ?_
    rw [processSsiNesting_endif, SsiNesting.waiting_ssiEndif]
    exact .nil _
  | .ssiElse m body last => by
    refine Machine.Follows.stmt rfl ?_
    rw [processSsiNesting_else, SsiNesting.waiting_ssiElse]
    have hbody := body.follows_live (d + 1) d
    have hlast : (ssiNesting eval).Follows (.live (d + 1) (body.hidden eval (d + 1) d)) [last.val]
        [true] True (.live d (body.hidden eval (d + 1) d)) := by
      apply Machine.Follows.stmt rfl
      rw [processSsiNesting_endif, SsiNesting.live_ssiEndif]
      exact .nil _
    exact (hbody.append (body.length_run eval _ true) fun _ => hlast).congr
      (by simp [SsiTail.Suits])
  | .ssiElif m body tail => by
    refine Machine.Follows.stmt rfl ?_
    rw [processSsiNesting_elif]
    simp only [SsiTail.Suits, SsiTail.hidden, Bool.false_eq_true, if_false]
    by_cases hm : eval m.val = .yes
    · have hholds : holds eval m.val = true := by simp [holds, hm]
      rw [SsiNesting.waiting_ssiElif hm]
      simp only [hholds, Bool.not_false, Bool.and_self, Bool.or_true, if_true]
      have hbody := body.follows_live (d + 1) d
      have htail := tail.follows_taken d (body.hidden eval (d + 1) d)
      exact hbody.append (body.length_run eval _ true) fun _ => htail
    · have hholds : holds eval m.val = false := by simp [holds, hm]
      rw [SsiNesting.waiting_ssiElif_no hm]
      simp only [hholds, Bool.and_false, Bool.or_false, Bool.false_eq_true, if_false]
      have hbody := body.follows_inner eval (n := .waiting d) rfl rfl rfl
      have htail := tail.follows_waiting d
      exact (hbody.append (body.length_run eval _ false) fun _ => htail).congr (by simp)

end

end Shown

end Lighttpd
