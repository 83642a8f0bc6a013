import Lighttpd.Buffer
import Lighttpd.Lempar

/-!
# `mod_ssi_exprparser.y`: the grammar of the SSI conditions

The tables are the generated ones of `mod_ssi_exprparser.c`, the actions those of the grammar. An
action that finds a value of another type, or a string without memory, has no value itself. With the
tokens of the tokenizer that does not happen, and every call ends (`ssiexprparser_spec`).
-/

namespace Lighttpd

open CLib

inductive SsiType where
  | unset
  | bool
  | string
  deriving DecidableEq, Repr

structure SsiVal where
  type : SsiType
  str : Option Buffer
  bo : Int
  deriving DecidableEq, Repr

/-- `ssi_ctx_t` -/
structure SsiCtx where
  ok : Int
  val : SsiVal
  deriving DecidableEq, Repr

inductive SsiExprCond where
  | unset
  | le
  | ge
  | eq
  | ne
  | lt
  | gt
  deriving DecidableEq, Repr

/-- `TK_*` -/
inductive Tk where
  | and
  | or
  | eq
  | ne
  | gt
  | ge
  | lt
  | le
  | not
  | lparan
  | rparan
  | value
  deriving DecidableEq, Repr

def Tk.code : Tk → Nat
  | .and => 1
  | .or => 2
  | .eq => 3
  | .ne => 4
  | .gt => 5
  | .ge => 6
  | .lt => 7
  | .le => 8
  | .not => 9
  | .lparan => 10
  | .rparan => 11
  | .value => 12

/-- `YYMINORTYPE` -/
inductive SsiMinor where
  | yy0 (token : Buffer)
  | yy8 (cond : SsiExprCond)
  | yy19 (value : Buffer)
  | yy29 (expr : SsiVal)
  | yy39 (error : Int)
  deriving DecidableEq, Repr

def ssiValInit : SsiVal := ⟨.unset, none, 0⟩

def ssiValTobool (b : SsiVal) : Option Int :=
  if b.type = .string then b.str.map fun str => if str.used > 1 then 1 else 0 else some b.bo

/-- `strcmp` of two values; `NULL` cannot be compared. -/
def ssiValStrcmp (b d : SsiVal) : Option Int := do
  let x ← b.str
  let y ← d.str
  if x.size = 0 ∨ y.size = 0 then none else some (strcmp x.str y.str)

def ssiValCompare (b d : SsiVal) : Option Int :=
  if b.type = .string ∧ d.type = .string then ssiValStrcmp b d
  else do
    let x ← ssiValTobool b
    let y ← ssiValTobool d
    some (x - y)

/-- `switch(C)`; `bo` is the old value. -/
def ssiCondBo (cond : SsiExprCond) (cmp bo : Int) : Int :=
  match cond with
  | .eq => if cmp = 0 then 1 else 0
  | .ne => if cmp ≠ 0 then 1 else 0
  | .ge => if cmp ≥ 0 then 1 else 0
  | .gt => if cmp > 0 then 1 else 0
  | .le => if cmp ≤ 0 then 1 else 0
  | .lt => if cmp < 0 then 1 else 0
  | .unset => bo

section Actions

variable [Malloc]

/-- The first part of `yy_reduce`. The numbers are those of the rules in the grammar. -/
def ssiReduceAction (ruleno : Nat) (vs : List SsiMinor) (ctx : SsiCtx) :
    Option (SsiMinor × SsiCtx) :=
  match ruleno, vs with
  | 0, [.yy29 b] => do
    let bo ← ssiValTobool b
    some (.yy39 0, { ctx with val := { ctx.val with bo := bo, type := .bool } })
  | 1, [.yy29 b, .yy8 c, .yy29 d] => do
    let cmp ← ssiValCompare b d
    some (.yy29 { b with bo := ssiCondBo c cmp b.bo, type := .bool }, ctx)
  | 2, [.yy29 b] => some (.yy29 b, ctx)
  | 3, [.yy29 b, .yy0 _, .yy29 c] => do
    let x ← ssiValTobool b
    let y ← ssiValTobool c
    some (.yy29 { b with bo := if x ≠ 0 ∧ y ≠ 0 then 1 else 0, type := .bool }, ctx)
  | 4, [.yy29 b, .yy0 _, .yy29 c] => do
    let x ← ssiValTobool b
    let y ← ssiValTobool c
    some (.yy29 { b with bo := if x ≠ 0 ∨ y ≠ 0 then 1 else 0, type := .bool }, ctx)
  | 5, [.yy0 _, .yy29 b] => do
    let x ← ssiValTobool b
    some (.yy29 { b with bo := if x = 0 then 1 else 0, type := .bool }, ctx)
  | 6, [.yy0 _, .yy29 b, .yy0 _] => some (.yy29 b, ctx)
  | 7, [.yy19 b] => some (.yy29 { ssiValInit with str := some b, type := .string }, ctx)
  | 8, [.yy0 b] => some (.yy19 b, ctx)
  | 9, [.yy19 b, .yy0 c] => some (.yy19 (bufferAppendStringBuffer b c), ctx)
  | 10, [.yy0 _] => some (.yy8 .eq, ctx)
  | 11, [.yy0 _] => some (.yy8 .ne, ctx)
  | 12, [.yy0 _] => some (.yy8 .le, ctx)
  | 13, [.yy0 _] => some (.yy8 .ge, ctx)
  | 14, [.yy0 _] => some (.yy8 .lt, ctx)
  | 15, [.yy0 _] => some (.yy8 .gt, ctx)
  | _, _ => none

def ssiActions : LemonActions SsiMinor SsiCtx where
  reduceAction := ssiReduceAction
  parseFailure ctx := { ctx with ok := 0 }
  errorMinor := .yy39 0

end Actions

def ssiTables : LemonTables where
  yyAction := [5, 7, 17, 18, 22, 20, 21, 19, 2, 14, 1, 23, 40, 9, 11, 3, 16, 2, 14, 12, 4, 14, 5, 7,
    6, 14, 7, 8, 14, 10, 14, 13, 37, 37, 15]
  yyLookahead := [1, 2, 3, 4, 5, 6, 7, 8, 14, 15, 16, 0, 18, 9, 10, 17, 12, 14, 15, 16, 14, 15, 1,
    2, 14, 15, 2, 14, 15, 14, 15, 11, 19, 19, 12]
  yyShiftOfst := [4, 11, -1, 4, 21, 4, 24, 4, -2, 4, -2, 4, 20, -2, 22, -2, -2, -2, -2, -2, -2, -2,
    -2]
  yyShiftUseDflt := -2
  yyReduceOfst := [-6, -7, -2, 6, -7, 10, -7, 13, -7, 15, -7, 3, -7, -7, -7, -7, -7, -7, -7, -7, -7,
    -7, -7]
  yyReduceUseDflt := -7
  yyDefault := [39, 39, 25, 39, 24, 39, 26, 39, 27, 39, 28, 39, 39, 29, 30, 32, 31, 33, 34, 35, 36,
    37, 38]
  yyRuleInfo := [(18, 1), (16, 3), (16, 1), (14, 3), (14, 3), (14, 2), (14, 3), (14, 1), (15, 1),
    (15, 2), (17, 1), (17, 1), (17, 1), (17, 1), (17, 1), (17, 1)]
  yyNState := 23
  yyNRule := 16
  yyNoCode := 20
  yyErrorSymbol := 13
  yyStackDepth := 100

def ssiexprparser [Malloc] : YyParser SsiMinor → SsiCtx → Nat → SsiMinor →
    Option (YyParser SsiMinor × SsiCtx) :=
  yyParse ssiTables ssiActions

/-- `ssiexprparserAlloc`; the stack is empty. -/
def ssiexprparserAlloc : YyParser SsiMinor := ⟨[], 0⟩

/-! ## The grammar -/

/-- The rules, with the numbers of the tables: `14` is `expr`, `15` is `value`, `16` is `exprline`,
`17` is `cond` and `18` is `input`. -/
def ssiRules : List (Nat × List Nat) :=
  [(18, [16]), (16, [14, 17, 14]), (16, [14]), (14, [14, 1, 14]), (14, [14, 2, 14]), (14, [9, 14]),
    (14, [10, 16, 11]), (14, [15]), (15, [12]), (15, [15, 12]), (17, [3]), (17, [4]), (17, [8]),
    (17, [6]), (17, [7]), (17, [5])]

def SsiVal.Filled (v : SsiVal) : Prop := v.type = .string → ∃ b, v.str = some b ∧ b.size ≠ 0

/-- `%type` -/
def ssiTyped (X : Nat) (minor : SsiMinor) : Prop :=
  match X with
  | 14 | 16 => ∃ v, minor = .yy29 v ∧ v.Filled
  | 15 => ∃ b, minor = .yy19 b ∧ b.size ≠ 0
  | 17 => ∃ c, minor = .yy8 c
  | 18 => True
  | _ => ∃ b, minor = .yy0 b ∧ b.size ≠ 0

def ssiGrammar : LemonGrammar SsiMinor where
  terminals := 13
  lhs r := (ssiRules.getD r (0, [])).1
  rhs r := (ssiRules.getD r (0, [])).2
  typed := ssiTyped

/-- A token before the rules it can start, those before the lists of them. -/
def ssiRank (s : Nat) : Nat :=
  [0, 1, 2, 0, 2, 0, 2, 0, 2, 0, 2, 0, 1, 0, 3, 4, 4, 1, 1, 1, 1, 1, 1].getD s 0

section Typed

variable {R : Nat → SsiMinor → Prop} {vs : List SsiMinor} {X Y Z : Nat}

private theorem typed_one (h : List.Forall₂ R [X] vs) : ∃ x, vs = [x] ∧ R X x := by
  obtain ⟨x, _, hx, hnil, rfl⟩ := List.forall₂_cons_left_iff.mp h
  rw [List.forall₂_nil_left_iff.mp hnil]
  exact ⟨x, rfl, hx⟩

private theorem typed_two (h : List.Forall₂ R [X, Y] vs) : ∃ x y, vs = [x, y] ∧ R X x ∧ R Y y := by
  obtain ⟨x, _, hx, htail, rfl⟩ := List.forall₂_cons_left_iff.mp h
  obtain ⟨y, rfl, hy⟩ := typed_one htail
  exact ⟨x, y, rfl, hx, hy⟩

private theorem typed_three (h : List.Forall₂ R [X, Y, Z] vs) :
    ∃ x y z, vs = [x, y, z] ∧ R X x ∧ R Y y ∧ R Z z := by
  obtain ⟨x, _, hx, htail, rfl⟩ := List.forall₂_cons_left_iff.mp h
  obtain ⟨y, z, rfl, hy, hz⟩ := typed_two htail
  exact ⟨x, y, z, rfl, hx, hy, hz⟩

end Typed

theorem ssiValTobool_filled {v : SsiVal} (h : v.Filled) : ∃ bo, ssiValTobool v = some bo := by
  unfold ssiValTobool
  split
  next htype =>
    obtain ⟨b, hb, _⟩ := h htype
    exact ⟨_, by rw [hb, Option.map_some]⟩
  next => exact ⟨_, rfl⟩

theorem ssiValCompare_filled {b d : SsiVal} (hb : b.Filled) (hd : d.Filled) :
    ∃ cmp, ssiValCompare b d = some cmp := by
  unfold ssiValCompare
  split
  next htype =>
    obtain ⟨x, hx, hxsize⟩ := hb htype.1
    obtain ⟨y, hy, hysize⟩ := hd htype.2
    refine ⟨strcmp x.str y.str, ?_⟩
    simp [ssiValStrcmp, hx, hy, hxsize, hysize]
  next =>
    obtain ⟨x, hx⟩ := ssiValTobool_filled hb
    obtain ⟨y, hy⟩ := ssiValTobool_filled hd
    exact ⟨x - y, by rw [hx, hy]; rfl⟩

theorem SsiVal.filled_bool (v : SsiVal) (bo : Int) :
    SsiVal.Filled { v with bo := bo, type := .bool } :=
  fun h => nomatch h

variable [Malloc]

theorem size_bufferAppendStringBuffer {b : Buffer} (c : Buffer) (hb : b.size ≠ 0) :
    (bufferAppendStringBuffer b c).size ≠ 0 := by
  unfold bufferAppendStringBuffer
  split
  · exact hb
  · unfold bufferAppendStringLen
    dsimp only
    split
    · exact hb
    next hs =>
      simp only [Buffer.size, List.length_set, memcpy, List.length_append]
      omega

theorem ssiReduceAction_typed {r : Nat} (hr : r < 16) {vs : List SsiMinor} (ctx : SsiCtx)
    (h : List.Forall₂ ssiTyped (ssiGrammar.rhs r) vs) :
    ∃ v ctx', ssiReduceAction r vs ctx = some (v, ctx') ∧ ssiTyped (ssiGrammar.lhs r) v := by
  match r, hr with
  | 0, _ =>
    obtain ⟨_, rfl, b, rfl, hb⟩ := typed_one h
    obtain ⟨bo, hbo⟩ := ssiValTobool_filled hb
    exact ⟨_, _, Option.bind_eq_some_iff.mpr ⟨bo, hbo, rfl⟩, trivial⟩
  | 1, _ =>
    obtain ⟨_, _, _, rfl, ⟨b, rfl, hb⟩, ⟨c, rfl⟩, d, rfl, hd⟩ := typed_three h
    obtain ⟨cmp, hcmp⟩ := ssiValCompare_filled hb hd
    exact ⟨_, _, Option.bind_eq_some_iff.mpr ⟨cmp, hcmp, rfl⟩, _, rfl, b.filled_bool _⟩
  | 2, _ =>
    obtain ⟨_, rfl, b, rfl, hb⟩ := typed_one h
    exact ⟨_, _, rfl, b, rfl, hb⟩
  | 3, _ =>
    obtain ⟨_, _, _, rfl, ⟨b, rfl, hb⟩, ⟨t, rfl, _⟩, c, rfl, hc⟩ := typed_three h
    obtain ⟨x, hx⟩ := ssiValTobool_filled hb
    obtain ⟨y, hy⟩ := ssiValTobool_filled hc
    exact ⟨_, _, Option.bind_eq_some_iff.mpr ⟨x, hx, Option.bind_eq_some_iff.mpr ⟨y, hy, rfl⟩⟩,
      _, rfl, b.filled_bool _⟩
  | 4, _ =>
    obtain ⟨_, _, _, rfl, ⟨b, rfl, hb⟩, ⟨t, rfl, _⟩, c, rfl, hc⟩ := typed_three h
    obtain ⟨x, hx⟩ := ssiValTobool_filled hb
    obtain ⟨y, hy⟩ := ssiValTobool_filled hc
    exact ⟨_, _, Option.bind_eq_some_iff.mpr ⟨x, hx, Option.bind_eq_some_iff.mpr ⟨y, hy, rfl⟩⟩,
      _, rfl, b.filled_bool _⟩
  | 5, _ =>
    obtain ⟨_, _, rfl, ⟨t, rfl, _⟩, b, rfl, hb⟩ := typed_two h
    obtain ⟨x, hx⟩ := ssiValTobool_filled hb
    exact ⟨_, _, Option.bind_eq_some_iff.mpr ⟨x, hx, rfl⟩, _, rfl, b.filled_bool _⟩
  | 6, _ =>
    obtain ⟨_, _, _, rfl, ⟨t, rfl, _⟩, ⟨b, rfl, hb⟩, t', rfl, _⟩ := typed_three h
    exact ⟨_, _, rfl, b, rfl, hb⟩
  | 7, _ =>
    obtain ⟨_, rfl, b, rfl, hb⟩ := typed_one h
    exact ⟨_, _, rfl, _, rfl, fun _ => ⟨b, rfl, hb⟩⟩
  | 8, _ =>
    obtain ⟨_, rfl, b, rfl, hb⟩ := typed_one h
    exact ⟨_, _, rfl, b, rfl, hb⟩
  | 9, _ =>
    obtain ⟨_, _, rfl, ⟨b, rfl, hb⟩, c, rfl, _⟩ := typed_two h
    exact ⟨_, _, rfl, _, rfl, size_bufferAppendStringBuffer c hb⟩
  | 10, _ | 11, _ | 12, _ | 13, _ | 14, _ | 15, _ =>
    obtain ⟨_, rfl, t, rfl, _⟩ := typed_one h
    exact ⟨_, _, rfl, _, rfl⟩
  | r + 16, hr => exact absurd hr (by omega)

theorem ssiTables_sound : ssiTables.Sound ssiGrammar ssiActions ssiRank where
  depth := by decide
  states := by decide
  noCode := by decide
  rank_le := by decide +kernel
  shift := by decide +kernel
  error := by decide +kernel
  rule := by decide +kernel
  reduce := by decide +kernel
  action _ hr _ ctx h := ssiReduceAction_typed hr ctx h

theorem ssiexprparser_spec {p : YyParser SsiMinor} (hp : ssiTables.Legal ssiGrammar p.yystack)
    (ctx : SsiCtx) {major : Nat} {token : Buffer}
    (h : major = 0 ∨ ∃ t : Tk, major = t.code ∧ token.size ≠ 0) :
    ∃ p' ctx', ssiexprparser p ctx major (.yy0 token) = some (p', ctx') ∧
      ssiTables.Legal ssiGrammar p'.yystack := by
  refine ssiTables_sound.parse hp ?_ ?_ ctx
  · rcases h with rfl | ⟨t, rfl, _⟩
    · decide
    · cases t <;> decide
  · intro hmajor
    obtain ⟨t, rfl, hsize⟩ := h.resolve_left hmajor
    cases t <;> exact ⟨token, rfl, hsize⟩

end Lighttpd
