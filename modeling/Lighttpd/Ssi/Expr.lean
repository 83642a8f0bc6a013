import Lighttpd.ArrayElements
import Lighttpd.Ssi.ExprParser
import Mathlib.Data.List.DropRight

/-!
# `mod_ssi_expr.c`: the conditions of `if` and `elif`

The tokenizer gives the parser one token after the other. A word is collected with `isgraph`, and a
word that is empty is a token too, so the tokenizer stays forever in front of a byte that is neither
blank nor printable. In front of `${}` it copies `(size_t)-1` bytes. Elsewhere it moves on, and the
evaluation ends (`ssiExprEnds_iff`).

What a log message says is left out.
-/

namespace Lighttpd

open CLib

/-- `isgraph` and `isalpha` in the C locale. -/
def isgraph (c : UInt8) : Bool := 33 ≤ c && c ≤ 126

def isalpha (c : UInt8) : Bool := (65 ≤ c && c ≤ 90) || (97 ≤ c && c ≤ 122)

/-! ## The variables -/

/-- What holds of `p->ssi_vars` and `p->ssi_cgi_env`: every variable has a key of its own and a
string for its value. -/
structure SsiVariables (a : Arr DataString) : Prop where
  wf : a.WF
  named : ∀ {i x}, a.Slot i x → x.isIndexKey = false
  filled : ∀ {i x}, a.Live i x → x.value.used ≠ 0

def SsiEnv : Type := { a : Arr DataString // SsiVariables a }

/-- `p->ssi_cgi_env` and `p->ssi_vars` -/
structure SsiPluginData where
  ssiCgiEnv : SsiEnv
  ssiVars : SsiEnv

section Model

variable [Malloc]

/-- `ssi_env_add`; `set` does the same with `p->ssi_vars`. -/
def ssiEnvAdd (env : Arr DataString) (addr : Nat) (key val : Bytes) : Option (Arr DataString) :=
  let (du, env) := arrayGetUnusedElement env .string
  let ds := du.getD (dataStringInit addr)
  arrayInsertUnique env { ds with
    key := bufferCopyString ds.key (some key)
    value := bufferCopyString ds.value (some val) }

/-! ## The tokenizer -/

/-- `ssi_tokenizer_t`; `input` ends in front of its terminator. -/
structure SsiTokenizer where
  input : Bytes
  offset : Nat
  size : Nat
  linePos : Int
  inKey : Int
  inBrace : Int
  inCond : Int
  deriving DecidableEq, Repr

def SsiTokenizer.rest (t : SsiTokenizer) : Bytes := t.input.drop t.offset

def SsiTokenizer.advance (t : SsiTokenizer) (n : Nat) : SsiTokenizer :=
  { t with offset := t.offset + n, linePos := t.linePos + n }

/-- `tid`, or the error that ends the call. -/
inductive SsiRead where
  | failed
  | nothing
  | token (tid : Tk)
  deriving DecidableEq, Repr

/-- What a turn of the loop leaves; a copy of `(size_t)-1` bytes has no value. -/
abbrev SsiTurn := Option (SsiRead × SsiTokenizer × Buffer)

variable (p : SsiPluginData) (t : SsiTokenizer) (token : Buffer)

def ssiSign (n : Nat) (tid : Tk) (text : String) : SsiTurn :=
  some (.token tid, t.advance n, bufferCopyStringLen token (some (ascii text)))

/-- `>`, `<` and `!`, alone or with `=`. -/
def ssiWithEqual (s : Bytes) (tid tidAlone : Tk) (text textAlone : String) : SsiTurn :=
  if s.head? = some 61 then ssiSign t token 2 tid text else ssiSign t token 1 tidAlone textAlone

/-- `&&` and `||` -/
def ssiDoubled (s : Bytes) (c : UInt8) (tid : Tk) (text : String) : SsiTurn :=
  if s.head? = some c then ssiSign t token 2 tid text else some (.failed, t, token)

def ssiQuoted (s : Bytes) : SsiTurn :=
  match strchr s 39 with
  | none => some (.failed, t, token)
  | some i =>
    some (.token .value, t.advance (i + 2), bufferCopyStringLen token (some (s.take i)))

/-- A brace does not count in `line_pos`. -/
def ssiBrace (tid : Tk) (brace : Int) (text : String) : SsiTurn :=
  some (.token tid, { t with offset := t.offset + 1, inBrace := t.inBrace + brace },
    bufferCopyStringLen token (some (ascii text)))

def ssiVariableValue : Option Buffer := do
  match ← arrayGetElement p.ssiCgiEnv.val token.str with
  | some (_, ds) => some (bufferCopyStringBuffer token ds.value)
  | none =>
    match ← arrayGetElement p.ssiVars.val token.str with
    | some (_, ds) => some (bufferCopyStringBuffer token ds.value)
    | none => some (bufferCopyStringLen token (some []))

def ssiIsName (c : UInt8) : Bool := isalpha c || c == 95

/-- The closing brace stays unread, and the byte in front of it is no part of the name. -/
def ssiVariable (s : Bytes) : SsiTurn :=
  if s.head? = some 123 then
    match strchr s.tail 125 with
    | none => some (.failed, t, token)
    | some 0 => none
    | some (i + 1) => do
      let token ← ssiVariableValue p (bufferCopyStringLen token (some (s.tail.take i)))
      some (.token .value, t.advance (i + 3), token)
  else do
    let name := s.takeWhile ssiIsName
    let token ← ssiVariableValue p (bufferCopyStringLen token (some name))
    some (.token .value, t.advance (name.length + 1), token)

/-- The inner `switch` leaves only itself. -/
def ssiWord (s : Bytes) : SsiTurn :=
  let word := s.takeWhile isgraph
  some (.token .value, t.advance word.length, bufferCopyStringLen token (some word))

/-- `switch (c)`, where `c` is followed by `s`. -/
def ssiExprTurn (c : UInt8) (s : Bytes) : SsiTurn :=
  if c = 61 then ssiSign t token 1 .eq "(=)"
  else if c = 62 then ssiWithEqual t token s .ge .gt "(>=)" "(>)"
  else if c = 60 then ssiWithEqual t token s .le .lt "(<=)" "(<)"
  else if c = 33 then ssiWithEqual t token s .ne .not "(!=)" "(!)"
  else if c = 38 then ssiDoubled t token s 38 .and "(&&)"
  else if c = 124 then ssiDoubled t token s 124 .or "(||)"
  else if c = 9 ∨ c = 32 then some (.nothing, t.advance 1, token)
  else if c = 39 then ssiQuoted t token s
  else if c = 40 then ssiBrace t token .lparan 1 "("
  else if c = 41 then ssiBrace t token .rparan (-1) ")"
  else if c = 36 then ssiVariable p t token s
  else ssiWord t token (c :: s)

/-- The loop, which ends at the latest after as many turns as there are bytes. -/
def ssiExprLoop : Nat → SsiTokenizer → Buffer → SsiTurn
  | 0, t, token => some (.nothing, t, token)
  | n + 1, t, token =>
    match t.rest with
    | [] => some (.nothing, t, token)
    | c :: s => do
      let (read, t, token) ← ssiExprTurn p t token c s
      if read = .nothing then ssiExprLoop n t token else some (read, t, token)

def ssiExprTokenizer : SsiTurn := ssiExprLoop p (t.size - t.offset) t token

def ssiTokenizerInit (expr : Bytes) : SsiTokenizer where
  input := cstr expr
  offset := 0
  size := (cstr expr).length
  linePos := 1
  inKey := 1
  inBrace := 0
  inCond := 0

/-- The loop of `ssi_eval_expr`: `fuel` bounds the number of tokens. The tokenizer comes before the
check of `context.ok`. -/
def ssiEvalLoop : Nat → SsiTokenizer → YyParser SsiMinor → SsiCtx → Option (SsiRead × SsiCtx)
  | 0, _, _, _ => none
  | fuel + 1, t, parser, context => do
    let (read, t, token) ← ssiExprTokenizer p t bufferInit
    match read with
    | .token tid =>
      if context.ok ≠ 0 then
        let (parser, context) ← ssiexprparser parser context tid.code (.yy0 token)
        ssiEvalLoop fuel t parser context
      else
        let (_, context) ← ssiexprparser parser context 0 (.yy0 token)
        some (read, context)
    | _ =>
      let (_, context) ← ssiexprparser parser context 0 (.yy0 token)
      some (read, context)

/-- `val` is what the stack holds in the place of `context.val`. -/
def ssiEvalExpr (fuel : Nat) (val : SsiVal) (expr : Bytes) : Option Int := do
  let (read, context) ← ssiEvalLoop p fuel (ssiTokenizerInit expr) ssiexprparserAlloc ⟨1, val⟩
  if read = .failed ∨ context.ok = 0 then some (-1) else some context.val.bo

end Model

section Variables

variable [Malloc] {a : Arr DataString}

theorem used_bufferAppendStringLen {b : Buffer} (hb : b.used ≠ 0) (s : Bytes) :
    (bufferAppendStringLen b (some s)).used ≠ 0 := by
  unfold bufferAppendStringLen
  dsimp only
  split
  · exact hb
  · next hs => exact Nat.ne_of_gt (Nat.add_pos_right _ (Nat.pos_of_ne_zero hs))

theorem used_bufferAppendStringBuffer {b : Buffer} (hb : b.used ≠ 0) (src : Buffer) :
    (bufferAppendStringBuffer b src).used ≠ 0 := by
  unfold bufferAppendStringBuffer
  split
  · exact hb
  · exact used_bufferAppendStringLen hb _

theorem used_dataStringInsertDup {dst : DataString} (h : dst.value.used ≠ 0) (src : DataString) :
    (dataStringInsertDup dst src).value.used ≠ 0 := by
  unfold dataStringInsertDup
  dsimp only
  rw [if_pos h]
  refine used_bufferAppendStringBuffer ?_ src.value
  unfold dupSeparator
  split
  · exact used_bufferAppendStringLen
      (used_bufferAppendStringBuffer (used_bufferAppendStringLen h _) dst.key) _
  · exact used_bufferAppendStringLen h _

theorem Inserted.variables {x : DataString} {a' : Arr DataString} (h : Inserted a x a')
    (ha : SsiVariables a) (hindex : x.isIndexKey = false) (hx : x.value.used ≠ 0) :
    SsiVariables a' := by
  refine ⟨h.wf ha.wf, ?_, ?_⟩
  · intro i z hz
    cases h with
    | merged _ live _ =>
      rcases (slot_setElement live.2.lt).mp hz with ⟨_, rfl⟩ | ⟨_, hold⟩
      · exact (ha.named live.2 :)
      · exact ha.named hold
    | appended _ _ slot _ =>
      rcases slot.mp hz with ⟨_, rfl⟩ | ⟨_, hold⟩
      · exact hindex
      · exact ha.named hold
  · intro i z hz
    cases h with
    | merged _ live _ =>
      rcases (slot_setElement live.2.lt).mp hz.2 with ⟨_, rfl⟩ | ⟨_, hold⟩
      · exact used_dataStringInsertDup (ha.filled live) x
      · exact ha.filled ⟨hz.1, hold⟩
    | appended _ used slot _ =>
      rcases slot.mp hz.2 with ⟨_, rfl⟩ | ⟨hne, hold⟩
      · exact hx
      · have hi := hz.1
        rw [used] at hi
        exact ha.filled ⟨by omega, hold⟩

theorem ssiEnvAdd_variables {env env' : Arr DataString} (h : SsiVariables env) {addr : Nat}
    {key val : Bytes} (hadd : ssiEnvAdd env addr key val = some env') : SsiVariables env' := by
  unfold ssiEnvAdd at hadd
  generalize htake : arrayGetUnusedElement env .string = taken at hadd
  obtain ⟨hnone, hsome⟩ := arrayGetUnusedElement_spec .string htake
  obtain ⟨du, rest⟩ := taken
  have hrest : SsiVariables rest ∧ (du.getD (dataStringInit addr)).isIndexKey = false := by
    cases du with
    | none =>
      obtain rfl : rest = env := hnone rfl
      exact ⟨h, rfl⟩
    | some ds =>
      have htaken := hsome ds rfl
      obtain ⟨i, _, hslot, _⟩ := htaken.slots
      refine ⟨⟨htaken.wf h.wf, fun hx => ?_, fun hx => h.filled (htaken.live_iff.mp hx)⟩,
        h.named hslot⟩
      obtain ⟨j, hold, _⟩ := htaken.slot hx
      exact h.named hold
  obtain ⟨hrest, hindex⟩ := hrest
  dsimp only at hadd
  generalize du.getD (dataStringInit addr) = ds at hadd hindex
  obtain ⟨x, hx⟩ : ∃ x : DataString, x = { ds with
      key := bufferCopyString ds.key (some key), value := bufferCopyString ds.value (some val) } :=
    ⟨_, rfl⟩
  rw [← hx] at hadd
  have hkey : x.key.used ≠ 0 := hx ▸ Nat.succ_ne_zero _
  have hvalue : x.value.used ≠ 0 := hx ▸ Nat.succ_ne_zero _
  have hindex : x.isIndexKey = false := hx ▸ hindex
  exact (arrayInsertUnique_spec hrest.wf hkey hindex hadd).variables hrest hindex hvalue

end Variables

/-! ## The text of the tokens -/

/-- What the tokenizer meets in front of a text that does not start with a blank. -/
inductive Lexed where
  | token (rest : Bytes)
  | failed
  | endless
  | crashed

def ssiSpecial : Bytes := [61, 62, 60, 33, 38, 124, 39, 40, 41, 36]

inductive Lexes : Bytes → Lexed → Prop
  | sign {c : UInt8} {s : Bytes} : c ∈ [61, 40, 41] → Lexes (c :: s) (.token s)
  | withEqual {c : UInt8} {s : Bytes} : c ∈ [62, 60, 33] → Lexes (c :: 61 :: s) (.token s)
  | alone {c : UInt8} {s : Bytes} : c ∈ [62, 60, 33] → s.head? ≠ some 61 → Lexes (c :: s) (.token s)
  | doubled {c : UInt8} {s : Bytes} : c ∈ [38, 124] → Lexes (c :: c :: s) (.token s)
  | single {c : UInt8} {s : Bytes} : c ∈ [38, 124] → s.head? ≠ some c → Lexes (c :: s) .failed
  | quoted {w s : Bytes} : 39 ∉ w → Lexes (39 :: (w ++ 39 :: s)) (.token s)
  | unquoted {s : Bytes} : 39 ∉ s → Lexes (39 :: s) .failed
  | braced {w s : Bytes} : 125 ∉ w → w ≠ [] →
    Lexes (36 :: 123 :: (w ++ 125 :: s)) (.token (125 :: s))
  | unbraced {s : Bytes} : 125 ∉ s → Lexes (36 :: 123 :: s) .failed
  | emptyBraces {s : Bytes} : Lexes (36 :: 123 :: 125 :: s) .crashed
  | name {w s : Bytes} : (∀ c ∈ w, ssiIsName c) → (∀ c ∈ s.head?, ¬ ssiIsName c) →
    (w ++ s).head? ≠ some 123 → Lexes (36 :: (w ++ s)) (.token s)
  | word {c : UInt8} {w s : Bytes} : isgraph c → c ∉ ssiSpecial → (∀ c ∈ w, isgraph c) →
    (∀ c ∈ s.head?, ¬ isgraph c) → Lexes (c :: (w ++ s)) (.token s)
  | other {c : UInt8} {s : Bytes} : ¬ isgraph c → c ≠ 9 → c ≠ 32 → Lexes (c :: s) .endless

def dropBlanks (s : Bytes) : Bytes := s.dropWhile fun c => c == 9 || c == 32

/-- Where a token of the expression starts, as long as there are tokens. -/
inductive TokenStart (expr : Bytes) : Bytes → Prop
  | first : TokenStart expr (dropBlanks (cstr expr))
  | next {s rest : Bytes} : TokenStart expr s → Lexes s (.token rest) →
    TokenStart expr (dropBlanks rest)

theorem exists_run (P : UInt8 → Bool) (s : Bytes) :
    ∃ w rest, s = w ++ rest ∧ (∀ c ∈ w, P c) ∧ ∀ c ∈ rest.head?, ¬ P c := by
  refine ⟨s.takeWhile P, s.dropWhile P, (List.takeWhile_append_dropWhile).symm,
    fun c hc => List.mem_takeWhile_imp hc, ?_⟩
  intro c hc
  have := List.head?_dropWhile_not P s
  rw [Option.mem_def.mp hc] at this
  simpa using this

theorem takeWhile_run {P : UInt8 → Bool} {w rest : Bytes} (hw : ∀ c ∈ w, P c)
    (hrest : ∀ c ∈ rest.head?, ¬ P c) : (w ++ rest).takeWhile P = w := by
  rw [List.takeWhile_append_of_pos hw]
  cases rest with
  | nil => simp
  | cons c rest =>
    have := hrest c rfl
    simp [this]

theorem exists_lexes {c : UInt8} {s : Bytes} (h9 : c ≠ 9) (h32 : c ≠ 32) :
    ∃ o, Lexes (c :: s) o := by
  by_cases hsign : c ∈ [(61 : UInt8), 40, 41]
  · exact ⟨_, .sign hsign⟩
  by_cases hcompare : c ∈ [(62 : UInt8), 60, 33]
  · by_cases hhead : s.head? = some 61
    · obtain ⟨s', rfl⟩ := List.head?_eq_some_iff.mp hhead
      exact ⟨_, .withEqual hcompare⟩
    · exact ⟨_, .alone hcompare hhead⟩
  by_cases hconnective : c ∈ [(38 : UInt8), 124]
  · by_cases hhead : s.head? = some c
    · obtain ⟨s', rfl⟩ := List.head?_eq_some_iff.mp hhead
      exact ⟨_, .doubled hconnective⟩
    · exact ⟨_, .single hconnective hhead⟩
  by_cases hquote : c = 39
  · subst hquote
    by_cases hclosed : 39 ∈ s
    · obtain ⟨w, s', rfl, hw⟩ := List.eq_append_cons_of_mem hclosed
      exact ⟨_, .quoted hw⟩
    · exact ⟨_, .unquoted hclosed⟩
  by_cases hdollar : c = 36
  · subst hdollar
    by_cases hbrace : s.head? = some 123
    · obtain ⟨s', rfl⟩ := List.head?_eq_some_iff.mp hbrace
      by_cases hclosed : 125 ∈ s'
      · obtain ⟨w, s', rfl, hw⟩ := List.eq_append_cons_of_mem hclosed
        by_cases hempty : w = []
        · subst hempty
          exact ⟨_, .emptyBraces⟩
        · exact ⟨_, .braced hw hempty⟩
      · exact ⟨_, .unbraced hclosed⟩
    · obtain ⟨w, rest, rfl, hw, hrest⟩ := exists_run ssiIsName s
      exact ⟨_, .name hw hrest hbrace⟩
  by_cases hgraph : isgraph c
  · obtain ⟨w, rest, rfl, hw, hrest⟩ := exists_run isgraph s
    refine ⟨_, .word hgraph ?_ hw hrest⟩
    simp only [ssiSpecial, List.mem_cons, List.not_mem_nil, or_false]
      at hsign hcompare hconnective ⊢
    tauto
  · exact ⟨_, .other hgraph h9 h32⟩

section Tokenizer

variable {p : SsiPluginData} {t t' : SsiTokenizer} {token : Buffer}

theorem rest_advance (t : SsiTokenizer) (n : Nat) : (t.advance n).rest = t.rest.drop n :=
  List.drop_drop.symm

/-- The tokenizer stands in front of `rest` in the same input. -/
structure Left (t t' : SsiTokenizer) (rest : Bytes) : Prop where
  input : t'.input = t.input
  size : t'.size = t.size
  rest : t'.rest = rest

theorem left_advance {w rest : Bytes} (h : t.rest = w ++ rest) : Left t (t.advance w.length) rest :=
  ⟨rfl, rfl, by rw [rest_advance, h, List.drop_left]⟩

/-- What a call does, from what it meets in front of `s`. -/
def Reads (t : SsiTokenizer) (r : SsiTurn) (s : Bytes) : Lexed → Prop
  | .token rest =>
    ∃ tid t' token, r = some (.token tid, t', token) ∧ Left t t' rest ∧ token.size ≠ 0
  | .failed => ∃ t' token, r = some (.failed, t', token)
  | .endless => ∃ t' token, r = some (.token .value, t', token) ∧ Left t t' s ∧ token.size ≠ 0
  | .crashed => r = none

theorem Reads.last {r : SsiTurn} {s : Bytes} {o : Lexed} (h : Reads t r s o)
    (more : SsiTokenizer → Buffer → SsiTurn) :
    (r.bind fun x => if x.1 = .nothing then more x.2.1 x.2.2 else some x) = r := by
  cases o with
  | token rest =>
    obtain ⟨tid, t', token, rfl, -⟩ := h
    rfl
  | failed =>
    obtain ⟨t', token, rfl⟩ := h
    rfl
  | endless =>
    obtain ⟨t', token, rfl, -⟩ := h
    rfl
  | crashed =>
    obtain rfl : r = none := h
    rfl

theorem Reads.of_left {rest s : Bytes} {r : SsiTurn} {o : Lexed} (hleft : Left t t' rest)
    (h : Reads t' r s o) : Reads t r s o := by
  have htrans : ∀ {t'' : SsiTokenizer} {rest'}, Left t' t'' rest' → Left t t'' rest' := fun h =>
    ⟨h.input.trans hleft.input, h.size.trans hleft.size, h.rest⟩
  cases o with
  | token rest =>
    obtain ⟨tid, t'', token, hr, hleft', hsize⟩ := h
    exact ⟨tid, t'', token, hr, htrans hleft', hsize⟩
  | failed => exact h
  | endless =>
    obtain ⟨t'', token, hr, hleft', hsize⟩ := h
    exact ⟨t'', token, hr, htrans hleft', hsize⟩
  | crashed => exact h

variable [Malloc]

theorem size_bufferCopyStringLen (b : Buffer) (s : Bytes) :
    (bufferCopyStringLen b (some s)).size ≠ 0 := by
  have hwf := wf_bufferCopyStringLen b s
  rw [Buffer.WF, bufferCopyStringLen_used] at hwf
  omega

theorem ssiVariableValue_spec (p : SsiPluginData) (token : Buffer) :
    ∃ token', ssiVariableValue p token = some token' ∧ token'.size ≠ 0 := by
  have hcopy : ∀ {a : Arr DataString} (ha : SsiVariables a) {i : Nat} {ds : DataString},
      a.Live i ds → (bufferCopyStringBuffer token ds.value).size ≠ 0 := by
    intro a ha i ds hlive
    rw [bufferCopyStringBuffer, if_neg (ha.filled hlive)]
    exact size_bufferCopyStringLen _ _
  obtain ⟨found, hfound, hlive⟩ := arrayGetElement_spec p.ssiCgiEnv.property.wf token.str
  obtain ⟨found', hfound', hlive'⟩ := arrayGetElement_spec p.ssiVars.property.wf token.str
  unfold ssiVariableValue
  rw [hfound, hfound']
  cases found with
  | some x => exact ⟨_, rfl, hcopy p.ssiCgiEnv.property (hlive _ _ rfl).1⟩
  | none =>
    cases found' with
    | some x => exact ⟨_, rfl, hcopy p.ssiVars.property (hlive' _ _ rfl).1⟩
    | none => exact ⟨_, rfl, size_bufferCopyStringLen _ _⟩

omit [Malloc] in
theorem isgraph_special : ∀ c ∈ ssiSpecial, isgraph c := by decide +kernel

theorem ssiExprTurn_word {c : UInt8} (hc : c ∉ ssiSpecial) (h9 : c ≠ 9) (h32 : c ≠ 32)
    (s : Bytes) :
    ssiExprTurn p t token c s = ssiWord t token (c :: s) := by
  simp only [ssiSpecial, List.mem_cons, List.not_mem_nil, or_false, not_or] at hc
  simp only [ssiExprTurn, hc, h9, h32, or_false, if_false]

theorem ssiExprTurn_reads {c : UInt8} {s : Bytes} {o : Lexed} (h : Lexes (c :: s) o)
    (ht : t.rest = c :: s) : Reads t (ssiExprTurn p t token c s) (c :: s) o := by
  have hone : ∀ {rest}, t.rest = c :: rest → Left t (t.advance 1) rest := left_advance (w := [c])
  cases h with
  | sign hc =>
    simp only [List.mem_cons, List.not_mem_nil, or_false] at hc
    rcases hc with rfl | rfl | rfl
    · exact ⟨_, _, _, rfl, hone ht, size_bufferCopyStringLen _ _⟩
    · exact ⟨_, _, _, rfl, ⟨rfl, rfl, (hone ht).rest⟩, size_bufferCopyStringLen _ _⟩
    · exact ⟨_, _, _, rfl, ⟨rfl, rfl, (hone ht).rest⟩, size_bufferCopyStringLen _ _⟩
  | withEqual hc =>
    have hleft := left_advance (w := [c, 61]) ht
    simp only [List.mem_cons, List.not_mem_nil, or_false] at hc
    rcases hc with rfl | rfl | rfl <;> exact ⟨_, _, _, rfl, hleft, size_bufferCopyStringLen _ _⟩
  | alone hc hs =>
    simp only [List.mem_cons, List.not_mem_nil, or_false] at hc
    rcases hc with rfl | rfl | rfl <;>
      exact ⟨_, _, _, if_neg hs, hone ht, size_bufferCopyStringLen _ _⟩
  | doubled hc =>
    have hleft := left_advance (w := [c, c]) ht
    simp only [List.mem_cons, List.not_mem_nil, or_false] at hc
    rcases hc with rfl | rfl <;> exact ⟨_, _, _, rfl, hleft, size_bufferCopyStringLen _ _⟩
  | single hc hs =>
    simp only [List.mem_cons, List.not_mem_nil, or_false] at hc
    rcases hc with rfl | rfl <;> exact ⟨_, _, if_neg hs⟩
  | @quoted w s hw =>
    have hturn : ssiExprTurn p t token 39 (w ++ 39 :: s) = some (.token .value,
        t.advance (w.length + 2), bufferCopyStringLen token (some w)) := by
      show ssiQuoted t token (w ++ 39 :: s) = _
      rw [ssiQuoted, strchr_append_cons hw]
      simp only [List.take_left]
    have hleft : Left t (t.advance (39 :: (w ++ [39])).length) s :=
      left_advance (by simpa using ht)
    rw [List.length_cons, List.length_append, List.length_singleton] at hleft
    exact ⟨_, _, _, hturn, hleft, size_bufferCopyStringLen _ _⟩
  | unquoted hs =>
    refine ⟨t, token, ?_⟩
    show ssiQuoted t token s = _
    rw [ssiQuoted, strchr_eq_none.mpr hs]
  | @braced w s hw hempty =>
    obtain ⟨n, hn⟩ := Nat.exists_eq_add_one_of_ne_zero (mt List.length_eq_zero_iff.mp hempty)
    obtain ⟨token', hvalue, hsize⟩ := ssiVariableValue_spec p
      (bufferCopyStringLen token (some ((w ++ 125 :: s).take n)))
    have hleft := left_advance (w := 36 :: 123 :: w) ht
    rw [List.length_cons, List.length_cons, hn] at hleft
    refine ⟨.value, t.advance (n + 3), token', ?_, hleft, hsize⟩
    show ssiVariable p t token (123 :: (w ++ 125 :: s)) = _
    simp only [ssiVariable, List.head?_cons, if_true, List.tail_cons, strchr_append_cons hw, hn,
      hvalue, Option.bind_eq_bind, Option.bind_some]
  | @unbraced s hs =>
    refine ⟨t, token, ?_⟩
    show ssiVariable p t token (123 :: s) = _
    simp only [ssiVariable, List.head?_cons, if_true, List.tail_cons, strchr_eq_none.mpr hs]
  | emptyBraces => rfl
  | @name w s hw hs hbrace =>
    obtain ⟨token', hvalue, hsize⟩ := ssiVariableValue_spec p (bufferCopyStringLen token (some w))
    refine ⟨.value, t.advance (w.length + 1), token', ?_, left_advance (w := 36 :: w) ht, hsize⟩
    show ssiVariable p t token (w ++ s) = _
    simp only [ssiVariable, if_neg hbrace, takeWhile_run hw hs, hvalue, Option.bind_eq_bind,
      Option.bind_some]
  | @word c w s hc hspecial hw hs =>
    have hblank : c ≠ 9 ∧ c ≠ 32 := by
      constructor <;> (rintro rfl; exact absurd hc (by decide))
    have hrun : (c :: (w ++ s)).takeWhile isgraph = c :: w :=
      takeWhile_run (w := c :: w) (by simpa using ⟨hc, hw⟩) hs
    rw [ssiExprTurn_word hspecial hblank.1 hblank.2, ssiWord, hrun]
    exact ⟨_, _, _, rfl, left_advance (w := c :: w) ht, size_bufferCopyStringLen _ _⟩
  | other hc h9 h32 =>
    have hspecial : c ∉ ssiSpecial := fun hmem => hc (isgraph_special c hmem)
    have hrun : (c :: s).takeWhile isgraph = [] := by simp [hc]
    rw [ssiExprTurn_word hspecial h9 h32, ssiWord, hrun]
    exact ⟨_, _, rfl, left_advance (w := []) ht, size_bufferCopyStringLen _ _⟩

theorem ssiExprLoop_reads : ∀ {n : Nat} {t : SsiTokenizer}, t.rest.length ≤ n →
    (dropBlanks t.rest = [] → ∃ t', ssiExprLoop p n t token = some (.nothing, t', token)) ∧
    ∀ o, Lexes (dropBlanks t.rest) o → Reads t (ssiExprLoop p n t token) (dropBlanks t.rest) o := by
  intro n
  induction n with
  | zero =>
    intro t hlength
    rw [List.length_eq_zero_iff.mp (Nat.le_zero.mp hlength)]
    exact ⟨fun _ => ⟨t, rfl⟩, fun o ho => nomatch ho⟩
  | succ n ih =>
    intro t hlength
    unfold ssiExprLoop
    match hrest : t.rest with
    | [] => exact ⟨fun _ => ⟨t, rfl⟩, fun o ho => nomatch ho⟩
    | c :: s =>
      by_cases hblank : c = 9 ∨ c = 32
      · have hturn : ssiExprTurn p t token c s = some (.nothing, t.advance 1, token) := by
          rcases hblank with rfl | rfl <;> rfl
        have hdrop : dropBlanks (c :: s) = dropBlanks s := by
          rcases hblank with rfl | rfl <;> rfl
        have hleft : Left t (t.advance 1) s := left_advance (w := [c]) hrest
        have hshorter : (t.advance 1).rest.length ≤ n := by
          simp only [hleft.rest, hrest, List.length_cons] at *
          omega
        have ih := ih hshorter
        simp only [hleft.rest] at ih
        simp only [hturn, hdrop, Option.bind_eq_bind, Option.bind_some, if_true]
        exact ⟨ih.1, fun o ho => (ih.2 o ho).of_left hleft⟩
      · have hdrop : dropBlanks (c :: s) = c :: s := by
          simp only [not_or] at hblank
          simp [dropBlanks, hblank]
        rw [hdrop]
        refine ⟨fun h => (List.cons_ne_nil _ _ h).elim, fun o ho => ?_⟩
        have hreads : Reads t (ssiExprTurn p t token c s) (c :: s) o := ssiExprTurn_reads ho hrest
        show Reads t ((ssiExprTurn p t token c s).bind fun x =>
          if x.1 = .nothing then ssiExprLoop p n x.2.1 x.2.2 else some x) (c :: s) o
        rw [hreads.last]
        exact hreads

theorem ssiExprTokenizer_reads (hsize : t.size = t.input.length) :
    (dropBlanks t.rest = [] → ∃ t', ssiExprTokenizer p t token = some (.nothing, t', token)) ∧
    ∀ o, Lexes (dropBlanks t.rest) o →
      Reads t (ssiExprTokenizer p t token) (dropBlanks t.rest) o := by
  refine ssiExprLoop_reads ?_
  rw [hsize]
  exact Nat.le_of_eq List.length_drop

end Tokenizer

/-! ## The calls for an expression -/

theorem Lexes.length_lt {s rest : Bytes} (h : Lexes s (.token rest)) : rest.length < s.length := by
  cases h with
  | sign => exact Nat.lt_succ_self _
  | withEqual => exact Nat.lt_add_of_pos_right (k := 2) Nat.two_pos
  | alone => exact Nat.lt_succ_self _
  | doubled => exact Nat.lt_add_of_pos_right (k := 2) Nat.two_pos
  | quoted | braced | name | word =>
    simp only [List.length_cons, List.length_append]
    omega

theorem dropBlanks_dropBlanks (s : Bytes) : dropBlanks (dropBlanks s) = dropBlanks s := by
  exact List.dropWhile_idempotent _ s

theorem dropBlanks_eq_nil_or (s : Bytes) : dropBlanks s = [] ∨ ∃ o, Lexes (dropBlanks s) o := by
  cases hs : dropBlanks s with
  | nil => exact Or.inl rfl
  | cons c rest =>
    have hhead := List.head?_dropWhile_not (fun c : UInt8 => c == 9 || c == 32) s
    have hs' : s.dropWhile (fun c => c == 9 || c == 32) = c :: rest := hs
    rw [hs'] at hhead
    simp only [List.head?_cons, Bool.or_eq_false_iff, beq_eq_false_iff_ne] at hhead
    exact Or.inr (exists_lexes hhead.1 hhead.2)

theorem length_dropBlanks_le (s : Bytes) : (dropBlanks s).length ≤ s.length :=
  List.length_dropWhile_le _ s

theorem Left.offset_lt {t t' : SsiTokenizer} {rest : Bytes} (h : Left t t' rest)
    (hlength : rest.length < t.rest.length) : t.offset < t'.offset := by
  have hrest := congrArg List.length h.rest
  simp only [SsiTokenizer.rest, List.length_drop, h.input] at hrest hlength
  omega

theorem Left.offset_eq {t t' : SsiTokenizer} (h : Left t t' t.rest) (hrest : t.rest ≠ []) :
    t'.offset = t.offset := by
  have hlength := congrArg List.length h.rest
  have hpos := List.length_pos_of_ne_nil hrest
  simp only [SsiTokenizer.rest, List.length_drop, h.input] at hlength hpos
  omega

section Calls

variable [Malloc] (p : SsiPluginData) (val : SsiVal) (expr : Bytes)

/-- Where the tokenizer stands before each of the calls that read the expression. -/
inductive SsiCall : SsiTokenizer → Prop
  | first : SsiCall (ssiTokenizerInit expr)
  | next {t t' : SsiTokenizer} {tid : Tk} {token : Buffer} : SsiCall t →
    ssiExprTokenizer p t bufferInit = some (.token tid, t', token) → SsiCall t'

/-- Every call has a value, one that returns a token moves on, and the evaluation has a result. -/
structure SsiExprEnds : Prop where
  calls : ∀ t, SsiCall p expr t → ∃ read t' token,
    ssiExprTokenizer p t bufferInit = some (read, t', token) ∧
      ∀ tid, read = .token tid → t.offset < t'.offset
  ends : ∃ fuel bo, ssiEvalExpr p fuel val expr = some bo

variable {p val expr} {t t' : SsiTokenizer}

def Reading (expr : Bytes) (t : SsiTokenizer) : Prop :=
  t.input = cstr expr ∧ t.size = (cstr expr).length

omit [Malloc] in
theorem Reading.left (h : Reading expr t) {rest : Bytes} (hleft : Left t t' rest) :
    Reading expr t' :=
  ⟨hleft.input.trans h.1, hleft.size.trans h.2⟩

theorem Reading.call (h : Reading expr t) (token : Buffer) :
    (dropBlanks t.rest = [] → ∃ t', ssiExprTokenizer p t token = some (.nothing, t', token)) ∧
    ∀ o, Lexes (dropBlanks t.rest) o →
      Reads t (ssiExprTokenizer p t token) (dropBlanks t.rest) o :=
  ssiExprTokenizer_reads (by rw [h.2, h.1])

theorem Reading.token (h : Reading expr t) {tid : Tk} {token token' : Buffer}
    (htoken : ssiExprTokenizer p t token = some (.token tid, t', token')) : token'.size ≠ 0 ∧
      ((∃ rest, Lexes (dropBlanks t.rest) (.token rest) ∧ Left t t' rest) ∨
        Lexes (dropBlanks t.rest) .endless) := by
  obtain ⟨hnil, hreads⟩ := h.call (p := p) token
  rw [htoken] at hnil hreads
  rcases dropBlanks_eq_nil_or t.rest with hempty | ⟨o, ho⟩
  · obtain ⟨_, hnothing⟩ := hnil hempty
    nomatch hnothing
  · have hread := hreads o ho
    cases o with
    | token rest =>
      obtain ⟨_, _, _, hr, hleft, hsize⟩ := hread
      cases hr
      exact ⟨hsize, Or.inl ⟨rest, ho, hleft⟩⟩
    | failed =>
      obtain ⟨_, _, hr⟩ := hread
      nomatch hr
    | endless =>
      obtain ⟨_, _, hr, _, hsize⟩ := hread
      cases hr
      exact ⟨hsize, Or.inr ho⟩
    | crashed => nomatch (show some _ = none from hread)

theorem exists_call {s : Bytes} (h : TokenStart expr s) :
    ∃ t, SsiCall p expr t ∧ Reading expr t ∧ dropBlanks t.rest = s := by
  induction h with
  | first => exact ⟨ssiTokenizerInit expr, .first, ⟨rfl, rfl⟩, rfl⟩
  | @next s rest _ hlexes ih =>
    obtain ⟨t, hcall, hreading, rfl⟩ := ih
    obtain ⟨tid, t', token, htoken, hleft, -⟩ := (hreading.call bufferInit).2 _ hlexes
    exact ⟨t', .next hcall htoken, hreading.left hleft, by rw [hleft.rest]⟩

/-- No token of the expression starts where the tokenizer is stuck. -/
def Spelled (expr : Bytes) : Prop :=
  ∀ s, TokenStart expr s → ¬ Lexes s .endless ∧ ¬ Lexes s .crashed

theorem Reading.stuck (h : Reading expr t) (hstuck : Lexes (dropBlanks t.rest) .endless) {tid : Tk}
    {token token' : Buffer} (htoken : ssiExprTokenizer p t token = some (.token tid, t', token')) :
    Left t t' (dropBlanks t.rest) := by
  obtain ⟨t'', token'', hread, hleft, -⟩ := (h.call (p := p) token).2 _ hstuck
  rw [htoken] at hread
  cases hread
  exact hleft

theorem SsiCall.start (h : SsiCall p expr t) :
    Reading expr t ∧ TokenStart expr (dropBlanks t.rest) := by
  induction h with
  | first => exact ⟨⟨rfl, rfl⟩, .first⟩
  | next _ htoken ih =>
    obtain ⟨hreading, hstart⟩ := ih
    rcases (hreading.token htoken).2 with ⟨rest, hlexes, hleft⟩ | hstuck
    · refine ⟨hreading.left hleft, ?_⟩
      rw [hleft.rest]
      exact .next hstart hlexes
    · have hleft := hreading.stuck hstuck htoken
      refine ⟨hreading.left hleft, ?_⟩
      rw [hleft.rest, dropBlanks_dropBlanks]
      exact hstart

theorem calls_of_spelled (hexpr : Spelled expr) (h : SsiCall p expr t) : ∃ read t' token,
    ssiExprTokenizer p t bufferInit = some (read, t', token) ∧ ∀ tid, read = .token tid →
      t'.rest.length < t.rest.length ∧ Left t t' t'.rest ∧ token.size ≠ 0 := by
  obtain ⟨hreading, hstart⟩ := h.start
  obtain ⟨hnil, hreads⟩ := hreading.call (p := p) bufferInit
  rcases dropBlanks_eq_nil_or t.rest with hempty | ⟨o, ho⟩
  · obtain ⟨t', hnothing⟩ := hnil hempty
    exact ⟨_, t', _, hnothing, fun _ h => nomatch h⟩
  · have hread := hreads o ho
    cases o with
    | token rest =>
      obtain ⟨tid, t', token, hr, hleft, hsize⟩ := hread
      have hlength := ho.length_lt.trans_le (length_dropBlanks_le t.rest)
      exact ⟨_, t', token, hr, fun _ _ =>
        ⟨by rwa [hleft.rest], ⟨hleft.input, hleft.size, rfl⟩, hsize⟩⟩
    | failed =>
      obtain ⟨t', token, hr⟩ := hread
      exact ⟨_, t', token, hr, fun _ h => nomatch h⟩
    | endless => exact absurd ho (hexpr _ hstart).1
    | crashed => exact absurd ho (hexpr _ hstart).2

/-- The evaluation ends, by induction on the bound: the tokens leave less and less of the text. -/
theorem ssiEvalLoop_ends (hexpr : Spelled expr) : ∀ {fuel : Nat} {t : SsiTokenizer}
    {parser : YyParser SsiMinor} (context : SsiCtx), SsiCall p expr t → t.rest.length < fuel →
    ssiTables.Legal ssiGrammar parser.yystack →
    ∃ r, ssiEvalLoop p fuel t parser context = some r := by
  intro fuel
  induction fuel with
  | zero => exact fun _ _ h => absurd h (Nat.not_lt_zero _)
  | succ fuel ih =>
    intro t parser context hcall hfuel hparser
    obtain ⟨read, t', token, htoken, hmoves⟩ := calls_of_spelled hexpr hcall
    obtain ⟨last, context', hlast⟩ : ∃ last context',
        ssiexprparser parser context 0 (.yy0 token) = some (last, context') := by
      obtain ⟨last, context', hlast, -⟩ := ssiexprparser_spec hparser context (Or.inl rfl)
      exact ⟨last, context', hlast⟩
    unfold ssiEvalLoop
    rw [htoken]
    cases read with
    | failed =>
      exact ⟨(.failed, context'), by simp only [Option.bind_eq_bind, Option.bind_some, hlast]⟩
    | nothing =>
      exact ⟨(.nothing, context'), by simp only [Option.bind_eq_bind, Option.bind_some, hlast]⟩
    | token tid =>
      obtain ⟨hlength, -, hsize⟩ := hmoves tid rfl
      obtain ⟨next, context'', hnext, hlegal⟩ :=
        ssiexprparser_spec hparser context (Or.inr ⟨tid, rfl, hsize⟩)
      by_cases hok : context.ok = 0
      · refine ⟨(.token tid, context'), ?_⟩
        simp only [Option.bind_eq_bind, Option.bind_some, hok, ne_eq, not_true, if_false, hlast]
      · obtain ⟨r, hr⟩ := ih context'' (.next hcall htoken) (by omega) hlegal
        refine ⟨r, ?_⟩
        simp only [Option.bind_eq_bind, Option.bind_some, ne_eq, hok, not_false_eq_true, if_true,
          hnext, hr]

/-- The stacks of the parser that has seen nothing but words. -/
inductive Valued : List (YyStackEntry SsiMinor) → Prop
  | none : Valued []
  | first (token : Buffer) (v : SsiMinor) : Valued [⟨16, Tk.value.code, .yy0 token⟩, ⟨0, 0, v⟩]
  | more (token value : Buffer) (v : SsiMinor) :
    Valued [⟨15, Tk.value.code, .yy0 token⟩, ⟨14, 15, .yy19 value⟩, ⟨0, 0, v⟩]

theorem Valued.shift {parser : YyParser SsiMinor} (h : Valued parser.yystack) (context : SsiCtx)
    (token : Buffer) : ∃ parser', ssiexprparser parser context Tk.value.code (.yy0 token) =
      some (parser', context) ∧ Valued parser'.yystack := by
  obtain ⟨stack, yyerrcnt⟩ := parser
  cases h with
  | none => exact ⟨_, rfl, .first token _⟩
  | first token' v => exact ⟨⟨_, yyerrcnt - 1⟩, rfl, .more token token' v⟩
  | more token' value v =>
    exact ⟨⟨_, yyerrcnt - 1⟩, rfl, .more token (bufferAppendStringBuffer value token') v⟩

theorem ssiEvalLoop_endless {fuel : Nat} : ∀ {t : SsiTokenizer} {parser : YyParser SsiMinor}
    {context : SsiCtx}, Reading expr t → Lexes (dropBlanks t.rest) .endless → context.ok ≠ 0 →
    Valued parser.yystack → ssiEvalLoop p fuel t parser context = none := by
  induction fuel with
  | zero => exact fun _ _ _ _ => rfl
  | succ fuel ih =>
    intro t parser context hreading hstuck hok hvalued
    obtain ⟨t', token, htoken, hleft, -⟩ := (hreading.call (p := p) bufferInit).2 _ hstuck
    obtain ⟨parser', hparser, hvalued'⟩ := hvalued.shift context token
    have hstuck' : Lexes (dropBlanks t'.rest) .endless := by
      rwa [hleft.rest, dropBlanks_dropBlanks]
    unfold ssiEvalLoop
    simp only [htoken, Option.bind_eq_bind, Option.bind_some, ne_eq, hok, not_false_eq_true,
      if_true, hparser, ih (hreading.left hleft) hstuck' hok hvalued']

theorem ssiEvalExpr_endless (h : Lexes (dropBlanks (cstr expr)) .endless) (fuel : Nat) :
    ssiEvalExpr p fuel val expr = none := by
  have hloop : ssiEvalLoop p fuel (ssiTokenizerInit expr) ssiexprparserAlloc ⟨1, val⟩ = none :=
    ssiEvalLoop_endless ⟨rfl, rfl⟩ h Int.one_ne_zero .none
  rw [ssiEvalExpr, hloop]
  rfl

theorem ssiExprEnds_iff : SsiExprEnds p val expr ↔ Spelled expr := by
  constructor
  · intro h s hs
    obtain ⟨t, hcall, hreading, rfl⟩ := exists_call (p := p) hs
    constructor
    · intro hstuck
      obtain ⟨t', token, htoken, hleft, -⟩ := (hreading.call bufferInit).2 _ hstuck
      have hrest : dropBlanks t'.rest = t'.rest := by rw [hleft.rest, dropBlanks_dropBlanks]
      rw [← hleft.rest, ← hrest] at hstuck
      obtain ⟨t'', token', htoken', hleft', -⟩ :=
        ((hreading.left hleft).call bufferInit).2 _ hstuck
      rw [hrest] at hleft' hstuck
      obtain ⟨read, _, _, hcalled, hmoves⟩ := h.calls t' (.next hcall htoken)
      rw [htoken'] at hcalled
      cases hcalled
      have hlt := hmoves .value rfl
      rw [hleft'.offset_eq (fun hnil => by rw [hnil] at hstuck; nomatch hstuck)] at hlt
      exact Nat.lt_irrefl _ hlt
    · intro hcrash
      obtain ⟨read, _, _, hcalled, -⟩ := h.calls t hcall
      have hnone : ssiExprTokenizer p t bufferInit = none := (hreading.call bufferInit).2 _ hcrash
      rw [hnone] at hcalled
      nomatch hcalled
  · intro hexpr
    constructor
    · intro t hcall
      obtain ⟨read, t', token, htoken, hmoves⟩ := calls_of_spelled hexpr hcall
      exact ⟨read, t', token, htoken, fun tid htid =>
        (hmoves tid htid).2.1.offset_lt (hmoves tid htid).1⟩
    · obtain ⟨⟨read, context⟩, hr⟩ := ssiEvalLoop_ends (p := p) hexpr ⟨1, val⟩ .first
        (Nat.lt_succ_self _)
        (show ssiTables.Legal ssiGrammar ssiexprparserAlloc.yystack from Or.inl rfl)
      refine ⟨(ssiTokenizerInit expr).rest.length + 1, if read = .failed ∨ context.ok = 0 then -1
        else context.val.bo, ?_⟩
      simp only [ssiEvalExpr, hr, Option.bind_eq_bind, Option.bind_some]
      split <;> rfl

end Calls

def noVariables : SsiEnv :=
  ⟨arrayInit, .of_used_zero rfl, (fun h => nomatch h), fun h => absurd h.1 (Nat.not_lt_zero _)⟩

theorem not_ssiExprEnds_letter :
    ¬ @SsiExprEnds zeroMalloc ⟨noVariables, noVariables⟩ ssiValInit [0xc3, 0xa9] := by
  intro h
  obtain ⟨fuel, bo, hbo⟩ := @SsiExprEnds.ends zeroMalloc _ _ _ h
  have hstuck : Lexes (dropBlanks (cstr [0xc3, 0xa9])) .endless :=
    .other (by decide) (by decide) (by decide)
  rw [@ssiEvalExpr_endless zeroMalloc _ _ _ hstuck] at hbo
  nomatch hbo

end Lighttpd
