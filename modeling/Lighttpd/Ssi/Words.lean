import Lighttpd.Ssi.Expr

/-!
# Where the tokenizer of SSI conditions cuts

The `switch` in the loop over the characters of a word leaves only itself, so a word goes on over
the characters that were to end it. The name in `${NAME}` is cut one letter short, and the brace behind
it is read as the next word. Every other token is cut as the grammar says.
-/

namespace Lighttpd

open CLib

def ssiStops (double : Bool) : Bytes :=
  ascii " \t()'=!<>&|" ++ if double then ascii "\"" else []

/-- The longest run of printable characters at the start of `s` in which none is to end a word. -/
def cutWord (double : Bool) (s : Bytes) : Bytes :=
  s.takeWhile fun c => isgraph c && !(ssiStops double).contains c

def IsSsiName (w : Bytes) : Prop := w ≠ [] ∧ ∀ c ∈ w, ssiIsName c

section Cuts

variable [Malloc]

/-- What the call at `t` is to do: a word is the longest run that is allowed, and `${NAME}` has the
value of `$NAME` and is read with its closing brace. -/
structure CutsRight (double : Bool) (p : SsiPluginData) (t : SsiTokenizer) (token : Buffer) :
    Prop where
  word : ∀ c s, dropBlanks t.rest = c :: s → c ∉ ssiSpecial → ∃ t' token',
    ssiExprTokenizer p t token = some (.token .value, t', token') ∧
      token'.Text (cutWord double (c :: s)) ∧ c :: s = cutWord double (c :: s) ++ t'.rest
  braced : ∀ w s, dropBlanks t.rest = 36 :: 123 :: (w ++ 125 :: s) → IsSsiName w →
    ∃ t' token' t₂ token₂ v, ssiExprTokenizer p t token = some (.token .value, t', token') ∧
      t'.rest = s ∧ ssiExprTokenizer p (ssiTokenizerInit (36 :: w)) token =
        some (.token .value, t₂, token₂) ∧ token'.Text v ∧ token₂.Text v

/-- In front of the text `s` the tokenizer does not meet what it cuts wrongly: a word runs on with
printable characters only if these do not end it, and there is no `${NAME}`. -/
structure CutClean (double : Bool) (s : Bytes) : Prop where
  word : ∀ c s', s = c :: s' → c ∉ ssiSpecial → ∀ d ∈ s.takeWhile isgraph, d ∉ ssiStops double
  braced : ∀ w s', IsSsiName w → s ≠ 36 :: 123 :: (w ++ 125 :: s')

variable {double : Bool} {p : SsiPluginData} {t t' : SsiTokenizer} {token : Buffer} {expr : Bytes}

theorem ssiExprLoop_word {c : UInt8} {s : Bytes} (hc : c ∉ ssiSpecial) :
    ∀ {n : Nat} {t : SsiTokenizer}, t.rest.length ≤ n → dropBlanks t.rest = c :: s →
      ∃ t', ssiExprLoop p n t token = some (.token .value, t',
          bufferCopyStringLen token (some ((c :: s).takeWhile isgraph))) ∧
        t'.rest = (c :: s).drop ((c :: s).takeWhile isgraph).length := by
  intro n
  induction n with
  | zero =>
    intro t hlength hdrop
    rw [List.length_eq_zero_iff.mp (Nat.le_zero.mp hlength)] at hdrop
    cases hdrop
  | succ n ih =>
    intro t hlength hdrop
    unfold ssiExprLoop
    cases hrest : t.rest with
    | nil =>
      rw [hrest] at hdrop
      cases hdrop
    | cons d u =>
      rw [hrest] at hdrop
      by_cases hblank : d = 9 ∨ d = 32
      · have hturn : ssiExprTurn p t token d u = some (.nothing, t.advance 1, token) := by
          rcases hblank with rfl | rfl <;> rfl
        have hskip : dropBlanks (d :: u) = dropBlanks u := by
          rcases hblank with rfl | rfl <;> rfl
        have hadvance : (t.advance 1).rest = u := by
          rw [rest_advance, hrest]
          rfl
        have hshorter : (t.advance 1).rest.length ≤ n := by
          rw [hrest, List.length_cons] at hlength
          rw [hadvance]
          omega
        obtain ⟨t', hloop, hleft⟩ := ih hshorter (by rw [hadvance, ← hskip, hdrop])
        refine ⟨t', ?_, hleft⟩
        simp only [hturn, Option.bind_eq_bind, Option.bind_some, if_true]
        exact hloop
      · have hsame : dropBlanks (d :: u) = d :: u := by
          simp only [not_or] at hblank
          simp [dropBlanks, hblank]
        rw [hsame] at hdrop
        obtain ⟨rfl, rfl⟩ := List.cons.inj hdrop
        simp only [not_or] at hblank
        refine ⟨t.advance ((d :: u).takeWhile isgraph).length, ?_, ?_⟩
        · dsimp only
          rw [ssiExprTurn_word hc hblank.1 hblank.2]
          rfl
        · rw [rest_advance, hrest]

theorem ssiExprTokenizer_word (hreading : Reading expr t) {c : UInt8} {s : Bytes}
    (hdrop : dropBlanks t.rest = c :: s) (hc : c ∉ ssiSpecial) (token : Buffer) : ∃ t' token',
      ssiExprTokenizer p t token = some (.token .value, t', token') ∧
        token'.Text ((c :: s).takeWhile isgraph) ∧
        t'.rest = (c :: s).drop ((c :: s).takeWhile isgraph).length := by
  have hlength : t.rest.length ≤ t.size - t.offset := by
    rw [hreading.2, ← hreading.1]
    exact Nat.le_of_eq List.length_drop
  obtain ⟨t', hloop, hrest⟩ := @ssiExprLoop_word _ p token c s hc _ t hlength hdrop
  exact ⟨t', _, hloop, text_bufferCopyStringLen _ _, hrest⟩

omit [Malloc] in
theorem cutWord_eq_iff (s : Bytes) :
    cutWord double s = s.takeWhile isgraph ↔ ∀ d ∈ s.takeWhile isgraph, d ∉ ssiStops double := by
  constructor
  · intro h d hd
    rw [← h] at hd
    have := List.mem_takeWhile_imp hd
    simp only [Bool.and_eq_true, Bool.not_eq_true', List.contains_eq_mem,
      decide_eq_false_iff_not] at this
    exact this.2
  · intro h
    have hall : ∀ d ∈ s.takeWhile isgraph, (isgraph d && !(ssiStops double).contains d) = true := by
      intro d hd
      have hgraph : isgraph d = true := List.mem_takeWhile_imp hd
      simp [hgraph, h d hd]
    obtain ⟨w, rest, rfl, hw, hrest⟩ := exists_run isgraph s
    rw [takeWhile_run hw hrest] at hall ⊢
    unfold cutWord
    refine takeWhile_run hall fun c hc => ?_
    have := hrest c hc
    simp [this]

theorem CutsRight.clean (hreading : Reading expr t) (h : CutsRight double p t token) :
    CutClean double (dropBlanks t.rest) := by
  constructor
  · intro c s hdrop hc
    obtain ⟨t', token', hcall, htext, -⟩ := h.word c s hdrop hc
    obtain ⟨t'', token'', hactual, hall, -⟩ :=
      ssiExprTokenizer_word (p := p) hreading hdrop hc token
    rw [hactual] at hcall
    cases hcall
    rw [hdrop, ← cutWord_eq_iff]
    exact Option.some.inj (htext.constBufLen.symm.trans hall.constBufLen)
  · -- the closing brace is left unread
    intro w s hname hdrop
    obtain ⟨t', token', -, -, -, hcall, hrest, -⟩ := h.braced w s hdrop hname
    have hbrace : 125 ∉ w := fun hmem => absurd (hname.2 125 hmem) (by decide)
    have hlexes : Lexes (dropBlanks t.rest) (.token (125 :: s)) := by
      rw [hdrop]
      exact .braced hbrace hname.1
    obtain ⟨tid, t'', token'', hactual, hleft, -⟩ := (hreading.call (p := p) token).2 _ hlexes
    rw [hactual] at hcall
    cases hcall
    rw [hleft.rest] at hrest
    exact absurd (congrArg List.length hrest) (by rw [List.length_cons]; omega)

theorem CutClean.cuts (hreading : Reading expr t) (h : CutClean double (dropBlanks t.rest))
    (token : Buffer) : CutsRight double p t token := by
  constructor
  · intro c s hdrop hc
    obtain ⟨t', token', hcall, htext, hrest⟩ :=
      ssiExprTokenizer_word (p := p) hreading hdrop hc token
    have hsame : cutWord double (c :: s) = (c :: s).takeWhile isgraph := by
      rw [cutWord_eq_iff, ← hdrop]
      exact h.word c s hdrop hc
    refine ⟨t', token', hcall, by rw [hsame]; exact htext, ?_⟩
    rw [hsame, hrest]
    exact (List.prefix_iff_eq_append.mp (List.takeWhile_prefix _)).symm
  · intro w s hdrop hname
    exact absurd hdrop (h.braced w s hname)

/-- **The tokenizer cuts as the grammar says** in front of exactly the texts that are clean, in
whatever state it reads the expression; and all calls for an expression do if all tokens of it are
clean. -/
theorem cutsRight_iff (double : Bool) (p : SsiPluginData) (expr : Bytes) :
    (∀ t token, Reading expr t →
      (CutsRight double p t token ↔ CutClean double (dropBlanks t.rest))) ∧
    ((∀ t, SsiCall p expr t → CutsRight double p t bufferInit) ↔
      ∀ s, TokenStart expr s → CutClean double s) := by
  refine ⟨fun t token hreading => ⟨fun h => h.clean hreading, fun h => h.cuts hreading token⟩, ?_⟩
  constructor
  · intro h s hs
    obtain ⟨t, hcall, hreading, rfl⟩ := exists_call (p := p) hs
    exact (h t hcall).clean hreading
  · intro h t hcall
    obtain ⟨hreading, hstart⟩ := hcall.start
    exact (h _ hstart).cuts hreading _

end Cuts

/-- `a=b` is one word, and `${A}` is cut in front of its brace. -/
theorem not_cutsRight_spelled :
    ¬ @CutsRight zeroMalloc false ⟨noVariables, noVariables⟩ (ssiTokenizerInit (ascii "a=b"))
      bufferInit ∧
    ¬ @CutsRight zeroMalloc false ⟨noVariables, noVariables⟩ (ssiTokenizerInit (ascii "${A}"))
      bufferInit := by
  constructor
  · intro h
    have hclean := @CutsRight.clean zeroMalloc _ _ _ _ (ascii "a=b") ⟨rfl, rfl⟩ h
    exact hclean.word 97 (ascii "=b") (by decide) (by decide) 61 (by decide) (by decide)
  · intro h
    have hclean := @CutsRight.clean zeroMalloc _ _ _ _ (ascii "${A}") ⟨rfl, rfl⟩ h
    exact hclean.braced (ascii "A") [] ⟨by decide, by decide⟩ (by decide)

end Lighttpd
