import Lighttpd.Ssi.Nesting
import Mathlib.Data.Int.Init

/-!
# `mod_ssi.c`: a page after the other

What a page shows is right exactly as long as the depth that the nesting remembers suits it
(`ssiFollows_iff`). Of the nesting the prologue of a request sets back one field only. The other
three stay as the pages before have left them, and they are all that a page can tell of the pages
before (`ssiPages_agree_iff`).

What PCRE finds in a page, what the expressions evaluate to and what the directives that are no part
of an `if` do are parameters. Of an array that is reset only the variables count.
-/

namespace Lighttpd

open CLib

/-- What the directives read and write apart from the nesting. -/
structure SsiEnvironment where
  ssiVars : SsiEnv
  ssiCgiEnv : SsiEnv
  timefmt : Bytes
  sizefmt : Int
  includeFileLastMtime : Int

/-- `plugin_data` -/
structure SsiState where
  nesting : SsiNesting
  env : SsiEnvironment

inductive SsiChunk where
  | file (name : Bytes) (offset length : Nat)
  | mem (content : Bytes)
  deriving DecidableEq, Repr

def Ordered : Nat → List SsiMatch → Nat → Prop
  | i, [], size => i ≤ size
  | i, m :: ms, size => i ≤ m.start ∧ m.start < m.stop ∧ Ordered m.stop ms size

/-- A file with the matches that PCRE finds in it; `searched` tells that the last search has ended
with `PCRE_ERROR_NOMATCH`. -/
structure SsiDocument where
  stmts : List SsiMatch
  size : Nat
  searched : Bool
  ordered : Ordered 0 stmts size

/-- What a request brings along; `stream` is missing where `stream_open` fails. -/
structure SsiPage where
  path : Bytes
  stream : Option SsiDocument
  cgiVars : SsiEnv
  eval : SsiMatch → SsiTruth
  directive : SsiMatch → SsiEnvironment → SsiEnvironment × List SsiChunk

/-- `chunkqueue_append_file(con->write_queue, con->physical.path, offset, len)` -/
def SsiPage.text (page : SsiPage) (offset len : Nat) : List SsiChunk :=
  if len = 0 then [] else [.file page.path offset len]

/-- A directive that is no part of an `if` does nothing where the nesting hides it. -/
def processSsiStmt (page : SsiPage) (p : SsiState) (m : SsiMatch) : SsiState × List SsiChunk :=
  match m.ssicmd with
  | .ssiIf | .ssiElif | .ssiElse | .ssiEndif =>
    ({ p with nesting := processSsiNesting page.eval p.nesting m }, [])
  | .ssiUnset => (p, [])
  | _ =>
    if p.nesting.ifIsFalse then (p, [])
    else
      let (env, out) := page.directive m p.env
      ({ p with env }, out)

/-- The loop over the matches, and the offset behind the last one. -/
def ssiStmts (page : SsiPage) : Machine (Nat × SsiState) SsiMatch SsiChunk where
  step s m :=
    let (i, p) := s
    let text := if p.nesting.ifIsFalse then [] else page.text i (m.start - i)
    let (p, out) := processSsiStmt page p m
    ((m.stop, p), text ++ out)

/-- `p` before the first match. -/
def ssiPrologue (p : SsiState) (page : SsiPage) : SsiState where
  nesting := { p.nesting with ifIsFalse := false }
  env :=
    { ssiVars := noVariables
      ssiCgiEnv := page.cgiVars
      timefmt := ascii "%a, %d %b %Y %H:%M:%S %Z"
      sizefmt := 0
      includeFileLastMtime := 0 }

/-- `mod_ssi_handle_request`: the plugin data, and what is queued. -/
def modSsiHandleRequest (p : SsiState) (page : SsiPage) : SsiState × List SsiChunk :=
  let p := ssiPrologue p page
  match page.stream with
  | none => (p, [])
  | some s =>
    let ((i, p), out) := (ssiStmts page).run (0, p) s.stmts
    (p, out ++ if s.searched then page.text i (s.size - i) else [])

/-- `mod_ssi_init` -/
def SsiState.init : SsiState where
  nesting := .init
  env :=
    { ssiVars := noVariables
      ssiCgiEnv := noVariables
      timefmt := []
      sizefmt := 0
      includeFileLastMtime := 0 }

def ssiHistory (pages : List SsiPage) : SsiState :=
  pages.foldl (fun p page => (modSsiHandleRequest p page).1) .init

/-! ## What a page shows -/

/-- For each match, whether the text in front of it and the directive are output. -/
def ssiShown (page : SsiPage) : Nat × SsiState → List SsiMatch → List Bool
  | _, [] => []
  | s, m :: ms => (!s.2.nesting.ifIsFalse) :: ssiShown page ((ssiStmts page).step s m).1 ms

def SsiNesting.showing (shown : Bool) : SsiNesting := { SsiNesting.init with ifIsFalse := !shown }

/-- The output of the loop where `shown` tells what is output. -/
def ssiRender (page : SsiPage) : Nat → SsiEnvironment → List SsiMatch → List Bool → List SsiChunk
  | i, env, m :: ms, shown :: more =>
    let p := processSsiStmt page ⟨.showing shown, env⟩ m
    (if shown then page.text i (m.start - i) else []) ++ p.2 ++ ssiRender page m.stop p.1.env ms more
  | _, _, _, _ => []

def ssiPageShown (p : SsiState) (page : SsiPage) : List Bool :=
  match page.stream with
  | none => []
  | some s => ssiShown page (0, ssiPrologue p page) s.stmts

def SsiPage.Nests (page : SsiPage) (b : SsiBlock) : Prop :=
  ∃ s, page.stream = some s ∧ s.stmts = b.stmts

/-- Whether the page, requested first, outputs what the nesting of its directives says. What follows
the last directive is output anyway. -/
def SsiFollows (page : SsiPage) (b : SsiBlock) : Prop :=
  ssiPageShown .init page = b.shown page.eval true

section Shown

variable (page : SsiPage)

theorem nesting_processSsiStmt (p : SsiState) (m : SsiMatch) :
    (processSsiStmt page p m).1.nesting = processSsiNesting page.eval p.nesting m := by
  unfold processSsiStmt processSsiNesting
  cases m.ssicmd with
  | ssiIf | ssiElif | ssiElse | ssiEndif | ssiUnset => rfl
  | _ =>
    dsimp only
    split <;> rfl

theorem ssiShown_eq (ms : List SsiMatch) : ∀ s : Nat × SsiState,
    ssiShown page s ms = ((ssiNesting page.eval).run s.2.nesting ms).2 := by
  induction ms with
  | nil => exact fun _ => rfl
  | cons m ms ih =>
    intro s
    rw [Machine.run_cons, ssiShown, ih]
    exact congrArg (List.cons _)
      (congrArg (fun n => ((ssiNesting page.eval).run n ms).2) (nesting_processSsiStmt page s.2 m))

theorem processSsiStmt_hidden {p : SsiState} {n : SsiNesting} (h : p.nesting.ifIsFalse = n.ifIsFalse)
    (m : SsiMatch) : (processSsiStmt page p m).2 = (processSsiStmt page ⟨n, p.env⟩ m).2 ∧
      (processSsiStmt page p m).1.env = (processSsiStmt page ⟨n, p.env⟩ m).1.env := by
  unfold processSsiStmt
  cases m.ssicmd with
  | ssiIf | ssiElif | ssiElse | ssiEndif | ssiUnset => exact ⟨rfl, rfl⟩
  | _ =>
    dsimp only
    rw [h]
    split <;> exact ⟨rfl, rfl⟩

theorem ssiStmts_render (ms : List SsiMatch) : ∀ s : Nat × SsiState,
    ((ssiStmts page).run s ms).2 = ssiRender page s.1 s.2.env ms (ssiShown page s ms) := by
  induction ms with
  | nil => exact fun _ => rfl
  | cons m ms ih =>
    intro s
    obtain ⟨hout, henv⟩ := processSsiStmt_hidden page (p := s.2)
      (n := .showing !s.2.nesting.ifIsFalse) (Bool.not_not _).symm m
    rw [Machine.run_cons, ih, ssiShown, ssiRender, ← hout, ← henv]
    dsimp only [ssiStmts]
    cases s.2.nesting.ifIsFalse <;> rfl

def ssiRest (page : SsiPage) (s : SsiDocument) : List SsiChunk :=
  let i := (s.stmts.getLast?.map SsiMatch.stop).getD 0
  if s.searched then page.text i (s.size - i) else []

theorem offset_ssiStmts (ms : List SsiMatch) : ∀ s : Nat × SsiState,
    ((ssiStmts page).run s ms).1.1 = (ms.getLast?.map SsiMatch.stop).getD s.1 := by
  induction ms with
  | nil => exact fun _ => rfl
  | cons m ms ih =>
    intro s
    rw [Machine.run_cons, ih, List.getLast?_cons]
    cases ms.getLast? <;> rfl

theorem modSsiHandleRequest_queue {p : SsiState} {s : SsiDocument} (h : page.stream = some s) :
    (modSsiHandleRequest p page).2 = ssiRender page 0 (ssiPrologue p page).env s.stmts
      (ssiPageShown p page) ++ ssiRest page s := by
  have hrun := ssiStmts_render page s.stmts (0, ssiPrologue p page)
  have hoffset := offset_ssiStmts page s.stmts (0, ssiPrologue p page)
  unfold modSsiHandleRequest ssiPageShown ssiRest
  simp only [h, hrun, hoffset]

end Shown

/-- A page whose directives are well nested outputs what the nesting says exactly as long as the
branch that was hidden last suits every condition. -/
theorem ssiFollows_iff {page : SsiPage} {b : SsiBlock} (h : page.Nests b) :
    SsiFollows page b ↔ b.Suits page.eval 0 0 := by
  obtain ⟨s, hstream, hstmts⟩ := h
  unfold SsiFollows ssiPageShown
  simp only [hstream]
  rw [ssiShown_eq, hstmts]
  exact (b.follows_live 0 0).effects

/-! ## Pages for a test -/

inductive SsiProbe where
  | ifTrue
  | ifFalse
  | elif
  | otherwise
  | endif
  deriving DecidableEq, Repr

def SsiProbe.command : SsiProbe → Bytes × List (Bytes × Bytes)
  | .ifTrue => (ascii "if", [(ascii "expr", ascii "1")])
  | .ifFalse => (ascii "if", [(ascii "expr", [])])
  | .elif => (ascii "elif", [(ascii "expr", ascii "1")])
  | .otherwise => (ascii "else", [])
  | .endif => (ascii "endif", [])

/-- The directive at the place `k` of a page that has one every 24 bytes. -/
def SsiProbe.stmt (k : Nat) (c : SsiProbe) : SsiMatch where
  start := 24 * k + 1
  stop := 24 * k + 24
  command := c.command.1
  attributes := c.command.2

def ssiProbes : Nat → List SsiProbe → List SsiMatch
  | _, [] => []
  | k, c :: cs => c.stmt k :: ssiProbes (k + 1) cs

theorem ordered_ssiProbes (cs : List SsiProbe) :
    ∀ k : Nat, Ordered (24 * k) (ssiProbes k cs) (24 * (k + cs.length)) := by
  induction cs with
  | nil => exact fun k => Nat.le_refl _
  | cons c cs ih =>
    intro k
    refine ⟨Nat.le_succ _, by simp only [SsiProbe.stmt]; omega, ?_⟩
    have h := ih (k + 1)
    rw [Nat.add_right_comm k 1] at h
    exact h

def ssiProbeDocument (cs : List SsiProbe) : SsiDocument where
  stmts := ssiProbes 0 cs
  size := 24 * (0 + cs.length)
  searched := true
  ordered := ordered_ssiProbes cs 0

/-- An expression is true if it is `1`. -/
def ssiProbeTruth (m : SsiMatch) : SsiTruth := if m.expr = some (ascii "1") then .yes else .no

def ssiProbePage (cs : List SsiProbe) : SsiPage where
  path := ascii "/www/index.shtml"
  stream := some (ssiProbeDocument cs)
  cgiVars := noVariables
  eval := ssiProbeTruth
  directive _ env := (env, [])

/-- Two conditions that do not hold, one after the other in the taken branch of a third. -/
def ssiTwoInner : SsiBlock :=
  .chain ⟨SsiProbe.ifTrue.stmt 0, by decide⟩
    (.chain ⟨SsiProbe.ifFalse.stmt 1, by decide⟩ .nil (.ssiEndif ⟨SsiProbe.endif.stmt 2, by decide⟩)
      (.chain ⟨SsiProbe.ifFalse.stmt 3, by decide⟩ .nil
        (.ssiEndif ⟨SsiProbe.endif.stmt 4, by decide⟩) .nil))
    (.ssiEndif ⟨SsiProbe.endif.stmt 5, by decide⟩) .nil

def ssiTwoInnerPage : SsiPage :=
  ssiProbePage [.ifTrue, .ifFalse, .endif, .ifFalse, .endif, .endif]

theorem nests_twoInner : ssiTwoInnerPage.Nests ssiTwoInner := ⟨_, rfl, rfl⟩

/-- The second is not evaluated, and what it hides is output. -/
theorem not_ssiFollows_twoInner : ¬ ∀ page b, page.Nests b → SsiFollows page b := by
  intro h
  have hshown : ssiPageShown .init ssiTwoInnerPage ≠ ssiTwoInner.shown ssiTwoInnerPage.eval true := by
    decide
  exact hshown (h _ _ nests_twoInner)

theorem ssiFollows_twoInner : ssiTwoInnerPage.Nests ssiTwoInner ∧
    (SsiFollows ssiTwoInnerPage ssiTwoInner ↔ ssiTwoInner.Suits ssiTwoInnerPage.eval 0 0) :=
  ⟨nests_twoInner, ssiFollows_iff nests_twoInner⟩

/-! ## What a page can tell of the pages before -/

def ssiProbing : Machine SsiNesting SsiProbe Bool where
  step n c := (processSsiNesting ssiProbeTruth n (c.stmt 0), [!n.ifIsFalse])

theorem run_ssiProbes (cs : List SsiProbe) : ∀ (k : Nat) (n : SsiNesting),
    (ssiNesting ssiProbeTruth).run n (ssiProbes k cs) = ssiProbing.run n cs := by
  induction cs with
  | nil => exact fun _ _ => rfl
  | cons c cs ih =>
    intro k n
    rw [ssiProbes, Machine.run_cons, Machine.run_cons, ih]
    rfl

def SsiAlike (n n' : SsiNesting) : Prop :=
  ∀ cs, (ssiProbing.run n cs).2 = (ssiProbing.run n' cs).2

theorem length_ssiProbing (cs : List SsiProbe) (n : SsiNesting) :
    (ssiProbing.run n cs).2.length = cs.length := by
  rw [← run_ssiProbes cs 0, length_ssiNesting]
  suffices h : ∀ k, (ssiProbes k cs).length = cs.length from h 0
  induction cs with
  | nil => exact fun _ => rfl
  | cons c cs ih => exact fun k => congrArg (· + 1) (ih (k + 1))

namespace SsiAlike

variable {n n' : SsiNesting}

theorem shows (h : SsiAlike n n') : n.ifIsFalse = n'.ifIsFalse := by
  have hone := h [.endif]
  simpa [Machine.run_cons, ssiProbing] using hone

theorem run (h : SsiAlike n n') (cs : List SsiProbe) :
    SsiAlike (ssiProbing.run n cs).1 (ssiProbing.run n' cs).1 := by
  intro more
  have hboth := h (cs ++ more)
  rw [Machine.run_append, Machine.run_append] at hboth
  have hlength : (ssiProbing.run n cs).2.length = (ssiProbing.run n' cs).2.length := by
    rw [length_ssiProbing, length_ssiProbing]
  exact (List.append_inj hboth hlength).2

end SsiAlike

section Probes

variable (n : SsiNesting)

theorem run_ifTrue : (ssiProbing.run n [.ifTrue]).1 = n.ssiIf .yes := rfl

theorem run_ifFalse : (ssiProbing.run n [.ifFalse]).1 = n.ssiIf .no := rfl

theorem run_elif : (ssiProbing.run n [.elif]).1 = n.ssiElif .yes := rfl

theorem run_otherwise : (ssiProbing.run n [.otherwise]).1 = n.ssiElse := rfl

theorem run_endif : (ssiProbing.run n [.endif]).1 = n.ssiEndif := rfl

end Probes

theorem exists_move (j : Int) : ∃ cs, ∀ n : SsiNesting, n.ifIsFalse = false →
    ∃ e, (ssiProbing.run n cs).1 = ⟨n.ifLevel + j, n.ifIsFalseLevel, false, e⟩ := by
  induction j using Int.induction_on with
  | zero => exact ⟨[], fun n hn => ⟨n.ifIsFalseEndif, by rw [← hn, Int.add_zero]; rfl⟩⟩
  | succ i ih =>
    obtain ⟨cs, hcs⟩ := ih
    refine ⟨cs ++ [.ifTrue], ?_⟩
    intro n hn
    obtain ⟨e, he⟩ := hcs n hn
    refine ⟨e, ?_⟩
    rw [Machine.run_append, he]
    dsimp only
    rw [run_ifTrue, ← Int.add_assoc]
    unfold SsiNesting.ssiIf
    split <;> rfl
  | pred i ih =>
    obtain ⟨cs, hcs⟩ := ih
    refine ⟨cs ++ [.endif], ?_⟩
    intro n hn
    obtain ⟨e, he⟩ := hcs n hn
    rw [Machine.run_append, he]
    dsimp only
    rw [run_endif, ← Int.add_sub_assoc]
    unfold SsiNesting.ssiEndif SsiNesting.close
    split
    · exact ⟨false, rfl⟩
    · exact ⟨e, rfl⟩

section Differences

variable {n : SsiNesting}

theorem SsiNesting.hide_otherwise (h : n.ifIsFalse = false) :
    n.ssiElse = ⟨n.ifLevel, n.ifLevel - 1, true, n.ifIsFalseEndif⟩ := by
  have hdown : ¬ n.down.ifIsFalse = true := by simp [down, h]
  unfold ssiElse otherwise
  rw [if_neg hdown]
  simp [hide, down, up]

theorem SsiNesting.otherwise_endif (h : n.ifIsFalse = false) :
    n.ssiElse.ssiEndif = ⟨n.ifLevel - 1, n.ifLevel - 1, false, false⟩ := by
  rw [hide_otherwise h]
  simp [ssiEndif, close, down]

theorem SsiNesting.otherwise_twice (h : n.ifIsFalse = false) :
    n.ssiElse.ssiElse.ifIsFalse = n.ifIsFalseEndif := by
  rw [hide_otherwise h]
  cases he : n.ifIsFalseEndif <;> simp [ssiElse, down, otherwise, up]

theorem SsiNesting.ifFalse_at (d : Int) :
    ((⟨d, d, false, false⟩ : SsiNesting).ssiIf .no).ifIsFalse = true ↔ d = 0 := by
  unfold ssiIf
  by_cases hd : d = 0
  · simp [hd, switch, hide, up]
  · simp [hd, up]

theorem SsiNesting.elif_at (l f : Int) (e : Bool) :
    ((⟨l, f, false, e⟩ : SsiNesting).ssiElif .yes).ifIsFalse = true ↔ l - 1 = f := by
  unfold ssiElif orElse
  by_cases hl : l - 1 = f
  · simp [hl, down, hide, up]
  · simp [hl, down, up]

end Differences

namespace SsiAlike

variable {n n' : SsiNesting}

/-- An `else` and its `endif` set both depths to the level. At level zero an `if` is evaluated then,
elsewhere it is not. -/
theorem ifLevel_eq (h : SsiAlike n n') (hn : n.ifIsFalse = false) : n.ifLevel = n'.ifLevel := by
  obtain ⟨cs, hcs⟩ := exists_move (1 - n.ifLevel)
  obtain ⟨e, he⟩ := hcs n hn
  obtain ⟨e', he'⟩ := hcs n' (h.shows ▸ hn)
  have hprobe := (((h.run cs).run [.otherwise]).run [.endif]).run [.ifFalse]
  rw [he, he', run_otherwise, run_otherwise, run_endif, run_endif, run_ifFalse, run_ifFalse,
    SsiNesting.otherwise_endif rfl, SsiNesting.otherwise_endif rfl] at hprobe
  have hzero : n.ifLevel + (1 - n.ifLevel) - 1 = 0 := by omega
  have hfirst := (SsiNesting.ifFalse_at _).mpr hzero
  rw [hprobe.shows] at hfirst
  have hsecond : n'.ifLevel + (1 - n.ifLevel) - 1 = 0 := (SsiNesting.ifFalse_at _).mp hfirst
  omega

theorem ifIsFalseLevel_eq (h : SsiAlike n n') (hn : n.ifIsFalse = false)
    (hlevel : n.ifLevel = n'.ifLevel) : n.ifIsFalseLevel = n'.ifIsFalseLevel := by
  obtain ⟨cs, hcs⟩ := exists_move (n.ifIsFalseLevel - n.ifLevel + 1)
  obtain ⟨e, he⟩ := hcs n hn
  obtain ⟨e', he'⟩ := hcs n' (h.shows ▸ hn)
  have hprobe := (h.run cs).run [.elif]
  rw [he, he', run_elif, run_elif] at hprobe
  have hat : n.ifLevel + (n.ifIsFalseLevel - n.ifLevel + 1) - 1 = n.ifIsFalseLevel := by omega
  have hfirst := (SsiNesting.elif_at _ _ e).mpr hat
  rw [hprobe.shows] at hfirst
  have hsecond : n'.ifLevel + (n.ifIsFalseLevel - n.ifLevel + 1) - 1 = n'.ifIsFalseLevel :=
    (SsiNesting.elif_at _ _ e').mp hfirst
  omega

theorem ifIsFalseEndif_eq (h : SsiAlike n n') (hn : n.ifIsFalse = false) :
    n.ifIsFalseEndif = n'.ifIsFalseEndif := by
  have hprobe := (h.run [.otherwise]).run [.otherwise]
  rw [run_otherwise, run_otherwise, run_otherwise, run_otherwise] at hprobe
  have hshows := hprobe.shows
  rwa [SsiNesting.otherwise_twice hn, SsiNesting.otherwise_twice (h.shows ▸ hn)] at hshows

theorem eq (h : SsiAlike n n') (hn : n.ifIsFalse = false) : n = n' := by
  have hlevel := h.ifLevel_eq hn
  have hfalse := h.ifIsFalseLevel_eq hn hlevel
  have hendif := h.ifIsFalseEndif_eq hn
  have hshows := h.shows
  cases n
  cases n'
  simp_all only

end SsiAlike

/-! ## Two histories -/

/-- What the directives before left of the nesting, apart from the field that every request sets
back. -/
def SsiNesting.kept (n : SsiNesting) : Int × Int × Bool :=
  (n.ifLevel, n.ifIsFalseLevel, n.ifIsFalseEndif)

section Render

variable (cs' : List SsiProbe) (env : SsiEnvironment)

theorem ssiRender_cons (k : Nat) (c : SsiProbe) (cs : List SsiProbe) (shown : Bool)
    (more : List Bool) :
    ssiRender (ssiProbePage cs') (24 * k) env (ssiProbes k (c :: cs)) (shown :: more) =
      (if shown then [.file (ascii "/www/index.shtml") (24 * k) 1] else []) ++
        ssiRender (ssiProbePage cs') (24 * (k + 1)) env (ssiProbes (k + 1) cs) more := by
  have hout : ∀ p : SsiState, (processSsiStmt (ssiProbePage cs') p (c.stmt k)).2 = [] ∧
      (processSsiStmt (ssiProbePage cs') p (c.stmt k)).1.env = p.env := by
    intro p
    cases c <;> exact ⟨rfl, rfl⟩
  have htext : (ssiProbePage cs').text (24 * k) ((c.stmt k).start - 24 * k) =
      [.file (ascii "/www/index.shtml") (24 * k) 1] := by
    have hone : (c.stmt k).start - 24 * k = 1 := Nat.add_sub_cancel_left (24 * k) 1
    rw [hone]
    rfl
  rw [ssiProbes, ssiRender]
  rw [(hout _).1, (hout _).2, htext, List.append_nil]
  rfl

theorem ssiRender_nil (k : Nat) (fs : List Bool) :
    ssiRender (ssiProbePage cs') (24 * k) env (ssiProbes k []) fs = [] := by
  cases fs <;> rfl

theorem le_of_mem_ssiRender {name : Bytes} {o len : Nat} (cs : List SsiProbe) :
    ∀ (k : Nat) (fs : List Bool),
      SsiChunk.file name o len ∈ ssiRender (ssiProbePage cs') (24 * k) env (ssiProbes k cs) fs →
        24 * k ≤ o := by
  induction cs with
  | nil =>
    intro k fs h
    rw [ssiRender_nil] at h
    nomatch h
  | cons c cs ih =>
    intro k fs h
    cases fs with
    | nil => nomatch h
    | cons shown more =>
      rw [ssiRender_cons, List.mem_append] at h
      rcases h with h | h
      · split at h
        · obtain ⟨-, rfl, -⟩ := SsiChunk.file.inj (List.mem_singleton.mp h)
          exact Nat.le_refl _
        · nomatch h
      · exact (Nat.mul_le_mul_left 24 (Nat.le_succ k)).trans (ih (k + 1) more h)

theorem ssiRender_injective (cs : List SsiProbe) : ∀ (k : Nat) {fs gs : List Bool},
    fs.length = cs.length → gs.length = cs.length →
    ssiRender (ssiProbePage cs') (24 * k) env (ssiProbes k cs) fs =
      ssiRender (ssiProbePage cs') (24 * k) env (ssiProbes k cs) gs → fs = gs := by
  induction cs with
  | nil =>
    intro k fs gs hf hg _
    rw [List.length_eq_zero_iff.mp hf, List.length_eq_zero_iff.mp hg]
  | cons c cs ih =>
    intro k fs gs hf hg h
    obtain ⟨f, fs, rfl⟩ := List.exists_cons_of_length_eq_add_one hf
    obtain ⟨g, gs, rfl⟩ := List.exists_cons_of_length_eq_add_one hg
    rw [ssiRender_cons, ssiRender_cons] at h
    have hlater : ∀ fs' : List Bool, SsiChunk.file (ascii "/www/index.shtml") (24 * k) 1 ∉
        ssiRender (ssiProbePage cs') (24 * (k + 1)) env (ssiProbes (k + 1) cs) fs' := by
      intro fs' hmem
      have hle := le_of_mem_ssiRender cs' env cs (k + 1) fs' hmem
      omega
    have hhead : f = g := by
      cases f with
      | true =>
        cases g with
        | true => rfl
        | false =>
          simp only [if_true, Bool.false_eq_true, if_false, List.nil_append,
            List.singleton_append] at h
          exact absurd (h ▸ List.mem_cons_self) (hlater gs)
      | false =>
        cases g with
        | true =>
          simp only [if_true, Bool.false_eq_true, if_false, List.nil_append,
            List.singleton_append] at h
          exact absurd (h ▸ List.mem_cons_self) (hlater fs)
        | false => rfl
    subst hhead
    rw [ih (k + 1) (Nat.succ.inj hf) (Nat.succ.inj hg) (List.append_cancel_left h)]

end Render

theorem ssiPageShown_probe (p : SsiState) (cs : List SsiProbe) :
    ssiPageShown p (ssiProbePage cs) =
      (ssiProbing.run { p.nesting with ifIsFalse := false } cs).2 := by
  rw [← run_ssiProbes cs 0]
  exact ssiShown_eq (ssiProbePage cs) (ssiProbes 0 cs) (0, ssiPrologue p (ssiProbePage cs))

theorem ssiAnswers_iff (p q : SsiState) :
    (∀ page, (modSsiHandleRequest p page).2 = (modSsiHandleRequest q page).2) ↔
      p.nesting.kept = q.nesting.kept := by
  constructor
  · intro h
    have halike : SsiAlike { p.nesting with ifIsFalse := false }
        { q.nesting with ifIsFalse := false } := by
      intro cs
      have hqueue := h (ssiProbePage cs)
      rw [modSsiHandleRequest_queue _ rfl, modSsiHandleRequest_queue _ rfl] at hqueue
      have hrender := List.append_cancel_right hqueue
      rw [ssiPageShown_probe, ssiPageShown_probe] at hrender
      exact ssiRender_injective cs _ cs 0 (length_ssiProbing cs _) (length_ssiProbing cs _) hrender
    have heq := halike.eq rfl
    exact (congrArg SsiNesting.kept heq :)
  · intro h page
    have hstart : ssiPrologue p page = ssiPrologue q page := by
      simp only [SsiNesting.kept, Prod.mk.injEq] at h
      simp only [ssiPrologue, h]
    unfold modSsiHandleRequest
    rw [hstart]

/-- **After two histories every page is answered alike exactly if they leave the level, the depth of
the branch hidden last and the flag of `elif` the same.** -/
theorem ssiPages_agree_iff (before before' : List SsiPage) :
    (∀ page, (modSsiHandleRequest (ssiHistory before) page).2 =
        (modSsiHandleRequest (ssiHistory before') page).2) ↔
      (ssiHistory before).nesting.kept = (ssiHistory before').nesting.kept :=
  ssiAnswers_iff _ _

/-- A page with a single `endif`. -/
theorem not_ssiPages_agree : ¬ ∀ before before' page,
    (modSsiHandleRequest (ssiHistory before) page).2 =
      (modSsiHandleRequest (ssiHistory before') page).2 := by
  intro h
  have hkept := (ssiAnswers_iff _ _).mp (h [] [ssiProbePage [.endif]])
  have hlevel : (0 : Int) = -1 := congrArg Prod.fst hkept
  nomatch hlevel

end Lighttpd
