import Lighttpd.Connections.ReadState
import Lighttpd.Lib.Machine

/-!
# `mod_rewrite.c`: the rounds of a request

A rule that matches makes a new URL, and the request starts once more. The context of the connection
counts the calls, and after the first rule that is used once they do nothing. So a request comes back
from a rule 102 times at most, and from a rule that is used once only once (`rewriteEnds`). The error
handler takes it back once more, so the state machine goes on as long as the other plugins do.

What PCRE finds, the captures of the condition and the other plugins are parameters.
-/

namespace Lighttpd

open CLib

/-- `pcre_exec` and `pcre_get_substring_list`; `failed` is any other error. -/
inductive PcreAnswer where
  | noMatch
  | failed
  | matched (list : List Bytes)
  deriving DecidableEq, Repr

/-- `rewrite_rule` -/
structure RewriteRule where
  key : Bytes → PcreAnswer
  value : Bytes
  once : Bool

/-- The rules that apply, and the captures of their condition; in the global scope there is none. -/
structure RewriteConf where
  rules : List RewriteRule
  context : Option (Nat → Bytes)

/-- `handler_ctx` -/
structure RewriteCtx where
  finished : Bool
  loops : Nat
  deriving DecidableEq, Repr

/-- A digit behind `$` or `%`, or an escape. -/
def rewriteReference (context : Option (Nat → Bytes)) (list : List Bytes) (c d : UInt8) : Bytes :=
  if ¬ (48 ≤ d ∧ d ≤ 57) then if c = d then [c] else [c, d]
  else if c = 36 then cstr (list.getD (d - 48).toNat [])
  else
    match context with
    | none => []
    | some matches' => matches' (d - 48).toNat

def rewriteUri (context : Option (Nat → Bytes)) (list : List Bytes) : Bytes → Bytes
  | c :: d :: pattern =>
    if c = 36 ∨ c = 37 then rewriteReference context list c d ++ rewriteUri context list pattern
    else c :: rewriteUri context list (d :: pattern)
  | pattern => pattern

/-- What a call of `process_rewrite_rules` returns, the context and the URL that it leaves, and
whether a rule was applied that is used once. -/
structure Rewritten where
  ret : HandlerT
  ctx : Option RewriteCtx
  uri : Bytes
  once : Bool
  deriving DecidableEq, Repr

def rewriteRules (context : Option (Nat → Bytes)) (ctx : Option RewriteCtx) (uri : Bytes) :
    List RewriteRule → Rewritten
  | [] => ⟨.goOn, ctx, uri, false⟩
  | rule :: rules =>
    match rule.key uri with
    | .noMatch => rewriteRules context ctx uri rules
    | .failed => ⟨.error, ctx, uri, false⟩
    | .matched list =>
      let hctx := ctx.getD ⟨false, 0⟩
      let hctx := if rule.once then { hctx with finished := true } else hctx
      ⟨.comeback, some hctx, rewriteUri context list rule.value, rule.once⟩

def processRewriteRules (ctx : Option RewriteCtx) (uri : Bytes) (kvb : RewriteConf) : Rewritten :=
  match ctx with
  | some hctx =>
    let counted := { hctx with loops := hctx.loops + 1 }
    if hctx.loops > 100 then ⟨.error, some counted, uri, false⟩
    else if hctx.finished then ⟨.goOn, some counted, uri, false⟩
    else rewriteRules kvb.context (some counted) uri kvb.rules
  | none => rewriteRules kvb.context none uri kvb.rules

/-! ## A round in `CON_STATE_HANDLE_REQUEST` -/

abbrev OtherPlugins : Type := Bytes → HandlerT × Bytes

/-- What a round meets. `decided` is the answer where `http_response_prepare` does not come to the
hooks; the plugins in front of and behind `mod_rewrite` answer for whatever there is between; the
error handler is there for the status 403 or 404 in direct mode. -/
structure HandleRound where
  decided : Option HandlerT
  uriRaw : OtherPlugins
  rewrite : Option RewriteConf
  uriClean : OtherPlugins
  direct : Bool
  rewriteNF : Option RewriteConf
  isReg : Bool
  subrequest : OtherPlugins
  errorHandler : Option Bytes

/-- `connection`, with the fields for the rounds. -/
structure HandlingConnection where
  state : ConnectionState
  uri : Bytes
  ctx : Option RewriteCtx
  inErrorHandler : Bool
  deriving DecidableEq, Repr

inductive RewriteEvent where
  | called (ret : HandlerT) (once : Bool)
  | otherComeback
  | errorHandler
  | again
  deriving DecidableEq, Repr

/-- A part of `http_response_prepare`: it goes on, or returns. -/
abbrev HandlePart : Type :=
  HandlingConnection → HandlerT × HandlingConnection × List RewriteEvent

def HandlePart.andThen (first second : HandlePart) : HandlePart := fun con =>
  let (r, con, events) := first con
  match r with
  | .finished | .comeback | .waitForEvent | .error => (r, con, events)
  | _ =>
    let (r, con, more) := second con
    (r, con, events ++ more)

def otherPlugins (plugins : OtherPlugins) : HandlePart := fun con =>
  let (r, uri) := plugins con.uri
  (r, { con with uri }, if r = .comeback then [.otherComeback] else [])

def modRewrite (conf : Option RewriteConf) : HandlePart := fun con =>
  match conf with
  | none => (.goOn, con, [])
  | some kvb =>
    let r := processRewriteRules con.ctx con.uri kvb
    (r.ret, { con with ctx := r.ctx, uri := r.uri }, [.called r.ret r.once])

def modRewriteUriHandler (round : HandleRound) : HandlePart := modRewrite round.rewrite

def modRewritePhysical (round : HandleRound) : HandlePart :=
  modRewrite (if round.direct ∧ ¬ round.isReg then round.rewriteNF else none)

/-- The hooks for the subrequest; if they go on the request is finished. -/
def handleSubrequest (round : HandleRound) : HandlePart := fun con =>
  let (r, con, events) := otherPlugins round.subrequest con
  (if r = .goOn then .finished else r, con, events)

/-- `http_response_prepare` -/
def handlePrepare (round : HandleRound) : HandlePart := fun con =>
  match round.decided with
  | some r => (r, con, if r = .comeback then [.otherComeback] else [])
  | none =>
    (HandlePart.andThen (otherPlugins round.uriRaw) <|
      HandlePart.andThen (modRewriteUriHandler round) <|
      HandlePart.andThen (otherPlugins round.uriClean) <|
      HandlePart.andThen (modRewritePhysical round) (handleSubrequest round)) con

/-- `CON_STATE_HANDLE_REQUEST`. A round that sets `done = -1` is followed by another one. -/
def handleRequest (con : HandlingConnection) (round : HandleRound) :
    HandlingConnection × List RewriteEvent :=
  let (r, con, events) := handlePrepare round con
  match r with
  | .finished =>
    match round.errorHandler with
    | some uri =>
      if ¬ con.inErrorHandler then
        ({ con with uri, inErrorHandler := true }, events ++ [.errorHandler, .again])
      else ({ con with state := .responseStart }, events)
    | none => ({ con with state := .responseStart }, events)
  | .comeback => (con, events ++ [.again])
  | .error => ({ con with state := .error }, events)
  | _ => (con, events)

def handling : Machine HandlingConnection HandleRound RewriteEvent where
  step := handleRequest

/-- The loop of `connection_state_machine`; it has no value where every round is followed by another
one. -/
def handleLoop : List HandleRound → HandlingConnection → Option HandlingConnection
  | [], _ => none
  | round :: rounds, con =>
    let (con, events) := handleRequest con round
    if .again ∈ events then handleLoop rounds con else some con

/-! ## What a call may still do -/

def RewriteCtx.budget : Option RewriteCtx → Nat
  | none => 102
  | some hctx => 101 - hctx.loops

def RewriteCtx.open : Option RewriteCtx → Nat
  | some ⟨true, _⟩ => 0
  | _ => 1

namespace RewriteEvent

def isComeback : RewriteEvent → Bool
  | called .comeback _ => true
  | _ => false

def isOnce : RewriteEvent → Bool
  | called _ true => true
  | _ => false

def isAccepted : RewriteEvent → Bool
  | called .error _ => false
  | called _ _ => true
  | _ => false

end RewriteEvent

/-- The events of calls, and what they leave to the next ones. -/
structure Spent (ctx : Option RewriteCtx) (events : List RewriteEvent)
    (ctx' : Option RewriteCtx) : Prop where
  comebacks : events.countP (·.isComeback) + RewriteCtx.budget ctx' ≤ RewriteCtx.budget ctx
  once : events.countP (·.isOnce) + RewriteCtx.open ctx' ≤ RewriteCtx.open ctx
  refused : RewriteCtx.budget ctx = 0 → events.countP (·.isAccepted) = 0

theorem Spent.refl (ctx : Option RewriteCtx) : Spent ctx [] ctx :=
  ⟨by simp, by simp, fun _ => rfl⟩

theorem Spent.trans {ctx ctx' ctx'' : Option RewriteCtx} {events more : List RewriteEvent}
    (h : Spent ctx events ctx') (h' : Spent ctx' more ctx'') : Spent ctx (events ++ more) ctx'' := by
  have hcomebacks := h.comebacks
  have hcomebacks' := h'.comebacks
  have honce := h.once
  have honce' := h'.once
  refine ⟨?_, ?_, ?_⟩
  · rw [List.countP_append]
    omega
  · rw [List.countP_append]
    omega
  · intro hzero
    rw [List.countP_append, h.refused hzero, h'.refused (by omega)]

theorem rewriteRules_spent (context : Option (Nat → Bytes)) (ctx : Option RewriteCtx) (uri : Bytes)
    (rules : List RewriteRule) : ∃ ret once ctx' uri',
    rewriteRules context ctx uri rules = ⟨ret, ctx', uri', once⟩ ∧
      ((ret = .comeback ∧ ctx' = some ⟨(ctx.getD ⟨false, 0⟩).finished || once,
          (ctx.getD ⟨false, 0⟩).loops⟩) ∨
        ((ret = .goOn ∨ ret = .error) ∧ once = false ∧ ctx' = ctx)) := by
  induction rules with
  | nil => exact ⟨_, _, _, _, rfl, Or.inr ⟨Or.inl rfl, rfl, rfl⟩⟩
  | cons rule rules ih =>
    unfold rewriteRules
    cases rule.key uri with
    | noMatch => exact ih
    | failed => exact ⟨_, _, _, _, rfl, Or.inr ⟨Or.inr rfl, rfl, rfl⟩⟩
    | matched list =>
      refine ⟨_, _, _, _, rfl, Or.inl ⟨rfl, ?_⟩⟩
      cases rule.once <;> simp

theorem processRewriteRules_spent (ctx : Option RewriteCtx) (uri : Bytes) (kvb : RewriteConf) :
    Spent ctx [.called (processRewriteRules ctx uri kvb).ret (processRewriteRules ctx uri kvb).once]
      (processRewriteRules ctx uri kvb).ctx := by
  unfold processRewriteRules
  cases ctx with
  | none =>
    obtain ⟨ret, once, ctx', uri', heq, hret⟩ := rewriteRules_spent kvb.context none uri kvb.rules
    simp only [heq]
    rcases hret with ⟨rfl, rfl⟩ | ⟨hret, rfl, rfl⟩
    · refine ⟨?_, ?_, fun hzero => nomatch hzero⟩
      · simp [RewriteEvent.isComeback, RewriteCtx.budget]
      · cases once <;> simp [RewriteEvent.isOnce, RewriteCtx.open]
    · refine ⟨?_, ?_, fun hzero => nomatch hzero⟩
      · rcases hret with rfl | rfl <;> simp [RewriteEvent.isComeback]
      · simp [RewriteEvent.isOnce]
  | some hctx =>
    obtain ⟨finished, loops⟩ := hctx
    dsimp only
    by_cases hloops : loops > 100
    · rw [if_pos hloops]
      refine ⟨?_, ?_, fun _ => rfl⟩
      · simp only [RewriteCtx.budget, RewriteEvent.isComeback, List.countP_singleton,
          Bool.false_eq_true, if_false]
        omega
      · cases finished <;> simp [RewriteEvent.isOnce, RewriteCtx.open]
    · rw [if_neg hloops]
      have hbudget : RewriteCtx.budget (some ⟨finished, loops⟩) ≠ 0 := by
        simp only [RewriteCtx.budget]
        omega
      cases finished with
      | true =>
        refine ⟨?_, ?_, fun hzero => absurd hzero hbudget⟩
        · simp only [if_true, RewriteCtx.budget, RewriteEvent.isComeback, List.countP_singleton,
            Bool.false_eq_true, if_false]
          omega
        · simp [RewriteEvent.isOnce, RewriteCtx.open]
      | false =>
        obtain ⟨ret, once, ctx', uri', heq, hret⟩ :=
          rewriteRules_spent kvb.context (some ⟨false, loops + 1⟩) uri kvb.rules
        simp only [Bool.false_eq_true, if_false, heq]
        rcases hret with ⟨rfl, rfl⟩ | ⟨hret, rfl, rfl⟩
        · refine ⟨?_, ?_, fun hzero => absurd hzero hbudget⟩
          · simp only [RewriteCtx.budget, RewriteEvent.isComeback, List.countP_singleton, if_true,
              Option.getD_some]
            omega
          · cases once <;> simp [RewriteEvent.isOnce, RewriteCtx.open]
        · refine ⟨?_, ?_, fun hzero => absurd hzero hbudget⟩
          · simp only [RewriteCtx.budget]
            rcases hret with rfl | rfl <;> simp [RewriteEvent.isComeback]
            all_goals omega
          · simp [RewriteEvent.isOnce, RewriteCtx.open]

/-! ## What a round does -/

/-- What a part of `http_response_prepare` leaves. -/
structure HandleKept (con : HandlingConnection)
    (res : HandlerT × HandlingConnection × List RewriteEvent) : Prop where
  spent : Spent con.ctx res.2.2 res.2.1.ctx
  comeback : res.1 = .comeback →
    1 ≤ res.2.2.countP (·.isComeback) + res.2.2.count .otherComeback
  again : .again ∉ res.2.2
  errorHandler : .errorHandler ∉ res.2.2
  inErrorHandler : res.2.1.inErrorHandler = con.inErrorHandler

section Parts

variable (con : HandlingConnection)

theorem handleKept_other {con' : HandlingConnection} (r : HandlerT) (hctx : con'.ctx = con.ctx)
    (herror : con'.inErrorHandler = con.inErrorHandler) :
    HandleKept con (r, con', if r = .comeback then [.otherComeback] else []) := by
  by_cases hr : r = .comeback
  · subst hr
    rw [if_pos rfl]
    refine ⟨?_, fun _ => by simp, by simp, by simp, herror⟩
    rw [hctx]
    exact ⟨by simp [RewriteEvent.isComeback], by simp [RewriteEvent.isOnce], fun _ => rfl⟩
  · rw [if_neg hr]
    refine ⟨?_, fun h => absurd h hr, List.not_mem_nil, List.not_mem_nil, herror⟩
    rw [hctx]
    exact .refl _

theorem otherPlugins_kept (plugins : OtherPlugins) : HandleKept con (otherPlugins plugins con) :=
  handleKept_other con _ rfl rfl

theorem modRewrite_kept (conf : Option RewriteConf) : HandleKept con (modRewrite conf con) := by
  unfold modRewrite
  cases conf with
  | none => exact ⟨.refl _, (nomatch ·), List.not_mem_nil, List.not_mem_nil, rfl⟩
  | some kvb =>
    dsimp only
    refine ⟨processRewriteRules_spent con.ctx con.uri kvb, ?_, by simp, by simp, rfl⟩
    intro h
    dsimp only at h
    simp [h, RewriteEvent.isComeback]

variable {con}

theorem HandleKept.trans {r r' : HandlerT} {con' con'' : HandlingConnection}
    {events more : List RewriteEvent} (h : HandleKept con (r, con', events))
    (h' : HandleKept con' (r', con'', more)) : HandleKept con (r', con'', events ++ more) := by
  refine ⟨h.spent.trans h'.spent, ?_, ?_, ?_, h'.inErrorHandler.trans h.inErrorHandler⟩
  · intro hr
    have hcomeback := h'.comeback hr
    simp only [List.countP_append, List.count_append] at hcomeback ⊢
    omega
  · exact fun hmem => (List.mem_append.mp hmem).elim h.again h'.again
  · exact fun hmem => (List.mem_append.mp hmem).elim h.errorHandler h'.errorHandler

theorem HandlePart.andThen_kept {first second : HandlePart} (h : HandleKept con (first con))
    (h' : ∀ con', HandleKept con' (second con')) : HandleKept con (first.andThen second con) := by
  unfold HandlePart.andThen
  generalize first con = res at h
  obtain ⟨r, con', events⟩ := res
  dsimp only
  split
  · exact h
  · exact h
  · exact h
  · exact h
  · exact h.trans (h' con')

theorem handleSubrequest_kept (round : HandleRound) : HandleKept con (handleSubrequest round con) := by
  have hother := otherPlugins_kept con round.subrequest
  unfold handleSubrequest
  generalize otherPlugins round.subrequest con = res at hother
  refine ⟨hother.spent, ?_, hother.again, hother.errorHandler, hother.inErrorHandler⟩
  intro hr
  apply hother.comeback
  dsimp only at hr
  by_cases hgo : res.1 = .goOn
  · rw [if_pos hgo] at hr
    nomatch hr
  · rwa [if_neg hgo] at hr

theorem handlePrepare_kept (round : HandleRound) : HandleKept con (handlePrepare round con) := by
  unfold handlePrepare
  split
  · exact handleKept_other con _ rfl rfl
  · apply HandlePart.andThen_kept (otherPlugins_kept con _)
    intro con₁
    apply HandlePart.andThen_kept (modRewrite_kept con₁ _)
    intro con₂
    apply HandlePart.andThen_kept (otherPlugins_kept con₂ _)
    intro con₃
    apply HandlePart.andThen_kept (modRewrite_kept con₃ _)
    exact fun _ => handleSubrequest_kept round

end Parts

/-! ## The rounds of a request -/

def HandlingConnection.fresh (con : HandlingConnection) : Nat := if con.inErrorHandler then 0 else 1

/-- The events of a round, and what they leave to the next ones. -/
structure RoundKept (con : HandlingConnection) (events : List RewriteEvent)
    (con' : HandlingConnection) : Prop where
  spent : Spent con.ctx events con'.ctx
  again : events.count .again ≤ events.countP (·.isComeback) + events.count .otherComeback +
    events.count .errorHandler
  errorHandler : events.count .errorHandler + con'.fresh ≤ con.fresh

theorem handleRequest_kept (con : HandlingConnection) (round : HandleRound) :
    RoundKept con (handleRequest con round).2 (handleRequest con round).1 := by
  have hkept := @handlePrepare_kept con round
  unfold handleRequest
  generalize handlePrepare round con = res at hkept
  obtain ⟨r, con', events⟩ := res
  have hnone : events.count .again = 0 := List.count_eq_zero.mpr hkept.again
  have herror : events.count .errorHandler = 0 := List.count_eq_zero.mpr hkept.errorHandler
  have hfresh : con'.fresh = con.fresh := by
    unfold HandlingConnection.fresh
    rw [hkept.inErrorHandler]
  have hplain : ∀ con'' : HandlingConnection, con''.ctx = con'.ctx →
      con''.inErrorHandler = con'.inErrorHandler → RoundKept con events con'' := by
    intro con'' hctx hin
    refine ⟨?_, ?_, ?_⟩
    · rw [hctx]
      exact hkept.spent
    · rw [hnone]
      exact Nat.zero_le _
    · rw [herror, ← hfresh]
      unfold HandlingConnection.fresh
      rw [hin, Nat.zero_add]
  dsimp only
  cases r with
  | finished =>
    cases round.errorHandler with
    | none => exact hplain _ rfl rfl
    | some uri =>
      dsimp only
      by_cases hin : con'.inErrorHandler = true
      · rw [if_neg (not_not.mpr hin)]
        exact hplain _ rfl rfl
      · rw [if_pos hin]
        refine ⟨?_, ?_, ?_⟩
        · have hmore : Spent con'.ctx [.errorHandler, .again] con'.ctx :=
            ⟨by simp [RewriteEvent.isComeback], by simp [RewriteEvent.isOnce], fun _ => rfl⟩
          exact hkept.spent.trans hmore
        · simp only [List.count_append, hnone, List.countP_append]
          simp
          omega
        · rw [← hfresh]
          simp [HandlingConnection.fresh, hin, herror]
  | comeback =>
    refine ⟨?_, ?_, ?_⟩
    · have hmore : Spent con'.ctx [.again] con'.ctx :=
        ⟨by simp [RewriteEvent.isComeback], by simp [RewriteEvent.isOnce], fun _ => rfl⟩
      exact hkept.spent.trans hmore
    · have hcomeback : 1 ≤ events.countP (·.isComeback) + events.count .otherComeback :=
        hkept.comeback rfl
      have hcount : [RewriteEvent.again].count .again = 1 := rfl
      simp only [List.count_append, List.countP_append, hnone, hcount]
      omega
    · rw [← hfresh]
      simp [herror]
  | error => exact hplain _ rfl rfl
  | unset | goOn | waitForEvent | waitForFd => exact hplain _ rfl rfl

theorem handling_kept (rounds : List HandleRound) : ∀ con : HandlingConnection,
    RoundKept con (handling.run con rounds).2 (handling.run con rounds).1 := by
  induction rounds with
  | nil =>
    intro con
    exact ⟨.refl _, Nat.le_refl _, by simp⟩
  | cons round rounds ih =>
    intro con
    have hround := handleRequest_kept con round
    have hrest := ih (handleRequest con round).1
    rw [Machine.run_cons]
    have hagain := hround.again
    have hagain' := hrest.again
    have herror := hround.errorHandler
    have herror' := hrest.errorHandler
    refine ⟨hround.spent.trans hrest.spent, ?_, ?_⟩
    · simp only [handling, List.count_append, List.countP_append] at hagain hagain' ⊢
      omega
    · simp only [handling, List.count_append] at herror herror' ⊢
      omega

theorem handleLoop_eq_none (rounds : List HandleRound) : ∀ con : HandlingConnection,
    handleLoop rounds con = none → rounds.length ≤ (handling.run con rounds).2.count .again := by
  induction rounds with
  | nil => exact fun _ _ => Nat.zero_le _
  | cons round rounds ih =>
    intro con h
    unfold handleLoop at h
    dsimp only at h
    by_cases hagain : .again ∈ (handleRequest con round).2
    · rw [if_pos hagain] at h
      have hrest := ih _ h
      have hone := List.count_pos_iff.mpr hagain
      rw [Machine.run_cons, List.count_append, List.length_cons]
      simp only [handling] at hrest hone ⊢
      omega
    · rw [if_neg hagain] at h
      nomatch h

/-- **The rounds of a request**, from whatever context: the rules come back 102 times at most, a rule
that is used once does so once, after 102 times every call fails, and the loop ends as soon as there
are more rounds than the rules, the error handler and the other plugins account for. -/
theorem rewriteEnds (con : HandlingConnection) (rounds : List HandleRound) :
    (handling.run con rounds).2.countP (·.isComeback) ≤ 102 ∧
    (handling.run con rounds).2.countP (·.isOnce) ≤ 1 ∧
    ((handling.run con rounds).2.countP (·.isComeback) = 102 → ∀ more,
      (handling.run (handling.run con rounds).1 more).2.countP (·.isAccepted) = 0) ∧
    (103 + (handling.run con rounds).2.count .otherComeback < rounds.length →
      (handleLoop rounds con).isSome) := by
  have hkept := handling_kept rounds con
  have hbudget : RewriteCtx.budget con.ctx ≤ 102 := by
    unfold RewriteCtx.budget
    split <;> omega
  have hopen : RewriteCtx.open con.ctx ≤ 1 := by
    unfold RewriteCtx.open
    split <;> omega
  have hcomebacks := hkept.spent.comebacks
  have honce := hkept.spent.once
  refine ⟨by omega, by omega, ?_, ?_⟩
  · intro hall more
    exact (handling_kept more _).spent.refused (by omega)
  · intro hlength
    rw [Option.isSome_iff_ne_none]
    intro hnone
    have hrounds := handleLoop_eq_none rounds con hnone
    have hagain := hkept.again
    have herror := hkept.errorHandler
    have hfresh : con.fresh ≤ 1 := by
      unfold HandlingConnection.fresh
      split <;> omega
    omega

end Lighttpd
