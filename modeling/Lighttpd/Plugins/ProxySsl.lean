import Lighttpd.Fastcgi.CreateEnv
import Lighttpd.Plugins.Extforward

/-!
# The `HTTPS` variable behind a proxy

`mod_extforward` keeps what a request says in `X-Forwarded-Proto` in the `server_socket`, which all
connections share, and changes it only where it takes over an address. So what `fcgi_create_env`
passes is the claim of the last request that did, be it this one or another
(`httpsBelongs_iff`).
-/

namespace Lighttpd

open CLib

section Socket

variable [Malloc] (inetNtop : SockAddr → Bytes)

/-- `srv_sock->is_proxy_ssl`, and the requests that came in on the socket. -/
structure SocketState where
  isProxySsl : Bool
  cons : Nat → ForwardedConnection

/-- A handler runs for the request `i`. -/
inductive SocketEvent where
  | uriHandler (i : Nat) (r : ForwardRun)
  | restore (i : Nat)

def SocketEvent.request : SocketEvent → Nat
  | .uriHandler i _ => i
  | .restore i => i

def SocketEvent.handle (con : ForwardedConnection) : SocketEvent → Option ForwardedConnection
  | .uriHandler _ r => modExtforwardUriHandler inetNtop con r
  | .restore _ => modExtforwardRestore con

def SocketState.step (st : SocketState) (e : SocketEvent) : Option SocketState := do
  let con ← e.handle inetNtop { st.cons e.request with isProxySsl := st.isProxySsl }
  some ⟨con.isProxySsl, Function.update st.cons e.request con⟩

def SocketState.run (st : SocketState) (es : List SocketEvent) : Option SocketState :=
  es.foldlM (SocketState.step inetNtop) st

omit [Malloc] in
/-- What `fcgi_create_env` adds for the socket of the request. -/
def httpsVars (isSsl isProxySsl : Bool) : List FcgiEnvVar :=
  if isSsl ∨ isProxySsl then [⟨some (ascii "HTTPS"), some (ascii "on"), true⟩] else []

/-! ## Claims -/

def SocketEvent.claim (con : ForwardedConnection) : SocketEvent → Option Bool
  | .uriHandler _ r =>
    match realRemoteAddr inetNtop r con with
    | some (some _) => (arrayGetElement r.requestHeaders (ascii "X-Forwarded-Proto")).map fun proto =>
        proto.any fun (_, ds) => ds.value.str == ascii "https"
    | _ => none
  | .restore _ => none

def claims : (Nat → ForwardedConnection) → List SocketEvent → List (Nat × Bool)
  | _, [] => []
  | cons, e :: es =>
    let con := cons e.request
    ((e.claim inetNtop con).map (e.request, ·)).toList ++
      claims (Function.update cons e.request ((e.handle inetNtop con).getD con)) es

omit [Malloc] in
def lastClaim (cs : List (Nat × Bool)) : Bool := (cs.getLast?.map (·.2)).getD false

/-! ## A single event -/

/-- The connections are alike but for the flag of the socket. -/
def AlikeBut (con con' : ForwardedConnection) : Prop := ∃ b, con' = { con with isProxySsl := b }

variable {inetNtop} {con con' : ForwardedConnection}

omit [Malloc] in
theorem AlikeBut.refl (con : ForwardedConnection) : AlikeBut con con := ⟨_, rfl⟩

theorem patchAddress_ssl (sock : SockAddr) (ip : Bytes) (b : Bool) :
    patchAddress sock ip { con with isProxySsl := b } =
      (patchAddress sock ip con).map fun con' => { con' with isProxySsl := b } := by
  unfold patchAddress
  cases con.pluginCtx with
  | none => simp only [Option.bind_eq_bind, Option.bind_some, Option.map_some]
  | some p =>
    cases hfree : con.contexts.release p with
    | none => simp only [hfree, Option.map_none, Option.bind_eq_bind, Option.bind_none]
    | some contexts =>
      simp only [hfree, Option.bind_eq_bind, Option.bind_some, Option.map_some]

omit [Malloc] in
theorem modExtforwardRestore_ssl (b : Bool) :
    modExtforwardRestore { con with isProxySsl := b } =
      (modExtforwardRestore con).map fun con' => { con' with isProxySsl := b } := by
  obtain ⟨addr, addrBuf, ctx, buffers, contexts, cache, ssl⟩ := con
  unfold modExtforwardRestore
  cases ctx with
  | none => rfl
  | some p =>
    cases hctx : contexts.get p with
    | none => simp only [hctx, Option.bind_eq_bind, Option.bind_none, Option.map_none]
    | some saved =>
      cases buffers.release addrBuf with
      | none =>
        simp only [hctx, Option.bind_eq_bind, Option.bind_some, Option.bind_none,
          Option.map_none]
      | some buffers' =>
        cases hfree : contexts.release p with
        | none =>
          simp only [hctx, hfree, Option.bind_eq_bind, Option.bind_some, Option.bind_none,
            Option.map_none]
        | some contexts' =>
          simp only [hctx, hfree, Option.bind_eq_bind, Option.bind_some, Option.map_some]

theorem handle_ssl (e : SocketEvent) (b : Bool) :
    e.handle inetNtop { con with isProxySsl := b } = (e.handle inetNtop con).map fun con' =>
      { con' with isProxySsl := (e.claim inetNtop con).getD b } := by
  cases e with
  | restore i => exact modExtforwardRestore_ssl b
  | uriHandler i r =>
    have hreal : realRemoteAddr inetNtop r { con with isProxySsl := b } =
        realRemoteAddr inetNtop r con := rfl
    unfold SocketEvent.handle modExtforwardUriHandler SocketEvent.claim
    simp only
    rw [hreal]
    cases realRemoteAddr inetNtop r con with
    | none => rfl
    | some real =>
      cases real with
      | none => rfl
      | some ip =>
        obtain ⟨proto, hproto, -⟩ :=
          arrayGetElement_spec r.requestHeaders_wf (ascii "X-Forwarded-Proto")
        simp only [hproto, Option.bind_eq_bind, Option.bind_some, Option.map_some,
          Option.getD_some]
        generalize (proto.any fun (_, ds) => ds.value.str == ascii "https") = claim
        split
        · rw [@patchAddress_ssl _ con, Option.map_map]
          rfl
        · rfl

theorem claim_ssl (e : SocketEvent) (b : Bool) :
    e.claim inetNtop { con with isProxySsl := b } = e.claim inetNtop con := by
  cases e <;> rfl

theorem AlikeBut.claim (h : AlikeBut con con') (e : SocketEvent) :
    e.claim inetNtop con' = e.claim inetNtop con := by
  obtain ⟨b, rfl⟩ := h
  exact claim_ssl e b

theorem AlikeBut.handle_some {con₁ : ForwardedConnection} {e : SocketEvent}
    (h : AlikeBut con con') (hcon₁ : e.handle inetNtop con = some con₁) :
    ∃ con₁', e.handle inetNtop con' = some con₁' ∧ AlikeBut con₁ con₁' := by
  obtain ⟨b, rfl⟩ := h
  rw [handle_ssl, hcon₁]
  exact ⟨_, rfl, _, rfl⟩

theorem AlikeBut.handle (h : AlikeBut con con') (e : SocketEvent) :
    AlikeBut ((e.handle inetNtop con).getD con) ((e.handle inetNtop con').getD con') := by
  cases hcon₁ : e.handle inetNtop con with
  | some con₁ =>
    obtain ⟨con₁', hcon₁', halike⟩ := h.handle_some hcon₁
    rw [hcon₁']
    exact halike
  | none =>
    obtain ⟨b, rfl⟩ := h
    rw [@handle_ssl _ inetNtop con e b, hcon₁]
    exact ⟨b, rfl⟩

/-! ## Runs -/

variable {cons cons' : Nat → ForwardedConnection} {b b' : Bool} {st : SocketState}

theorem claims_cons (e : SocketEvent) (es : List SocketEvent) :
    claims inetNtop cons (e :: es) =
      ((e.claim inetNtop (cons e.request)).map (e.request, ·)).toList ++
        claims inetNtop (Function.update cons e.request
          ((e.handle inetNtop (cons e.request)).getD (cons e.request))) es := rfl

theorem claims_congr {es : List SocketEvent}
    (h : ∀ e ∈ es, AlikeBut (cons e.request) (cons' e.request)) :
    claims inetNtop cons' es = claims inetNtop cons es := by
  induction es generalizing cons cons' with
  | nil => rfl
  | cons e es ih =>
    have he := h e List.mem_cons_self
    rw [claims_cons, claims_cons, he.claim, ih]
    intro e' he'
    by_cases hsame : e'.request = e.request
    · rw [hsame, Function.update_self, Function.update_self]
      exact he.handle e
    · rw [Function.update_of_ne hsame, Function.update_of_ne hsame]
      exact h e' (List.mem_cons_of_mem _ he')

theorem claims_own (i : Nat) (es : List SocketEvent) :
    claims inetNtop cons (es.filter (·.request = i)) =
      (claims inetNtop cons es).filter (·.1 = i) := by
  induction es generalizing cons with
  | nil => rfl
  | cons e es ih =>
    have hclaim : ∀ claim : Option Bool, ((claim.map (e.request, ·)).toList).filter (·.1 = i) =
        if e.request = i then (claim.map (e.request, ·)).toList else [] := by
      intro claim
      by_cases he : e.request = i <;> cases claim <;> simp [he]
    rw [claims_cons, List.filter_append, hclaim, ← ih]
    by_cases he : e.request = i
    · rw [List.filter_cons_of_pos (by simpa using he), if_pos he, claims_cons]
    · rw [List.filter_cons_of_neg (by simpa using he), if_neg he, List.nil_append]
      refine (claims_congr fun e' he' => ?_).symm
      have hown : e'.request = i := by simpa using (List.mem_filter.mp he').2
      rw [Function.update_of_ne (fun heq => he (heq.symm.trans hown))]
      exact AlikeBut.refl _

theorem step_eq (e : SocketEvent) : SocketState.step inetNtop ⟨b, cons⟩ e =
    (e.handle inetNtop (cons e.request)).map fun con₁ =>
      ⟨(e.claim inetNtop (cons e.request)).getD b, Function.update cons e.request
        { con₁ with isProxySsl := (e.claim inetNtop (cons e.request)).getD b }⟩ := by
  unfold SocketState.step
  simp only
  rw [@handle_ssl _ inetNtop (cons e.request) e b]
  cases e.handle inetNtop (cons e.request) <;> rfl

theorem run_claims {es : List SocketEvent}
    (h : SocketState.run inetNtop ⟨b, cons⟩ es = some st) :
    st.isProxySsl = (((claims inetNtop cons es).getLast?).map (·.2)).getD b := by
  induction es generalizing b cons with
  | nil =>
    obtain rfl := Option.some.inj h
    rfl
  | cons e es ih =>
    obtain ⟨st₁, hstep, hrun⟩ := Option.bind_eq_some_iff.mp h
    rw [step_eq] at hstep
    obtain ⟨con₁, hcon₁, rfl⟩ := Option.map_eq_some_iff.mp hstep
    rw [ih hrun, claims_cons, hcon₁, Option.getD_some]
    have hrest : claims inetNtop (Function.update cons e.request
        { con₁ with isProxySsl := (e.claim inetNtop (cons e.request)).getD b }) es =
        claims inetNtop (Function.update cons e.request con₁) es := by
      apply claims_congr
      intro e' he'
      by_cases hsame : e'.request = e.request
      · rw [hsame, Function.update_self, Function.update_self]
        exact ⟨_, rfl⟩
      · rw [Function.update_of_ne hsame, Function.update_of_ne hsame]
        exact AlikeBut.refl _
    rw [hrest]
    cases hlast : (claims inetNtop (Function.update cons e.request con₁) es).getLast? with
    | some claim => rw [List.getLast?_append, hlast]; rfl
    | none =>
      rw [List.getLast?_append, hlast]
      cases e.claim inetNtop (cons e.request) <;> rfl

theorem run_own {es : List SocketEvent} (i : Nat)
    (h : SocketState.run inetNtop ⟨b, cons⟩ es = some st) (halike : AlikeBut (cons i) (cons' i)) :
    ∃ own, SocketState.run inetNtop ⟨b', cons'⟩ (es.filter (·.request = i)) = some own := by
  induction es generalizing b b' cons cons' with
  | nil => exact ⟨_, rfl⟩
  | cons e es ih =>
    obtain ⟨st₁, hstep, hrun⟩ := Option.bind_eq_some_iff.mp h
    rw [step_eq] at hstep
    obtain ⟨con₁, hcon₁, rfl⟩ := Option.map_eq_some_iff.mp hstep
    by_cases he : e.request = i
    · subst he
      obtain ⟨con₁', hcon₁', halike₁⟩ := halike.handle_some hcon₁
      obtain ⟨own, hrest⟩ := @ih _ (Function.update cons' e.request
        { con₁' with isProxySsl := (e.claim inetNtop (cons' e.request)).getD b' }) _
          ((e.claim inetNtop (cons' e.request)).getD b') hrun (by
            rw [Function.update_self, Function.update_self]
            obtain ⟨c, rfl⟩ := halike₁
            exact ⟨_, rfl⟩)
      refine ⟨own, ?_⟩
      rw [List.filter_cons_of_pos (by simp), SocketState.run, List.foldlM_cons, step_eq, hcon₁']
      exact hrest
    · rw [List.filter_cons_of_neg (by simpa using he)]
      apply ih hrun
      rw [Function.update_of_ne (Ne.symm he)]
      exact halike

variable (inetNtop) in
/-- **The `HTTPS` variable belongs to the request** exactly if the last claim on the socket is the
same as that of the request itself, or the socket is encrypted anyway. -/
theorem httpsBelongs_iff {es : List SocketEvent}
    (h : SocketState.run inetNtop ⟨false, cons⟩ es = some st) (isSsl : Bool) (i : Nat) :
    ∃ own, SocketState.run inetNtop ⟨false, cons⟩ (es.filter (·.request = i)) = some own ∧
      (httpsVars isSsl st.isProxySsl = httpsVars isSsl own.isProxySsl ↔
        isSsl ∨ lastClaim (claims inetNtop cons es) =
          lastClaim ((claims inetNtop cons es).filter (·.1 = i))) := by
  obtain ⟨own, hown⟩ := @run_own _ inetNtop cons cons false false st es i h (AlikeBut.refl _)
  refine ⟨own, hown, ?_⟩
  have hall : st.isProxySsl = lastClaim (claims inetNtop cons es) := run_claims h
  have hself : own.isProxySsl = lastClaim ((claims inetNtop cons es).filter (·.1 = i)) := by
    rw [← claims_own]
    exact run_claims hown
  rw [← hall, ← hself]
  cases isSsl <;> cases st.isProxySsl <;> cases own.isProxySsl <;> simp [httpsVars]

end Socket

/-- A request that comes through a proxy and says that it was encrypted before. -/
def throughProxy : ForwardRun where
  __ := trustAll
  requestHeaders := {
    data := (oneString (ascii "X-Forwarded-For") (ascii "1.2.3.4")).data ++
      (oneString (ascii "X-Forwarded-Proto") (ascii "https")).data
    sorted := [0, 1]
    used := 2
    uniqueNdx := 0
    nextPowerOf2 := 4
    isWeakref := false }
  requestHeaders_wf := by
    refine ⟨Nat.le_refl 2, fun i hi => ?_, fun pos hpos => ?_⟩
    · match i, hi with
      | 0, _ => exact ⟨_, rfl⟩
      | 1, _ => exact ⟨_, rfl⟩
    · match pos, hpos with
      | 0, _ => exact ⟨0, Nat.two_pos, rfl⟩
      | 1, _ => exact ⟨1, Nat.one_lt_two, rfl⟩

def direct : ForwardRun where
  __ := trustAll
  requestHeaders := arrayInit
  requestHeaders_wf := Arr.WF.of_used_zero rfl

/-- The second request passes the claim of the first. -/
theorem not_httpsBelongs_direct : letI : Malloc := zeroMalloc
    ¬ ∀ es st own, SocketState.run SockAddr.addr ⟨false, fun _ => fromProxy⟩ es = some st →
      SocketState.run SockAddr.addr ⟨false, fun _ => fromProxy⟩ (es.filter (·.request = 1)) =
        some own →
      httpsVars false st.isProxySsl = httpsVars false own.isProxySsl := by
  let _ : Malloc := zeroMalloc
  intro hall
  have hst : (SocketState.run SockAddr.addr ⟨false, fun _ => fromProxy⟩
      [.uriHandler 0 throughProxy, .uriHandler 1 direct]).map (·.isProxySsl) = some true := by
    decide +kernel
  have hown : (SocketState.run SockAddr.addr ⟨false, fun _ => fromProxy⟩
      [.uriHandler 1 direct]).map (·.isProxySsl) = some false := by
    decide +kernel
  obtain ⟨st, hrun, hssl⟩ := Option.map_eq_some_iff.mp hst
  obtain ⟨own, hrun', hssl'⟩ := Option.map_eq_some_iff.mp hown
  have hsame := hall _ st own hrun hrun'
  rw [hssl, hssl'] at hsame
  revert hsame
  decide

theorem httpsBelongs_iff_proxied : letI : Malloc := zeroMalloc
    ∃ st own, SocketState.run SockAddr.addr ⟨false, fun _ => fromProxy⟩
        [.uriHandler 1 direct, .uriHandler 0 throughProxy] = some st ∧
      SocketState.run SockAddr.addr ⟨false, fun _ => fromProxy⟩ [.uriHandler 0 throughProxy] =
        some own ∧
      httpsVars false st.isProxySsl = httpsVars false own.isProxySsl := by
  let _ : Malloc := zeroMalloc
  have hst : (SocketState.run SockAddr.addr ⟨false, fun _ => fromProxy⟩
      [.uriHandler 1 direct, .uriHandler 0 throughProxy]).isSome := by
    decide +kernel
  obtain ⟨st, hrun⟩ := Option.isSome_iff_exists.mp hst
  obtain ⟨own, hown, hiff⟩ := httpsBelongs_iff SockAddr.addr hrun false 0
  refine ⟨st, own, hrun, hown, hiff.mpr (Or.inr ?_)⟩
  decide +kernel

end Lighttpd
