import Lighttpd.ArrayElements
import Lighttpd.Caseless
import Lighttpd.ConfigfileGlue
import Lighttpd.Lib.Heap

/-!
# `mod_extforward.c`: the address of a proxy is replaced

The plugin puts the address from a header in the place of a trusted proxy's and keeps the old one in
a context, which `mod_extforward_restore` puts back at the end of the request. The handler may run
several times in a request. A run that patches a connection already patched drops the context with
the real address, so the address is restored exactly if no run does that (`addressRestored_iff`).

The buffers and contexts are in heaps, in which nothing can be freed twice. `inet_ntop` and
`getaddrinfo` are parameters; log messages are left out.
-/

namespace Lighttpd

open CLib

inductive AddressFamily where
  | unspec
  | inet
  | inet6
  | other
  deriving DecidableEq, Repr

/-- `sock_addr`; `rest` are the bytes that hold neither the family nor the address. -/
structure SockAddr where
  family : AddressFamily
  addr : Bytes
  rest : Bytes
  deriving DecidableEq, Repr

/-- `handler_ctx` -/
structure ForwardHandlerCtx where
  savedRemoteAddr : SockAddr
  savedRemoteAddrBuf : Nat
  deriving DecidableEq, Repr

/-- The fields of `connection` that the plugin writes. -/
structure ForwardedConnection where
  dstAddr : SockAddr
  dstAddrBuf : Nat
  pluginCtx : Option Nat
  buffers : Heap Buffer
  contexts : Heap ForwardHandlerCtx
  condCache : CondCache
  isProxySsl : Bool

/-- What one run of the handler finds: the settings patched in, the header fields, what the
uninitialized `sock` holds, and the answers of `getaddrinfo`. -/
structure ForwardRun where
  forwarder : Arr DataString
  headers : Arr DataString
  requestHeaders : Arr DataString
  forwarder_wf : forwarder.WF
  requestHeaders_wf : requestHeaders.WF
  sock : SockAddr
  getaddrinfo : Bytes → List (AddressFamily × Bytes)

def configCondCacheResetItem (s : CondCache) (item : CompKey) : CondCache :=
  { s with result := fun i => if s.compType i = item then .unset else s.result i }

/-! ## The address in the header -/

/-- The loop of `extract_forward_array`, with the string it is in. -/
def extractForward : Option Bytes → Bytes → List Bytes
  | none, [] => []
  | some str, [] => [str]
  | none, c :: cs =>
    if 48 ≤ c ∧ c ≤ 57 then extractForward (some [c]) cs else extractForward none cs
  | some str, c :: cs =>
    if ¬ (48 ≤ c ∧ c ≤ 57) ∧ c ≠ 46 ∧ c ≠ 58 then str :: extractForward none cs
    else extractForward (some (str ++ [c])) cs

def extractForwardArray (pbuffer : Buffer) : List Bytes :=
  if pbuffer.used > 0 then extractForward none pbuffer.str else []

section Handlers

variable [Malloc]

def firstHeader (headers : Arr DataString) : List Bytes → Option (Option DataString)
  | [] => some none
  | name :: names => do
    match ← arrayGetElement headers name with
    | some (_, ds) => some (some ds)
    | none => firstHeader headers names

def isProxyTrusted (r : ForwardRun) (ipstr : Bytes) : Option Bool := do
  match ← arrayGetElement r.forwarder (ascii "all") with
  | some (_, allds) => some (strcasecmpEq allds.value.str (ascii "trust"))
  | none =>
    let ds ← arrayGetElement r.forwarder ipstr
    some ds.isSome

/-- The loop of `last_not_in_array`, from the end on. -/
def lastNotIn (forwarder : Arr DataString) : List Bytes → Option (Option Bytes)
  | [] => some none
  | ip :: ips => do
    match ← arrayGetElement forwarder ip with
    | none => some (some ip)
    | some _ => lastNotIn forwarder ips

def lastNotInArray (a : List Bytes) (r : ForwardRun) : Option (Option Bytes) :=
  lastNotIn r.forwarder a.reverse

/-- The loop over the answers of `getaddrinfo`. -/
def resolve (sock : SockAddr) : List (AddressFamily × Bytes) → SockAddr
  | [] => sock
  | (family, addr) :: addrs =>
    if family = .inet ∨ family = .inet6 then { sock with family := family, addr := addr }
    else resolve { sock with family := family } addrs

def ForwardRun.resolved (r : ForwardRun) (ip : Bytes) : SockAddr :=
  resolve { r.sock with family := .unspec } (r.getaddrinfo ip)

/-! ## Handlers -/

variable (inetNtop : SockAddr → Bytes)

/-- `real_remote_addr`, if the handler gets that far. -/
def realRemoteAddr (r : ForwardRun) (con : ForwardedConnection) : Option (Option Bytes) := do
  let names :=
    if r.headers.used ≠ 0 then r.headers.elements.map (·.value.str)
    else [ascii "X-Forwarded-For", ascii "Forwarded-For"]
  match ← firstHeader r.requestHeaders names with
  | none => some none
  | some forwarded =>
    let trusted ← isProxyTrusted r (inetNtop con.dstAddr)
    if ¬ trusted then some none
    else lastNotInArray (extractForwardArray forwarded.value) r

def patchAddress (sock : SockAddr) (realRemoteAddr : Bytes) (con : ForwardedConnection) :
    Option ForwardedConnection := do
  let con ← match con.pluginCtx with
    | some hctx =>
      -- patching an already patched connection
      (con.contexts.release hctx).map fun contexts =>
        { con with contexts := contexts, pluginCtx := none }
    | none => some con
  let (hctx, contexts) := con.contexts.alloc ⟨con.dstAddr, con.dstAddrBuf⟩
  let (buf, buffers) := con.buffers.alloc (bufferCopyString bufferInit (some realRemoteAddr))
  some { con with
    pluginCtx := some hctx
    contexts := contexts
    dstAddr := sock
    dstAddrBuf := buf
    buffers := buffers
    condCache := configCondCacheResetItem con.condCache .httpRemoteIp }

def modExtforwardUriHandler (con : ForwardedConnection) (r : ForwardRun) :
    Option ForwardedConnection := do
  match ← realRemoteAddr inetNtop r con with
  | none => some con
  | some ip =>
    let forwardedProto ← arrayGetElement r.requestHeaders (ascii "X-Forwarded-Proto")
    let con := { con with
      isProxySsl := forwardedProto.any fun (_, ds) => ds.value.str == ascii "https" }
    let sock := r.resolved ip
    if sock.family ≠ .unspec then patchAddress sock ip con else some con

def modExtforwardRestore (con : ForwardedConnection) : Option ForwardedConnection :=
  match con.pluginCtx with
  | none => some con
  | some p => do
    let hctx ← con.contexts.get p
    let buffers ← con.buffers.release con.dstAddrBuf
    let contexts ← con.contexts.release p
    some { con with
      dstAddr := hctx.savedRemoteAddr
      dstAddrBuf := hctx.savedRemoteAddrBuf
      buffers := buffers
      contexts := contexts
      pluginCtx := none
      condCache := configCondCacheResetItem con.condCache .httpRemoteIp }

/-! ## The decision -/

theorem firstHeader_spec {headers : Arr DataString} (h : headers.WF) (names : List Bytes) :
    (firstHeader headers names).isSome := by
  induction names with
  | nil => rfl
  | cons name names ih =>
    obtain ⟨found, hfound, -⟩ := arrayGetElement_spec h name
    unfold firstHeader
    simp only [hfound, Option.bind_eq_bind, Option.bind_some]
    cases found with
    | none => exact ih
    | some ds => rfl

theorem isProxyTrusted_spec (r : ForwardRun) (ipstr : Bytes) : (isProxyTrusted r ipstr).isSome := by
  obtain ⟨all, hall, -⟩ := arrayGetElement_spec r.forwarder_wf (ascii "all")
  obtain ⟨ds, hds, -⟩ := arrayGetElement_spec r.forwarder_wf ipstr
  unfold isProxyTrusted
  simp only [hall, hds, Option.bind_eq_bind, Option.bind_some]
  cases all with
  | none => rfl
  | some ds => rfl

theorem lastNotIn_spec {forwarder : Arr DataString} (h : forwarder.WF) (ips : List Bytes) :
    (lastNotIn forwarder ips).isSome := by
  induction ips with
  | nil => rfl
  | cons ip ips ih =>
    obtain ⟨found, hfound, -⟩ := arrayGetElement_spec h ip
    unfold lastNotIn
    simp only [hfound, Option.bind_eq_bind, Option.bind_some]
    cases found with
    | none => rfl
    | some ds => exact ih

theorem realRemoteAddr_spec (r : ForwardRun) (con : ForwardedConnection) :
    (realRemoteAddr inetNtop r con).isSome := by
  unfold realRemoteAddr
  generalize hnames : (if r.headers.used ≠ 0 then r.headers.elements.map (·.value.str)
    else [ascii "X-Forwarded-For", ascii "Forwarded-For"]) = names
  obtain ⟨forwarded, hforwarded⟩ :=
    Option.isSome_iff_exists.mp (firstHeader_spec r.requestHeaders_wf names)
  obtain ⟨trusted, htrusted⟩ :=
    Option.isSome_iff_exists.mp (isProxyTrusted_spec r (inetNtop con.dstAddr))
  simp only [hforwarded, htrusted, Option.bind_eq_bind, Option.bind_some]
  cases forwarded with
  | none => rfl
  | some ds =>
    cases trusted with
    | false => rfl
    | true => exact lastNotIn_spec r.forwarder_wf _

/-- The run puts another address in the place of the connection's. -/
def Patches (r : ForwardRun) (con : ForwardedConnection) : Prop :=
  ∃ ip, realRemoteAddr inetNtop r con = some (some ip) ∧
    (r.resolved ip).family ≠ .unspec

/-- The address of the connection, and all that is allocated, are as before. -/
structure SameAddress (con con' : ForwardedConnection) : Prop where
  dstAddr : con'.dstAddr = con.dstAddr
  dstAddrBuf : con'.dstAddrBuf = con.dstAddrBuf
  pluginCtx : con'.pluginCtx = con.pluginCtx
  buffers : ∀ a, con'.buffers.get a = con.buffers.get a
  contexts : ∀ a, con'.contexts.get a = con.contexts.get a

theorem handler_cases (r : ForwardRun) (con : ForwardedConnection) :
    (¬ Patches inetNtop r con ∧ ∃ con', modExtforwardUriHandler inetNtop con r = some con' ∧
      SameAddress con con') ∨
    (Patches inetNtop r con ∧ ∃ sock ip ssl, modExtforwardUriHandler inetNtop con r =
      patchAddress sock ip { con with isProxySsl := ssl }) := by
  obtain ⟨real, hreal⟩ := Option.isSome_iff_exists.mp (realRemoteAddr_spec inetNtop r con)
  obtain ⟨proto, hproto, -⟩ :=
    arrayGetElement_spec r.requestHeaders_wf (ascii "X-Forwarded-Proto")
  unfold modExtforwardUriHandler Patches
  simp only [hreal, hproto, Option.bind_eq_bind, Option.bind_some]
  cases real with
  | none =>
    refine Or.inl ⟨?_, con, rfl, ⟨rfl, rfl, rfl, fun _ => rfl, fun _ => rfl⟩⟩
    rintro ⟨ip, hip, -⟩
    cases hip
  | some ip =>
    by_cases hfamily : (r.resolved ip).family ≠ .unspec
    · refine Or.inr ⟨⟨ip, rfl, hfamily⟩, r.resolved ip, ip,
        proto.any fun (_, ds) => ds.value.str == ascii "https", ?_⟩
      simp only [if_pos hfamily]
    · refine Or.inl ⟨?_, { con with
        isProxySsl := proto.any fun (_, ds) => ds.value.str == ascii "https" }, ?_,
        ⟨rfl, rfl, rfl, fun _ => rfl, fun _ => rfl⟩⟩
      · rintro ⟨ip', hip, hne⟩
        obtain rfl := Option.some.inj (Option.some.inj hip)
        exact hfamily hne
      · simp only [if_neg hfamily]

/-! ## Runs -/

/-- Between two requests nothing is saved, and the buffer of the address is there. -/
structure ForwardedConnection.Unpatched (con : ForwardedConnection) : Prop where
  pluginCtx : con.pluginCtx = none
  dstAddrBuf : (con.buffers.get con.dstAddrBuf).isSome

/-- What `con` has become since `con₀`: the address is in the context, and the one buffer and the one
context that are new are in use. -/
structure PatchedOnce (con₀ con : ForwardedConnection) : Prop where
  new : con₀.buffers.get con.dstAddrBuf = none
  buf : (con.buffers.get con.dstAddrBuf).isSome
  buffers : ∀ a ≠ con.dstAddrBuf, con.buffers.get a = con₀.buffers.get a
  ctx : ∃ p, con.pluginCtx = some p ∧ con₀.contexts.get p = none ∧
    con.contexts.get p = some ⟨con₀.dstAddr, con₀.dstAddrBuf⟩ ∧
    ∀ a ≠ p, con.contexts.get a = con₀.contexts.get a

/-- The address is lost: the context holds a buffer that was made later. -/
structure AddressLost (con₀ con : ForwardedConnection) : Prop where
  buf : (con.buffers.get con.dstAddrBuf).isSome
  ne : con.dstAddrBuf ≠ con₀.dstAddrBuf
  old : (con.buffers.get con₀.dstAddrBuf).isSome
  ctx : ∃ p hctx, con.pluginCtx = some p ∧ con.contexts.get p = some hctx ∧
    hctx.savedRemoteAddrBuf ≠ con₀.dstAddrBuf

variable {con₀ con con' : ForwardedConnection}

theorem patchAddress_first (h : con₀.Unpatched) (hsame : SameAddress con₀ con) (sock : SockAddr)
    (ip : Bytes) : ∃ con', patchAddress sock ip con = some con' ∧ PatchedOnce con₀ con' := by
  unfold patchAddress
  simp only [hsame.pluginCtx, h.pluginCtx, Option.bind_eq_bind, Option.bind_some]
  refine ⟨_, rfl, ⟨?_, ?_, ?_, con.contexts.length, rfl, ?_, ?_, ?_⟩⟩
  · exact (hsame.buffers _).symm.trans (Heap.get_length _)
  · rw [Heap.get_alloc_self]
    rfl
  · intro a ha
    exact (Heap.get_alloc_ne ha _).trans (hsame.buffers a)
  · exact (hsame.contexts _).symm.trans (Heap.get_length _)
  · rw [← hsame.dstAddr, ← hsame.dstAddrBuf]
    exact Heap.get_alloc_self _
  · intro a ha
    exact (Heap.get_alloc_ne ha _).trans (hsame.contexts a)

theorem patchAddress_again {p : Nat} (hctx : con.pluginCtx = some p)
    (hp : (con.contexts.get p).isSome) (hold : (con.buffers.get con₀.dstAddrBuf).isSome)
    (hne : con.dstAddrBuf ≠ con₀.dstAddrBuf) (sock : SockAddr) (ip : Bytes) :
    ∃ con', patchAddress sock ip con = some con' ∧ AddressLost con₀ con' := by
  obtain ⟨hctx', hget⟩ := Option.isSome_iff_exists.mp hp
  obtain ⟨b, hb⟩ := Option.isSome_iff_exists.mp hold
  unfold patchAddress
  simp only [hctx, Heap.release_of_get hget, Option.map_some, Option.bind_eq_bind,
    Option.bind_some]
  refine ⟨_, rfl, ⟨?_, ?_, ?_, _, ⟨con.dstAddr, con.dstAddrBuf⟩, rfl, ?_, hne⟩⟩
  · rw [Heap.get_alloc_self]
    rfl
  · exact Nat.ne_of_gt (Heap.lt_of_get hb)
  · rw [Heap.get_alloc_of_get hb]
    rfl
  · exact Heap.get_alloc_self _

omit [Malloc] in
theorem SameAddress.patchedOnce (h : SameAddress con con') (hcon : PatchedOnce con₀ con) :
    PatchedOnce con₀ con' := by
  obtain ⟨p, hctx, hnew, hget, hrest⟩ := hcon.ctx
  refine ⟨?_, ?_, ?_, p, h.pluginCtx.trans hctx, hnew, (h.contexts p).trans hget, ?_⟩
  · rw [h.dstAddrBuf]
    exact hcon.new
  · rw [h.dstAddrBuf, h.buffers]
    exact hcon.buf
  · intro a ha
    rw [h.dstAddrBuf] at ha
    exact (h.buffers a).trans (hcon.buffers a ha)
  · intro a ha
    exact (h.contexts a).trans (hrest a ha)

omit [Malloc] in
theorem PatchedOnce.ne (h : PatchedOnce con₀ con) (hold : con₀.Unpatched) :
    con.dstAddrBuf ≠ con₀.dstAddrBuf := by
  intro heq
  have hgone := h.new
  have hthere := hold.dstAddrBuf
  rw [heq] at hgone
  rw [hgone] at hthere
  cases hthere

omit [Malloc] in
theorem SameAddress.lost (h : SameAddress con con') (hcon : AddressLost con₀ con) : AddressLost con₀ con' := by
  obtain ⟨p, hctx, hp, hget, hne⟩ := hcon.ctx
  refine ⟨?_, ?_, ?_, p, hctx, h.pluginCtx.trans hp, (h.contexts p).trans hget, hne⟩
  · rw [h.dstAddrBuf, h.buffers]
    exact hcon.buf
  · rw [h.dstAddrBuf]
    exact hcon.ne
  · rw [h.buffers]
    exact hcon.old

/-- No run of a request patches a connection that is patched already. -/
def NoSecondPatch : ForwardedConnection → List ForwardRun → Prop
  | _, [] => True
  | con, r :: rs => (Patches inetNtop r con → con.pluginCtx = none) ∧
      ∀ con', modExtforwardUriHandler inetNtop con r = some con' → NoSecondPatch con' rs

theorem noSecondPatch_cons {r : ForwardRun} {rs : List ForwardRun}
    (hrun : modExtforwardUriHandler inetNtop con r = some con')
    (hr : Patches inetNtop r con → con.pluginCtx = none) :
    NoSecondPatch inetNtop con (r :: rs) ↔ NoSecondPatch inetNtop con' rs := by
  constructor
  · intro hall
    exact hall.2 con' hrun
  · intro hall
    refine ⟨hr, fun con₂ hcon₂ => ?_⟩
    rw [hrun] at hcon₂
    obtain rfl := Option.some.inj hcon₂
    exact hall

theorem addressLost_run (runs : List ForwardRun) (h : AddressLost con₀ con) :
    ∃ con', runs.foldlM (modExtforwardUriHandler inetNtop) con = some con' ∧ AddressLost con₀ con' := by
  induction runs generalizing con with
  | nil => exact ⟨con, rfl, h⟩
  | cons r rs ih =>
    obtain ⟨con₁, hrun, hlost₁⟩ : ∃ con₁, modExtforwardUriHandler inetNtop con r = some con₁ ∧
        AddressLost con₀ con₁ := by
      rcases handler_cases inetNtop r con with ⟨-, con₁, hrun, hsame⟩ | ⟨-, sock, ip, ssl, hrun⟩
      · exact ⟨con₁, hrun, hsame.lost h⟩
      · obtain ⟨p, hctx, hp, hget, -⟩ := h.ctx
        rw [hrun]
        apply patchAddress_again
        · exact hp
        · exact Option.isSome_of_eq_some hget
        · exact h.old
        · exact h.ne
    obtain ⟨con', hrest, hlost⟩ := ih hlost₁
    refine ⟨con', ?_, hlost⟩
    rw [List.foldlM_cons, hrun]
    exact hrest

theorem patchedOnce_run (runs : List ForwardRun) (hold : con₀.Unpatched)
    (h : PatchedOnce con₀ con) :
    ∃ con', runs.foldlM (modExtforwardUriHandler inetNtop) con = some con' ∧
      (NoSecondPatch inetNtop con runs ∧ PatchedOnce con₀ con' ∨
        ¬ NoSecondPatch inetNtop con runs ∧ AddressLost con₀ con') := by
  induction runs generalizing con with
  | nil => exact ⟨con, rfl, Or.inl ⟨trivial, h⟩⟩
  | cons r rs ih =>
    rcases handler_cases inetNtop r con with ⟨hno, con₁, hrun, hsame⟩ | ⟨hyes, sock, ip, ssl, hrun⟩
    · obtain ⟨con', hrest, hcases⟩ := ih (hsame.patchedOnce h)
      refine ⟨con', ?_, ?_⟩
      · rw [List.foldlM_cons, hrun]
        exact hrest
      · rw [noSecondPatch_cons inetNtop hrun (fun hyes => absurd hyes hno)]
        exact hcases
    · obtain ⟨p, hctx, -, hget, -⟩ := h.ctx
      have hne := h.ne hold
      obtain ⟨con₁, hpatch, hlost₁⟩ : ∃ con₁,
          patchAddress sock ip { con with isProxySsl := ssl } = some con₁ ∧ AddressLost con₀ con₁ := by
        apply patchAddress_again
        · exact hctx
        · exact Option.isSome_of_eq_some hget
        · show (con.buffers.get con₀.dstAddrBuf).isSome
          rw [h.buffers _ (Ne.symm hne)]
          exact hold.dstAddrBuf
        · exact hne
      obtain ⟨con', hrest, hlost⟩ := addressLost_run inetNtop rs hlost₁
      refine ⟨con', ?_, Or.inr ⟨?_, hlost⟩⟩
      · rw [List.foldlM_cons, hrun, hpatch]
        exact hrest
      · intro hall
        have hnone := hall.1 hyes
        rw [hctx] at hnone
        cases hnone

theorem unpatched_run (runs : List ForwardRun) (hold : con₀.Unpatched)
    (h : SameAddress con₀ con) :
    ∃ con', runs.foldlM (modExtforwardUriHandler inetNtop) con = some con' ∧
      (NoSecondPatch inetNtop con runs ∧ (SameAddress con₀ con' ∨ PatchedOnce con₀ con') ∨
        ¬ NoSecondPatch inetNtop con runs ∧ AddressLost con₀ con') := by
  induction runs generalizing con with
  | nil => exact ⟨con, rfl, Or.inl ⟨trivial, Or.inl h⟩⟩
  | cons r rs ih =>
    have hctx : con.pluginCtx = none := h.pluginCtx.trans hold.pluginCtx
    rcases handler_cases inetNtop r con with ⟨-, con₁, hrun, hsame⟩ | ⟨-, sock, ip, ssl, hrun⟩
    · have hsame₁ : SameAddress con₀ con₁ :=
        ⟨hsame.dstAddr.trans h.dstAddr, hsame.dstAddrBuf.trans h.dstAddrBuf,
          hsame.pluginCtx.trans h.pluginCtx, fun a => (hsame.buffers a).trans (h.buffers a),
          fun a => (hsame.contexts a).trans (h.contexts a)⟩
      obtain ⟨con', hrest, hcases⟩ := ih hsame₁
      refine ⟨con', ?_, ?_⟩
      · rw [List.foldlM_cons, hrun]
        exact hrest
      · rw [noSecondPatch_cons inetNtop hrun (fun _ => hctx)]
        exact hcases
    · have hsame₁ : SameAddress con₀ { con with isProxySsl := ssl } :=
        ⟨h.dstAddr, h.dstAddrBuf, h.pluginCtx, h.buffers, h.contexts⟩
      obtain ⟨con₁, hpatch, hpatched⟩ := patchAddress_first hold hsame₁ sock ip
      rw [hpatch] at hrun
      obtain ⟨con', hrest, hcases⟩ := patchedOnce_run inetNtop rs hold hpatched
      refine ⟨con', ?_, ?_⟩
      · rw [List.foldlM_cons, hrun]
        exact hrest
      · rw [noSecondPatch_cons inetNtop hrun (fun _ => hctx)]
        exact hcases.imp_left fun hfine => ⟨hfine.1, Or.inr hfine.2⟩

omit [Malloc] in
theorem restore_patchedOnce (hold : con₀.Unpatched) (h : PatchedOnce con₀ con) :
    ∃ con', modExtforwardRestore con = some con' ∧ SameAddress con₀ con' := by
  obtain ⟨p, hctx, hnew, hget, hrest⟩ := h.ctx
  obtain ⟨b, hb⟩ := Option.isSome_iff_exists.mp h.buf
  unfold modExtforwardRestore
  simp only [hctx, hget, Heap.release_of_get hb, Heap.release_of_get hget, Option.bind_eq_bind,
    Option.bind_some]
  refine ⟨_, rfl, ⟨rfl, rfl, hold.pluginCtx.symm, fun a => ?_, fun a => ?_⟩⟩
  · by_cases ha : a = con.dstAddrBuf
    · rw [ha, h.new]
      exact Heap.get_free_self
    · exact (Heap.get_free_ne ha).trans (h.buffers a ha)
  · by_cases ha : a = p
    · rw [ha, hnew]
      exact Heap.get_free_self
    · exact (Heap.get_free_ne ha).trans (hrest a ha)

omit [Malloc] in
theorem restore_lost (h : AddressLost con₀ con) :
    ∃ con', modExtforwardRestore con = some con' ∧ con'.dstAddrBuf ≠ con₀.dstAddrBuf := by
  obtain ⟨p, hctx, hp, hget, hne⟩ := h.ctx
  obtain ⟨b, hb⟩ := Option.isSome_iff_exists.mp h.buf
  unfold modExtforwardRestore
  simp only [hp, hget, Heap.release_of_get hb, Heap.release_of_get hget, Option.bind_eq_bind,
    Option.bind_some]
  exact ⟨_, rfl, hne⟩

/-- **The address is restored**, and what was made for the request is freed, exactly if no run
patches a connection that is patched already. -/
theorem addressRestored_iff (h : con.Unpatched) (runs : List ForwardRun) :
    ∃ con₁ con₂, runs.foldlM (modExtforwardUriHandler inetNtop) con = some con₁ ∧
      modExtforwardRestore con₁ = some con₂ ∧
      (SameAddress con con₂ ↔ NoSecondPatch inetNtop con runs) := by
  have hself : SameAddress con con := ⟨rfl, rfl, rfl, fun _ => rfl, fun _ => rfl⟩
  obtain ⟨con₁, hrun, ⟨hno, hsame | honce⟩ | ⟨hyes, hlost⟩⟩ := unpatched_run inetNtop runs h hself
  · refine ⟨con₁, con₁, hrun, ?_, fun _ => hno, fun _ => hsame⟩
    rw [modExtforwardRestore, hsame.pluginCtx, h.pluginCtx]
  · obtain ⟨con₂, hrestore, hsame⟩ := restore_patchedOnce h honce
    exact ⟨con₁, con₂, hrun, hrestore, fun _ => hno, fun _ => hsame⟩
  · obtain ⟨con₂, hrestore, hne⟩ := restore_lost hlost
    exact ⟨con₁, con₂, hrun, hrestore, fun hsame => absurd hsame.dstAddrBuf hne,
      fun hno => absurd hno hyes⟩

end Handlers

theorem oneString_wf (key value : Bytes) : (oneString key value).WF where
  used_le := Nat.le_refl 1
  live i hi := by
    obtain rfl : i = 0 := Nat.lt_one_iff.mp hi
    exact ⟨_, rfl⟩
  index pos hpos := by
    obtain rfl : pos = 0 := Nat.lt_one_iff.mp hpos
    exact ⟨0, Nat.one_pos, rfl⟩

/-- All proxies are trusted, and the header names another address. -/
def trustAll : ForwardRun where
  forwarder := oneString (ascii "all") (ascii "trust")
  headers := arrayInit
  requestHeaders := oneString (ascii "X-Forwarded-For") (ascii "1.2.3.4")
  forwarder_wf := oneString_wf _ _
  requestHeaders_wf := oneString_wf _ _
  sock := ⟨.unspec, [], []⟩
  getaddrinfo ip := [(.inet, ip)]

def fromProxy : ForwardedConnection where
  dstAddr := ⟨.inet, ascii "10.0.0.232", []⟩
  dstAddrBuf := 0
  pluginCtx := none
  buffers := [some ⟨ascii "10.0.0.232" ++ [0], 11, 1⟩]
  contexts := []
  condCache := ⟨fun _ => .unset, fun _ => .unset, fun _ => false⟩
  isProxySsl := false

/-- The handler runs again, as it does when the URL was rewritten. -/
theorem not_addressRestored_twice : letI : Malloc := zeroMalloc
    ¬ ∃ con₁ con₂, [trustAll, trustAll].foldlM (modExtforwardUriHandler SockAddr.addr) fromProxy =
      some con₁ ∧ modExtforwardRestore con₁ = some con₂ ∧ SameAddress fromProxy con₂ := by
  let _ : Malloc := zeroMalloc
  rintro ⟨con₁, con₂, hrun, hrestore, hsame⟩
  have haddr : (([trustAll, trustAll].foldlM (modExtforwardUriHandler SockAddr.addr)
      fromProxy).bind modExtforwardRestore).map (·.dstAddr) = some ⟨.inet, ascii "1.2.3.4", []⟩ := by
    decide +kernel
  rw [hrun, Option.bind_some, hrestore, Option.map_some, hsame.dstAddr] at haddr
  revert haddr
  decide +kernel

theorem addressRestored_iff_once : letI : Malloc := zeroMalloc
    ∃ con₁ con₂, [trustAll].foldlM (modExtforwardUriHandler SockAddr.addr) fromProxy = some con₁ ∧
      con₁.dstAddr.addr = ascii "1.2.3.4" ∧ modExtforwardRestore con₁ = some con₂ ∧
      SameAddress fromProxy con₂ := by
  let _ : Malloc := zeroMalloc
  have hstart : fromProxy.Unpatched := ⟨rfl, rfl⟩
  obtain ⟨con₁, con₂, hrun, hrestore, hiff⟩ :=
    addressRestored_iff SockAddr.addr hstart [trustAll]
  have haddr : ([trustAll].foldlM (modExtforwardUriHandler SockAddr.addr) fromProxy).map
      (·.dstAddr.addr) = some (ascii "1.2.3.4") := by
    decide +kernel
  rw [hrun] at haddr
  exact ⟨con₁, con₂, hrun, Option.some.inj haddr, hrestore,
    hiff.mpr ⟨fun _ => rfl, fun _ _ => trivial⟩⟩

end Lighttpd
