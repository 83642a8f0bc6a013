import Lighttpd.Buffer
import Lighttpd.Lib.Machine

/-!
# `mod_simple_vhost.c`: the docroot cache

The plugin pastes the document root of a host together and remembers the last one that is a
directory. The cache belongs to the block that `simple-vhost.server-root` was taken from and is
looked up by the host, but `simple-vhost.document-root`, or the connection's document root if there
is no server-root, may come from elsewhere. The cache cannot be seen as long as a request finds only
what a request with the same settings has left (`docrootTransparent`).

Whether a path is a directory does not change (`isDir`). Which blocks match is a parameter of each
request; `simple-vhost.debug` is left out.
-/

namespace Lighttpd

open CLib

/-! ## Settings -/

/-- The settings of `plugin_config`. -/
structure VhostSettings where
  serverRoot : Buffer
  defaultHost : Buffer
  documentRoot : Buffer
  deriving DecidableEq, Repr

inductive VhostKey where
  | serverRoot
  | defaultHost
  | documentRoot
  deriving DecidableEq, Repr

structure VhostBlock extends VhostSettings where
  keys : List VhostKey
  deriving DecidableEq, Repr

/-- The global context and the conditional blocks, which are numbered from 1 on. -/
structure VhostConfig where
  global : VhostSettings
  blocks : List VhostBlock
  deriving DecidableEq, Repr

/-- `docroot_cache_key`, `docroot_cache_value` and `docroot_cache_servername` -/
structure DocrootCache where
  key : Buffer
  value : Buffer
  servername : Buffer
  deriving DecidableEq, Repr

/-- `p->conf`, with the number of the block its cache belongs to. -/
structure VhostConf extends VhostSettings where
  cache : Nat
  deriving DecidableEq, Repr

/-- `PATCH` -/
def patchKey (s : VhostBlock) (i : Nat) (conf : VhostConf) : VhostKey → VhostConf
  | .serverRoot => { conf with serverRoot := s.serverRoot, cache := i }
  | .defaultHost => { conf with defaultHost := s.defaultHost }
  | .documentRoot => { conf with documentRoot := s.documentRoot }

def modSimpleVhostPatchConnection (config : VhostConfig) (matched : Nat → Bool) : VhostConf :=
  (config.blocks.zipIdx 1).foldl
    (fun conf (s, i) => if matched i then s.keys.foldl (patchKey s i) conf else conf)
    { config.global with cache := 0 }

def VhostConfig.serverRoot (config : VhostConfig) : Nat → Buffer
  | 0 => config.global.serverRoot
  | i + 1 => (config.blocks[i]?.elim config.global.serverRoot (·.serverRoot))

theorem patchKeys_serverRoot (config : VhostConfig) {s : VhostBlock} {i : Nat}
    (hblock : config.serverRoot i = s.serverRoot) (keys : List VhostKey) {conf : VhostConf}
    (hconf : conf.serverRoot = config.serverRoot conf.cache) :
    (keys.foldl (patchKey s i) conf).serverRoot =
      config.serverRoot (keys.foldl (patchKey s i) conf).cache := by
  induction keys generalizing conf with
  | nil => exact hconf
  | cons key keys ih =>
    apply ih
    cases key with
    | serverRoot => exact hblock.symm
    | defaultHost => exact hconf
    | documentRoot => exact hconf

theorem patch_serverRoot (config : VhostConfig) (matched : Nat → Bool) :
    (modSimpleVhostPatchConnection config matched).serverRoot =
      config.serverRoot (modSimpleVhostPatchConnection config matched).cache := by
  have hblocks : ∀ x ∈ config.blocks.zipIdx 1, config.serverRoot x.2 = x.1.serverRoot := by
    rintro ⟨s, i⟩ hx
    obtain ⟨hle, hget⟩ := List.mk_mem_zipIdx_iff_le_and_getElem?_sub.mp hx
    obtain ⟨k, rfl⟩ : ∃ k, i = k + 1 := ⟨i - 1, by omega⟩
    rw [Nat.add_sub_cancel] at hget
    simp only [VhostConfig.serverRoot, hget, Option.elim_some]
  have hfold : ∀ (blocks : List (VhostBlock × Nat)) (conf : VhostConf),
      (∀ x ∈ blocks, config.serverRoot x.2 = x.1.serverRoot) →
      conf.serverRoot = config.serverRoot conf.cache →
      let conf' := blocks.foldl
        (fun conf (s, i) => if matched i then s.keys.foldl (patchKey s i) conf else conf) conf
      conf'.serverRoot = config.serverRoot conf'.cache := by
    intro blocks
    induction blocks with
    | nil => exact fun conf _ hconf => hconf
    | cons block blocks ih =>
      intro conf hblocks hconf
      apply ih _ fun x hx => hblocks x (List.mem_cons_of_mem _ hx)
      by_cases hmatched : matched block.2
      · simp only [hmatched, if_true]
        exact patchKeys_serverRoot config (hblocks block List.mem_cons_self) _ hconf
      · simp only [hmatched]
        exact hconf
  exact hfold _ _ hblocks rfl

/-! ## Requests -/

/-- What the plugin reads of a connection, and the fields it may set, before that. -/
structure VhostRequest where
  matched : Nat → Bool
  authority : Buffer
  documentRoot : Buffer
  docRoot : Buffer
  serverName : Buffer

/-- `con->physical.doc_root` and `con->server_name` -/
structure VhostAnswer where
  docRoot : Buffer
  serverName : Buffer
  deriving DecidableEq, Repr

/-- The caches of all blocks and `p->doc_root`. -/
structure VhostState where
  caches : Nat → DocrootCache
  docRoot : Buffer

section Docroot

variable [Malloc] (isDir : Bytes → Bool)

def VhostState.init : VhostState := ⟨fun _ => ⟨bufferInit, bufferInit, bufferInit⟩, bufferInit⟩

def appendHost (out host : Buffer) : Buffer :=
  if 58 ∈ host.str then bufferAppendStringLen out (some (host.str.takeWhile (· ≠ 58)))
  else bufferAppendStringBuffer out host

def buildDocRoot (conf : VhostConf) (documentRoot out host : Buffer) : Int × Buffer :=
  let out := bufferPrepareCopy out 128
  let out :=
    if conf.serverRoot.used ≠ 0 then
      let out := bufferCopyStringBuffer out conf.serverRoot
      let out := if host.used ≠ 0 then appendHost (bufferAppendSlash out) host else out
      let out := bufferAppendSlash out
      if conf.documentRoot.used > 2 ∧ conf.documentRoot.ptr[0]? = some 47 then
        bufferAppendStringLen out
          (some ((conf.documentRoot.ptr.drop 1).take (conf.documentRoot.used - 2)))
      else bufferAppendSlash (bufferAppendStringBuffer out conf.documentRoot)
    else bufferAppendSlash (bufferCopyStringBuffer out documentRoot)
  (if isDir out.str then 0 else -1, out)

def cacheHit (cache : DocrootCache) (authority : Buffer) : Prop :=
  cache.key.used ≠ 0 ∧ authority.used ≠ 0 ∧ bufferIsEqual cache.key authority

instance (cache : DocrootCache) (authority : Buffer) : Decidable (cacheHit cache authority) :=
  inferInstanceAs (Decidable (_ ∧ _ ∧ _))

def modSimpleVhostDocroot (config : VhostConfig) (s : VhostState) (r : VhostRequest) :
    VhostAnswer × VhostState :=
  let conf := modSimpleVhostPatchConnection config r.matched
  let cache := s.caches conf.cache
  if cacheHit cache r.authority then
    (⟨bufferCopyStringBuffer r.docRoot cache.value,
      bufferCopyStringBuffer r.serverName cache.servername⟩, s)
  else
    let (ret, docRoot) :=
      if r.authority.used = 0 then (-1, s.docRoot)
      else buildDocRoot isDir conf r.documentRoot s.docRoot r.authority
    if ret ≠ 0 then
      let (ret, docRoot) := buildDocRoot isDir conf r.documentRoot docRoot conf.defaultHost
      if ret ≠ 0 then (⟨r.docRoot, r.serverName⟩, { s with docRoot := docRoot })
      else
        -- the default host is not cached
        (⟨bufferCopyStringBuffer r.docRoot docRoot,
          bufferCopyStringBuffer r.serverName conf.defaultHost⟩, { s with docRoot := docRoot })
    else
      let serverName := bufferCopyStringBuffer r.serverName r.authority
      let cache : DocrootCache :=
        { key := bufferCopyStringBuffer cache.key r.authority
          value := bufferCopyStringBuffer cache.value docRoot
          servername := bufferCopyStringBuffer cache.servername serverName }
      (⟨bufferCopyStringBuffer r.docRoot docRoot, serverName⟩,
        { caches := fun i => if i = conf.cache then cache else s.caches i, docRoot := docRoot })

/-! ## A document root does not depend on the buffer it is built in -/

def SameText (b b' : Buffer) : Prop := ∃ t, b.Text t ∧ b'.Text t

omit [Malloc] in
theorem SameText.view_eq {b b' : Buffer} (h : SameText b b') : b.view = b'.view := by
  obtain ⟨t, ht, ht'⟩ := h
  rw [ht.view, ht'.view]

theorem SameText.slash {b b' : Buffer} (h : SameText b b') :
    SameText (bufferAppendSlash b) (bufferAppendSlash b') := by
  obtain ⟨t, ht, ht'⟩ := h
  exact ⟨withSlash t, text_bufferAppendSlash ht, text_bufferAppendSlash ht'⟩

theorem SameText.appendLen {b b' : Buffer} (h : SameText b b') (s : Bytes) :
    SameText (bufferAppendStringLen b (some s)) (bufferAppendStringLen b' (some s)) := by
  obtain ⟨t, ht, ht'⟩ := h
  exact ⟨t ++ s, text_bufferAppendStringLen ht s, text_bufferAppendStringLen ht' s⟩

theorem SameText.appendBuffer {b b' : Buffer} (h : SameText b b') {src src' : Buffer}
    (hsrc : src.view = src'.view) :
    SameText (bufferAppendStringBuffer b src) (bufferAppendStringBuffer b' src') := by
  obtain ⟨t, ht, ht'⟩ := h
  refine ⟨_, text_bufferAppendStringBuffer_take ht src, ?_⟩
  rw [take_of_view hsrc]
  exact text_bufferAppendStringBuffer_take ht' src'

theorem sameText_copy {src : Buffer} (hsrc : src.used ≠ 0) (b b' : Buffer) :
    SameText (bufferCopyStringBuffer b src) (bufferCopyStringBuffer b' src) := by
  refine ⟨src.ptr.take (src.used - 1), ?_, ?_⟩
  · rw [bufferCopyStringBuffer, if_neg hsrc]
    exact text_bufferCopyStringLen _ _
  · rw [bufferCopyStringBuffer, if_neg hsrc]
    exact text_bufferCopyStringLen _ _

theorem SameText.appendHost {b b' : Buffer} (h : SameText b b') {host host' : Buffer}
    (hhost : host.view = host'.view) : SameText (appendHost b host) (appendHost b' host') := by
  have hstr : host.str = host'.str := congrArg (·.2.2) hhost
  unfold Lighttpd.appendHost
  rw [hstr]
  by_cases hport : 58 ∈ host'.str
  · rw [if_pos hport, if_pos hport]
    exact h.appendLen _
  · rw [if_neg hport, if_neg hport]
    exact h.appendBuffer hhost

theorem SameText.appendDocumentRoot {b b' : Buffer} (h : SameText b b') {d d' : Buffer}
    (hd : d.view = d'.view) :
    SameText
      (if d.used > 2 ∧ d.ptr[0]? = some 47 then
        bufferAppendStringLen b (some ((d.ptr.drop 1).take (d.used - 2)))
      else bufferAppendSlash (bufferAppendStringBuffer b d))
      (if d'.used > 2 ∧ d'.ptr[0]? = some 47 then
        bufferAppendStringLen b' (some ((d'.ptr.drop 1).take (d'.used - 2)))
      else bufferAppendSlash (bufferAppendStringBuffer b' d')) := by
  have hused : d.used = d'.used := congrArg Prod.fst hd
  have hfirst : ∀ c : Buffer, c.used > 2 → c.ptr[0]? = (c.ptr.take (c.used - 1))[0]? := by
    intro c hc
    rw [List.getElem?_take_of_lt (by omega)]
  have hrest : ∀ c : Buffer, (c.ptr.drop 1).take (c.used - 2) = (c.ptr.take (c.used - 1)).drop 1 := by
    intro c
    rw [List.drop_take]
    rfl
  have hcond : (d.used > 2 ∧ d.ptr[0]? = some 47) ↔ d'.used > 2 ∧ d'.ptr[0]? = some 47 := by
    rw [← hused]
    apply and_congr_right
    intro hlong
    rw [hfirst d hlong, take_of_view hd, ← hfirst d' (hused ▸ hlong)]
  by_cases hslash : d.used > 2 ∧ d.ptr[0]? = some 47
  · rw [if_pos hslash, if_pos (hcond.mp hslash), hrest, hrest, take_of_view hd]
    exact h.appendLen _
  · rw [if_neg hslash, if_neg (mt hcond.mpr hslash)]
    exact (h.appendBuffer hd).slash

/-- The settings that `build_doc_root` uses are the same. -/
structure SameRoot (conf conf' : VhostConf) (conRoot conRoot' : Buffer) : Prop where
  serverRoot : conf.serverRoot = conf'.serverRoot
  documentRoot : conf.serverRoot.used ≠ 0 → conf.documentRoot.view = conf'.documentRoot.view
  conRoot : conf.serverRoot.used = 0 → conRoot.view = conRoot'.view

theorem buildDocRoot_congr {conf conf' : VhostConf} {conRoot conRoot' : Buffer}
    (h : SameRoot conf conf' conRoot conRoot') {host host' : Buffer}
    (hhost : host.view = host'.view) (out out' : Buffer) :
    (buildDocRoot isDir conf conRoot out host).1 =
        (buildDocRoot isDir conf' conRoot' out' host').1 ∧
      (buildDocRoot isDir conf conRoot out host).2.view =
        (buildDocRoot isDir conf' conRoot' out' host').2.view := by
  have hview : (buildDocRoot isDir conf conRoot out host).2.view =
      (buildDocRoot isDir conf' conRoot' out' host').2.view := by
    unfold buildDocRoot
    rw [← h.serverRoot]
    by_cases hroot : conf.serverRoot.used ≠ 0
    · simp only [if_pos hroot]
      have hused : host.used = host'.used := congrArg Prod.fst hhost
      have hcopy := sameText_copy hroot (bufferPrepareCopy out 128) (bufferPrepareCopy out' 128)
      refine (SameText.appendDocumentRoot (SameText.slash ?_) (h.documentRoot hroot)).view_eq
      rw [← hused]
      by_cases hempty : host.used ≠ 0
      · rw [if_pos hempty, if_pos hempty]
        exact hcopy.slash.appendHost hhost
      · rw [if_neg hempty, if_neg hempty]
        exact hcopy
    · simp only [if_neg hroot]
      have hcon := h.conRoot (not_not.mp hroot)
      have hused : conRoot.used = conRoot'.used := congrArg Prod.fst hcon
      by_cases hempty : conRoot.used = 0
      · have hreset : ∀ b : Buffer, bufferAppendSlash (bufferReset b) = bufferReset b := by
          intro b
          rw [bufferAppendSlash, if_neg]
          rw [bufferReset_used]
          omega
        simp only [bufferCopyStringBuffer, if_pos hempty, if_pos (hused ▸ hempty), hreset,
          bufferReset_view]
      · apply SameText.view_eq
        apply SameText.slash
        refine ⟨conRoot.ptr.take (conRoot.used - 1), ?_, ?_⟩
        · rw [bufferCopyStringBuffer, if_neg hempty]
          exact text_bufferCopyStringLen _ _
        · rw [bufferCopyStringBuffer, if_neg (hused ▸ hempty), take_of_view hcon]
          exact text_bufferCopyStringLen _ _
  refine ⟨?_, hview⟩
  have hstr : (buildDocRoot isDir conf conRoot out host).2.str =
    (buildDocRoot isDir conf' conRoot' out' host').2.str := congrArg (·.2.2) hview
  exact congrArg (fun path => if isDir path then (0 : Int) else -1) hstr

/-! ## Runs -/

def VhostAnswer.view (a : VhostAnswer) : (Nat × Bytes × Bytes) × Nat × Bytes × Bytes :=
  (a.docRoot.view, a.serverName.view)

variable (config : VhostConfig)

def Fills (s : VhostState) (r : VhostRequest) : Prop :=
  let conf := modSimpleVhostPatchConnection config r.matched
  ¬ cacheHit (s.caches conf.cache) r.authority ∧ r.authority.used ≠ 0 ∧
    (buildDocRoot isDir conf r.documentRoot s.docRoot r.authority).1 = 0

instance (s : VhostState) (r : VhostRequest) : Decidable (Fills isDir config s r) :=
  inferInstanceAs (Decidable (_ ∧ _ ∧ _))

/-- The state, and for each cache the request it was written by. -/
structure VhostTrace where
  state : VhostState
  filler : Nat → Option VhostRequest

def vhostMachine : Machine VhostTrace VhostRequest ((Nat × Bytes × Bytes) × Nat × Bytes × Bytes) where
  step t r :=
    let (a, s) := modSimpleVhostDocroot isDir config t.state r
    let conf := modSimpleVhostPatchConnection config r.matched
    let filler := if Fills isDir config t.state r then
        fun i => if i = conf.cache then some r else t.filler i
      else t.filler
    (⟨s, filler⟩, [a.view])

def cacheless : Machine Unit VhostRequest ((Nat × Bytes × Bytes) × Nat × Bytes × Bytes) where
  step _ r := ((), [(modSimpleVhostDocroot isDir config VhostState.init r).1.view])

/-- A hit finds what a request with the same host and the same document root has left, which is
that of the connection if there is no server-root. -/
def SameSettings (t : VhostTrace) (r : VhostRequest) : Prop :=
  let conf := modSimpleVhostPatchConnection config r.matched
  cacheHit (t.state.caches conf.cache) r.authority → ∀ r' ∈ t.filler conf.cache,
    r'.authority.view = r.authority.view ∧
    (conf.serverRoot.used ≠ 0 →
      (modSimpleVhostPatchConnection config r'.matched).documentRoot.view =
        conf.documentRoot.view) ∧
    (conf.serverRoot.used = 0 → r'.documentRoot.view = r.documentRoot.view)

/-- What a cache holds was built for the request it was written by. -/
def CachedFor (i : Nat) (cache : DocrootCache) : Option VhostRequest → Prop
  | none => cache.key.used = 0
  | some r =>
    let conf := modSimpleVhostPatchConnection config r.matched
    let built := buildDocRoot isDir conf r.documentRoot bufferInit r.authority
    conf.cache = i ∧ built.1 = 0 ∧
      cache.value.view = (bufferCopyStringBuffer bufferInit built.2).view ∧
      cache.servername.view = (bufferCopyStringBuffer bufferInit r.authority).view

theorem buildDocRoot_out (conf : VhostConf) (conRoot host out out' : Buffer) :
    (buildDocRoot isDir conf conRoot out host).1 = (buildDocRoot isDir conf conRoot out' host).1 ∧
      (buildDocRoot isDir conf conRoot out host).2.view =
        (buildDocRoot isDir conf conRoot out' host).2.view :=
  buildDocRoot_congr isDir ⟨rfl, fun _ => rfl, fun _ => rfl⟩ rfl out out'

def defaultAnswer (conf : VhostConf) (r : VhostRequest) (out : Buffer) : VhostAnswer :=
  let built := buildDocRoot isDir conf r.documentRoot out conf.defaultHost
  if built.1 ≠ 0 then ⟨r.docRoot, r.serverName⟩
  else ⟨bufferCopyStringBuffer r.docRoot built.2,
    bufferCopyStringBuffer r.serverName conf.defaultHost⟩

theorem defaultAnswer_view (conf : VhostConf) (r : VhostRequest) (out out' : Buffer) :
    (defaultAnswer isDir conf r out).view = (defaultAnswer isDir conf r out').view := by
  obtain ⟨hret, hview⟩ :=
    buildDocRoot_out isDir conf r.documentRoot conf.defaultHost out out'
  unfold defaultAnswer
  simp only [hret]
  by_cases hfound : (buildDocRoot isDir conf r.documentRoot out' conf.defaultHost).1 ≠ 0
  · rw [if_pos hfound, if_pos hfound]
  · rw [if_neg hfound, if_neg hfound]
    simp only [VhostAnswer.view, bufferCopyStringBuffer_congr hview _ r.docRoot]

theorem docroot_miss {s : VhostState} {r : VhostRequest} {conf : VhostConf}
    (hconf : modSimpleVhostPatchConnection config r.matched = conf)
    (hmiss : ¬ cacheHit (s.caches conf.cache) r.authority) :
    if Fills isDir config s r then
      let built := buildDocRoot isDir conf r.documentRoot s.docRoot r.authority
      let serverName := bufferCopyStringBuffer r.serverName r.authority
      let cache := s.caches conf.cache
      modSimpleVhostDocroot isDir config s r =
        (⟨bufferCopyStringBuffer r.docRoot built.2, serverName⟩,
          ⟨fun i => if i = conf.cache then
              ⟨bufferCopyStringBuffer cache.key r.authority,
                bufferCopyStringBuffer cache.value built.2,
                bufferCopyStringBuffer cache.servername serverName⟩
            else s.caches i, built.2⟩)
    else
      (∃ out, (modSimpleVhostDocroot isDir config s r).1 = defaultAnswer isDir conf r out) ∧
        (modSimpleVhostDocroot isDir config s r).2.caches = s.caches := by
  unfold Fills modSimpleVhostDocroot defaultAnswer
  simp only [hconf, if_neg hmiss]
  by_cases hauthority : r.authority.used = 0
  · rw [if_neg (fun h => h.2.1 hauthority)]
    have hne : (-1 : Int) ≠ 0 := by decide
    simp only [if_pos hauthority, if_pos hne]
    refine ⟨⟨s.docRoot, ?_⟩, ?_⟩
    · split <;> rfl
    · split <;> rfl
  · simp only [if_neg hauthority]
    by_cases hfound : (buildDocRoot isDir conf r.documentRoot s.docRoot r.authority).1 ≠ 0
    · rw [if_neg (fun h => hfound h.2.2)]
      simp only [if_pos hfound]
      refine ⟨⟨(buildDocRoot isDir conf r.documentRoot s.docRoot r.authority).2, ?_⟩, ?_⟩
      · split <;> rfl
      · split <;> rfl
    · rw [if_pos ⟨hmiss, hauthority, not_not.mp hfound⟩]
      simp only [if_neg hfound]

theorem docroot_miss_view {s : VhostState} {r : VhostRequest} {conf : VhostConf}
    (hconf : modSimpleVhostPatchConnection config r.matched = conf)
    (hmiss : ¬ cacheHit (s.caches conf.cache) r.authority) :
    (modSimpleVhostDocroot isDir config s r).1.view =
      (modSimpleVhostDocroot isDir config VhostState.init r).1.view := by
  have hempty : ¬ cacheHit (VhostState.init.caches conf.cache) r.authority := fun h => h.1 rfl
  have hs := docroot_miss isDir config hconf hmiss
  have hinit := docroot_miss isDir config hconf hempty
  obtain ⟨hret, hview⟩ := buildDocRoot_out isDir conf r.documentRoot r.authority s.docRoot
    VhostState.init.docRoot
  have hfills : Fills isDir config s r ↔ Fills isDir config VhostState.init r := by
    unfold Fills
    simp only [hconf, hret, hmiss, hempty]
  by_cases hfilled : Fills isDir config s r
  · rw [if_pos hfilled] at hs
    rw [if_pos (hfills.mp hfilled)] at hinit
    rw [hs, hinit]
    simp only [VhostAnswer.view, bufferCopyStringBuffer_congr hview _ r.docRoot]
  · rw [if_neg hfilled] at hs
    rw [if_neg (mt hfills.mpr hfilled)] at hinit
    obtain ⟨⟨out, hout⟩, -⟩ := hs
    obtain ⟨⟨out', hout'⟩, -⟩ := hinit
    rw [hout, hout']
    exact defaultAnswer_view isDir conf r out out'

theorem docroot_hit_view {t : VhostTrace} {r : VhostRequest} {conf : VhostConf}
    (hconf : modSimpleVhostPatchConnection config r.matched = conf)
    (h : CachedFor isDir config conf.cache (t.state.caches conf.cache) (t.filler conf.cache))
    (hg : SameSettings config t r) (hhit : cacheHit (t.state.caches conf.cache) r.authority) :
    (modSimpleVhostDocroot isDir config t.state r).1.view =
      (modSimpleVhostDocroot isDir config VhostState.init r).1.view := by
  cases hfiller : t.filler conf.cache with
  | none =>
    rw [hfiller] at h
    exact absurd h hhit.1
  | some r' =>
    rw [hfiller] at h
    obtain ⟨hcache, hret', hvalue, hservername⟩ := h
    obtain ⟨hhost, hdoc, hcon⟩ := hg (hconf ▸ hhit) r' (hconf ▸ hfiller)
    rw [hconf] at hdoc hcon
    have hroot : (modSimpleVhostPatchConnection config r'.matched).serverRoot =
        conf.serverRoot := by
      rw [patch_serverRoot, hcache, ← hconf, patch_serverRoot config r.matched]
    have hsame : SameRoot (modSimpleVhostPatchConnection config r'.matched) conf r'.documentRoot
        r.documentRoot := ⟨hroot, hroot ▸ hdoc, hroot ▸ hcon⟩
    obtain ⟨hret, hview⟩ := buildDocRoot_congr isDir hsame hhost bufferInit
      VhostState.init.docRoot
    rw [hret'] at hret
    have hempty : ¬ cacheHit (VhostState.init.caches conf.cache) r.authority := fun h => h.1 rfl
    have hinit := docroot_miss isDir config hconf hempty
    have hfilled : Fills isDir config VhostState.init r := by
      unfold Fills
      simp only [hconf]
      exact ⟨hempty, hhit.2.1, hret.symm⟩
    rw [if_pos hfilled] at hinit
    rw [hinit]
    unfold modSimpleVhostDocroot
    simp only [hconf, if_pos hhit, VhostAnswer.view]
    have hdocRoot := (bufferCopyStringBuffer_congr hvalue r.docRoot r.docRoot).trans
      ((bufferCopyStringBuffer_copy r.docRoot bufferInit r.docRoot _).trans
        (bufferCopyStringBuffer_congr hview r.docRoot r.docRoot))
    have hserverName := (bufferCopyStringBuffer_congr hservername r.serverName r.serverName).trans
      ((bufferCopyStringBuffer_copy r.serverName bufferInit r.serverName _).trans
        (bufferCopyStringBuffer_congr hhost r.serverName r.serverName))
    rw [hdocRoot, hserverName]

theorem docroot_step {t : VhostTrace} (r : VhostRequest)
    (h : ∀ i, CachedFor isDir config i (t.state.caches i) (t.filler i))
    (hg : SameSettings config t r) :
    (∀ i, CachedFor isDir config i (((vhostMachine isDir config).step t r).1.state.caches i)
        (((vhostMachine isDir config).step t r).1.filler i)) ∧
      ((vhostMachine isDir config).step t r).2 = ((cacheless isDir config).step () r).2 := by
  obtain ⟨conf, hconf⟩ : ∃ conf, modSimpleVhostPatchConnection config r.matched = conf := ⟨_, rfl⟩
  by_cases hhit : cacheHit (t.state.caches conf.cache) r.authority
  · refine ⟨?_, congrArg (fun v => [v]) (docroot_hit_view isDir config hconf (h _) hg hhit)⟩
    have hsame : (modSimpleVhostDocroot isDir config t.state r).2 = t.state := by
      unfold modSimpleVhostDocroot
      simp only [hconf, if_pos hhit]
    have hfills : ¬ Fills isDir config t.state r := by
      unfold Fills
      simp only [hconf]
      exact fun hfills => hfills.1 hhit
    intro i
    simp only [vhostMachine, hsame, if_neg hfills]
    exact h i
  · refine ⟨?_, congrArg (fun v => [v]) (docroot_miss_view isDir config hconf hhit)⟩
    have hmiss := docroot_miss isDir config hconf hhit
    intro i
    by_cases hfilled : Fills isDir config t.state r
    · rw [if_pos hfilled] at hmiss
      simp only [vhostMachine, hmiss, if_pos hfilled, hconf]
      by_cases hi : i = conf.cache
      · rw [if_pos hi, if_pos hi]
        obtain ⟨hret, hview⟩ := buildDocRoot_out isDir conf r.documentRoot r.authority
          t.state.docRoot bufferInit
        simp only [Fills, hconf] at hfilled
        simp only [CachedFor, hconf]
        exact ⟨hi.symm, hret ▸ hfilled.2.2, bufferCopyStringBuffer_congr hview _ _,
          bufferCopyStringBuffer_copy _ _ _ _⟩
      · rw [if_neg hi, if_neg hi]
        exact h i
    · rw [if_neg hfilled] at hmiss
      simp only [vhostMachine, hmiss.2, if_neg hfilled]
      exact h i

/-- **The cache cannot be seen** in runs in which every hit finds the same settings. -/
theorem docrootTransparent {reqs : List VhostRequest}
    (h : (vhostMachine isDir config).Guarded (SameSettings config)
      ⟨VhostState.init, fun _ => none⟩ reqs) :
    ((vhostMachine isDir config).run ⟨VhostState.init, fun _ => none⟩ reqs).2 =
      ((cacheless isDir config).run () reqs).2 := by
  refine (Machine.run_simulation
    (R := fun t _ => ∀ i, CachedFor isDir config i (t.state.caches i) (t.filler i))
    (fun t u r hR hg => docroot_step isDir config r hR hg) reqs (fun i => ?_) h).2
  exact rfl

end Docroot

/-- A server-root for all, and one block with a document-root of its own. -/
def betaVhosts : VhostConfig where
  global :=
    { serverRoot := ⟨ascii "/srv/" ++ [0], 6, 1⟩
      defaultHost := bufferInit
      documentRoot := bufferInit }
  blocks :=
    [{ serverRoot := bufferInit
       defaultHost := bufferInit
       documentRoot := ⟨ascii "/beta/" ++ [0], 7, 1⟩
       keys := [.documentRoot] }]

/-- A request for the host `h`, in the block or not. -/
def betaRequest (inBlock : Bool) : VhostRequest where
  matched := fun _ => inBlock
  authority := ⟨ascii "h" ++ [0], 2, 1⟩
  documentRoot := bufferInit
  docRoot := bufferInit
  serverName := bufferInit

/-- The second request gets the document root of the first one. -/
theorem not_docrootTransparent_documentRoot : letI : Malloc := zeroMalloc
    ((vhostMachine (fun _ => true) betaVhosts).run ⟨VhostState.init, fun _ => none⟩
        [betaRequest false, betaRequest true]).2 ≠
      ((cacheless (fun _ => true) betaVhosts).run () [betaRequest false, betaRequest true]).2 := by
  decide +kernel

theorem docrootTransparent_twice : letI : Malloc := zeroMalloc
    ((vhostMachine (fun _ => true) betaVhosts).run ⟨VhostState.init, fun _ => none⟩
        [betaRequest true, betaRequest true]).2 =
      ((cacheless (fun _ => true) betaVhosts).run () [betaRequest true, betaRequest true]).2 := by
  let _ : Malloc := zeroMalloc
  apply docrootTransparent
  have hfirst : SameSettings betaVhosts ⟨VhostState.init, fun _ => none⟩ (betaRequest true) :=
    fun hhit => absurd rfl hhit.1
  refine ⟨hfirst, ?_, trivial⟩
  intro _ r' hr'
  have hfills : Fills (fun _ => true) betaVhosts VhostState.init (betaRequest true) := by
    decide +kernel
  have hfiller : some r' = some (betaRequest true) := by
    simp only [vhostMachine, if_pos hfills] at hr'
    exact hr'.symm
  obtain rfl := Option.some.inj hfiller
  exact ⟨rfl, fun _ => rfl, fun _ => rfl⟩

end Lighttpd
