import Lighttpd.ArrayHistory
import Lighttpd.CaselessOrder
import Lighttpd.ConfigfileGlue
import Lighttpd.Lib.Machine

/-!
# `configparser.y`: the blocks of a configuration

A conditional block is found again by a key that is made of the key of its parent and the texts of
the condition, and the search ignores the case of letters. So two blocks are one exactly if the keys
of all blocks that are not meant to be one differ in more than case, as long as
`buffer_caseless_compare` orders the keys (`blocksIdentified_iff`).

A block is known by its place in `all_configs`. The stack of open blocks, whose keys grow from the
bottom to the top, is a list. The settings in the blocks and the links of `else` are left out.
-/

namespace Lighttpd

open CLib Compare

/-- `config_cond_t` -/
inductive ConfigCond where
  | eq
  | regex
  | ne
  | notRegex
  deriving DecidableEq, Repr

def ConfigCond.op : ConfigCond → Bytes
  | eq => ascii "=="
  | regex => ascii "=~"
  | ne => ascii "!="
  | notRegex => ascii "!~"

/-- `$B[C] E D`: no token holds a NUL. -/
structure BlockHeader where
  srvvarname : Bytes
  stringop : Bytes
  cond : ConfigCond
  rvalue : Bytes
  clean : 0 ∉ srvvarname ++ stringop ++ rvalue
  deriving DecidableEq

def BlockHeader.compKey (h : BlockHeader) : Bytes :=
  h.srvvarname ++ ascii "[\"" ++ h.stringop ++ ascii "\"]"

def comps : List (CompKey × Bytes) :=
  [(.serverSocket, ascii "SERVER[\"socket\"]"), (.httpUrl, ascii "HTTP[\"url\"]"),
    (.httpHost, ascii "HTTP[\"host\"]"), (.httpReferer, ascii "HTTP[\"referer\"]"),
    (.httpUserAgent, ascii "HTTP[\"useragent\"]"), (.httpUserAgent, ascii "HTTP[\"user-agent\"]"),
    (.httpLanguage, ascii "HTTP[\"language\"]"), (.httpCookie, ascii "HTTP[\"cookie\"]"),
    (.httpRemoteIp, ascii "HTTP[\"remoteip\"]"), (.httpRemoteIp, ascii "HTTP[\"remote-ip\"]"),
    (.httpQueryString, ascii "HTTP[\"querystring\"]"),
    (.httpQueryString, ascii "HTTP[\"query-string\"]"),
    (.httpRequestMethod, ascii "HTTP[\"request-method\"]"),
    (.httpScheme, ascii "HTTP[\"scheme\"]")]

/-- The text between the key of the parent and the end of the key. -/
def BlockHeader.text (h : BlockHeader) : Bytes :=
  ascii "/" ++ h.srvvarname ++ h.stringop ++ h.cond.op ++ h.rvalue

/-- `data_config`, with the fields that the parser gives it; `key` ends in front of its terminator,
and `parent` is the place of the block around. -/
structure BlockConfig where
  key : Bytes
  contextNdx : Nat
  comp : CompKey
  header : Option BlockHeader
  parent : Option Nat
  deriving DecidableEq

section Model

variable [Malloc]

/-- `data_config_insert_dup` frees the second one. -/
instance : DataUnset BlockConfig where
  type _ := .config
  key dc := bufferCopyStringLen bufferInit (some dc.key)
  isIndexKey _ := false
  withIndexKey dc key := { dc with key := key.str }
  reset dc := dc
  insertDup dst _ := dst

/-- `config_t` -/
structure ConfigCtx where
  allConfigs : Arr BlockConfig
  configsStack : List Nat
  current : Nat
  deriving DecidableEq

def ConfigCtx.block (ctx : ConfigCtx) (i : Nat) : Option BlockConfig := (ctx.allConfigs.data[i]?).join

/-- The exit is for conditions inside a `global` block. -/
def configparserPush (ctx : ConfigCtx) (cur : BlockConfig) (dc : Nat) : Option ConfigCtx :=
  if ctx.configsStack ≠ [] ∧ cur.contextNdx = 0 then none
  else some { ctx with configsStack := ctx.current :: ctx.configsStack, current := dc }

/-- `pcre` says which expressions PCRE takes, with at most nine captures. -/
def conditionAccepted (pcre : Bytes → Bool) (h : BlockHeader) : Bool :=
  match h.cond with
  | .eq | .ne => true
  | .regex | .notRegex => pcre h.rvalue

def newBlock (ctx : ConfigCtx) (h : BlockHeader) (comp : CompKey) (key : Bytes) : BlockConfig where
  key := key
  contextNdx := ctx.allConfigs.used
  comp := comp
  header := some h
  parent := some ctx.current

/-- `configparser_push(ctx, dc, 1)` -/
def configparserPushNew (ctx : ConfigCtx) (cur dc : BlockConfig) : Option ConfigCtx :=
  if cur.contextNdx < dc.contextNdx then do
    let allConfigs ← arrayInsertUnique ctx.allConfigs dc
    configparserPush { ctx with allConfigs } cur dc.contextNdx
  else none

/-- `context ::= DOLLAR SRVVARNAME LBRACKET stringop RBRACKET cond expression`. A configuration with
an error has no value. -/
def configparserContext (pcre : Bytes → Bool) (ctx : ConfigCtx) (h : BlockHeader) :
    Option ConfigCtx := do
  let cur ← ctx.block ctx.current
  let b := cur.key ++ h.text
  match ← arrayGetElement ctx.allConfigs b with
  | some (ndx, _) => configparserPush ctx cur ndx
  | none =>
    match comps.find? fun c => h.compKey = c.2 with
    | none => none
    | some (comp, _) =>
      if conditionAccepted pcre h then configparserPushNew ctx cur (newBlock ctx h comp b) else none

/-- `condline ::= context LCURLY metalines RCURLY`, at its end. -/
def configparserPop (ctx : ConfigCtx) : Option ConfigCtx :=
  match ctx.configsStack with
  | [] => none
  | dc :: stack => some { ctx with configsStack := stack, current := dc }

def globalBlock : BlockConfig where
  key := ascii "global"
  contextNdx := 0
  comp := .unset
  header := none
  parent := none

/-- `config_read`, before the file. -/
def configCtxInit : Option ConfigCtx := do
  let allConfigs ← arrayInsertUnique arrayInit globalBlock
  some ⟨allConfigs, [], 0⟩

/-! ## The parser on a configuration -/

/-- What the parser meets: a condition, or the end of its block. -/
inductive ConfigAct where
  | context (h : BlockHeader)
  | close
  deriving DecidableEq

/-- A conditional block of the file, the block around it and its `data_config`. -/
structure BlockEntry where
  header : BlockHeader
  parent : Nat
  dc : Nat
  deriving DecidableEq

def configStep (pcre : Bytes → Bool) (ctx : ConfigCtx) :
    ConfigAct → Option (ConfigCtx × List BlockEntry)
  | .context h => (configparserContext pcre ctx h).map fun ctx' =>
    (ctx', [⟨h, ctx.current, ctx'.current⟩])
  | .close => (configparserPop ctx).map fun ctx' => (ctx', [])

def configRun (pcre : Bytes → Bool) : ConfigCtx → List ConfigAct →
    Option (ConfigCtx × List BlockEntry)
  | ctx, [] => some (ctx, [])
  | ctx, act :: acts => do
    let (ctx, entries) ← configStep pcre ctx act
    let (ctx, more) ← configRun pcre ctx acts
    some (ctx, entries ++ more)

/-- The blocks of a configuration; one that is not accepted has none. -/
def configRead (pcre : Bytes → Bool) (acts : List ConfigAct) : Option (List BlockEntry) := do
  let ctx ← configCtxInit
  let (_, entries) ← configRun pcre ctx acts
  some entries

end Model

/-- Two blocks of the file are one exactly if they are in the same block and say the same. -/
def Identified (entries : List BlockEntry) : Prop :=
  ∀ e ∈ entries, ∀ e' ∈ entries, e.dc = e'.dc ↔ e.parent = e'.parent ∧ e.header = e'.header

/-! ## The paths of the blocks -/

/-- The conditions around a block and its own one, which comes first. -/
abbrev BlockPath : Type := List BlockHeader

def BlockPath.key : BlockPath → Bytes
  | [] => ascii "global"
  | h :: p => BlockPath.key p ++ h.text

/-- The paths of the blocks of a file, which is read inside of `p`. -/
def blockPaths : BlockPath → List ConfigAct → List BlockPath
  | _, [] => []
  | p, .context h :: acts => (h :: p) :: blockPaths (h :: p) acts
  | p, .close :: acts => blockPaths p.tail acts

def BlockPath.stored (p : BlockPath) : Bytes := p.key ++ [0]

/-- Blocks with different paths have keys that differ in more than case. -/
def DistinctKeys (ps : List BlockPath) : Prop :=
  ∀ p ∈ ps, ∀ q ∈ ps, p.key.map tolower = q.key.map tolower → p = q

/-- `buffer_caseless_compare` orders the keys of all blocks. -/
def KeysOrdered (ps : List BlockPath) : Prop :=
  ∀ p ∈ ps, ∀ q ∈ ps, ∀ r ∈ ps, ¬ Clashes p.stored q.stored r.stored

section Lookup

variable [Malloc] {K : Bytes → Prop} {ctx ctx' : ConfigCtx} {p q : BlockPath} {i j : Nat}

theorem keyBytes_block (dc : BlockConfig) : keyBytes dc = dc.key ++ [0] :=
  holds_bufferCopyStringLen bufferInit dc.key

def Held (ctx : ConfigCtx) (p : BlockPath) (i : Nat) : Prop :=
  ∃ dc, ctx.allConfigs.Live i dc ∧ dc.key = p.key

def Opened (ctx : ConfigCtx) : BlockPath → Nat → List Nat → Prop
  | [], i, stack => Held ctx [] i ∧ stack = []
  | h :: p, i, stack => Held ctx (h :: p) i ∧ ∃ j rest, stack = j :: rest ∧ Opened ctx p j rest

/-- The parser has read the blocks `seen`, and stands in `cur`. -/
structure ConfigInv (K : Bytes → Prop) (ctx : ConfigCtx) (cur : BlockPath) (seen : List BlockPath) :
    Prop where
  ordered : ctx.allConfigs.Ordered K
  paths : ∀ {i dc}, ctx.allConfigs.Live i dc → (∃ p ∈ seen, dc.key = p.key) ∧ dc.contextNdx = i
  held : ∀ p ∈ seen, ∃ i, Held ctx p i
  root : Held ctx [] 0
  opened : Opened ctx cur ctx.current ctx.configsStack
  cur_mem : ∀ q, q <:+ cur → q ∈ seen

omit [Malloc] in
theorem Opened.held (h : Opened ctx p i stack) : Held ctx p i := by
  cases p with
  | nil => exact h.1
  | cons => exact h.1

omit [Malloc] in
theorem Opened.mono (hmono : ∀ p i, Held ctx p i → Held ctx' p i) :
    ∀ {p : BlockPath} {i : Nat} {stack : List Nat}, Opened ctx p i stack → Opened ctx' p i stack
  | [], _, _, h => ⟨hmono _ _ h.1, h.2⟩
  | _ :: _, _, _, ⟨hheld, j, rest, hstack, hrest⟩ =>
    ⟨hmono _ _ hheld, j, rest, hstack, hrest.mono hmono⟩

theorem ConfigInv.held_index (hK : PreorderOn bufferCaselessCompare K)
    (h : ConfigInv K ctx cur seen) (hi : Held ctx p i) (hj : Held ctx p j) : i = j := by
  obtain ⟨x, hx, hxkey⟩ := hi
  obtain ⟨y, hy, hykey⟩ := hj
  apply h.ordered.once hK hx hy
  rw [keyBytes_block, keyBytes_block, hxkey, hykey]
  exact bufferCaselessCompare_eq_zero.mpr rfl

omit [Malloc] in
theorem Held.key_eq (hp : Held ctx p i) (hq : Held ctx q i) : p.key = q.key := by
  obtain ⟨x, hx, hxkey⟩ := hp
  obtain ⟨y, hy, hykey⟩ := hq
  obtain rfl := hx.2.unique hy.2
  exact hxkey.symm.trans hykey

omit [Malloc] in
theorem DistinctKeys.held_path {seen : List BlockPath} (h : DistinctKeys seen) (hp : p ∈ seen)
    (hq : q ∈ seen) (hpi : Held ctx p i) (hqi : Held ctx q i) : p = q :=
  h p hp q hq (congrArg _ (hpi.key_eq hqi))

omit [Malloc] in
theorem length_text_pos (h : BlockHeader) : 0 < h.text.length := by
  simp only [BlockHeader.text, List.length_append]
  have hslash : (ascii "/").length = 1 := rfl
  omega

/-- What a condition does: it finds a block with the same key but for case, or adds one. -/
inductive ContextStep (K : Bytes → Prop) (ctx : ConfigCtx) (h : BlockHeader) (key : Bytes)
    (ctx' : ConfigCtx) : Prop
  | found {ndx : Nat} {dc : BlockConfig} (live : ctx.allConfigs.Live ndx dc)
      (equal : dc.key.map tolower = key.map tolower)
      (ends : ctx' = { ctx with configsStack := ctx.current :: ctx.configsStack, current := ndx })
  | added {a' : Arr BlockConfig} {comp : CompKey}
      (missing : ∀ {i dc}, ctx.allConfigs.Live i dc → dc.key.map tolower ≠ key.map tolower)
      (ordered : a'.Ordered K) (used : a'.used = ctx.allConfigs.used + 1)
      (slot : ∀ {i dc}, a'.Slot i dc ↔ i = ctx.allConfigs.used ∧ dc = newBlock ctx h comp key ∨
        i ≠ ctx.allConfigs.used ∧ ctx.allConfigs.Slot i dc)
      (ends : ctx' = ⟨a', ctx.current :: ctx.configsStack, ctx.allConfigs.used⟩)

omit [Malloc] in
theorem configparserPush_eq {cur : BlockConfig} {dc : Nat}
    (h : configparserPush ctx cur dc = some ctx') :
    ctx' = { ctx with configsStack := ctx.current :: ctx.configsStack, current := dc } := by
  unfold configparserPush at h
  split at h
  · nomatch h
  · exact (Option.some.inj h).symm

theorem compareKey_eq_zero {key : Bytes} {dc : BlockConfig} :
    compareKey (key ++ [0]) dc = 0 ↔ dc.key.map tolower = key.map tolower := by
  have hbytes : (DataUnset.key dc).bytes = dc.key ++ [0] := keyBytes_block dc
  unfold compareKey
  rw [hbytes, bufferCaselessCompare_eq_zero, List.map_append, List.map_append,
    List.append_left_inj, eq_comm]

theorem arrayInsertUnique_missing {a : Arr BlockConfig} (ha : a.Ordered K)
    (dc : BlockConfig) {pos : Int} (hindex : arrayGetIndex a (dc.key ++ [0]) = some (none, pos))
    (hmiss : ∀ x, keyBytes x = dc.key ++ [0] → ∃ a', insertNew a x pos = some a' ∧ a'.Ordered K) :
    ∃ a', arrayInsertUnique a dc = some a' ∧ a'.Ordered K ∧ a'.used = a.used + 1 ∧
      ∀ {i y}, a'.Slot i y ↔ i = a.used ∧ y = dc ∨ i ≠ a.used ∧ a.Slot i y := by
  obtain ⟨a', hinsert, hordered⟩ := hmiss dc (keyBytes_block dc)
  obtain ⟨hused, hslots, -⟩ := insertNew_spec ha.wf hinsert
  have hensure : ensureKey a dc = (a, dc) := ensureKey_named (Nat.succ_ne_zero _) rfl
  have hbytes : (DataUnset.key dc).bytes = dc.key ++ [0] := keyBytes_block dc
  refine ⟨a', ?_, hordered, hused, hslots⟩
  unfold arrayInsertUnique
  simp only [hensure, hbytes, hindex]
  exact hinsert

theorem configparserContext_spec (hK : PreorderOn bufferCaselessCompare K) {cur : BlockPath}
    {seen : List BlockPath} (hinv : ConfigInv K ctx cur seen) {pcre : Bytes → Bool}
    {h : BlockHeader} (hkey : K (BlockPath.stored (h :: cur)))
    (hrun : configparserContext pcre ctx h = some ctx') :
    ContextStep K ctx h (BlockPath.key (h :: cur)) ctx' := by
  obtain ⟨dc, hdc, hdckey⟩ := hinv.opened.held
  have hslot : ctx.allConfigs.data[ctx.current]? = some (some dc) := hdc.2
  have hblock : ctx.block ctx.current = some dc := by
    rw [ConfigCtx.block, hslot]
    rfl
  have hb : dc.key ++ h.text = BlockPath.key (h :: cur) := by rw [hdckey]; rfl
  obtain ⟨found, pos, hindex, hfound, hmiss⟩ := arrayGetIndex_ordered hK hinv.ordered hkey
  have hindex' : arrayGetIndex ctx.allConfigs (BlockPath.key (h :: cur) ++ [0]) =
      some (found, pos) := hindex
  unfold configparserContext at hrun
  simp only [hblock, Option.bind_eq_bind, Option.bind_some, hb] at hrun
  cases found with
  | some ndx =>
    obtain ⟨y, hy, hzero⟩ := (hfound ndx).mp rfl
    have hyslot : ctx.allConfigs.data[ndx]? = some (some y) := hy.2
    have hlookup : arrayGetElement ctx.allConfigs (BlockPath.key (h :: cur)) =
        some (some (ndx, y)) := by
      unfold arrayGetElement
      simp only [hindex', hyslot]
    simp only [hlookup, Option.bind_some] at hrun
    exact .found hy (compareKey_eq_zero.mp hzero) (configparserPush_eq hrun)
  | none =>
    have hlookup : arrayGetElement ctx.allConfigs (BlockPath.key (h :: cur)) = some none := by
      unfold arrayGetElement
      simp only [hindex']
    have hnone : ∀ {i y}, ctx.allConfigs.Live i y →
        y.key.map tolower ≠ (BlockPath.key (h :: cur)).map tolower := by
      intro i y hy heq
      have := (hfound i).mpr ⟨y, hy, compareKey_eq_zero.mpr heq⟩
      nomatch this
    simp only [hlookup, Option.bind_some] at hrun
    split at hrun
    · nomatch hrun
    · next comp _ _ =>
      split at hrun
      · obtain ⟨a', hunique, hordered, hused, hslots⟩ := arrayInsertUnique_missing hinv.ordered
          (newBlock ctx h comp (BlockPath.key (h :: cur))) hindex (hmiss rfl)
        unfold configparserPushNew at hrun
        split at hrun
        · simp only [hunique, Option.bind_eq_bind, Option.bind_some] at hrun
          exact .added hnone hordered hused hslots (configparserPush_eq hrun)
        · nomatch hrun
      · nomatch hrun

/-! ## The blocks that were read -/

structure LogInv (ctx : ConfigCtx) (seen : List BlockPath) (log : List BlockEntry) : Prop where
  entry : ∀ e ∈ log, ∃ q, q ∈ seen ∧ e.header :: q ∈ seen ∧ Held ctx (e.header :: q) e.dc ∧
    Held ctx q e.parent
  path : ∀ {h : BlockHeader} {q : BlockPath}, h :: q ∈ seen →
    q ∈ seen ∧ ∃ e ∈ log, e.header = h ∧ Held ctx (h :: q) e.dc ∧ Held ctx q e.parent

theorem identified_of_distinct (hK : PreorderOn bufferCaselessCompare K) {cur : BlockPath}
    {seen : List BlockPath} {log : List BlockEntry} (hinv : ConfigInv K ctx cur seen)
    (hlog : LogInv ctx seen log) (hdistinct : DistinctKeys seen) : Identified log := by
  intro e he e' he'
  obtain ⟨q, hq, hpath, hdc, hparent⟩ := hlog.entry e he
  obtain ⟨q', hq', hpath', hdc', hparent'⟩ := hlog.entry e' he'
  constructor
  · intro heq
    rw [← heq] at hdc'
    obtain ⟨hheader, rfl⟩ := List.cons.inj (hdistinct.held_path hpath hpath' hdc hdc')
    exact ⟨hinv.held_index hK hparent hparent', hheader⟩
  · rintro ⟨heq, hheader⟩
    rw [← heq] at hparent'
    obtain rfl := hdistinct.held_path hq hq' hparent hparent'
    rw [← hheader] at hdc'
    exact hinv.held_index hK hdc hdc'

omit [Malloc] in
theorem DistinctKeys.mono {ps qs : List BlockPath} (h : DistinctKeys qs) (hsub : ps ⊆ qs) :
    DistinctKeys ps :=
  fun p hp q hq => h p (hsub hp) q (hsub hq)

theorem ContextStep.keeps {cur : BlockPath} {seen : List BlockPath} {log : List BlockEntry}
    {h : BlockHeader} (hstep : ContextStep K ctx h (BlockPath.key (h :: cur)) ctx')
    (hinv : ConfigInv K ctx cur seen) (hlog : LogInv ctx seen log)
    (hdistinct : DistinctKeys (seen ++ [h :: cur])) :
    ConfigInv K ctx' (h :: cur) (seen ++ [h :: cur]) ∧
      LogInv ctx' (seen ++ [h :: cur]) (log ++ [⟨h, ctx.current, ctx'.current⟩]) := by
  have hcur : cur ∈ seen := hinv.cur_mem cur List.suffix_rfl
  have hnew : h :: cur ∈ seen ++ [h :: cur] := List.mem_append_right _ (List.mem_singleton_self _)
  -- what holds of the blocks is kept, and the new one is held
  obtain ⟨hmono, hheld, hordered, hpaths, hstack⟩ : (∀ p i, Held ctx p i → Held ctx' p i) ∧
      Held ctx' (h :: cur) ctx'.current ∧ ctx'.allConfigs.Ordered K ∧
      (∀ {i dc}, ctx'.allConfigs.Live i dc →
        (∃ p ∈ seen ++ [h :: cur], dc.key = p.key) ∧ dc.contextNdx = i) ∧
      ctx'.configsStack = ctx.current :: ctx.configsStack := by
    cases hstep with
    | @found ndx dc live equal ends =>
      subst ends
      obtain ⟨⟨q, hq, hqkey⟩, -⟩ := hinv.paths live
      obtain rfl : q = h :: cur :=
        hdistinct q (List.mem_append_left _ hq) _ hnew (by rw [← hqkey, equal])
      refine ⟨fun _ _ => id, ⟨dc, live, hqkey⟩, hinv.ordered, ?_, rfl⟩
      intro i dc hlive
      obtain ⟨⟨p, hp, hkey⟩, hndx⟩ := hinv.paths hlive
      exact ⟨⟨p, List.mem_append_left _ hp, hkey⟩, hndx⟩
    | @added a' comp missing ordered used slot ends =>
      subst ends
      refine ⟨?_, ⟨_, ⟨used ▸ Nat.lt_succ_self _, slot.mpr (Or.inl ⟨rfl, rfl⟩)⟩, rfl⟩, ordered, ?_, rfl⟩
      · rintro p i ⟨dc, hlive, hkey⟩
        refine ⟨dc, ⟨used ▸ Nat.lt_succ_of_lt hlive.1, slot.mpr (Or.inr ⟨?_, hlive.2⟩)⟩, hkey⟩
        exact Nat.ne_of_lt hlive.1
      · intro i dc hlive
        rcases slot.mp hlive.2 with ⟨rfl, rfl⟩ | ⟨hne, hslot⟩
        · exact ⟨⟨_, hnew, rfl⟩, rfl⟩
        · have hlt : i < ctx.allConfigs.used := by
            have := hlive.1
            rw [used] at this
            omega
          obtain ⟨⟨p, hp, hkey⟩, hndx⟩ := hinv.paths ⟨hlt, hslot⟩
          exact ⟨⟨p, List.mem_append_left _ hp, hkey⟩, hndx⟩
  have hparent : Held ctx' cur ctx.current := hmono _ _ hinv.opened.held
  constructor
  · refine ⟨hordered, hpaths, ?_, hmono _ _ hinv.root, ?_, ?_⟩
    · intro p hp
      rcases List.mem_append.mp hp with hp | hp
      · obtain ⟨i, hi⟩ := hinv.held p hp
        exact ⟨i, hmono _ _ hi⟩
      · obtain rfl := List.mem_singleton.mp hp
        exact ⟨_, hheld⟩
    · exact ⟨hheld, _, _, hstack, hinv.opened.mono hmono⟩
    · intro q hq
      rcases List.suffix_cons_iff.mp hq with rfl | hq
      · exact hnew
      · exact List.mem_append_left _ (hinv.cur_mem q hq)
  · constructor
    · intro e he
      rcases List.mem_append.mp he with he | he
      · obtain ⟨q, hq, hpath, hdc, hpar⟩ := hlog.entry e he
        exact ⟨q, List.mem_append_left _ hq, List.mem_append_left _ hpath, hmono _ _ hdc,
          hmono _ _ hpar⟩
      · obtain rfl := List.mem_singleton.mp he
        exact ⟨cur, List.mem_append_left _ hcur, hnew, hheld, hparent⟩
    · intro h' q hq
      rcases List.mem_append.mp hq with hq | hq
      · obtain ⟨hseen, e, he, hheader, hdc, hpar⟩ := hlog.path hq
        exact ⟨List.mem_append_left _ hseen, e, List.mem_append_left _ he, hheader, hmono _ _ hdc,
          hmono _ _ hpar⟩
      · obtain ⟨rfl, rfl⟩ := List.cons.inj (List.mem_singleton.mp hq)
        exact ⟨List.mem_append_left _ hcur, _, List.mem_append_right _ (List.mem_singleton_self _),
          rfl, hheld, hparent⟩

omit [Malloc] in
theorem length_key_ge : ∀ p : BlockPath, 6 ≤ p.key.length
  | [] => Nat.le_refl 6
  | _ :: p => by
    have hle := length_key_ge p
    simp only [BlockPath.key, List.length_append]
    omega

theorem ContextStep.collides (hK : PreorderOn bufferCaselessCompare K) {cur : BlockPath}
    {seen : List BlockPath} {log : List BlockEntry} {h : BlockHeader}
    (hstep : ContextStep K ctx h (BlockPath.key (h :: cur)) ctx') (hinv : ConfigInv K ctx cur seen)
    (hlog : LogInv ctx seen log) (hdistinct : DistinctKeys seen)
    (hnot : ¬ DistinctKeys (seen ++ [h :: cur])) :
    ∃ e ∈ log, e.dc = ctx'.current ∧ ¬ (e.parent = ctx.current ∧ e.header = h) := by
  obtain ⟨q, hq, hkey, hne⟩ : ∃ q ∈ seen,
      q.key.map tolower = (BlockPath.key (h :: cur)).map tolower ∧ q ≠ h :: cur := by
    by_contra hall
    push Not at hall
    apply hnot
    intro p hp q hq heq
    rcases List.mem_append.mp hp with hp | hp
    · rcases List.mem_append.mp hq with hq | hq
      · exact hdistinct p hp q hq heq
      · obtain rfl := List.mem_singleton.mp hq
        exact hall p hp heq
    · obtain rfl := List.mem_singleton.mp hp
      rcases List.mem_append.mp hq with hq | hq
      · exact (hall q hq heq.symm).symm
      · exact (List.mem_singleton.mp hq).symm
  obtain ⟨ndx, dc, hlive, hdckey⟩ := hinv.held q hq
  have hcurrent : ctx'.current = ndx := by
    cases hstep with
    | @found ndx' dc' live equal ends =>
      subst ends
      obtain ⟨⟨q', hq', hqkey'⟩, -⟩ := hinv.paths live
      obtain rfl : q' = q := hdistinct q' hq' q hq (by rw [← hqkey', equal, hkey])
      exact hinv.held_index hK ⟨dc', live, hqkey'⟩ ⟨dc, hlive, hdckey⟩
    | added missing => exact absurd (by rw [hdckey, hkey]) (missing hlive)
  cases q with
  | nil =>
    have hlength := congrArg List.length hkey
    have hcur := length_key_ge cur
    have htext := length_text_pos h
    simp only [List.length_map, BlockPath.key, List.length_append] at hlength
    have hsix : (ascii "global").length = 6 := rfl
    omega
  | cons h' p =>
    obtain ⟨hp, e, he, hheader, hdc, hparent⟩ := hlog.path hq
    refine ⟨e, he, ?_, ?_⟩
    · rw [hcurrent]
      exact hinv.held_index hK hdc ⟨dc, hlive, hdckey⟩
    · rintro ⟨hsame, hh⟩
      rw [hsame] at hparent
      obtain rfl := hdistinct.held_path hp (hinv.cur_mem cur List.suffix_rfl) hparent
        hinv.opened.held
      exact hne (by rw [← hheader, hh])

/-! ## The whole configuration -/

/-- The rest of a file. By induction on what the parser meets: at the first condition whose key is
that of another block two blocks become one, and before it all is right. -/
theorem configRun_identified (hK : PreorderOn bufferCaselessCompare K) {pcre : Bytes → Bool}
    (acts : List ConfigAct) : ∀ {ctx ctx' : ConfigCtx} {cur : BlockPath} {seen : List BlockPath}
    {log more : List BlockEntry}, ConfigInv K ctx cur seen → LogInv ctx seen log →
    DistinctKeys seen → (∀ p ∈ blockPaths cur acts, K p.stored) →
    configRun pcre ctx acts = some (ctx', more) →
    (Identified (log ++ more) ↔ DistinctKeys (seen ++ blockPaths cur acts)) := by
  induction acts with
  | nil =>
    intro ctx ctx' cur seen log more hinv hlog hdistinct _ hrun
    cases hrun
    rw [List.append_nil, blockPaths, List.append_nil]
    exact iff_of_true (identified_of_distinct hK hinv hlog hdistinct) hdistinct
  | cons act acts ih =>
    intro ctx ctx' cur seen log more hinv hlog hdistinct hkeys hrun
    simp only [configRun, Option.bind_eq_bind, Option.bind_eq_some_iff, Option.some.injEq,
      Prod.exists] at hrun
    obtain ⟨ctx₁, entries, hstep, ctx₂, rest, hrest, heq⟩ := hrun
    cases heq
    cases act with
    | close =>
      simp only [configStep, Option.map_eq_some_iff] at hstep
      obtain ⟨ctx₁', hpop, heq⟩ := hstep
      cases heq
      obtain ⟨hinv', hlog'⟩ : ConfigInv K ctx₁ cur.tail seen ∧ LogInv ctx₁ seen log := by
        have hopened := hinv.opened
        unfold configparserPop at hpop
        cases cur with
        | nil =>
          rw [hopened.2] at hpop
          nomatch hpop
        | cons h cur =>
          obtain ⟨-, j, stack, hstack, hparent⟩ := hopened
          rw [hstack] at hpop
          cases hpop
          have hsame : ∀ p i, Held ctx p i → Held ⟨ctx.allConfigs, stack, j⟩ p i :=
            fun _ _ hheld => hheld
          exact ⟨⟨hinv.ordered, hinv.paths, hinv.held, hinv.root, hparent.mono hsame,
            fun q hq => hinv.cur_mem q (hq.trans (List.suffix_cons h cur))⟩,
            hlog.entry, hlog.path⟩
      exact ih hinv' hlog' hdistinct hkeys hrest
    | context h =>
      simp only [configStep, Option.map_eq_some_iff] at hstep
      obtain ⟨ctx₁', hcontext, heq⟩ := hstep
      cases heq
      have hspec := configparserContext_spec hK hinv (hkeys _ List.mem_cons_self) hcontext
      have hassoc : seen ++ blockPaths cur (.context h :: acts) =
          (seen ++ [h :: cur]) ++ blockPaths (h :: cur) acts := by
        rw [List.append_assoc]
        rfl
      rw [hassoc, ← List.append_assoc]
      by_cases hnext : DistinctKeys (seen ++ [h :: cur])
      · obtain ⟨hinv', hlog'⟩ := hspec.keeps hinv hlog hnext
        exact ih hinv' hlog' hnext (fun p hp => hkeys p (List.mem_cons_of_mem _ hp)) hrest
      · apply iff_of_false
        · intro hident
          obtain ⟨e, he, hdc, hne⟩ := hspec.collides hK hinv hlog hdistinct hnext
          have hboth := hident e (List.mem_append_left _ (List.mem_append_left _ he))
            ⟨h, ctx.current, ctx₁.current⟩
            (List.mem_append_left _ (List.mem_append_right _ (List.mem_singleton_self _)))
          exact hne (hboth.mp hdc)
        · exact fun hall => hnext (hall.mono (List.subset_append_left _ _))

theorem configCtxInit_inv (hK : PreorderOn bufferCaselessCompare K)
    (hglobal : K (BlockPath.stored [])) :
    ∃ ctx, configCtxInit = some ctx ∧ ConfigInv K ctx [] [[]] ∧ LogInv ctx [[]] [] := by
  have hempty : (arrayInit : Arr BlockConfig).Ordered K := .used_zero rfl ⟨0, rfl⟩
  obtain ⟨found, pos, hindex, hfound, hmiss⟩ := arrayGetIndex_ordered hK hempty hglobal
  cases found with
  | some ndx =>
    obtain ⟨y, hy, -⟩ := (hfound ndx).mp rfl
    exact absurd hy.1 (Nat.not_lt_zero _)
  | none =>
    obtain ⟨a', hunique, hordered, hused, hslots⟩ :=
      arrayInsertUnique_missing hempty globalBlock hindex (hmiss rfl)
    have hused' : a'.used = 1 := hused
    have hroot : Held ⟨a', [], 0⟩ [] 0 :=
      ⟨globalBlock, ⟨hused' ▸ Nat.one_pos, hslots.mpr (Or.inl ⟨rfl, rfl⟩)⟩, rfl⟩
    refine ⟨⟨a', [], 0⟩, ?_, ⟨hordered, ?_, ?_, hroot, ⟨hroot, rfl⟩, ?_⟩, ⟨?_, ?_⟩⟩
    · unfold configCtxInit
      rw [hunique]
      rfl
    · intro i dc hlive
      rcases hslots.mp hlive.2 with ⟨rfl, rfl⟩ | ⟨hne, -⟩
      · exact ⟨⟨[], List.mem_singleton_self _, rfl⟩, rfl⟩
      · have hlt : i < a'.used := hlive.1
        have hne' : i ≠ 0 := hne
        omega
    · intro p hp
      obtain rfl := List.mem_singleton.mp hp
      exact ⟨0, hroot⟩
    · intro q hq
      rw [List.suffix_nil.mp hq]
      exact List.mem_singleton_self _
    · exact fun e he => nomatch he
    · intro h q hq
      nomatch List.mem_singleton.mp hq

omit [Malloc] in
theorem KeysOrdered.preorder {ps : List BlockPath} (h : KeysOrdered ps) :
    PreorderOn bufferCaselessCompare fun key => ∃ p ∈ ps, key = p.stored := by
  refine preorderOn_of_noClash ?_
  rintro _ _ _ ⟨p, hp, rfl⟩ ⟨q, hq, rfl⟩ ⟨r, hr, rfl⟩
  exact h p hp q hq r hr

end Lookup

/-- `$HTTP["url"] == path` -/
def urlHeader (path : Bytes) (h : 0 ∉ path) : BlockHeader where
  srvvarname := ascii "HTTP"
  stringop := ascii "url"
  cond := .eq
  rvalue := path
  clean := by
    simp only [List.mem_append, not_or]
    exact ⟨⟨by decide, by decide⟩, h⟩

def twoUrls : List ConfigAct :=
  [.context (urlHeader (ascii "/A") (by decide)), .close,
    .context (urlHeader (ascii "/a") (by decide)), .close]

end Lighttpd
