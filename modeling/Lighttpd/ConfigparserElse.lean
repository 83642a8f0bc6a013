import Lighttpd.Configparser

/-!
# `configparser.y`: the links of `else`

`condlines ::= condlines eols ELSE condline` links the two blocks, in both directions, over what they
were linked to before. A condition that is repeated stands for the block it made the first time. So
the links are the ones that were written exactly if no block is written with two different ones
behind it, or in front of it (`elseLinks_iff`).

A block is known by its place in `all_configs`, which is its `context_ndx`.
-/

namespace Lighttpd

open CLib

/-- What the parser meets: a condition, one behind `else`, or the end of a block. -/
inductive ElseAct where
  | context (h : BlockHeader)
  | elseContext (h : BlockHeader)
  | close
  deriving DecidableEq

/-- `dc->next` and `dc->prev` -/
structure ElseLinks where
  next : Nat → Option Nat
  prev : Nat → Option Nat

/-- `C->prev = B; B->next = C;` -/
def ElseLinks.link (l : ElseLinks) (b c : Nat) : ElseLinks where
  next := Function.update l.next b (some c)
  prev := Function.update l.prev c (some b)

/-- What the parser holds: `condlines` is the last block of the chain that may go on here, and
`branches` has that in front of `ELSE`, if any, for each open block. -/
structure ElseCtx where
  ctx : ConfigCtx
  branches : List (Option Nat)
  condlines : Option Nat
  links : ElseLinks

section Model

variable [Malloc]

def elseClose (s : ElseCtx) (ctx : ConfigCtx) (c : Nat) : Option ElseCtx :=
  match s.branches with
  | [] => none
  | none :: branches => some ⟨ctx, branches, some c, s.links⟩
  | some b :: branches =>
    if b ≥ c then none else some ⟨ctx, branches, some c, s.links.link b c⟩

def elseOpen (pcre : Bytes → Bool) (s : ElseCtx) (branch : Option Nat) (h : BlockHeader) :
    Option (ElseCtx × List BlockEntry) :=
  (configparserContext pcre s.ctx h).map fun ctx =>
    (⟨ctx, branch :: s.branches, none, s.links⟩, [⟨h, s.ctx.current, ctx.current⟩])

def elseStep (pcre : Bytes → Bool) (s : ElseCtx) : ElseAct → Option (ElseCtx × List BlockEntry)
  | .context h => elseOpen pcre s none h
  | .elseContext h => s.condlines.bind fun b => elseOpen pcre s (some b) h
  | .close => do
    let ctx ← configparserPop s.ctx
    let s ← elseClose s ctx s.ctx.current
    some (s, [])

def elseRun (pcre : Bytes → Bool) : ElseCtx → List ElseAct → Option (ElseLinks × List BlockEntry)
  | s, [] => some (s.links, [])
  | s, act :: acts => do
    let (s, entries) ← elseStep pcre s act
    let (links, more) ← elseRun pcre s acts
    some (links, entries ++ more)

/-- The links of a configuration, and its blocks; one that is not accepted has none. -/
def elseRead (pcre : Bytes → Bool) (acts : List ElseAct) : Option (ElseLinks × List BlockEntry) := do
  let ctx ← configCtxInit
  elseRun pcre ⟨ctx, [], none, ⟨fun _ => none, fun _ => none⟩⟩ acts

end Model

/-! ## What is written -/

/-- The pairs `.. {} else .. {}` of the file, by the numbers of the blocks in it: `n` is the next
one, `opened` are the open blocks with those in front of their `else`, and `last` is the block that
an `else` follows here. -/
def elsePairs : Nat → List (Nat × Option Nat) → Option Nat → List ElseAct → List (Nat × Nat)
  | _, _, _, [] => []
  | n, opened, _, .context _ :: acts => elsePairs (n + 1) ((n, none) :: opened) none acts
  | n, opened, last, .elseContext _ :: acts => elsePairs (n + 1) ((n, last) :: opened) none acts
  | n, (k, none) :: opened, _, .close :: acts => elsePairs n opened (some k) acts
  | n, (k, some b) :: opened, _, .close :: acts => (b, k) :: elsePairs n opened (some k) acts
  | n, [], last, .close :: acts => elsePairs n [] last acts

/-- `$B {} else $C {}` is written, for the blocks `b` and `c`. -/
def WrittenElse (acts : List ElseAct) (entries : List BlockEntry) (b c : Nat) : Prop :=
  ∃ k k' e e', (k, k') ∈ elsePairs 0 [] none acts ∧ entries[k]? = some e ∧ e.dc = b ∧
    entries[k']? = some e' ∧ e'.dc = c

structure ChainsAsWritten (acts : List ElseAct) (links : ElseLinks) (entries : List BlockEntry) :
    Prop where
  prev_next : ∀ b c, links.next b = some c → links.prev c = some b
  next_prev : ∀ b c, links.prev c = some b → links.next b = some c
  next_acyclic : ∀ b, ¬ Relation.TransGen (fun b c => links.next b = some c) b b
  prev_acyclic : ∀ c, ¬ Relation.TransGen (fun c b => links.prev c = some b) c c
  written : ∀ b c, links.next b = some c ↔ WrittenElse acts entries b c

/-- No block is written with two different ones behind it, or in front of it. -/
def OneElse (acts : List ElseAct) (entries : List BlockEntry) : Prop :=
  ∀ b c b' c', WrittenElse acts entries b c → WrittenElse acts entries b' c' → (b = b' ↔ c = c')

/-! ## Links over each other -/

def overwrite (f : Nat → Option Nat) (pairs : List (Nat × Nat)) : Nat → Option Nat :=
  pairs.foldl (fun f p => Function.update f p.1 (some p.2)) f

def ElseLinks.linkAll (l : ElseLinks) (pairs : List (Nat × Nat)) : ElseLinks :=
  pairs.foldl (fun l p => l.link p.1 p.2) l

section Links

variable {f : Nat → Option Nat} {pairs : List (Nat × Nat)} {b c : Nat}

theorem overwrite_eq_some : overwrite f pairs b = some c → (b, c) ∈ pairs ∨ f b = some c := by
  induction pairs generalizing f with
  | nil => exact Or.inr
  | cons p pairs ih =>
    intro h
    rcases ih h with hmem | hold
    · exact Or.inl (List.mem_cons_of_mem _ hmem)
    · by_cases hb : b = p.1
      · subst hb
        dsimp only at hold
        rw [Function.update_self] at hold
        obtain rfl := Option.some.inj hold
        exact Or.inl List.mem_cons_self
      · dsimp only at hold
        rw [Function.update_of_ne hb] at hold
        exact Or.inr hold

theorem overwrite_isSome : (b, c) ∈ pairs ∨ (f b).isSome → (overwrite f pairs b).isSome := by
  induction pairs generalizing f with
  | nil => simp [overwrite]
  | cons p pairs ih =>
    intro h
    apply ih
    dsimp only
    by_cases hb : b = p.1
    · subst hb
      rw [Function.update_self]
      exact Or.inr rfl
    · rw [Function.update_of_ne hb]
      refine h.imp_left fun hmem => (List.mem_cons.mp hmem).resolve_left ?_
      rintro rfl
      exact hb rfl

theorem linkAll_next (l : ElseLinks) : (l.linkAll pairs).next = overwrite l.next pairs := by
  induction pairs generalizing l with
  | nil => rfl
  | cons p pairs ih => exact ih (l.link p.1 p.2)

theorem linkAll_prev (l : ElseLinks) :
    (l.linkAll pairs).prev = overwrite l.prev (pairs.map Prod.swap) := by
  induction pairs generalizing l with
  | nil => rfl
  | cons p pairs ih => exact ih (l.link p.1 p.2)

theorem mem_of_overwrite (h : overwrite (fun _ => none) pairs b = some c) : (b, c) ∈ pairs :=
  (overwrite_eq_some h).resolve_right (by simp)

theorem exists_overwrite (h : (b, c) ∈ pairs) : ∃ c', overwrite (fun _ => none) pairs b = some c' :=
  Option.isSome_iff_exists.mp (overwrite_isSome (Or.inl h))

end Links

section Run

variable [Malloc] {pcre : Bytes → Bool}

theorem configparserContext_stack {ctx ctx' : ConfigCtx} {h : BlockHeader}
    (hrun : configparserContext pcre ctx h = some ctx') :
    ctx'.configsStack = ctx.current :: ctx.configsStack := by
  unfold configparserContext at hrun
  simp only [Option.bind_eq_bind, Option.bind_eq_some_iff] at hrun
  obtain ⟨cur, -, found, -, hpush⟩ := hrun
  cases found with
  | some found => rw [configparserPush_eq hpush]
  | none =>
    simp only at hpush
    split at hpush
    · nomatch hpush
    · split at hpush
      · unfold configparserPushNew at hpush
        split at hpush
        · simp only [Option.bind_eq_bind, Option.bind_eq_some_iff] at hpush
          obtain ⟨allConfigs, -, hpush⟩ := hpush
          rw [configparserPush_eq hpush]
        · nomatch hpush
      · nomatch hpush

/-- The parser holds the blocks that are open where it stands, behind the first `n` ones; `dc` is the
block of each number. -/
structure StandsAt (dc : Nat → Nat) (s : ElseCtx) (n : Nat) (opened : List (Nat × Option Nat))
    (last : Option Nat) : Prop where
  stack : s.ctx.current :: s.ctx.configsStack = opened.map (fun o => dc o.1) ++ [0]
  branches : s.branches = opened.map fun o => o.2.map dc
  condlines : s.condlines = last.map dc
  opened_lt : ∀ o ∈ opened, o.1 < n ∧ ∀ b ∈ o.2, b < n
  last_lt : ∀ b ∈ last, b < n

variable {dc : Nat → Nat} {s s' : ElseCtx} {opened : List (Nat × Option Nat)} {last : Option Nat}
  {n : Nat}

theorem StandsAt.elseOpen (hs : StandsAt dc s n opened last) {branch : Option Nat}
    {h : BlockHeader} {entries : List BlockEntry}
    (hopen : elseOpen pcre s (branch.map dc) h = some (s', entries))
    (hbranch : ∀ b ∈ branch, b < n) (hdc : ∀ k e, entries[k]? = some e → dc (n + k) = e.dc) :
    StandsAt dc s' (n + 1) ((n, branch) :: opened) none ∧ s'.links = s.links ∧
      entries.length = 1 := by
  obtain ⟨ctx, hctx, heq⟩ := Option.map_eq_some_iff.mp hopen
  obtain ⟨rfl, rfl⟩ := Prod.mk.inj heq
  refine ⟨⟨?_, ?_, rfl, ?_, by simp⟩, rfl, rfl⟩
  · rw [configparserContext_stack hctx, hs.stack]
    have hcur : dc n = ctx.current := hdc 0 _ rfl
    rw [List.map_cons, List.cons_append, hcur]
  · rw [List.map_cons, ← hs.branches]
  · intro o ho
    rcases List.mem_cons.mp ho with rfl | ho
    · exact ⟨Nat.lt_succ_self n, fun b hb => Nat.lt_succ_of_lt (hbranch b hb)⟩
    · obtain ⟨ho₁, ho₂⟩ := hs.opened_lt o ho
      exact ⟨Nat.lt_succ_of_lt ho₁, fun b hb => Nat.lt_succ_of_lt (ho₂ b hb)⟩

omit [Malloc] in
/-- At the end of a block: the next block that an `else` may follow, and the link that is made. -/
theorem StandsAt.elseClose {k : Nat} {b : Option Nat} {ctx : ConfigCtx}
    (hs : StandsAt dc s n ((k, b) :: opened) last) (hpop : configparserPop s.ctx = some ctx)
    (hclose : elseClose s ctx s.ctx.current = some s') :
    StandsAt dc s' n opened (some k) ∧
      (b = none ∧ s'.links = s.links ∨
        ∃ k', b = some k' ∧ dc k' < dc k ∧ s'.links = s.links.link (dc k') (dc k)) := by
  have hstack := hs.stack
  rw [List.map_cons, List.cons_append] at hstack
  obtain ⟨hcur, hrest⟩ := List.cons.inj hstack
  have hctx : ctx.current :: ctx.configsStack = opened.map (fun o => dc o.1) ++ [0] := by
    unfold configparserPop at hpop
    cases hstack' : s.ctx.configsStack with
    | nil =>
      rw [hstack'] at hpop
      nomatch hpop
    | cons top stack =>
      rw [hstack'] at hpop hrest
      obtain rfl := Option.some.inj hpop
      exact hrest
  have hopened := fun o ho => hs.opened_lt o (List.mem_cons_of_mem _ ho)
  have hlast : ∀ m ∈ some k, m < n := by
    rintro m hm
    obtain rfl := Option.some.inj hm
    exact (hs.opened_lt _ List.mem_cons_self).1
  unfold Lighttpd.elseClose at hclose
  rw [hs.branches, hcur, List.map_cons] at hclose
  cases b with
  | none =>
    obtain rfl := Option.some.inj hclose
    exact ⟨⟨hctx, rfl, rfl, hopened, hlast⟩, Or.inl ⟨rfl, rfl⟩⟩
  | some k' =>
    simp only [Option.map_some] at hclose
    split at hclose
    · nomatch hclose
    · next hlt =>
      obtain rfl := Option.some.inj hclose
      exact ⟨⟨hctx, rfl, rfl, hopened, hlast⟩, Or.inr ⟨k', rfl, Nat.lt_of_not_le hlt, rfl⟩⟩

omit [Malloc] in
theorem StandsAt.no_close {ctx : ConfigCtx} (hs : StandsAt dc s n [] last) :
    configparserPop s.ctx ≠ some ctx := by
  obtain ⟨-, hstack⟩ := List.cons.inj hs.stack
  unfold configparserPop
  rw [hstack]
  nofun

/-- The rest of a file, by induction on what the parser meets: its links are made one after the
other, each to a block behind. -/
theorem elseRun_links (acts : List ElseAct) : ∀ {s : ElseCtx} {n : Nat}
    {opened : List (Nat × Option Nat)} {last : Option Nat} {links : ElseLinks}
    {entries : List BlockEntry}, StandsAt dc s n opened last →
    elseRun pcre s acts = some (links, entries) →
    (∀ k e, entries[k]? = some e → dc (n + k) = e.dc) →
      links = s.links.linkAll ((elsePairs n opened last acts).map fun p => (dc p.1, dc p.2)) ∧
      ∀ p ∈ elsePairs n opened last acts,
        dc p.1 < dc p.2 ∧ p.1 < n + entries.length ∧ p.2 < n + entries.length := by
  induction acts with
  | nil =>
    intro s n opened last links entries hs hrun hdc
    obtain ⟨rfl, rfl⟩ := Prod.mk.inj (Option.some.inj hrun)
    exact ⟨rfl, by simp [elsePairs]⟩
  | cons act acts ih =>
    intro s n opened last links entries hs hrun hdc
    simp only [elseRun, Option.bind_eq_bind, Option.bind_eq_some_iff, Option.some.injEq,
      Prod.exists] at hrun
    obtain ⟨s', first, hstep, links', more, hrest, heq⟩ := hrun
    obtain ⟨rfl, rfl⟩ := Prod.mk.inj heq
    -- a block that is opened, behind an `else` or not
    have hopens : ∀ branch h, (∀ b ∈ branch, b < n) →
        elseOpen pcre s (branch.map dc) h = some (s', first) →
        links' = s.links.linkAll ((elsePairs (n + 1) ((n, branch) :: opened) none acts).map
            fun p => (dc p.1, dc p.2)) ∧
          ∀ p ∈ elsePairs (n + 1) ((n, branch) :: opened) none acts, dc p.1 < dc p.2 ∧
            p.1 < n + (first ++ more).length ∧ p.2 < n + (first ++ more).length := by
      intro branch h hbranch hopen
      obtain ⟨hs', hlinks, hlength⟩ := hs.elseOpen hopen hbranch fun k e he =>
        hdc k e (List.getElem?_append_left (List.getElem?_eq_some_iff.mp he).1 ▸ he)
      rw [← hlinks, List.length_append, hlength, ← Nat.add_assoc]
      refine ih hs' hrest fun k e he => ?_
      rw [Nat.add_assoc, ← hlength]
      apply hdc
      rw [← he, List.getElem?_append_right (Nat.le_add_right _ _), Nat.add_sub_cancel_left]
    cases act with
    | context h => exact hopens none h (by simp) hstep
    | elseContext h =>
      obtain ⟨b, hb, hopen⟩ := Option.bind_eq_some_iff.mp hstep
      rw [hs.condlines] at hb
      obtain ⟨k, rfl, rfl⟩ := Option.map_eq_some_iff.mp hb
      exact hopens (some k) h hs.last_lt hopen
    | close =>
      obtain ⟨ctx, hpop, hbind⟩ := Option.bind_eq_some_iff.mp hstep
      obtain ⟨s₁, hclose, heq⟩ := Option.bind_eq_some_iff.mp hbind
      obtain ⟨rfl, rfl⟩ := Prod.mk.inj (Option.some.inj heq)
      cases opened with
      | nil => exact absurd hpop hs.no_close
      | cons o opened =>
        obtain ⟨k, b⟩ := o
        obtain ⟨hk, hb⟩ := hs.opened_lt _ List.mem_cons_self
        obtain ⟨hs', hlink⟩ := hs.elseClose hpop hclose
        obtain ⟨hlinks, hpairs⟩ := ih hs' hrest hdc
        rcases hlink with ⟨rfl, hsame⟩ | ⟨k', rfl, hlt, hlink⟩
        · rw [← hsame]
          exact ⟨hlinks, hpairs⟩
        · have hk' : k' < n := hb k' rfl
          refine ⟨?_, fun p hp => ?_⟩
          · rw [hlinks, hlink]
            rfl
          · rcases List.mem_cons.mp hp with rfl | hp
            · exact ⟨hlt, Nat.lt_add_right _ hk', Nat.lt_add_right _ hk⟩
            · exact hpairs p hp

theorem elseRead_links {acts : List ElseAct} {links : ElseLinks} {entries : List BlockEntry}
    (hread : elseRead pcre acts = some (links, entries)) :
    ∃ pairs : List (Nat × Nat),
      links.next = overwrite (fun _ => none) pairs ∧
      links.prev = overwrite (fun _ => none) (pairs.map Prod.swap) ∧
      ∀ b c, (WrittenElse acts entries b c ↔ (b, c) ∈ pairs) ∧ ((b, c) ∈ pairs → b < c) := by
  unfold elseRead configCtxInit at hread
  simp only [Option.bind_eq_bind, Option.bind_eq_some_iff, Option.some.injEq] at hread
  obtain ⟨ctx, ⟨allConfigs, -, rfl⟩, hrun⟩ := hread
  let dc : Nat → Nat := fun k => (entries[k]?.map (·.dc)).getD 0
  have hdc : ∀ k e, entries[k]? = some e → dc k = e.dc := by
    intro k e he
    simp only [dc, he, Option.map_some, Option.getD_some]
  have hstart : StandsAt dc ⟨⟨allConfigs, [], 0⟩, [], none, ⟨fun _ => none, fun _ => none⟩⟩ 0 []
      none := ⟨rfl, rfl, rfl, by simp, by simp⟩
  obtain ⟨hlinks, hpairs⟩ := elseRun_links acts hstart hrun fun k e he => by
    rw [Nat.zero_add]
    exact hdc k e he
  refine ⟨(elsePairs 0 [] none acts).map fun p => (dc p.1, dc p.2), ?_, ?_, fun b c => ⟨?_, ?_⟩⟩
  · rw [hlinks, linkAll_next]
  · rw [hlinks, linkAll_prev]
  · rw [List.mem_map]
    constructor
    · rintro ⟨k, k', e, e', hmem, he, rfl, he', rfl⟩
      exact ⟨(k, k'), hmem, by rw [hdc k e he, hdc k' e' he']⟩
    · rintro ⟨⟨k, k'⟩, hmem, heq⟩
      obtain ⟨hb, hc⟩ := Prod.mk.inj heq
      obtain ⟨-, hk, hk'⟩ := hpairs _ hmem
      rw [Nat.zero_add] at hk hk'
      have he := List.getElem?_eq_getElem hk
      have he' := List.getElem?_eq_getElem hk'
      exact ⟨k, k', _, _, hmem, he, (hdc k _ he).symm.trans hb, he', (hdc k' _ he').symm.trans hc⟩
  · intro hmem
    obtain ⟨p, hp, heq⟩ := List.mem_map.mp hmem
    obtain ⟨rfl, rfl⟩ := Prod.mk.inj heq
    exact (hpairs p hp).1

end Run

/-- **The chains are the ones that were written** exactly if no block is written with two different
blocks behind it, or in front of it. -/
theorem elseLinks_iff [Malloc] {pcre : Bytes → Bool} {acts : List ElseAct} {links : ElseLinks}
    {entries : List BlockEntry} (hread : elseRead pcre acts = some (links, entries)) :
    ChainsAsWritten acts links entries ↔ OneElse acts entries := by
  obtain ⟨pairs, hnext, hprev, hpairs⟩ := elseRead_links hread
  have hnext_mem : ∀ b c, links.next b = some c → (b, c) ∈ pairs := by
    intro b c h
    rw [hnext] at h
    exact mem_of_overwrite h
  have hprev_mem : ∀ b c, links.prev c = some b → (b, c) ∈ pairs := by
    intro b c h
    rw [hprev] at h
    obtain ⟨p, hp, heq⟩ := List.mem_map.mp (mem_of_overwrite h)
    obtain rfl : p = (b, c) := congrArg Prod.swap heq
    exact hp
  constructor
  · intro h b c b' c' hbc hbc'
    have hb := (h.written b c).mpr hbc
    have hb' := (h.written b' c').mpr hbc'
    constructor
    · rintro rfl
      exact Option.some.inj (hb.symm.trans hb')
    · rintro rfl
      exact Option.some.inj ((h.prev_next b c hb).symm.trans (h.prev_next b' c hb'))
  · intro h
    have hone : ∀ {b c b' c'}, (b, c) ∈ pairs → (b', c') ∈ pairs → (b = b' ↔ c = c') :=
      fun hbc hbc' => h _ _ _ _ ((hpairs _ _).1.mpr hbc) ((hpairs _ _).1.mpr hbc')
    have hnext_iff : ∀ b c, links.next b = some c ↔ (b, c) ∈ pairs := by
      refine fun b c => ⟨hnext_mem b c, fun hmem => ?_⟩
      obtain ⟨c', hc'⟩ := exists_overwrite hmem
      rw [← hnext] at hc'
      rw [hc', (hone hmem (hnext_mem b c' hc')).mp rfl]
    have hprev_iff : ∀ b c, links.prev c = some b ↔ (b, c) ∈ pairs := by
      refine fun b c => ⟨hprev_mem b c, fun hmem => ?_⟩
      obtain ⟨b', hb'⟩ := exists_overwrite (List.mem_map_of_mem (f := Prod.swap) hmem)
      rw [← hprev] at hb'
      have hb'' : links.prev c = some b' := hb'
      rw [hb'', (hone hmem (hprev_mem b' c hb'')).mpr rfl]
    refine ⟨?_, ?_, ?_, ?_, ?_⟩
    · exact fun b c hb => (hprev_iff b c).mpr ((hnext_iff b c).mp hb)
    · exact fun b c hc => (hnext_iff b c).mpr ((hprev_iff b c).mp hc)
    · intro b hcycle
      have hlt : ∀ {b c}, Relation.TransGen (fun b c => links.next b = some c) b c → b < c := by
        intro b c hbc
        induction hbc with
        | single hb => exact (hpairs _ _).2 (hnext_mem _ _ hb)
        | tail _ hc ih => exact ih.trans ((hpairs _ _).2 (hnext_mem _ _ hc))
      exact absurd (hlt hcycle) (Nat.lt_irrefl b)
    · intro c hcycle
      have hlt : ∀ {c b}, Relation.TransGen (fun c b => links.prev c = some b) c b → b < c := by
        intro c b hcb
        induction hcb with
        | single hc => exact (hpairs _ _).2 (hprev_mem _ _ hc)
        | tail _ hb ih => exact Nat.lt_trans ((hpairs _ _).2 (hprev_mem _ _ hb)) ih
      exact absurd (hlt hcycle) (Nat.lt_irrefl c)
    · exact fun b c => (hnext_iff b c).trans (hpairs b c).1.symm

theorem clean_slashA : 0 ∉ ascii "/a" := by decide

/-- `$HTTP["url"] == "/a" {} else $HTTP["url"] == "/b" {}`, and the same with `"/c"`. -/
def twoElses : List ElseAct :=
  [.context (urlHeader (ascii "/a") clean_slashA), .close,
    .elseContext (urlHeader (ascii "/b") (by decide)), .close,
    .context (urlHeader (ascii "/a") clean_slashA), .close,
    .elseContext (urlHeader (ascii "/c") (by decide)), .close]

/-- The second branch is still linked to the first block, which is linked to the third. -/
theorem not_elseLinks_twice : ¬ ∀ acts links entries,
    @elseRead zeroMalloc (fun _ => true) acts = some (links, entries) →
      ChainsAsWritten acts links entries := by
  intro h
  obtain ⟨⟨links, entries⟩, hread⟩ := Option.isSome_iff_exists.mp
    (show (@elseRead zeroMalloc (fun _ => true) twoElses).isSome by decide +kernel)
  have hlinks : (@elseRead zeroMalloc (fun _ => true) twoElses).map
      (fun r => (r.1.prev 2, r.1.next 1)) = some (some 1, some 3) := by decide +kernel
  rw [hread] at hlinks
  obtain ⟨hprev, hnext⟩ := Prod.mk.inj (Option.some.inj hlinks)
  have hback := (h _ _ _ hread).next_prev 1 2 hprev
  rw [hnext] at hback
  nomatch hback

/-- A single `else`. -/
theorem elseLinks_iff_once : ∃ links entries,
    @elseRead zeroMalloc (fun _ => true) (twoElses.take 4) = some (links, entries) ∧
      ChainsAsWritten (twoElses.take 4) links entries := by
  obtain ⟨⟨links, entries⟩, hread⟩ := Option.isSome_iff_exists.mp
    (show (@elseRead zeroMalloc (fun _ => true) (twoElses.take 4)).isSome by decide +kernel)
  refine ⟨links, entries, hread, (@elseLinks_iff zeroMalloc _ _ _ _ hread).mpr ?_⟩
  have hpairs : elsePairs 0 [] none (twoElses.take 4) = [(0, 1)] := by decide
  rintro b c b' c' ⟨k, k', e, e', hmem, he, rfl, he', rfl⟩ ⟨j, j', d, d', hmem', hd, rfl, hd', rfl⟩
  rw [hpairs, List.mem_singleton] at hmem hmem'
  cases hmem
  cases hmem'
  cases he.symm.trans hd
  cases he'.symm.trans hd'
  exact iff_of_true rfl rfl

end Lighttpd
