import Lighttpd.ChunkLinks

/-!
# Runs of a queue with its links

Every operation on the pointers does what the one on lists does (`LinkedQueue.step_spec`). Along a
run the pointers are right, and a reset queue is empty (`linksSound`).
-/

namespace Lighttpd

open CLib

namespace LinkedQueue

section Operations

variable [Malloc]

def appendFile (cq : LinkedQueue) (fn : Buffer) (offset len : Int) : Option LinkedQueue :=
  if len = 0 then some cq
  else
    cq.appendNew fun c =>
      let file := { c.file with
        name := bufferCopyStringBuffer c.file.name fn, start := offset, length := len }
      { c with type := .file, file := file, offset := 0 }

def appendBuffer (cq : LinkedQueue) (mem : Buffer) : Option LinkedQueue :=
  if mem.used = 0 then some cq
  else
    cq.appendNew fun c =>
      { c with type := .mem, offset := 0, mem := bufferCopyStringBuffer c.mem mem }

def appendBufferWeak (cq : LinkedQueue) (mem : Buffer) : Option LinkedQueue :=
  cq.appendNew fun c => { c with type := .mem, offset := 0, mem := mem }

def prependBuffer (cq : LinkedQueue) (mem : Buffer) : Option LinkedQueue :=
  if mem.used = 0 then some cq
  else
    cq.prependNew fun c =>
      { c with type := .mem, offset := 0, mem := bufferCopyStringBuffer c.mem mem }

def appendMem (cq : LinkedQueue) (mem : Bytes) : Option LinkedQueue :=
  if mem.length = 0 then some cq
  else
    cq.appendNew fun c =>
      { c with type := .mem, offset := 0
               mem := bufferCopyStringLen c.mem (some (mem.take (mem.length - 1))) }

def getPrependBuffer (cq : LinkedQueue) : Option LinkedQueue :=
  cq.prependNew fun c => { c with type := .mem, offset := 0, mem := bufferReset c.mem }

def getAppendBuffer (cq : LinkedQueue) : Option LinkedQueue :=
  cq.appendNew fun c => { c with type := .mem, offset := 0, mem := bufferReset c.mem }

def getAppendTempfile (cq : LinkedQueue) (answers : Nat → MkstempAnswer) :
    Option (LinkedQueue × List Syscall) := do
  let (fd, template) := createTempfile cq.tempdirs answers
  let cq ← cq.appendNew fun c =>
    let file := { c.file with
      fd := fd
      isTemp := if fd.isSome then true else c.file.isTemp
      name := bufferCopyStringBuffer c.file.name template
      length := 0 }
    { c with type := .file, offset := 0, file := file }
  some (cq, if fd.isSome then [.mkstemp template.str] else [])

end Operations

/-! ## One step -/

/-- An operation of `chunk.c`, a user's change to the `i`-th queued chunk, or the loop of
`connection_handle_read_state`. -/
inductive LinkOp where
  | op (op : ChunkOp)
  | edit (i : Nat) (f : Chunk → Chunk)
  | setTempdirs (tempdirs : Option (List Buffer))
  | dropEmptyChunks

section Steps

variable [Malloc]

def step (cq : LinkedQueue) (op : LinkOp) : Option (LinkedQueue × List Syscall) :=
  let fuel := cq.heap.length + 1
  let silent : Option LinkedQueue → Option (LinkedQueue × List Syscall) := Option.map (·, [])
  match op with
  | .op (.appendFile fn offset len) => silent (cq.appendFile fn offset len)
  | .op (.appendBuffer mem) => silent (cq.appendBuffer mem)
  | .op (.appendBufferWeak mem) => silent (cq.appendBufferWeak mem)
  | .op (.prependBuffer mem) => silent (cq.prependBuffer mem)
  | .op (.appendMem mem) => silent (cq.appendMem mem)
  | .op .getPrependBuffer => silent cq.getPrependBuffer
  | .op .getAppendBuffer => silent cq.getAppendBuffer
  | .op (.getAppendTempfile answers) => cq.getAppendTempfile answers
  | .op (.fill i data) => silent (cq.edit (fillChunk data) i cq.first)
  | .op (.grow i n) => silent (cq.edit (growChunk n) i cq.first)
  | .op (.advance i n) => silent (cq.edit (advanceChunk n) i cq.first)
  | .op .removeFinishedChunks => cq.removeFinishedChunks fuel
  | .op .reset => cq.reset fuel
  | .edit i f => silent (cq.edit f i cq.first)
  | .setTempdirs tempdirs => some ({ cq with tempdirs := tempdirs }, [])
  | .dropEmptyChunks => silent (dropEmpty fuel cq.first cq)

end Steps

end LinkedQueue

def Chunkqueue.step [Malloc] (cq : Chunkqueue) : LinkedQueue.LinkOp → Chunkqueue × List Syscall
  | .op op => op.apply cq
  | .edit i f => (cq.modify i f, [])
  | .setTempdirs tempdirs => (chunkqueueSetTempdirs cq tempdirs, [])
  | .dropEmptyChunks => (dropEmptyChunks cq, [])

namespace LinkedQueue

variable {cq : LinkedQueue} {xs us : List (Nat × Chunk)}

/-- What `cq` gives is on lists the queue `l`, and the pointers are right again. -/
def Gives (cq : Option (LinkedQueue × List Syscall)) (l : Chunkqueue × List Syscall) : Prop :=
  ∃ cq' xs us calls, cq = some (cq', calls) ∧ cq'.Links xs us ∧ l = (cq'.contents xs us, calls)

theorem Gives.silent {cq₁ : Option LinkedQueue} {l : Chunkqueue}
    (h : ∃ cq' xs' us', cq₁ = some cq' ∧ cq'.Links xs' us' ∧ cq'.contents xs' us' = l) :
    Gives (cq₁.map (·, [])) (l, []) := by
  obtain ⟨cq', xs', us', rfl, hlinks, rfl⟩ := h
  exact ⟨cq', xs', us', [], rfl, hlinks, rfl⟩

theorem snd_modify (f : Chunk → Chunk) (i : Nat) (xs : List (Nat × Chunk)) :
    (xs.modify i (Prod.map id f)).map Prod.snd = (xs.map Prod.snd).modify i f := by
  induction xs generalizing i with
  | nil => simp only [List.modify_nil, List.map_nil]
  | cons x xs ih =>
    cases i with
    | zero => rfl
    | succ i => simp only [List.modify_succ_cons, List.map_cons, ih]

theorem contents_edit (h : cq.Links xs us) (i : Nat) (f : Chunk → Chunk) :
    ∃ cq' xs' us', cq.edit f i cq.first = some cq' ∧ cq'.Links xs' us' ∧
      cq'.contents xs' us' = (cq.contents xs us).modify i f := by
  obtain ⟨cq', hrun, hlinks, hsame, hcount⟩ := edit_spec f [] i h
  rw [← h.first.start_eq] at hrun
  refine ⟨cq', _, us, hrun, hlinks, ?_⟩
  simp only [contents, Chunkqueue.modify, hsame.tempdirs, hsame.bytesIn, hsame.bytesOut, hcount,
    List.nil_append]
  rw [snd_modify]

theorem contents_removeFinishedChunks (h : cq.Links xs us) {fuel : Nat} (hfuel : xs.length < fuel) :
    ∃ cq' us' calls, cq.removeFinishedChunks fuel = some (cq', calls) ∧
      cq'.Links (xs.dropWhile finished) us' ∧
      chunkqueueRemoveFinishedChunks (cq.contents xs us) =
        (cq'.contents (xs.dropWhile finished) us', calls) := by
  obtain ⟨cq', us', calls, hrun, hlinks, hsame, hlist⟩ := removeFinishedChunks_spec fuel h hfuel
  refine ⟨cq', us', calls, hrun, hlinks, ?_⟩
  simp only [contents, chunkqueueRemoveFinishedChunks, hlist, hsame.tempdirs, hsame.bytesIn,
    hsame.bytesOut]

theorem contents_reset (h : cq.Links xs us) {fuel : Nat} (hfuel : xs.length < fuel) :
    ∃ cq' us' calls, cq.reset fuel = some (cq', calls) ∧
      cq'.Links ((xs.map (Prod.map id markWritten)).dropWhile finished) us' ∧
      chunkqueueReset (cq.contents xs us) =
        (cq'.contents ((xs.map (Prod.map id markWritten)).dropWhile finished) us', calls) := by
  obtain ⟨cq₁, hmark, hmarked, hsame, hcount⟩ := markAll_spec [] fuel h hfuel
  rw [← h.first.start_eq] at hmark
  rw [List.nil_append] at hmarked
  obtain ⟨cq₂, us', calls, hrun, hlinks, hlist⟩ :=
    contents_removeFinishedChunks hmarked (by rw [List.length_map]; exact hfuel)
  refine ⟨{ cq₂ with bytesIn := 0, bytesOut := 0 }, us', calls, ?_,
    ⟨hlinks.first, hlinks.unused, hlinks.last, hlinks.nodup, hlinks.count⟩, ?_⟩
  · simp only [reset, hmark, hrun, Option.bind_eq_bind, Option.bind_some]
  · have hcontents : cq₁.contents (xs.map (Prod.map id markWritten)) us =
        { cq.contents xs us with first := (cq.contents xs us).first.map markWritten } := by
      simp only [contents, hsame.tempdirs, hsame.bytesIn, hsame.bytesOut, hcount, List.map_map]
      rfl
    rw [hcontents] at hlist
    simp only [chunkqueueReset, hlist]
    rfl

theorem dropEmptyBehind_unused (cs unused : List Chunk) :
    unused.length ≤ (dropEmptyBehind cs unused).2.length := by
  fun_induction dropEmptyBehind cs unused with
  | case1 unused c d cs hempty cs' unused' heq ih =>
    rw [heq, List.length_cons] at ih
    exact Nat.le_of_succ_le ih
  | case2 unused c d cs hempty cs' unused' heq ih =>
    rw [heq] at ih
    exact ih
  | case3 => exact Nat.le_refl _

theorem dropEmpty_unused (cs unused : List Chunk) :
    unused.length ≤ (Lighttpd.dropEmpty cs unused).2.length := by
  fun_induction Lighttpd.dropEmpty cs unused with
  | case1 unused c cs hempty ih => exact Nat.le_of_succ_le ih
  | case2 unused c cs hempty => exact dropEmptyBehind_unused _ _
  | case3 => exact Nat.le_refl _

theorem contents_dropEmpty (h : cq.Links xs us) {fuel : Nat} (hfuel : xs.length < fuel) :
    ∃ cq' xs' us', dropEmpty fuel cq.first cq = some cq' ∧ cq'.Links xs' us' ∧
      cq'.contents xs' us' = dropEmptyChunks (cq.contents xs us) := by
  obtain ⟨cq', xs', us', hrun, hlinks, hsame, hlist⟩ := dropEmpty_spec fuel h hfuel
  refine ⟨cq', xs', us', hrun, hlinks, ?_⟩
  have hmore := dropEmpty_unused (xs.map Prod.snd) (us.map Prod.snd)
  rw [hlist, List.length_map, List.length_map] at hmore
  have hcount : us'.length = us.length + (us'.length - us.length) := by omega
  simp only [contents, dropEmptyChunks, hlist, List.length_map, hlinks.count, h.count, ← hcount,
    hsame.tempdirs, hsame.bytesIn, hsame.bytesOut]

theorem contents_appendNew (h : cq.Links xs us) (f : Chunk → Chunk) :
    ∃ cq' xs' us', cq.appendNew f = some cq' ∧ cq'.Links xs' us' ∧ cq'.contents xs' us' =
      let (l, c) := chunkqueueGetUnusedChunk (cq.contents xs us)
      chunkqueueAppendChunk l (f c) := appendNew_spec h f

theorem contents_prependNew (h : cq.Links xs us) (f : Chunk → Chunk) :
    ∃ cq' xs' us', cq.prependNew f = some cq' ∧ cq'.Links xs' us' ∧ cq'.contents xs' us' =
      let (l, c) := chunkqueueGetUnusedChunk (cq.contents xs us)
      chunkqueuePrependChunk l (f c) := prependNew_spec h f

section Steps

variable [Malloc]

theorem contents_getAppendTempfile (h : cq.Links xs us) (answers : Nat → MkstempAnswer) :
    Gives (cq.getAppendTempfile answers)
      (chunkqueueGetAppendTempfile (cq.contents xs us) answers) := by
  have hdirs : (chunkqueueGetUnusedChunk (cq.contents xs us)).1.tempdirs = cq.tempdirs := by
    unfold chunkqueueGetUnusedChunk
    split <;> rfl
  unfold getAppendTempfile chunkqueueGetAppendTempfile
  simp only [hdirs]
  generalize createTempfile cq.tempdirs answers = made
  obtain ⟨fd, template⟩ := made
  obtain ⟨cq', xs', us', hrun, hlinks, hcontents⟩ := appendNew_spec h fun c =>
    let file := { c.file with
      fd := fd
      isTemp := if fd.isSome then true else c.file.isTemp
      name := bufferCopyStringBuffer c.file.name template
      length := 0 }
    { c with type := .file, offset := 0, file := file }
  refine ⟨cq', xs', us', if fd.isSome then [.mkstemp template.str] else [], ?_, hlinks, ?_⟩
  · simp only [hrun, Option.bind_eq_bind, Option.bind_some]
  · rw [hcontents]

/-- **The pointers do what the lists do**, and no operation follows a pointer that leads nowhere. -/
theorem step_spec (h : cq.Links xs us) (op : LinkOp) :
    Gives (cq.step op) ((cq.contents xs us).step op) := by
  have hfuel : xs.length < cq.heap.length + 1 := Nat.lt_succ_of_le h.length_le
  cases op with
  | edit i f => exact Gives.silent (contents_edit h i f)
  | setTempdirs tempdirs =>
    exact ⟨_, xs, us, [], rfl, ⟨h.first, h.unused, h.last, h.nodup, h.count⟩, rfl⟩
  | dropEmptyChunks => exact Gives.silent (contents_dropEmpty h hfuel)
  | op op =>
    cases op with
    | appendFile fn offset len =>
      apply Gives.silent
      unfold appendFile chunkqueueAppendFile
      by_cases hlen : len = 0
      · rw [if_pos hlen, if_pos hlen]
        exact ⟨cq, xs, us, rfl, h, rfl⟩
      · rw [if_neg hlen, if_neg hlen]
        exact contents_appendNew h _
    | appendBuffer mem =>
      apply Gives.silent
      unfold appendBuffer chunkqueueAppendBuffer
      by_cases hempty : mem.used = 0
      · rw [if_pos hempty, if_pos hempty]
        exact ⟨cq, xs, us, rfl, h, rfl⟩
      · rw [if_neg hempty, if_neg hempty]
        exact contents_appendNew h _
    | appendBufferWeak mem => exact Gives.silent (contents_appendNew h _)
    | prependBuffer mem =>
      apply Gives.silent
      unfold prependBuffer chunkqueuePrependBuffer
      by_cases hempty : mem.used = 0
      · rw [if_pos hempty, if_pos hempty]
        exact ⟨cq, xs, us, rfl, h, rfl⟩
      · rw [if_neg hempty, if_neg hempty]
        exact contents_prependNew h _
    | appendMem mem =>
      apply Gives.silent
      unfold appendMem chunkqueueAppendMem
      by_cases hempty : mem.length = 0
      · rw [if_pos hempty, if_pos hempty]
        exact ⟨cq, xs, us, rfl, h, rfl⟩
      · rw [if_neg hempty, if_neg hempty]
        exact contents_appendNew h _
    | getPrependBuffer => exact Gives.silent (contents_prependNew h _)
    | getAppendBuffer => exact Gives.silent (contents_appendNew h _)
    | getAppendTempfile answers => exact contents_getAppendTempfile h answers
    | fill i data => exact Gives.silent (contents_edit h i _)
    | grow i n => exact Gives.silent (contents_edit h i _)
    | advance i n => exact Gives.silent (contents_edit h i _)
    | removeFinishedChunks =>
      obtain ⟨cq', us', calls, hrun, hlinks, hlist⟩ := contents_removeFinishedChunks h hfuel
      exact ⟨cq', _, us', calls, hrun, hlinks, hlist⟩
    | reset =>
      obtain ⟨cq', us', calls, hrun, hlinks, hlist⟩ := contents_reset h hfuel
      exact ⟨cq', _, us', calls, hrun, hlinks, hlist⟩

end Steps

end LinkedQueue

/-! ## Types and sizes -/

/-- Every queued chunk has a type, and `used` is a `size_t` in all chunks. -/
structure Chunkqueue.Typed (cq : Chunkqueue) : Prop where
  type : ∀ c ∈ cq.first, c.type ≠ .unused
  first : ∀ c ∈ cq.first, c.mem.used < 2 ^ 32
  unused : ∀ c ∈ cq.unused, c.mem.used < 2 ^ 32

/-- Sizes fit into a `size_t`, and a user does not change the type of a chunk. -/
def LinkedQueue.LinkOp.Fits : LinkOp → Prop
  | .op (.appendBuffer mem) => mem.used < 2 ^ 32
  | .op (.appendBufferWeak mem) => mem.used < 2 ^ 32
  | .op (.prependBuffer mem) => mem.used < 2 ^ 32
  | .op (.appendMem mem) => mem.length < 2 ^ 32
  | .op (.fill _ data) => data.length + 1 < 2 ^ 32
  | .edit _ f => ∀ c, (f c).type = c.type ∧ (c.mem.used < 2 ^ 32 → (f c).mem.used < 2 ^ 32)
  | _ => True

theorem bufferCopyStringBuffer_used [Malloc] (b src : Buffer) :
    (bufferCopyStringBuffer b src).used ≤ src.used := by
  unfold bufferCopyStringBuffer
  split
  · simp
  · rw [bufferCopyStringLen_used, List.length_take]
    omega

theorem mem_dropEmptyBehind (cs unused : List Chunk) :
    (∀ c ∈ (dropEmptyBehind cs unused).1, c ∈ cs) ∧
      ∀ c ∈ (dropEmptyBehind cs unused).2, c ∈ cs ∨ c ∈ unused := by
  fun_induction dropEmptyBehind cs unused with
  | case1 unused c d cs hempty cs' unused' heq ih =>
    rw [heq] at ih
    refine ⟨fun e he => ?_, fun e he => ?_⟩
    · rcases List.mem_cons.mp he with rfl | he
      · exact List.mem_cons_self
      · exact List.mem_cons_of_mem _ (List.mem_cons_of_mem _ (ih.1 e he))
    · rcases ih.2 e he with he | he
      · exact Or.inl (List.mem_cons_of_mem _ (List.mem_cons_of_mem _ he))
      · rcases List.mem_cons.mp he with rfl | he
        · exact Or.inl (List.mem_cons_of_mem _ List.mem_cons_self)
        · exact Or.inr he
  | case2 unused c d cs hempty cs' unused' heq ih =>
    rw [heq] at ih
    refine ⟨fun e he => ?_, fun e he => ?_⟩
    · rcases List.mem_cons.mp he with rfl | he
      · exact List.mem_cons_self
      · exact List.mem_cons_of_mem _ (ih.1 e he)
    · exact (ih.2 e he).imp_left (List.mem_cons_of_mem _)
  | case3 => exact ⟨fun e he => he, fun e he => Or.inr he⟩

theorem mem_dropEmpty (cs unused : List Chunk) :
    (∀ c ∈ (dropEmpty cs unused).1, c ∈ cs) ∧
      ∀ c ∈ (dropEmpty cs unused).2, c ∈ cs ∨ c ∈ unused := by
  fun_induction dropEmpty cs unused with
  | case1 unused c cs hempty ih =>
    refine ⟨fun e he => List.mem_cons_of_mem _ (ih.1 e he), fun e he => ?_⟩
    rcases ih.2 e he with he | he
    · exact Or.inl (List.mem_cons_of_mem _ he)
    · rcases List.mem_cons.mp he with rfl | he
      · exact Or.inl List.mem_cons_self
      · exact Or.inr he
  | case2 unused c cs hempty => exact mem_dropEmptyBehind _ _
  | case3 => exact ⟨fun e he => he, fun e he => Or.inr he⟩

namespace Chunkqueue.Typed

variable {l : Chunkqueue} {c : Chunk}

theorem getUnusedChunk (h : l.Typed) : (chunkqueueGetUnusedChunk l).1.Typed ∧
    (chunkqueueGetUnusedChunk l).2.mem.used < 2 ^ 32 := by
  unfold chunkqueueGetUnusedChunk
  cases hunused : l.unused with
  | nil => exact ⟨h, Nat.two_pow_pos 32⟩
  | cons c cs =>
    have hall := h.unused
    rw [hunused] at hall
    exact ⟨⟨h.type, h.first, fun d hd => hall d (List.mem_cons_of_mem c hd)⟩,
      hall c List.mem_cons_self⟩

theorem append (h : l.Typed) (htype : c.type ≠ .unused) (hused : c.mem.used < 2 ^ 32) :
    (chunkqueueAppendChunk l c).Typed := by
  refine ⟨fun d hd => ?_, fun d hd => ?_, h.unused⟩
  · rcases List.mem_append.mp hd with hd | hd
    · exact h.type d hd
    · rw [List.mem_singleton.mp hd]
      exact htype
  · rcases List.mem_append.mp hd with hd | hd
    · exact h.first d hd
    · rw [List.mem_singleton.mp hd]
      exact hused

theorem prepend (h : l.Typed) (htype : c.type ≠ .unused) (hused : c.mem.used < 2 ^ 32) :
    (chunkqueuePrependChunk l c).Typed :=
  ⟨List.forall_mem_cons.mpr ⟨htype, h.type⟩, List.forall_mem_cons.mpr ⟨hused, h.first⟩, h.unused⟩

theorem modify (h : l.Typed) {f : Chunk → Chunk} (htype : ∀ c, (f c).type = c.type)
    (hused : ∀ c, c.mem.used < 2 ^ 32 → (f c).mem.used < 2 ^ 32) (i : Nat) :
    (l.modify i f).Typed := by
  have hmem : ∀ d ∈ l.first.modify i f, ∃ c ∈ l.first, d = c ∨ d = f c := by
    intro d hd
    obtain ⟨k, hk, rfl⟩ := List.mem_iff_getElem.mp hd
    rw [List.length_modify] at hk
    rw [List.getElem_modify]
    refine ⟨l.first[k], List.getElem_mem hk, ?_⟩
    by_cases hik : i = k
    · rw [if_pos hik]
      exact Or.inr rfl
    · rw [if_neg hik]
      exact Or.inl rfl
  refine ⟨fun d hd => ?_, fun d hd => ?_, h.unused⟩
  · obtain ⟨c, hc, rfl | rfl⟩ := hmem d hd
    · exact h.type _ hc
    · rw [htype]
      exact h.type c hc
  · obtain ⟨c, hc, rfl | rfl⟩ := hmem d hd
    · exact h.first _ hc
    · exact hused c (h.first c hc)

theorem removeFinishedChunks (h : l.Typed) : (chunkqueueRemoveFinishedChunks l).1.Typed := by
  have hstays := (removeFinished_subset l.first l.unused l.unusedChunks).1
  refine ⟨fun c hc => h.type c (hstays c hc), fun c hc => h.first c (hstays c hc), ?_⟩
  show ∀ c ∈ (removeFinished l.first l.unused l.unusedChunks).2.1, c.mem.used < 2 ^ 32
  have hunused := h.unused
  generalize l.unused = unused at hunused
  generalize l.unusedChunks = n
  induction l.first generalizing unused n with
  | nil => exact hunused
  | cons c cs ih =>
    unfold removeFinished
    split
    · apply ih
      unfold keepUnused
      split
      · exact hunused
      · refine List.forall_mem_cons.mpr ⟨?_, hunused⟩
        simp only [chunkReset, bufferReset_used]
        decide
    · exact hunused

theorem markWritten (h : l.Typed) :
    Chunkqueue.Typed { l with first := l.first.map Lighttpd.markWritten } := by
  have hsame : ∀ c : Chunk, (Lighttpd.markWritten c).type = c.type ∧
      (Lighttpd.markWritten c).mem = c.mem := by
    intro c
    unfold Lighttpd.markWritten
    split <;> exact ⟨rfl, rfl⟩
  refine ⟨fun d hd => ?_, fun d hd => ?_, h.unused⟩
  · obtain ⟨c, hc, rfl⟩ := List.mem_map.mp hd
    rw [(hsame c).1]
    exact h.type c hc
  · obtain ⟨c, hc, rfl⟩ := List.mem_map.mp hd
    rw [(hsame c).2]
    exact h.first c hc

theorem dropEmptyChunks (h : l.Typed) : (Lighttpd.dropEmptyChunks l).Typed := by
  obtain ⟨hstays, hunused⟩ := mem_dropEmpty l.first l.unused
  refine ⟨fun c hc => h.type c (hstays c hc), fun c hc => h.first c (hstays c hc), ?_⟩
  intro c hc
  rcases hunused c hc with hc | hc
  · exact h.first c hc
  · exact h.unused c hc

theorem step [Malloc] (h : l.Typed) {op : LinkedQueue.LinkOp} (hfits : op.Fits) :
    (l.step op).1.Typed := by
  obtain ⟨hl, hc⟩ := h.getUnusedChunk
  have hsmall : (0 : Nat) < 2 ^ 32 := Nat.two_pow_pos 32
  cases op with
  | edit i f => exact h.modify (fun c => (hfits c).1) (fun c => (hfits c).2) i
  | setTempdirs tempdirs => exact ⟨h.type, h.first, h.unused⟩
  | dropEmptyChunks => exact h.dropEmptyChunks
  | op op =>
    cases op with
    | appendFile fn offset len =>
      by_cases hlen : len = 0
      · simp only [Chunkqueue.step, ChunkOp.apply, chunkqueueAppendFile, if_pos hlen]
        exact h
      · simp only [Chunkqueue.step, ChunkOp.apply, chunkqueueAppendFile, if_neg hlen]
        exact hl.append ChunkType.noConfusion hc
    | appendBuffer mem =>
      by_cases hempty : mem.used = 0
      · simp only [Chunkqueue.step, ChunkOp.apply, chunkqueueAppendBuffer, if_pos hempty]
        exact h
      · simp only [Chunkqueue.step, ChunkOp.apply, chunkqueueAppendBuffer, if_neg hempty]
        exact hl.append ChunkType.noConfusion
          (Nat.lt_of_le_of_lt (bufferCopyStringBuffer_used _ _) hfits)
    | appendBufferWeak mem => exact hl.append ChunkType.noConfusion hfits
    | prependBuffer mem =>
      by_cases hempty : mem.used = 0
      · simp only [Chunkqueue.step, ChunkOp.apply, chunkqueuePrependBuffer, if_pos hempty]
        exact h
      · simp only [Chunkqueue.step, ChunkOp.apply, chunkqueuePrependBuffer, if_neg hempty]
        exact hl.prepend ChunkType.noConfusion
          (Nat.lt_of_le_of_lt (bufferCopyStringBuffer_used _ _) hfits)
    | appendMem mem =>
      by_cases hempty : mem.length = 0
      · simp only [Chunkqueue.step, ChunkOp.apply, chunkqueueAppendMem, if_pos hempty]
        exact h
      · simp only [Chunkqueue.step, ChunkOp.apply, chunkqueueAppendMem, if_neg hempty]
        apply hl.append ChunkType.noConfusion
        have hlen : mem.length < 2 ^ 32 := hfits
        simp only [bufferCopyStringLen_used, List.length_take]
        omega
    | getPrependBuffer =>
      apply hl.prepend ChunkType.noConfusion
      simp only [bufferReset_used]
      exact hsmall
    | getAppendBuffer =>
      apply hl.append ChunkType.noConfusion
      simp only [bufferReset_used]
      exact hsmall
    | getAppendTempfile answers => exact hl.append ChunkType.noConfusion hc
    | fill i data =>
      refine h.modify (fun c => ?_) (fun c hc => ?_) i
      · unfold fillChunk
        split <;> rfl
      · unfold fillChunk
        split
        · exact hfits
        · exact hc
    | grow i n =>
      refine h.modify (fun c => ?_) (fun c hc => ?_) i
      · unfold growChunk
        split <;> rfl
      · unfold growChunk
        split <;> exact hc
    | advance i n => exact h.modify (f := advanceChunk n) (fun c => rfl) (fun c hc => hc) i
    | removeFinishedChunks => exact h.removeFinishedChunks
    | reset =>
      have hremoved := h.markWritten.removeFinishedChunks
      exact ⟨hremoved.type, hremoved.first, hremoved.unused⟩

theorem finished_markWritten (h : l.Typed) :
    ∀ c ∈ l.first, chunkIsFinished (Lighttpd.markWritten c) :=
  fun c hc => Lighttpd.finished_markWritten (h.type c hc) (h.first c hc)

end Chunkqueue.Typed

/-! ## Runs -/

namespace LinkedQueue

section Runs

variable [Malloc]

def next (cq : LinkedQueue) (op : LinkOp) : Option LinkedQueue := (cq.step op).map Prod.fst

def Reached : LinkedQueue → Prop :=
  Reachable next (fun _ op => op.Fits) fun cq => ∃ heap, cq = init heap

theorem Reached.links {cq : LinkedQueue} (h : cq.Reached) :
    ∃ xs us, cq.Links xs us ∧ (cq.contents xs us).Typed := by
  refine Reachable.invariant
    (P := fun cq => ∃ xs us, cq.Links xs us ∧ (cq.contents xs us).Typed) ?_ ?_ h
  · rintro cq ⟨heap, rfl⟩
    exact ⟨[], [], ⟨rfl, rfl, rfl, List.nodup_nil, rfl⟩, by simp [contents], by simp [contents],
      by simp [contents]⟩
  · rintro cq op cq' ⟨xs, us, hlinks, htyped⟩ hfits hstep
    obtain ⟨cq₁, xs', us', calls, hrun, hlinks', hlist⟩ := step_spec hlinks op
    rw [next, hrun] at hstep
    obtain rfl : cq₁ = cq' := Option.some.inj hstep
    have htyped' := htyped.step hfits
    rw [hlist] at htyped'
    exact ⟨xs', us', hlinks', htyped'⟩

/-- In every run the two lists have no chunk in common, `last` is the last chunk, and `unusedChunks`
counts the other list; finished chunks in front are removed, and a reset queue is empty. -/
theorem linksSound {cq : LinkedQueue} (h : cq.Reached) :
    (∀ op, (cq.step op).isSome) ∧ ∃ xs us,
      Chain cq.heap cq.first xs none ∧ Chain cq.heap cq.unused us none ∧
      (xs.map Prod.fst).Nodup ∧ (us.map Prod.fst).Nodup ∧
      (∀ a ∈ xs.map Prod.fst, a ∉ us.map Prod.fst) ∧
      cq.last = xs.getLast?.map Prod.fst ∧ (cq.last = none ↔ cq.first = none) ∧
      cq.unusedChunks = us.length ∧
      (∃ cq' us' calls, cq.step (.op .removeFinishedChunks) = some (cq', calls) ∧
        cq'.Links (xs.dropWhile fun x => chunkIsFinished x.2) us') ∧
      ∃ cq' us' calls, cq.step (.op .reset) = some (cq', calls) ∧ cq'.Links [] us' := by
  obtain ⟨xs, us, hlinks, htyped⟩ := h.links
  have hfuel : xs.length < cq.heap.length + 1 := Nat.lt_succ_of_le hlinks.length_le
  refine ⟨fun op => ?_, xs, us, hlinks.first, hlinks.unused, hlinks.first_nodup,
    hlinks.unused_nodup, fun a ha => hlinks.disjoint ha, hlinks.last, ?_, hlinks.count, ?_, ?_⟩
  · obtain ⟨cq', xs', us', calls, hrun, -⟩ := step_spec hlinks op
    exact Option.isSome_of_eq_some hrun
  · rw [hlinks.last, hlinks.first.start_eq]
    simp
  · obtain ⟨cq', us', calls, hrun, hlinks', -⟩ := contents_removeFinishedChunks hlinks hfuel
    exact ⟨cq', us', calls, hrun, hlinks'⟩
  · obtain ⟨cq', us', calls, hrun, hlinks', -⟩ := contents_reset hlinks hfuel
    have hnone : (xs.map (Prod.map id markWritten)).dropWhile finished = [] := by
      rw [List.dropWhile_eq_nil_iff]
      intro y hy
      obtain ⟨x, hx, rfl⟩ := List.mem_map.mp hy
      exact htyped.finished_markWritten x.2 (List.mem_map_of_mem hx)
    rw [hnone] at hlinks'
    exact ⟨cq', us', calls, hrun, hlinks'⟩

end Runs

theorem linksSound_twoEmpty : letI : Malloc := zeroMalloc
    ∃ cq : LinkedQueue, cq.Reached ∧ cq.unusedChunks = 2 ∧ (cq.last = none ↔ cq.first = none) ∧
      ∀ op, (cq.step op).isSome := by
  let _ : Malloc := zeroMalloc
  -- both chunks are empty and taken out
  have hrun : (([.op .getAppendBuffer, .op .getAppendBuffer, .dropEmptyChunks] :
      List LinkOp).foldlM next (init [])).map (·.unusedChunks) = some 2 := by decide +kernel
  obtain ⟨cq, hcq, hcount⟩ := Option.map_eq_some_iff.mp hrun
  have hreached : cq.Reached := by
    refine Reachable.run (fun op hop _ => ?_) (Reachable.start ⟨[], rfl⟩) hcq
    rcases List.mem_cons.mp hop with rfl | hop
    · trivial
    · rcases List.mem_cons.mp hop with rfl | hop
      · trivial
      · rw [List.mem_singleton.mp hop]
        trivial
  obtain ⟨hsteps, xs, us, -, -, -, -, -, -, hlast, -⟩ := linksSound hreached
  exact ⟨cq, hreached, hcount, hlast, hsteps⟩

end LinkedQueue

end Lighttpd
