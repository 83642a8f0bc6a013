import Lighttpd.ChunkRecycle
import Lighttpd.Connections.ReadState
import Lighttpd.Lib.LinkedList
import Mathlib.Data.List.Perm.Subperm

/-!
# The links of a queue

`chunkqueue` as it is in memory: chunks with their `next` pointers, `first`, `last` and `unused`.
The functions of `chunk.c` and the loop of `connection_handle_read_state` that takes out empty
chunks are the functions on lists, one step after the other (`Linked.step`), so the pointers are
right in every run (`linksSound`).
-/

namespace Lighttpd

open CLib

/-- `chunkqueue` in a heap of chunks. -/
structure LinkedQueue where
  heap : Heap (Cell Chunk)
  first : Option Nat
  last : Option Nat
  unused : Option Nat
  unusedChunks : Nat
  tempdirs : Option (List Buffer)
  bytesIn : Int
  bytesOut : Int
  deriving DecidableEq, Repr

namespace LinkedQueue

/-- `chunkqueue_init` -/
def init (heap : Heap (Cell Chunk)) : LinkedQueue where
  heap := heap
  first := none
  last := none
  unused := none
  unusedChunks := 0
  tempdirs := none
  bytesIn := 0
  bytesOut := 0

/-! ## Single chunks

A pointer to no chunk has no value. -/

/-- `chunkqueue_get_unused_chunk` -/
def getUnusedChunk (cq : LinkedQueue) : Option (Nat × LinkedQueue) :=
  match cq.unused with
  | none =>
    let (a, heap) := cq.heap.alloc ⟨chunkInit, none⟩
    some (a, { cq with heap := heap })
  | some a => do
    let c ← cq.heap.get a
    some (a, { cq with
      heap := cq.heap.put a ⟨c.value, none⟩
      unused := c.next
      unusedChunks := cq.unusedChunks - 1 })

/-- The fields of a chunk but for `next` are written. -/
def write (f : Chunk → Chunk) (a : Nat) (cq : LinkedQueue) : Option LinkedQueue := do
  let c ← cq.heap.get a
  some { cq with heap := cq.heap.put a ⟨f c.value, c.next⟩ }

/-- `chunkqueue_prepend_chunk` -/
def prependChunk (a : Nat) (cq : LinkedQueue) : Option LinkedQueue := do
  let c ← cq.heap.get a
  some { cq with
    heap := cq.heap.put a ⟨c.value, cq.first⟩
    first := some a
    last := if cq.last = none then some a else cq.last }

/-- `chunkqueue_append_chunk` -/
def appendChunk (a : Nat) (cq : LinkedQueue) : Option LinkedQueue :=
  match cq.last with
  | none => some { cq with last := some a, first := if cq.first = none then some a else cq.first }
  | some l => do
    let c ← cq.heap.get l
    some { cq with
      heap := cq.heap.put l ⟨c.value, some a⟩
      last := some a
      first := if cq.first = none then some a else cq.first }

def appendNew (f : Chunk → Chunk) (cq : LinkedQueue) : Option LinkedQueue := do
  let (a, cq) ← cq.getUnusedChunk
  let cq ← cq.write f a
  cq.appendChunk a

def prependNew (f : Chunk → Chunk) (cq : LinkedQueue) : Option LinkedQueue := do
  let (a, cq) ← cq.getUnusedChunk
  let cq ← cq.write f a
  cq.prependChunk a

/-! ## Loops

A loop over the chunks ends when it has no more of them, or has no value if `fuel` turns are not
enough. -/

/-- `chunkqueue_remove_finished_chunks` -/
def removeFinishedChunks : Nat → LinkedQueue → Option (LinkedQueue × List Syscall)
  | 0, _ => none
  | fuel + 1, cq =>
    match cq.first with
    | none => some (cq, [])
    | some a => do
      let c ← cq.heap.get a
      if ¬ chunkIsFinished c.value then some (cq, [])
      else
        let (value, calls) := chunkReset c.value
        let cq := { cq with
          heap := cq.heap.put a ⟨value, c.next⟩
          first := c.next
          last := if cq.last = some a then none else cq.last }
        let cq :=
          if cq.unusedChunks > 4 then { cq with heap := cq.heap.free a }
          else { cq with
            heap := cq.heap.put a ⟨value, cq.unused⟩
            unused := some a
            unusedChunks := cq.unusedChunks + 1 }
        let (cq, more) ← removeFinishedChunks fuel cq
        some (cq, calls ++ more)

/-- The loop of `chunkqueue_reset` that marks all chunks as written. -/
def markAll : Nat → Option Nat → LinkedQueue → Option LinkedQueue
  | 0, _, _ => none
  | _ + 1, none, cq => some cq
  | fuel + 1, some a, cq => do
    let c ← cq.heap.get a
    markAll fuel c.next { cq with heap := cq.heap.put a ⟨markWritten c.value, c.next⟩ }

def reset (fuel : Nat) (cq : LinkedQueue) : Option (LinkedQueue × List Syscall) := do
  let cq ← markAll fuel cq.first cq
  let (cq, calls) ← removeFinishedChunks fuel cq
  some ({ cq with bytesIn := 0, bytesOut := 0 }, calls)

def release (a : Nat) (value : Chunk) (cq : LinkedQueue) : LinkedQueue :=
  { cq with
    heap := cq.heap.put a ⟨value, cq.unused⟩, unused := some a, unusedChunks := cq.unusedChunks + 1 }

/-- The loop of `connection_handle_read_state` that takes out empty chunks, with `c` at the first
argument. -/
def dropEmpty : Nat → Option Nat → LinkedQueue → Option LinkedQueue
  | 0, _, _ => none
  | _ + 1, none, cq => some cq
  | fuel + 1, some a, cq => do
    let c ← cq.heap.get a
    if cq.first = some a ∧ c.value.mem.used = 0 then
      let cq := { cq with first := c.next, last := if c.next = none then none else cq.last }
      let cq := cq.release a c.value
      dropEmpty fuel cq.first cq
    else
      match c.next with
      | none => dropEmpty fuel none cq
      | some b => do
        let fc ← cq.heap.get b
        if fc.value.mem.used = 0 then
          let cq := { cq with heap := cq.heap.put a ⟨c.value, fc.next⟩ }
          let cq := cq.release b fc.value
          let cq := { cq with last := if fc.next = none then some a else cq.last }
          dropEmpty fuel fc.next cq
        else dropEmpty fuel (some b) cq

/-- A user writes to the chunk in the `i`-th place behind a pointer, if there is one. -/
def edit (f : Chunk → Chunk) : Nat → Option Nat → LinkedQueue → Option LinkedQueue
  | _, none, cq => some cq
  | 0, some a, cq => cq.write f a
  | i + 1, some a, cq => do
    let c ← cq.heap.get a
    edit f i c.next cq

/-! ## What the pointers stand for -/

/-- The queue as a list: `xs` are its chunks with their addresses, `us` those on the stack. -/
def contents (cq : LinkedQueue) (xs us : List (Nat × Chunk)) : Chunkqueue where
  first := xs.map Prod.snd
  unused := us.map Prod.snd
  unusedChunks := cq.unusedChunks
  tempdirs := cq.tempdirs
  bytesIn := cq.bytesIn
  bytesOut := cq.bytesOut

/-- The pointers are right: the two chains have no chunk in common, and `last` is the last one. -/
structure Links (cq : LinkedQueue) (xs us : List (Nat × Chunk)) : Prop where
  first : Chain cq.heap cq.first xs none
  unused : Chain cq.heap cq.unused us none
  last : cq.last = xs.getLast?.map Prod.fst
  nodup : ((xs ++ us).map Prod.fst).Nodup
  count : cq.unusedChunks = us.length

/-- A chunk is taken: nothing points to it, and it points nowhere. -/
structure Taken (cq : LinkedQueue) (xs us : List (Nat × Chunk)) (a : Nat) (v : Chunk) : Prop where
  links : cq.Links xs us
  cell : cq.heap.get a = some ⟨v, none⟩
  out : a ∉ (xs ++ us).map Prod.fst

variable {cq : LinkedQueue} {xs us : List (Nat × Chunk)} {a : Nat} {v : Chunk}

namespace Links

theorem first_nodup (h : cq.Links xs us) : (xs.map Prod.fst).Nodup := by
  have hall := h.nodup
  rw [List.map_append, List.nodup_append] at hall
  exact hall.1

theorem unused_nodup (h : cq.Links xs us) : (us.map Prod.fst).Nodup := by
  have hall := h.nodup
  rw [List.map_append, List.nodup_append] at hall
  exact hall.2.1

theorem disjoint (h : cq.Links xs us) (ha : a ∈ xs.map Prod.fst) : a ∉ us.map Prod.fst := by
  have hall := h.nodup
  rw [List.map_append, List.nodup_append] at hall
  intro hu
  exact hall.2.2 a ha a hu rfl

theorem length_le (h : cq.Links xs us) : xs.length ≤ cq.heap.length := by
  have hsub : xs.map Prod.fst ⊆ List.range cq.heap.length := by
    intro a ha
    obtain ⟨x, hx, rfl⟩ := List.mem_map.mp ha
    obtain ⟨next, hget⟩ := h.first.get_eq x hx
    exact List.mem_range.mpr (Heap.lt_of_get hget)
  have hle := (h.first_nodup.subperm hsub).length_le
  rwa [List.length_map, List.length_range] at hle

end Links

theorem nodup_middle {zs ys : List (Nat × Chunk)}
    (h : ((zs ++ (a, v) :: ys).map Prod.fst).Nodup) :
    a ∉ zs.map Prod.fst ∧ a ∉ ys.map Prod.fst ∧ ((zs ++ ys).map Prod.fst).Nodup := by
  have hmoved : (zs ++ (a, v) :: ys).Perm ((a, v) :: (zs ++ ys)) := List.perm_middle
  rw [(hmoved.map _).nodup_iff, List.map_cons, List.nodup_cons, List.map_append, List.mem_append,
    not_or] at h
  rw [List.map_append]
  exact ⟨h.1.1, h.1.2, h.2⟩

/-! ## Taking a chunk -/

theorem getUnusedChunk_spec (h : cq.Links xs us) : ∃ a cq' us' v,
    cq.getUnusedChunk = some (a, cq') ∧ cq'.Taken xs us' a v ∧
      chunkqueueGetUnusedChunk (cq.contents xs us) = (cq'.contents xs us', v) := by
  unfold getUnusedChunk
  cases us with
  | nil =>
    have hnone : cq.unused = none := h.unused
    rw [hnone]
    refine ⟨_, _, [], chunkInit, rfl, ⟨⟨h.first.alloc _, rfl, h.last, h.nodup, h.count⟩,
      Heap.get_alloc_self _, ?_⟩, rfl⟩
    rw [List.append_nil]
    exact h.first.fresh
  | cons u us =>
    obtain ⟨a, v⟩ := u
    obtain ⟨hsome, next, hget, hrest⟩ := h.unused
    have hxs : a ∉ xs.map Prod.fst := fun ha => h.disjoint ha List.mem_cons_self
    have hus : a ∉ us.map Prod.fst := (List.nodup_cons.mp h.unused_nodup).1
    have hsub : (xs ++ us).Sublist (xs ++ (a, v) :: us) :=
      (List.sublist_cons_self _ _).append_left xs
    rw [hsome]
    simp only [hget, Option.bind_eq_bind, Option.bind_some]
    refine ⟨_, _, us, v, rfl, ⟨⟨h.first.put hxs _, hrest.put hus _, h.last,
      h.nodup.sublist (hsub.map _), ?_⟩, Heap.get_put_self hget _, ?_⟩, rfl⟩
    · simp only [h.count, List.length_cons, Nat.add_sub_cancel]
    · rw [List.map_append, List.mem_append, not_or]
      exact ⟨hxs, hus⟩

theorem Taken.write (h : cq.Taken xs us a v) (f : Chunk → Chunk) : ∃ cq',
    cq.write f a = some cq' ∧ cq'.Taken xs us a (f v) ∧
      cq'.contents xs us = cq.contents xs us := by
  have hxs : a ∉ xs.map Prod.fst := by
    intro ha
    exact h.out (by rw [List.map_append]; exact List.mem_append_left _ ha)
  have hus : a ∉ us.map Prod.fst := by
    intro ha
    exact h.out (by rw [List.map_append]; exact List.mem_append_right _ ha)
  unfold LinkedQueue.write
  simp only [h.cell, Option.bind_eq_bind, Option.bind_some]
  exact ⟨_, rfl, ⟨⟨h.links.first.put hxs _, h.links.unused.put hus _, h.links.last,
    h.links.nodup, h.links.count⟩, Heap.get_put_self h.cell _, h.out⟩, rfl⟩

theorem Taken.appendChunk (h : cq.Taken xs us a v) : ∃ cq',
    cq.appendChunk a = some cq' ∧ cq'.Links (xs ++ [(a, v)]) us ∧
      cq'.contents (xs ++ [(a, v)]) us = chunkqueueAppendChunk (cq.contents xs us) v := by
  have hout := h.out
  rw [List.map_append, List.mem_append, not_or] at hout
  have hnodup : ((xs ++ [(a, v)] ++ us).map Prod.fst).Nodup := by
    have hmoved : (xs ++ [(a, v)] ++ us).Perm ((a, v) :: (xs ++ us)) := by
      rw [List.append_assoc, List.singleton_append]
      exact List.perm_middle
    rw [(hmoved.map _).nodup_iff, List.map_cons, List.nodup_cons]
    exact ⟨h.out, h.links.nodup⟩
  have hlast : (xs ++ [(a, v)]).getLast?.map Prod.fst = some a := by simp
  have hcontents : ∀ cq' : LinkedQueue, cq'.unusedChunks = cq.unusedChunks →
      cq'.tempdirs = cq.tempdirs → cq'.bytesIn = cq.bytesIn → cq'.bytesOut = cq.bytesOut →
        cq'.contents (xs ++ [(a, v)]) us = chunkqueueAppendChunk (cq.contents xs us) v := by
    intro cq' h1 h2 h3 h4
    simp only [contents, chunkqueueAppendChunk, h1, h2, h3, h4, List.map_append, List.map_cons,
      List.map_nil]
  unfold LinkedQueue.appendChunk
  rcases List.eq_nil_or_concat' xs with rfl | ⟨ys, ⟨l, w⟩, rfl⟩
  · have hnone : cq.last = none := h.links.last
    have hfirst : cq.first = none := h.links.first
    rw [hnone, hfirst]
    refine ⟨_, rfl, ⟨⟨rfl, none, h.cell, rfl⟩, h.links.unused, hlast.symm, hnodup, h.links.count⟩,
      hcontents _ rfl rfl rfl rfl⟩
  · have hsome : cq.last = some l := by
      rw [h.links.last]
      simp
    obtain ⟨m, -, -, next, hget, hend⟩ := Chain.append_iff.mp h.links.first
    have hfirst : cq.first ≠ none := by
      rw [h.links.first.start_eq]
      cases ys with
      | nil => simp
      | cons _ _ => simp
    have hla : a ≠ l := by
      rintro rfl
      exact hout.1 (by simp)
    have hl : l ∈ (ys ++ [(l, w)]).map Prod.fst := by simp
    rw [hsome, if_neg hfirst]
    simp only [hget, Option.bind_eq_bind, Option.bind_some]
    refine ⟨_, rfl, ⟨?_, h.links.unused.put (h.links.disjoint hl) _, hlast.symm, hnodup,
      h.links.count⟩, hcontents _ rfl rfl rfl rfl⟩
    have hnew : Chain cq.heap (some a) [(a, v)] none := ⟨rfl, none, h.cell, rfl⟩
    rw [List.append_assoc]
    exact h.links.first.relink hnew (nodup_middle h.links.first_nodup).1
      (by simpa using Ne.symm hla) w

theorem Taken.prependChunk (h : cq.Taken xs us a v) : ∃ cq',
    cq.prependChunk a = some cq' ∧ cq'.Links ((a, v) :: xs) us ∧
      cq'.contents ((a, v) :: xs) us = chunkqueuePrependChunk (cq.contents xs us) v := by
  have hout := h.out
  rw [List.map_append, List.mem_append, not_or] at hout
  unfold LinkedQueue.prependChunk
  simp only [h.cell, Option.bind_eq_bind, Option.bind_some]
  refine ⟨_, rfl, ⟨⟨rfl, cq.first, Heap.get_put_self h.cell _, h.links.first.put hout.1 _⟩,
    h.links.unused.put hout.2 _, ?_, List.nodup_cons.mpr ⟨h.out, h.links.nodup⟩, h.links.count⟩,
    rfl⟩
  have hlast := h.links.last
  cases xs with
  | nil =>
    have hnone : cq.last = none := hlast
    simp [hnone]
  | cons x xs =>
    have hsome : cq.last ≠ none := by
      rw [hlast]
      simp
    change (if cq.last = none then some a else cq.last) = _
    rw [if_neg hsome, hlast, List.getLast?_cons_cons]

theorem appendNew_spec (h : cq.Links xs us) (f : Chunk → Chunk) : ∃ cq' xs' us',
    cq.appendNew f = some cq' ∧ cq'.Links xs' us' ∧ cq'.contents xs' us' =
      chunkqueueAppendChunk (chunkqueueGetUnusedChunk (cq.contents xs us)).1
        (f (chunkqueueGetUnusedChunk (cq.contents xs us)).2) := by
  obtain ⟨a, cq₁, us', v, hget, htaken, hlist⟩ := getUnusedChunk_spec h
  obtain ⟨cq₂, hwrite, htaken', hsame⟩ := htaken.write f
  obtain ⟨cq₃, happend, hlinks, hcontents⟩ := htaken'.appendChunk
  refine ⟨cq₃, _, us', ?_, hlinks, ?_⟩
  · simp only [appendNew, hget, hwrite, happend, Option.bind_eq_bind, Option.bind_some]
  · rw [hcontents, hsame, hlist]

theorem prependNew_spec (h : cq.Links xs us) (f : Chunk → Chunk) : ∃ cq' xs' us',
    cq.prependNew f = some cq' ∧ cq'.Links xs' us' ∧ cq'.contents xs' us' =
      chunkqueuePrependChunk (chunkqueueGetUnusedChunk (cq.contents xs us)).1
        (f (chunkqueueGetUnusedChunk (cq.contents xs us)).2) := by
  obtain ⟨a, cq₁, us', v, hget, htaken, hlist⟩ := getUnusedChunk_spec h
  obtain ⟨cq₂, hwrite, htaken', hsame⟩ := htaken.write f
  obtain ⟨cq₃, hprepend, hlinks, hcontents⟩ := htaken'.prependChunk
  refine ⟨cq₃, _, us', ?_, hlinks, ?_⟩
  · simp only [prependNew, hget, hwrite, hprepend, Option.bind_eq_bind, Option.bind_some]
  · rw [hcontents, hsame, hlist]

/-! ## Finished chunks -/

/-- The first chunk is not in the queue any more; `last` is fixed if it was the only one. -/
theorem Links.dropFirst (h : cq.Links ((a, v) :: xs) us) : ∃ next,
    cq.heap.get a = some ⟨v, next⟩ ∧ cq.first = some a ∧ Chain cq.heap next xs none ∧
      (if cq.last = some a then none else cq.last) = xs.getLast?.map Prod.fst ∧
      (if next = none then none else cq.last) = xs.getLast?.map Prod.fst ∧
      a ∉ xs.map Prod.fst ∧ a ∉ us.map Prod.fst ∧ ((xs ++ us).map Prod.fst).Nodup := by
  obtain ⟨hfirst, next, hget, hrest⟩ := h.first
  have hnodup := h.nodup
  rw [List.cons_append, List.map_cons, List.nodup_cons] at hnodup
  obtain ⟨hout, hnodup⟩ := hnodup
  rw [List.map_append, List.mem_append, not_or] at hout
  refine ⟨next, hget, hfirst, hrest, ?_, ?_, hout.1, hout.2, hnodup⟩
  · rw [h.last]
    cases xs with
    | nil => simp
    | cons x xs =>
      rw [List.getLast?_cons_cons, if_neg]
      intro heq
      obtain ⟨y, hy, hya⟩ := Option.map_eq_some_iff.mp heq
      exact hout.1 (List.mem_map.mpr ⟨y, List.mem_of_getLast? hy, hya⟩)
  · rw [h.last, hrest.start_eq]
    cases xs with
    | nil => rfl
    | cons x xs =>
      rw [List.getLast?_cons_cons]
      rfl

theorem Links.release (h : cq.Links xs us) (hget : (cq.heap.get a).isSome)
    (hout : a ∉ (xs ++ us).map Prod.fst) (w : Chunk) :
    (cq.release a w).Links xs ((a, w) :: us) := by
  obtain ⟨c, hc⟩ := Option.isSome_iff_exists.mp hget
  have hsplit := hout
  rw [List.map_append, List.mem_append, not_or] at hsplit
  refine ⟨h.first.put hsplit.1 _, ⟨rfl, cq.unused, Heap.get_put_self hc _,
    h.unused.put hsplit.2 _⟩, h.last, ?_, congrArg (· + 1) h.count⟩
  have hmoved : (xs ++ (a, w) :: us).Perm ((a, w) :: (xs ++ us)) := List.perm_middle
  rw [(hmoved.map _).nodup_iff, List.map_cons, List.nodup_cons]
  exact ⟨hout, h.nodup⟩

def finished (x : Nat × Chunk) : Bool := chunkIsFinished x.2

structure SameCounters (cq cq' : LinkedQueue) : Prop where
  tempdirs : cq'.tempdirs = cq.tempdirs
  bytesIn : cq'.bytesIn = cq.bytesIn
  bytesOut : cq'.bytesOut = cq.bytesOut

theorem removeFinishedChunks_spec : ∀ (fuel : Nat) {cq : LinkedQueue}
    {xs us : List (Nat × Chunk)}, cq.Links xs us → xs.length < fuel → ∃ cq' us' calls,
      cq.removeFinishedChunks fuel = some (cq', calls) ∧
        cq'.Links (xs.dropWhile finished) us' ∧ cq.SameCounters cq' ∧
        removeFinished (xs.map Prod.snd) (us.map Prod.snd) cq.unusedChunks =
          ((xs.dropWhile finished).map Prod.snd, us'.map Prod.snd,
            cq'.unusedChunks, calls)
  | 0, _, _, _, _, hfuel => by omega
  | fuel + 1, cq, xs, us, h, hfuel => by
    unfold LinkedQueue.removeFinishedChunks
    cases xs with
    | nil =>
      have hnone : cq.first = none := h.first
      rw [hnone]
      exact ⟨cq, us, [], rfl, h, ⟨rfl, rfl, rfl⟩, rfl⟩
    | cons x xs =>
      obtain ⟨a, v⟩ := x
      obtain ⟨next, hget, hfirst, hrest, hlast, -, hxs, hus, hnodup⟩ := h.dropFirst
      rw [hfirst]
      simp only [hget, Option.bind_eq_bind, Option.bind_some]
      by_cases hfinished : chunkIsFinished v
      · have hdrop : ((a, v) :: xs).dropWhile finished = xs.dropWhile finished :=
          List.dropWhile_cons_of_pos hfinished
        rw [if_neg (not_not.mpr hfinished), hdrop]
        have hfuel' : xs.length < fuel := by
          rw [List.length_cons] at hfuel
          omega
        -- the chunk is freed, or goes to the stack
        obtain ⟨cq₁, us₁, hcq₁, hlinks₁, hsame₁, hkept₁⟩ : ∃ cq₁ us₁,
            (if cq.unusedChunks > 4 then
              { cq with
                heap := (cq.heap.put a ⟨(chunkReset v).1, next⟩).free a
                first := next
                last := if cq.last = some a then none else cq.last }
            else
              { cq with
                heap := (cq.heap.put a ⟨(chunkReset v).1, next⟩).put a
                  ⟨(chunkReset v).1, cq.unused⟩
                first := next
                last := if cq.last = some a then none else cq.last
                unused := some a
                unusedChunks := cq.unusedChunks + 1 }) = cq₁ ∧
            cq₁.Links xs us₁ ∧ cq.SameCounters cq₁ ∧
              keepUnused (chunkReset v).1 (us.map Prod.snd) cq.unusedChunks =
                (us₁.map Prod.snd, cq₁.unusedChunks) := by
          have hbase : Links { cq with
              heap := cq.heap.put a ⟨(chunkReset v).1, next⟩
              first := next
              last := if cq.last = some a then none else cq.last } xs us :=
            ⟨hrest.put hxs _, h.unused.put hus _, hlast, hnodup, h.count⟩
          by_cases hmany : cq.unusedChunks > 4
          · refine ⟨_, us, if_pos hmany, ⟨hbase.first.free hxs, hbase.unused.free hus, hlast,
              hnodup, h.count⟩, ⟨rfl, rfl, rfl⟩, if_pos hmany⟩
          · refine ⟨_, (a, (chunkReset v).1) :: us, if_neg hmany, ?_, ⟨rfl, rfl, rfl⟩,
              if_neg hmany⟩
            apply hbase.release (a := a)
            · simp only [Heap.get_put_self hget]
              rfl
            · rw [List.map_append, List.mem_append, not_or]
              exact ⟨hxs, hus⟩
        obtain ⟨cq₂, us₂, calls₂, hrun, hlinks₂, hsame₂, hlist⟩ :=
          removeFinishedChunks_spec fuel hlinks₁ hfuel'
        refine ⟨cq₂, us₂, (chunkReset v).2 ++ calls₂, ?_, hlinks₂,
          ⟨hsame₂.tempdirs.trans hsame₁.tempdirs, hsame₂.bytesIn.trans hsame₁.bytesIn,
            hsame₂.bytesOut.trans hsame₁.bytesOut⟩, ?_⟩
        · rw [hcq₁]
          simp only [hrun, Option.bind_some]
        · simp only [List.map_cons, removeFinished, if_pos hfinished, hkept₁, hlist]
      · have hdrop : ((a, v) :: xs).dropWhile finished = (a, v) :: xs :=
          List.dropWhile_cons_of_neg hfinished
        rw [if_pos hfinished, hdrop]
        refine ⟨cq, us, [], rfl, h, ⟨rfl, rfl, rfl⟩, ?_⟩
        simp only [List.map_cons, removeFinished, if_neg hfinished]

/-! ## Writing to queued chunks -/

theorem Links.setValue {zs ys : List (Nat × Chunk)} (h : cq.Links (zs ++ (a, v) :: ys) us) :
    ∃ next, cq.heap.get a = some ⟨v, next⟩ ∧ next = ys.head?.map Prod.fst ∧
      ∀ w, Links { cq with heap := cq.heap.put a ⟨w, next⟩ } (zs ++ (a, w) :: ys) us := by
  obtain ⟨next, hget, hrest⟩ := h.first.middle
  obtain ⟨hzs, hys, -⟩ := nodup_middle h.first_nodup
  have ha : a ∉ us.map Prod.fst := h.disjoint (by simp)
  refine ⟨next, hget, hrest.start_eq, fun w => ⟨h.first.relink hrest hzs hys w,
    h.unused.put ha _, ?_, ?_, h.count⟩⟩
  · rw [List.getLast?_append_cons]
    have hlast := h.last
    rw [List.getLast?_append_cons] at hlast
    cases ys with
    | nil => exact hlast
    | cons y ys => exact hlast
  · have hnodup := h.nodup
    simpa only [List.map_append, List.map_cons] using hnodup

theorem edit_spec (f : Chunk → Chunk) (zs : List (Nat × Chunk)) {ys : List (Nat × Chunk)} (i : Nat)
    (h : cq.Links (zs ++ ys) us) : ∃ cq',
      cq.edit f i (ys.head?.map Prod.fst) = some cq' ∧
      cq'.Links (zs ++ ys.modify i (Prod.map id f)) us ∧ cq.SameCounters cq' ∧
        cq'.unusedChunks = cq.unusedChunks := by
  induction ys generalizing zs i with
  | nil =>
    rw [List.modify_nil]
    cases i with
    | zero => exact ⟨cq, rfl, h, ⟨rfl, rfl, rfl⟩, rfl⟩
    | succ i => exact ⟨cq, rfl, h, ⟨rfl, rfl, rfl⟩, rfl⟩
  | cons y ys ih =>
    obtain ⟨a, v⟩ := y
    obtain ⟨next, hget, hnext, hset⟩ := h.setValue
    cases i with
    | zero =>
      refine ⟨_, ?_, hset (f v), ⟨rfl, rfl, rfl⟩, rfl⟩
      simp only [List.head?_cons, Option.map_some, edit, write, hget, Option.bind_eq_bind,
        Option.bind_some]
    | succ i =>
      rw [List.append_cons] at h
      obtain ⟨cq', hrun, hlinks, hsame⟩ := ih _ i h
      refine ⟨cq', ?_, ?_, hsame⟩
      · simp only [List.head?_cons, Option.map_some, edit, hget, Option.bind_eq_bind,
          Option.bind_some, hnext]
        exact hrun
      · rw [← List.append_cons] at hlinks
        exact hlinks

theorem markAll_spec (zs : List (Nat × Chunk)) {ys : List (Nat × Chunk)} :
    ∀ (fuel : Nat) {cq : LinkedQueue},
    cq.Links (zs ++ ys) us → ys.length < fuel → ∃ cq',
      markAll fuel (ys.head?.map Prod.fst) cq = some cq' ∧
      cq'.Links (zs ++ ys.map (Prod.map id markWritten)) us ∧ cq.SameCounters cq' ∧
        cq'.unusedChunks = cq.unusedChunks := by
  induction ys generalizing zs with
  | nil =>
    intro fuel cq h hfuel
    rw [List.length_nil] at hfuel
    obtain ⟨fuel, rfl⟩ : ∃ n, fuel = n + 1 := ⟨fuel - 1, by omega⟩
    exact ⟨cq, rfl, h, ⟨rfl, rfl, rfl⟩, rfl⟩
  | cons y ys ih =>
    intro fuel cq h hfuel
    obtain ⟨a, v⟩ := y
    rw [List.length_cons] at hfuel
    obtain ⟨fuel, rfl⟩ : ∃ n, fuel = n + 1 := ⟨fuel - 1, by omega⟩
    obtain ⟨next, hget, hnext, hset⟩ := h.setValue
    have hmarked := hset (markWritten v)
    rw [List.append_cons] at hmarked
    obtain ⟨cq', hrun, hlinks, hsame, hcount⟩ := ih _ fuel hmarked (by omega)
    refine ⟨cq', ?_, ?_, ⟨hsame.tempdirs, hsame.bytesIn, hsame.bytesOut⟩, hcount⟩
    · simp only [List.head?_cons, Option.map_some, markAll, hget, Option.bind_eq_bind,
        Option.bind_some]
      rw [hnext] at hrun ⊢
      exact hrun
    · rw [← List.append_cons] at hlinks
      exact hlinks

/-! ## Empty chunks -/

theorem Links.dropSecond {zs ys : List (Nat × Chunk)} {b : Nat} {w : Chunk}
    (h : cq.Links (zs ++ (a, v) :: (b, w) :: ys) us) : ∃ next,
      cq.heap.get a = some ⟨v, some b⟩ ∧ cq.heap.get b = some ⟨w, next⟩ ∧
      next = ys.head?.map Prod.fst ∧
      Links { ({ cq with heap := cq.heap.put a ⟨v, next⟩ } : LinkedQueue).release b w with
          last := if next = none then some a else cq.last }
        (zs ++ (a, v) :: ys) ((b, w) :: us) := by
  obtain ⟨p, hgeta, rfl, next, hgetb, hrest⟩ := h.first.middle
  obtain ⟨hzs, hys, -⟩ := nodup_middle h.first_nodup
  rw [List.map_cons, List.mem_cons, not_or] at hys
  have ha : a ∉ us.map Prod.fst := h.disjoint (by simp)
  have hmoved : (zs ++ (a, v) :: (b, w) :: ys ++ us).Perm
      ((b, w) :: (zs ++ (a, v) :: ys ++ us)) := by
    have hrest : zs ++ (a, v) :: ys ++ us = zs ++ [(a, v)] ++ (ys ++ us) := by
      simp only [List.append_assoc, List.cons_append, List.nil_append]
    rw [List.append_cons, List.append_assoc, List.cons_append, hrest]
    exact List.perm_middle
  have hnodup := h.nodup
  rw [(hmoved.map _).nodup_iff, List.map_cons, List.nodup_cons] at hnodup
  have hlast : (if next = none then some a else cq.last) =
      (zs ++ (a, v) :: ys).getLast?.map Prod.fst := by
    rw [h.last, hrest.start_eq, List.getLast?_append_cons, List.getLast?_append_cons]
    cases ys with
    | nil => rfl
    | cons y ys => rfl
  have hlinks : Links { cq with
      heap := cq.heap.put a ⟨v, next⟩
      last := if next = none then some a else cq.last } (zs ++ (a, v) :: ys) us :=
    ⟨h.first.relink hrest hzs hys.2 v, h.unused.put ha _, hlast, hnodup.2, h.count⟩
  refine ⟨next, hgeta, hgetb, hrest.start_eq, hlinks.release ?_ hnodup.1 w⟩
  rw [Heap.get_put_ne (Ne.symm hys.1), hgetb]
  rfl

theorem dropEmptyBehind_spec : ∀ (fuel : Nat) {cq : LinkedQueue} (zs : List (Nat × Chunk))
    {ys us : List (Nat × Chunk)},
    cq.Links (zs ++ ys) us → ys.length < fuel →
    (∀ x ∈ ys.head?, zs = [] → x.2.mem.used ≠ 0) → ∃ cq' ys' us',
      dropEmpty fuel (ys.head?.map Prod.fst) cq = some cq' ∧ cq'.Links (zs ++ ys') us' ∧
      cq.SameCounters cq' ∧ Lighttpd.dropEmptyBehind (ys.map Prod.snd) (us.map Prod.snd) =
        (ys'.map Prod.snd, us'.map Prod.snd)
  | 0, _, _, _, _, _, hfuel, _ => by omega
  | fuel + 1, cq, zs, [], us, h, _, _ => ⟨cq, [], us, rfl, h, ⟨rfl, rfl, rfl⟩, rfl⟩
  | fuel + 1, cq, zs, (a, v) :: ys, us, h, hfuel, hfront => by
    -- the first chunk of the queue is not empty, so `a` stays
    have hkept : ¬ (cq.first = some a ∧ v.mem.used = 0) := by
      rintro ⟨hfirst, hempty⟩
      refine hfront (a, v) rfl ?_ hempty
      cases zs with
      | nil => rfl
      | cons z zs =>
        rw [h.first.start_eq] at hfirst
        have hza : z.1 = a := Option.some.inj hfirst
        exact absurd (by simp [hza]) (nodup_middle h.first_nodup).1
    rw [List.length_cons] at hfuel
    cases ys with
    | nil =>
      obtain ⟨next, hget, hnext, -⟩ := h.setValue
      obtain rfl : next = none := hnext
      obtain ⟨fuel, rfl⟩ : ∃ n, fuel = n + 1 := ⟨fuel - 1, by rw [List.length_nil] at hfuel; omega⟩
      refine ⟨cq, [(a, v)], us, ?_, h, ⟨rfl, rfl, rfl⟩, rfl⟩
      simp only [List.head?_cons, Option.map_some, dropEmpty, hget, Option.bind_eq_bind,
        Option.bind_some, if_neg hkept]
    | cons y ys =>
      obtain ⟨b, w⟩ := y
      rw [List.length_cons] at hfuel
      obtain ⟨next, hgeta, hgetb, hnext, hdropped⟩ := h.dropSecond
      by_cases hempty : w.mem.used = 0
      · rw [List.append_cons] at hdropped
        obtain ⟨cq', ys', us', hrun, hlinks, hsame, hlist⟩ :=
          dropEmptyBehind_spec fuel _ hdropped (by omega) (fun _ _ hnil => by simp at hnil)
        refine ⟨cq', (a, v) :: ys', us', ?_, ?_, ⟨hsame.tempdirs, hsame.bytesIn, hsame.bytesOut⟩,
          ?_⟩
        · simp only [List.head?_cons, Option.map_some, dropEmpty, hgeta, hgetb,
            Option.bind_eq_bind, Option.bind_some, if_neg hkept, if_pos hempty]
          rw [← hnext] at hrun
          exact hrun
        · rw [← List.append_cons] at hlinks
          exact hlinks
        · simp only [List.map_cons, Lighttpd.dropEmptyBehind, if_pos hempty]
          rw [List.map_cons] at hlist
          rw [hlist]
      · have hmoved := h
        rw [List.append_cons] at hmoved
        obtain ⟨cq', ys', us', hrun, hlinks, hsame, hlist⟩ :=
          dropEmptyBehind_spec fuel _ hmoved (by rw [List.length_cons]; omega)
            (fun _ _ hnil => by simp at hnil)
        refine ⟨cq', (a, v) :: ys', us', ?_, ?_, hsame, ?_⟩
        · simp only [List.head?_cons, Option.map_some, dropEmpty, hgeta, hgetb,
            Option.bind_eq_bind, Option.bind_some, if_neg hkept, if_neg hempty]
          exact hrun
        · rw [← List.append_cons] at hlinks
          exact hlinks
        · simp only [List.map_cons, Lighttpd.dropEmptyBehind, if_neg hempty]
          rw [List.map_cons] at hlist
          rw [hlist]

theorem dropEmpty_spec : ∀ (fuel : Nat) {cq : LinkedQueue} {xs us : List (Nat × Chunk)},
    cq.Links xs us → xs.length < fuel → ∃ cq' xs' us',
      dropEmpty fuel cq.first cq = some cq' ∧ cq'.Links xs' us' ∧ cq.SameCounters cq' ∧
      Lighttpd.dropEmpty (xs.map Prod.snd) (us.map Prod.snd) =
        (xs'.map Prod.snd, us'.map Prod.snd)
  | 0, _, _, _, _, hfuel => by omega
  | fuel + 1, cq, [], us, h, _ => by
    have hnone : cq.first = none := h.first
    rw [hnone]
    exact ⟨cq, [], us, rfl, h, ⟨rfl, rfl, rfl⟩, rfl⟩
  | fuel + 1, cq, (a, v) :: xs, us, h, hfuel => by
    obtain ⟨next, hget, hfirst, hrest, -, hlast, hxs, hus, hnodup⟩ := h.dropFirst
    by_cases hempty : v.mem.used = 0
    · have hbase : Links { cq with
          first := next
          last := if next = none then none else cq.last } xs us :=
        ⟨hrest, h.unused, hlast, hnodup, h.count⟩
      have hout : a ∉ (xs ++ us).map Prod.fst := by
        rw [List.map_append, List.mem_append, not_or]
        exact ⟨hxs, hus⟩
      have hdropped := hbase.release (a := a) (Option.isSome_of_eq_some hget) hout v
      obtain ⟨cq', xs', us', hrun, hlinks, hsame, hlist⟩ :=
        dropEmpty_spec fuel hdropped (Nat.lt_of_succ_lt_succ hfuel)
      refine ⟨cq', xs', us', ?_, hlinks, ⟨hsame.tempdirs, hsame.bytesIn, hsame.bytesOut⟩, ?_⟩
      · rw [hfirst]
        simp only [dropEmpty, hget, Option.bind_eq_bind, Option.bind_some, hfirst, hempty,
          and_self, if_true]
        exact hrun
      · simp only [List.map_cons, Lighttpd.dropEmpty, if_pos hempty]
        rw [List.map_cons] at hlist
        exact hlist
    · obtain ⟨cq', xs', us', hrun, hlinks, hsame, hlist⟩ :=
        dropEmptyBehind_spec (fuel + 1) [] h hfuel
          (fun x hx _ => by obtain rfl := Option.some.inj hx; exact hempty)
      refine ⟨cq', xs', us', ?_, hlinks, hsame, ?_⟩
      · rw [h.first.start_eq]
        exact hrun
      · simp only [List.map_cons, Lighttpd.dropEmpty, if_neg hempty]
        exact hlist

end LinkedQueue

end Lighttpd
