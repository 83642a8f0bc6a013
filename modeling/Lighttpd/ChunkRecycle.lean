import Lighttpd.Chunk
import Lighttpd.Lib.Machine
import Mathlib.Data.List.Forall2

/-!
# Recycled chunks

A queue takes its chunks from the stack of unused ones. Its users should not see that: the queue
should look like one that allocates a fresh chunk each time (`allocating`). `chunk_reset` does not
clear `is_temp`, `start` and `length`, and `chunkqueue_append_file` and
`chunkqueue_get_append_tempfile` do not set all of them, so the two queues agree exactly as long as
these functions are given a chunk whose old values are those of a fresh one (`Reusable`).
-/

namespace Lighttpd

open CLib

/-! ## Runs of a queue -/

/-- The operations on a queue, and what its users do to the chunks they were given: write to the
buffer of a chunk, let a file grow, and advance an offset. -/
inductive ChunkOp where
  | appendFile (fn : Buffer) (offset len : Int)
  | appendBuffer (mem : Buffer)
  | appendBufferWeak (mem : Buffer)
  | prependBuffer (mem : Buffer)
  | appendMem (mem : Bytes)
  | getPrependBuffer
  | getAppendBuffer
  | getAppendTempfile (answers : Nat → MkstempAnswer)
  | fill (i : Nat) (data : Bytes)
  | grow (i : Nat) (n : Int)
  | advance (i : Nat) (n : Int)
  | removeFinishedChunks
  | reset

/-- A user's change to the `i`-th queued chunk. -/
def Chunkqueue.modify (cq : Chunkqueue) (i : Nat) (f : Chunk → Chunk) : Chunkqueue :=
  { cq with first := cq.first.modify i f }

section Runs

variable [Malloc]

def fillChunk (data : Bytes) (c : Chunk) : Chunk :=
  if c.type = .mem then { c with mem := bufferCopyStringLen c.mem (some data) } else c

def growChunk (n : Int) (c : Chunk) : Chunk :=
  if c.type = .file then { c with file := { c.file with length := c.file.length + n } } else c

def advanceChunk (n : Int) (c : Chunk) : Chunk := { c with offset := c.offset + n }

def ChunkOp.apply (cq : Chunkqueue) : ChunkOp → Chunkqueue × List Syscall
  | .appendFile fn offset len => (chunkqueueAppendFile cq fn offset len, [])
  | .appendBuffer mem => (chunkqueueAppendBuffer cq mem, [])
  | .appendBufferWeak mem => (chunkqueueAppendBufferWeak cq mem, [])
  | .prependBuffer mem => (chunkqueuePrependBuffer cq mem, [])
  | .appendMem mem => (chunkqueueAppendMem cq mem, [])
  | .getPrependBuffer => (chunkqueueGetPrependBuffer cq, [])
  | .getAppendBuffer => (chunkqueueGetAppendBuffer cq, [])
  | .getAppendTempfile answers => chunkqueueGetAppendTempfile cq answers
  | .fill i data => (cq.modify i (fillChunk data), [])
  | .grow i n => (cq.modify i (growChunk n), [])
  | .advance i n => (cq.modify i (advanceChunk n), [])
  | .removeFinishedChunks => chunkqueueRemoveFinishedChunks cq
  | .reset => chunkqueueReset cq

def recycling : Machine Chunkqueue ChunkOp Syscall where
  step cq op := op.apply cq

def Chunkqueue.fresh (cq : Chunkqueue) : Chunkqueue := { cq with unused := [], unusedChunks := 0 }

/-- The same functions on a queue that has nothing to reuse: every chunk is a new one. -/
def allocating : Machine Chunkqueue ChunkOp Syscall where
  step cq op := op.apply cq.fresh

/-- The chunk an operation would take has the values of a new one where the operation relies on
them: `is_temp` for a file, `start` for a temporary file, and its `is_temp` when none could be
created. -/
def Reusable (cq : Chunkqueue) : ChunkOp → Prop
  | .appendFile _ _ len => len ≠ 0 → ∀ c ∈ cq.unused.head?, c.file.isTemp = false
  | .getAppendTempfile answers => ∀ c ∈ cq.unused.head?, c.file.start = 0 ∧
      ((createTempfile cq.tempdirs answers).1 = none → c.file.isTemp = false)
  | _ => True

end Runs

/-! ## What users see of a chunk -/

/-- A memory chunk is its content, a file chunk its file, the piece of it and its fate. -/
inductive ChunkView where
  | unused (offset : Int)
  | mem (content : Nat × Bytes × Bytes) (offset : Int)
  | file (name : Nat × Bytes × Bytes) (start length offset : Int) (fd : Option Nat) (isTemp : Bool)
  deriving DecidableEq, Repr

def Chunk.view (c : Chunk) : ChunkView :=
  match c.type with
  | .unused => .unused c.offset
  | .mem => .mem c.mem.view c.offset
  | .file => .file c.file.name.view c.file.start c.file.length c.offset c.file.fd c.file.isTemp

def Chunkqueue.view (cq : Chunkqueue) : List ChunkView × Int × Int :=
  (cq.first.map Chunk.view, cq.bytesIn, cq.bytesOut)

structure Chunk.Clean (c : Chunk) : Prop where
  name : c.file.name.used = 0
  fd : c.file.fd = none
  unmapped : c.file.mmapStart = none

/-- A queued chunk holds a file only if it is a file chunk, and nothing is mapped. -/
structure Chunk.Tidy (c : Chunk) : Prop where
  clean : c.type ≠ .file → c.Clean
  unmapped : c.file.mmapStart = none

structure Alike (c d : Chunk) : Prop where
  view : c.view = d.view
  left : c.Tidy
  right : d.Tidy

/-- Two queues that look alike; the unused chunks of the first one are clean. -/
structure SameQueue (s t : Chunkqueue) : Prop where
  first : List.Forall₂ Alike s.first t.first
  tempdirs : s.tempdirs = t.tempdirs
  bytesIn : s.bytesIn = t.bytesIn
  bytesOut : s.bytesOut = t.bytesOut
  clean : ∀ c ∈ s.unused, c.Clean

theorem Chunk.Clean.tidy {c : Chunk} (h : c.Clean) : c.Tidy := ⟨fun _ => h, h.unmapped⟩

theorem clean_chunkInit : chunkInit.Clean := ⟨rfl, rfl, rfl⟩

theorem clean_chunkReset (c : Chunk) : (chunkReset c).1.Clean :=
  ⟨bufferReset_used _, rfl, rfl⟩

theorem Alike.type_eq {c d : Chunk} (h : Alike c d) : c.type = d.type := by
  have hview := h.view
  unfold Chunk.view at hview
  cases hc : c.type <;> cases hd : d.type <;> simp_all

theorem Alike.of_file {c d : Chunk} (hc : c.type = .file) (hd : d.type = .file)
    (hname : c.file.name.view = d.file.name.view) (hstart : c.file.start = d.file.start)
    (hlength : c.file.length = d.file.length) (hoffset : c.offset = d.offset)
    (hfd : c.file.fd = d.file.fd) (htemp : c.file.isTemp = d.file.isTemp)
    (hcm : c.file.mmapStart = none) (hdm : d.file.mmapStart = none) : Alike c d where
  view := by simp [Chunk.view, hc, hd, hname, hstart, hlength, hoffset, hfd, htemp]
  left := ⟨fun h => absurd hc h, hcm⟩
  right := ⟨fun h => absurd hd h, hdm⟩

theorem Alike.of_mem {c d : Chunk} (hc : c.type = .mem) (hd : d.type = .mem)
    (hmem : c.mem.view = d.mem.view) (hoffset : c.offset = d.offset) (hct : c.Clean)
    (hdt : d.Clean) : Alike c d where
  view := by simp [Chunk.view, hc, hd, hmem, hoffset]
  left := hct.tidy
  right := hdt.tidy

theorem Alike.cases {c d : Chunk} (h : Alike c d) :
    (c.type = .unused ∧ d.type = .unused ∧ c.offset = d.offset ∧ c.Clean ∧ d.Clean) ∨
    (c.type = .mem ∧ d.type = .mem ∧ c.mem.view = d.mem.view ∧ c.offset = d.offset ∧
      c.Clean ∧ d.Clean) ∨
    (c.type = .file ∧ d.type = .file ∧ c.file.name.view = d.file.name.view ∧
      c.file.start = d.file.start ∧ c.file.length = d.file.length ∧ c.offset = d.offset ∧
      c.file.fd = d.file.fd ∧ c.file.isTemp = d.file.isTemp ∧
      c.file.mmapStart = none ∧ d.file.mmapStart = none) := by
  have htype := h.type_eq
  have hview := h.view
  have hl := h.left
  have hr := h.right
  unfold Chunk.view at hview
  cases hc : c.type with
  | unused =>
    rw [← htype, hc] at hview
    have hd := htype.symm.trans hc
    exact Or.inl ⟨rfl, hd, by simpa using hview, hl.clean (by simp [hc]), hr.clean (by simp [hd])⟩
  | mem =>
    rw [← htype, hc] at hview
    have hd := htype.symm.trans hc
    obtain ⟨hm, ho⟩ := ChunkView.mem.inj hview
    exact Or.inr (Or.inl ⟨rfl, hd, hm, ho, hl.clean (by simp [hc]), hr.clean (by simp [hd])⟩)
  | file =>
    rw [← htype, hc] at hview
    have hd := htype.symm.trans hc
    obtain ⟨h1, h2, h3, h4, h5, h6⟩ := ChunkView.file.inj hview
    exact Or.inr (Or.inr ⟨rfl, hd, h1, h2, h3, h4, h5, h6, hl.unmapped, hr.unmapped⟩)

/-! ## Finished chunks -/

theorem Alike.isFinished_eq {c d : Chunk} (h : Alike c d) :
    chunkIsFinished c = chunkIsFinished d := by
  unfold chunkIsFinished
  rcases h.cases with ⟨hc, hd, -⟩ | ⟨hc, hd, hmem, hoff, -⟩ | ⟨hc, hd, -, -, hlen, hoff, -⟩
  · rw [hc, hd]
  · have hused : c.mem.used = d.mem.used := congrArg Prod.fst hmem
    rw [hc, hd, hused, hoff]
  · rw [hc, hd, hlen, hoff]

theorem Chunk.Clean.reset_calls {c : Chunk} (h : c.Clean) : (chunkReset c).2 = [] := by
  simp [chunkReset, bufferIsEmpty, h.name, h.fd, h.unmapped]

theorem Alike.reset_calls {c d : Chunk} (h : Alike c d) : (chunkReset c).2 = (chunkReset d).2 := by
  rcases h.cases with ⟨-, -, -, hc, hd⟩ | ⟨-, -, -, -, hc, hd⟩ |
    ⟨-, -, hname, -, -, -, hfd, htemp, hcm, hdm⟩
  · rw [hc.reset_calls, hd.reset_calls]
  · rw [hc.reset_calls, hd.reset_calls]
  · have hused : c.file.name.used = d.file.name.used := congrArg Prod.fst hname
    have hstr : c.file.name.str = d.file.name.str := congrArg (·.2.2) hname
    simp [chunkReset, bufferIsEmpty, hused, hstr, hfd, htemp, hcm, hdm]

theorem removeFinished_alike {cs ds : List Chunk} (h : List.Forall₂ Alike cs ds) :
    ∀ {unused : List Chunk} {n : Nat} (unused' : List Chunk) (n' : Nat), (∀ c ∈ unused, c.Clean) →
      List.Forall₂ Alike (removeFinished cs unused n).1 (removeFinished ds unused' n').1 ∧
      (removeFinished cs unused n).2.2.2 = (removeFinished ds unused' n').2.2.2 ∧
      ∀ c ∈ (removeFinished cs unused n).2.1, c.Clean := by
  induction h with
  | nil => exact fun _ _ hu => ⟨.nil, rfl, hu⟩
  | @cons c d cs ds hcd _ ih =>
    intro unused n unused' n' hu
    unfold removeFinished
    rw [← hcd.isFinished_eq]
    split
    · have hreset : ∀ x ∈ (keepUnused (chunkReset c).1 unused n).1, x.Clean := by
        intro x hx
        unfold keepUnused at hx
        split at hx
        · exact hu x hx
        · rcases List.mem_cons.mp hx with rfl | hx
          · exact clean_chunkReset c
          · exact hu x hx
      obtain ⟨h1, h2, h3⟩ := ih (keepUnused (chunkReset d).1 unused' n').1
        (keepUnused (chunkReset d).1 unused' n').2 hreset
      exact ⟨h1, congrArg₂ (· ++ ·) hcd.reset_calls h2, h3⟩
    · exact ⟨.cons hcd ‹_›, rfl, hu⟩

theorem Alike.markWritten {c d : Chunk} (h : Alike c d) : Alike (markWritten c) (markWritten d) := by
  rcases h.cases with ⟨hc, hd, -⟩ | ⟨hc, hd, hmem, -, hcc, hdc⟩ |
    ⟨hc, hd, hname, hstart, hlen, -, hfd, htemp, hcm, hdm⟩
  · simpa [Lighttpd.markWritten, hc, hd] using h
  · have hused : c.mem.used = d.mem.used := congrArg Prod.fst hmem
    simp only [Lighttpd.markWritten, hc, hd, hused]
    exact Alike.of_mem rfl rfl hmem rfl ⟨hcc.name, hcc.fd, hcc.unmapped⟩
      ⟨hdc.name, hdc.fd, hdc.unmapped⟩
  · simp only [Lighttpd.markWritten, hc, hd]
    exact Alike.of_file rfl rfl hname hstart hlen hlen hfd htemp hcm hdm

namespace SameQueue

variable {s t : Chunkqueue}

theorem removeFinishedChunks (h : SameQueue s t) :
    SameQueue (chunkqueueRemoveFinishedChunks s).1 (chunkqueueRemoveFinishedChunks t.fresh).1 ∧
      (chunkqueueRemoveFinishedChunks s).2 = (chunkqueueRemoveFinishedChunks t.fresh).2 := by
  obtain ⟨h1, h2, h3⟩ := removeFinished_alike h.first (n := s.unusedChunks) [] 0 h.clean
  exact ⟨⟨h1, h.tempdirs, h.bytesIn, h.bytesOut, h3⟩, h2⟩

theorem reset (h : SameQueue s t) :
    SameQueue (chunkqueueReset s).1 (chunkqueueReset t.fresh).1 ∧
      (chunkqueueReset s).2 = (chunkqueueReset t.fresh).2 := by
  have hmarked : List.Forall₂ Alike (s.first.map markWritten) (t.first.map markWritten) :=
    List.forall₂_map_left_iff.mpr (List.forall₂_map_right_iff.mpr
      (h.first.imp fun _ _ hcd => hcd.markWritten))
  obtain ⟨h1, h2⟩ := removeFinishedChunks
    (s := { s with first := s.first.map markWritten })
    (t := { t with first := t.first.map markWritten })
    ⟨hmarked, h.tempdirs, h.bytesIn, h.bytesOut, h.clean⟩
  exact ⟨⟨h1.first, h1.tempdirs, rfl, rfl, h1.clean⟩, h2⟩

theorem getUnusedChunk (h : SameQueue s t) :
    ∃ s' c, chunkqueueGetUnusedChunk s = (s', c) ∧ SameQueue s' t.fresh ∧ c.Clean ∧
      chunkqueueGetUnusedChunk t.fresh = (t.fresh, chunkInit) ∧
      c = s.unused.head?.getD chunkInit := by
  unfold chunkqueueGetUnusedChunk
  cases hu : s.unused with
  | nil =>
    refine ⟨s, chunkInit, rfl, ⟨h.first, h.tempdirs, h.bytesIn, h.bytesOut, ?_⟩, clean_chunkInit,
      rfl, rfl⟩
    simp [hu]
  | cons c cs =>
    exact ⟨_, c, rfl, ⟨h.first, h.tempdirs, h.bytesIn, h.bytesOut,
      fun x hx => h.clean x (by simp [hu, hx])⟩, h.clean c (by simp [hu]), rfl, rfl⟩

theorem append (h : SameQueue s t) {c d : Chunk} (hcd : Alike c d) :
    SameQueue (chunkqueueAppendChunk s c) (chunkqueueAppendChunk t d) :=
  ⟨List.rel_append h.first (.cons hcd .nil), h.tempdirs, h.bytesIn, h.bytesOut, h.clean⟩

theorem prepend (h : SameQueue s t) {c d : Chunk} (hcd : Alike c d) :
    SameQueue (chunkqueuePrependChunk s c) (chunkqueuePrependChunk t d) :=
  ⟨.cons hcd h.first, h.tempdirs, h.bytesIn, h.bytesOut, h.clean⟩

theorem view_eq (h : SameQueue s t) : s.view = t.view := by
  have hmap : s.first.map Chunk.view = t.first.map Chunk.view := by
    rw [← List.forall₂_eq_eq_eq, List.forall₂_map_left_iff, List.forall₂_map_right_iff]
    exact h.first.imp fun _ _ hcd => hcd.view
  simp [Chunkqueue.view, hmap, h.bytesIn, h.bytesOut]

end SameQueue

section Steps

variable {s t : Chunkqueue}

theorem Chunk.Clean.withMem {c : Chunk} (h : c.Clean) (mem : Buffer) (offset : Int) :
    Chunk.Clean { c with type := .mem, mem := mem, offset := offset } :=
  ⟨h.name, h.fd, h.unmapped⟩

theorem Alike.mem_chunks {c d : Chunk} (hc : c.Clean) (hd : d.Clean) {m m' : Buffer}
    (hm : m.view = m'.view) (offset : Int) :
    Alike { c with type := .mem, mem := m, offset := offset }
      { d with type := .mem, mem := m', offset := offset } :=
  Alike.of_mem rfl rfl hm rfl (hc.withMem _ _) (hd.withMem _ _)

theorem SameQueue.modify (h : SameQueue s t) {f : Chunk → Chunk}
    (hf : ∀ c d, Alike c d → Alike (f c) (f d)) (i : Nat) :
    SameQueue (s.modify i f) (t.fresh.modify i f) := by
  refine ⟨?_, h.tempdirs, h.bytesIn, h.bytesOut, h.clean⟩
  show List.Forall₂ Alike (s.first.modify i f) (t.first.modify i f)
  have hfirst := h.first
  generalize s.first = l at hfirst
  generalize t.first = m at hfirst
  induction hfirst generalizing i with
  | nil => simp
  | cons hcd htail ih =>
    cases i with
    | zero => exact .cons (hf _ _ hcd) htail
    | succ i => exact .cons hcd (ih i)

theorem Alike.growChunk {c d : Chunk} (h : Alike c d) (n : Int) :
    Alike (growChunk n c) (growChunk n d) := by
  unfold Lighttpd.growChunk
  rcases h.cases with ⟨hc, hd, -⟩ | ⟨hc, hd, -⟩ |
    ⟨hc, hd, hname, hstart, hlen, hoff, hfd, htemp, hcm, hdm⟩
  · simpa [hc, hd] using h
  · simpa [hc, hd] using h
  · rw [if_pos hc, if_pos hd]
    exact Alike.of_file hc hd hname hstart (by simp only [hlen]) hoff hfd htemp hcm hdm

theorem Alike.advanceChunk {c d : Chunk} (h : Alike c d) (n : Int) :
    Alike (advanceChunk n c) (advanceChunk n d) := by
  unfold Lighttpd.advanceChunk
  rcases h.cases with ⟨hc, hd, hoff, hcc, hdc⟩ | ⟨hc, hd, hmem, hoff, hcc, hdc⟩ |
    ⟨hc, hd, hname, hstart, hlen, hoff, hfd, htemp, hcm, hdm⟩
  · refine ⟨by simp [Chunk.view, hc, hd, hoff], ?_, ?_⟩
    · exact Chunk.Clean.tidy ⟨hcc.name, hcc.fd, hcc.unmapped⟩
    · exact Chunk.Clean.tidy ⟨hdc.name, hdc.fd, hdc.unmapped⟩
  · exact Alike.of_mem hc hd hmem (by simp only [hoff]) ⟨hcc.name, hcc.fd, hcc.unmapped⟩
      ⟨hdc.name, hdc.fd, hdc.unmapped⟩
  · exact Alike.of_file hc hd hname hstart hlen (by simp only [hoff]) hfd htemp hcm hdm

theorem view_append {c d : Chunk}
    (h : (chunkqueueAppendChunk s c).view = (chunkqueueAppendChunk t d).view) :
    c.view = d.view := by
  have hlist := congrArg Prod.fst h
  simp only [Chunkqueue.view, chunkqueueAppendChunk, List.map_append, List.map_cons,
    List.map_nil] at hlist
  exact (List.cons.inj (List.append_inj' hlist rfl).2).1

theorem of_head {P : Chunk → Prop} (hinit : P chunkInit) (h : ∀ c ∈ s.unused.head?, P c) :
    P (s.unused.head?.getD chunkInit) := by
  cases hu : s.unused.head? with
  | none => exact hinit
  | some c => exact h c hu

variable [Malloc]

theorem Alike.fillChunk {c d : Chunk} (h : Alike c d) (data : Bytes) :
    Alike (fillChunk data c) (fillChunk data d) := by
  unfold Lighttpd.fillChunk
  rcases h.cases with ⟨hc, hd, -⟩ | ⟨hc, hd, -, hoff, hcc, hdc⟩ | ⟨hc, hd, -⟩
  · simpa [hc, hd] using h
  · rw [if_pos hc, if_pos hd]
    exact Alike.of_mem hc hd (by simp) hoff ⟨hcc.name, hcc.fd, hcc.unmapped⟩
      ⟨hdc.name, hdc.fd, hdc.unmapped⟩
  · simpa [hc, hd] using h

/-- **One step**: an operation that finds a reusable chunk does the same to both queues. -/
theorem SameQueue.step (h : SameQueue s t) (op : ChunkOp) (hop : Reusable s op) :
    SameQueue (recycling.step s op).1 (allocating.step t op).1 ∧
      (recycling.step s op).2 = (allocating.step t op).2 := by
  have hfresh : SameQueue s t.fresh := ⟨h.first, h.tempdirs, h.bytesIn, h.bytesOut, h.clean⟩
  obtain ⟨s', c, hget, hs', hc, hget', hfrom⟩ := h.getUnusedChunk
  simp only [recycling, allocating]
  cases op with
  | appendFile fn offset len =>
    simp only [ChunkOp.apply, chunkqueueAppendFile, hget, hget']
    split
    · exact ⟨hfresh, trivial⟩
    · next hlen =>
      have htemp : c.file.isTemp = false :=
        hfrom ▸ of_head (P := fun c => c.file.isTemp = false) rfl (hop hlen)
      exact ⟨hs'.append (Alike.of_file rfl rfl (bufferCopyStringBuffer_view _ _ _) rfl rfl rfl
        hc.fd htemp hc.unmapped rfl), trivial⟩
  | appendBuffer mem =>
    simp only [ChunkOp.apply, chunkqueueAppendBuffer, hget, hget']
    split
    · exact ⟨hfresh, trivial⟩
    · exact ⟨hs'.append (Alike.mem_chunks hc clean_chunkInit
        (bufferCopyStringBuffer_view _ _ _) 0), trivial⟩
  | appendBufferWeak mem =>
    simp only [ChunkOp.apply, chunkqueueAppendBufferWeak, hget, hget']
    exact ⟨hs'.append (Alike.mem_chunks hc clean_chunkInit rfl 0), trivial⟩
  | prependBuffer mem =>
    simp only [ChunkOp.apply, chunkqueuePrependBuffer, hget, hget']
    split
    · exact ⟨hfresh, trivial⟩
    · exact ⟨hs'.prepend (Alike.mem_chunks hc clean_chunkInit
        (bufferCopyStringBuffer_view _ _ _) 0), trivial⟩
  | appendMem mem =>
    simp only [ChunkOp.apply, chunkqueueAppendMem, hget, hget']
    split
    · exact ⟨hfresh, trivial⟩
    · exact ⟨hs'.append (Alike.mem_chunks hc clean_chunkInit (by simp) 0), trivial⟩
  | getPrependBuffer =>
    simp only [ChunkOp.apply, chunkqueueGetPrependBuffer, hget, hget']
    exact ⟨hs'.prepend (Alike.mem_chunks hc clean_chunkInit (by simp) 0), trivial⟩
  | getAppendBuffer =>
    simp only [ChunkOp.apply, chunkqueueGetAppendBuffer, hget, hget']
    exact ⟨hs'.append (Alike.mem_chunks hc clean_chunkInit (by simp) 0), trivial⟩
  | getAppendTempfile answers =>
    have hdirs : s'.tempdirs = t.fresh.tempdirs := hs'.tempdirs
    simp only [ChunkOp.apply, chunkqueueGetAppendTempfile, hget, hget', hdirs]
    have hsame : s.tempdirs = t.fresh.tempdirs := h.tempdirs
    have hstart : c.file.start = 0 ∧
        ((createTempfile t.fresh.tempdirs answers).1 = none → c.file.isTemp = false) :=
      hfrom ▸ hsame ▸ of_head (P := fun c => c.file.start = 0 ∧
        ((createTempfile s.tempdirs answers).1 = none → c.file.isTemp = false))
        ⟨rfl, fun _ => rfl⟩ hop
    refine ⟨hs'.append (Alike.of_file rfl rfl (bufferCopyStringBuffer_view _ _ _) hstart.1 rfl rfl
      rfl ?_ hc.unmapped rfl), trivial⟩
    cases hcreate : (createTempfile t.fresh.tempdirs answers).1 with
    | some fd => rfl
    | none => exact hstart.2 hcreate
  | fill i data => exact ⟨h.modify (fun _ _ hcd => hcd.fillChunk data) i, rfl⟩
  | grow i n => exact ⟨h.modify (fun _ _ hcd => hcd.growChunk n) i, rfl⟩
  | advance i n => exact ⟨h.modify (fun _ _ hcd => hcd.advanceChunk n) i, rfl⟩
  | removeFinishedChunks => exact h.removeFinishedChunks
  | reset => exact h.reset

theorem SameQueue.reusable (h : SameQueue s t) (op : ChunkOp)
    (hview : (recycling.step s op).1.view = (allocating.step t op).1.view) : Reusable s op := by
  obtain ⟨s', c, hget, hs', hc, hget', hfrom⟩ := h.getUnusedChunk
  simp only [recycling, allocating] at hview
  cases op with
  | appendFile fn offset len =>
    intro hlen x hx
    simp only [ChunkOp.apply, chunkqueueAppendFile, hget, hget', if_neg hlen] at hview
    have hxc : c = x := by rw [hfrom, hx, Option.getD_some]
    have hlast := view_append hview
    simp only [Chunk.view, ChunkView.file.injEq] at hlast
    rw [← hxc]
    exact hlast.2.2.2.2.2
  | getAppendTempfile answers =>
    intro x hx
    simp only [ChunkOp.apply, chunkqueueGetAppendTempfile, hget, hget', hs'.tempdirs] at hview
    have hxc : c = x := by rw [hfrom, hx, Option.getD_some]
    have hlast := view_append hview
    simp only [Chunk.view, ChunkView.file.injEq] at hlast
    have hsame : s.tempdirs = t.fresh.tempdirs := h.tempdirs
    rw [← hxc, hsame]
    refine ⟨hlast.2.1, fun hnone => ?_⟩
    have htemp := hlast.2.2.2.2.2
    rw [hnone] at htemp
    exact htemp
  | _ => trivial

end Steps

/-! ## Unlinked files -/

/-- Every temporary file in the queue, and every file unlinked so far, was created by `mkstemp`. -/
structure OwnTempfiles (cq : Chunkqueue) (log : List Syscall) : Prop where
  queued : ∀ c ∈ cq.first, c.file.isTemp = true → Syscall.mkstemp c.file.name.str ∈ log
  unlinked : ∀ n, Syscall.unlink n ∈ log → Syscall.mkstemp n ∈ log

theorem unlink_mem_chunkReset {c : Chunk} {n : Bytes} (h : Syscall.unlink n ∈ (chunkReset c).2) :
    c.file.isTemp = true ∧ c.file.name.str = n := by
  simp only [chunkReset, List.mem_append, List.mem_map] at h
  rcases h with (h | ⟨_, _, h⟩) | ⟨_, _, h⟩
  · split at h
    · next hcond => exact ⟨hcond.1, (by simpa using h : n = _).symm⟩
    · cases h
  · cases h
  · cases h

theorem removeFinished_subset (cs : List Chunk) : ∀ (unused : List Chunk) (n : Nat),
    (∀ c ∈ (removeFinished cs unused n).1, c ∈ cs) ∧
      ∀ name, Syscall.unlink name ∈ (removeFinished cs unused n).2.2.2 →
        ∃ c ∈ cs, c.file.isTemp = true ∧ c.file.name.str = name := by
  induction cs with
  | nil => simp [removeFinished]
  | cons c cs ih =>
    intro unused n
    unfold removeFinished
    split
    · obtain ⟨h1, h2⟩ := ih (keepUnused (chunkReset c).1 unused n).1
        (keepUnused (chunkReset c).1 unused n).2
      refine ⟨fun x hx => List.mem_cons_of_mem _ (h1 x hx), fun name hname => ?_⟩
      rcases List.mem_append.mp hname with h | h
      · exact ⟨c, by simp, unlink_mem_chunkReset h⟩
      · obtain ⟨d, hd, hdn⟩ := h2 name h
        exact ⟨d, List.mem_cons_of_mem _ hd, hdn⟩
    · simp

namespace OwnTempfiles

variable {cq : Chunkqueue} {log : List Syscall}

theorem mono (h : OwnTempfiles cq log) {first : List Chunk}
    (hfirst : ∀ c ∈ first, c.file.isTemp = true →
      ∃ d ∈ cq.first, d.file.isTemp = true ∧ d.file.name.str = c.file.name.str) {cq' : Chunkqueue}
    (heq : cq'.first = first) : OwnTempfiles cq' (log ++ []) := by
  rw [List.append_nil]
  refine ⟨fun c hc ht => ?_, h.unlinked⟩
  obtain ⟨d, hd, hdt, hdn⟩ := hfirst c (heq ▸ hc) ht
  exact hdn ▸ h.queued d hd hdt

theorem removeFinishedChunks (h : OwnTempfiles cq log) :
    OwnTempfiles (chunkqueueRemoveFinishedChunks cq).1
      (log ++ (chunkqueueRemoveFinishedChunks cq).2) := by
  obtain ⟨h1, h2⟩ := removeFinished_subset cq.first cq.unused cq.unusedChunks
  refine ⟨fun c hc ht => List.mem_append_left _ (h.queued c (h1 c hc) ht), fun n hn => ?_⟩
  rcases List.mem_append.mp hn with hn | hn
  · exact List.mem_append_left _ (h.unlinked n hn)
  · obtain ⟨c, hc, ht, hname⟩ := h2 n hn
    exact List.mem_append_left _ (hname ▸ h.queued c hc ht)

end OwnTempfiles

theorem ended_mkstemp {template t : Buffer} {answer : MkstempAnswer} {fd : Nat}
    (h : mkstemp template answer = (some fd, t)) (hended : template.Ended) : t.Ended := by
  obtain ⟨s, rest, hptr, hused⟩ := hended
  unfold mkstemp at h
  split at h
  · cases h
  · next fd' six =>
    split at h
    · cases h
    · next hlen =>
      have hstr : template.str.length ≤ s.length := by
        rw [Buffer.str, hptr, cstr_append_nul]
        exact (List.takeWhile_prefix _).length_le
      have hfit : template.str.length - 6 + six.bytes.length ≤ s.length := by
        rw [six.size]
        omega
      obtain ⟨-, rfl⟩ := Prod.mk.inj h
      refine ⟨memcpy s (template.str.length - 6) six.bytes, rest, ?_, ?_⟩
      · rw [hptr, memcpy_append hfit]
      · rw [length_memcpy hfit]
        exact hused

section Tempfiles

variable [Malloc]

theorem ended_tempTemplate (template dir : Buffer) : (tempTemplate template dir).Ended :=
  ended_bufferAppendStringLen (wf_bufferAppendSlash (wf_bufferCopyStringBuffer _ _)) (by decide)

theorem ended_tryTempdirs : ∀ (dirs : List Buffer) {answers : Nat → MkstempAnswer} {i : Nat}
    {template t : Buffer} {fd : Nat}, tryTempdirs dirs answers i template = (some fd, t) → t.Ended
  | [], _, _, _, _, _, h => by cases h
  | dir :: dirs, answers, i, template, t, fd, h => by
    unfold tryTempdirs at h
    split at h
    · next fd' t' hmk =>
      cases h
      exact ended_mkstemp hmk (ended_tempTemplate _ _)
    · exact ended_tryTempdirs dirs h

theorem ended_createTempfile {tempdirs : Option (List Buffer)} {answers : Nat → MkstempAnswer}
    {t : Buffer} {fd : Nat} (h : createTempfile tempdirs answers = (some fd, t)) : t.Ended := by
  unfold createTempfile at h
  split at h
  · exact ended_tryTempdirs _ h
  · exact ended_mkstemp h (ended_bufferCopyString _ _)

theorem OwnTempfiles.step {cq : Chunkqueue} {log : List Syscall} (h : OwnTempfiles cq log)
    (op : ChunkOp) :
    OwnTempfiles (allocating.step cq op).1 (log ++ (allocating.step cq op).2) := by
  have hkeep : ∀ c ∈ cq.first, c.file.isTemp = true →
      ∃ d ∈ cq.first, d.file.isTemp = true ∧ d.file.name.str = c.file.name.str :=
    fun c hc ht => ⟨c, hc, ht, rfl⟩
  have happend : ∀ {c : Chunk}, c.file.isTemp = false → ∀ x ∈ cq.first ++ [c],
      x.file.isTemp = true →
      ∃ d ∈ cq.first, d.file.isTemp = true ∧ d.file.name.str = x.file.name.str := by
    intro c hc x hx ht
    rcases List.mem_append.mp hx with hx | hx
    · exact hkeep x hx ht
    · rw [List.mem_singleton.mp hx, hc] at ht
      cases ht
  have hprepend : ∀ {c : Chunk}, c.file.isTemp = false → ∀ x ∈ c :: cq.first,
      x.file.isTemp = true →
      ∃ d ∈ cq.first, d.file.isTemp = true ∧ d.file.name.str = x.file.name.str := by
    intro c hc x hx ht
    rcases List.mem_cons.mp hx with rfl | hx
    · rw [hc] at ht
      cases ht
    · exact hkeep x hx ht
  have hmodify : ∀ {f : Chunk → Chunk},
      (∀ c, (f c).file.isTemp = c.file.isTemp ∧ (f c).file.name = c.file.name) → ∀ i,
      ∀ x ∈ cq.first.modify i f, x.file.isTemp = true →
      ∃ d ∈ cq.first, d.file.isTemp = true ∧ d.file.name.str = x.file.name.str := by
    intro f hf i x hx ht
    obtain ⟨j, hj⟩ := List.mem_iff_getElem?.mp hx
    rw [List.getElem?_modify] at hj
    obtain ⟨d, hd, rfl⟩ := Option.map_eq_some_iff.mp hj
    have hmem : d ∈ cq.first := List.mem_of_getElem? hd
    by_cases hij : i = j
    · simp only [hij, if_true] at ht ⊢
      exact ⟨d, hmem, (hf d).1 ▸ ht, by rw [(hf d).2]⟩
    · simp only [if_neg hij] at ht ⊢
      exact hkeep d hmem ht
  have hget : chunkqueueGetUnusedChunk cq.fresh = (cq.fresh, chunkInit) := rfl
  simp only [allocating]
  cases op with
  | appendFile fn offset len =>
    simp only [ChunkOp.apply, chunkqueueAppendFile, hget]
    split
    · exact h.mono hkeep rfl
    · exact h.mono (happend (by rfl)) rfl
  | appendBuffer mem =>
    simp only [ChunkOp.apply, chunkqueueAppendBuffer, hget]
    split
    · exact h.mono hkeep rfl
    · exact h.mono (happend (by rfl)) rfl
  | appendBufferWeak mem => exact h.mono (happend (by rfl)) rfl
  | prependBuffer mem =>
    simp only [ChunkOp.apply, chunkqueuePrependBuffer, hget]
    split
    · exact h.mono hkeep rfl
    · exact h.mono (hprepend (by rfl)) rfl
  | appendMem mem =>
    simp only [ChunkOp.apply, chunkqueueAppendMem, hget]
    split
    · exact h.mono hkeep rfl
    · exact h.mono (happend (by rfl)) rfl
  | getPrependBuffer => exact h.mono (hprepend (by rfl)) rfl
  | getAppendBuffer => exact h.mono (happend (by rfl)) rfl
  | getAppendTempfile answers =>
    simp only [ChunkOp.apply, chunkqueueGetAppendTempfile, hget]
    rcases hcreate : createTempfile cq.fresh.tempdirs answers with ⟨fd, template⟩
    cases fd with
    | none => exact h.mono (happend (by rfl)) rfl
    | some fd =>
      have hstr := bufferCopyStringBuffer_str chunkInit.file.name (ended_createTempfile hcreate)
      refine ⟨fun c hc ht => ?_, fun n hn => ?_⟩
      · rcases List.mem_append.mp hc with hc | hc
        · exact List.mem_append_left _ (h.queued c hc ht)
        · rw [List.mem_singleton.mp hc]
          simp only [hstr]
          simp
      · rcases List.mem_append.mp hn with hn | hn
        · exact List.mem_append_left _ (h.unlinked n hn)
        · simp at hn
  | fill i data =>
    exact h.mono (hmodify (fun c => by unfold fillChunk; split <;> exact ⟨rfl, rfl⟩) i) rfl
  | grow i n =>
    exact h.mono (hmodify (fun c => by unfold growChunk; split <;> exact ⟨rfl, rfl⟩) i) rfl
  | advance i n => exact h.mono (hmodify (f := advanceChunk n) (fun c => ⟨rfl, rfl⟩) i) rfl
  | removeFinishedChunks =>
    have hfresh : OwnTempfiles cq.fresh log := ⟨h.queued, h.unlinked⟩
    exact hfresh.removeFinishedChunks
  | reset =>
    have hmarked : OwnTempfiles { cq.fresh with first := cq.first.map markWritten } log := by
      refine ⟨fun c hc ht => ?_, h.unlinked⟩
      obtain ⟨d, hd, rfl⟩ := List.mem_map.mp hc
      have hsame : (markWritten d).file = d.file := by
        unfold markWritten
        split <;> rfl
      rw [hsame] at ht ⊢
      exact h.queued d hd ht
    have hremoved := hmarked.removeFinishedChunks
    exact ⟨hremoved.queued, hremoved.unlinked⟩

end Tempfiles

section Invisible

variable [Malloc]

/-- After every part of a run, the queue looks like one that allocates each chunk, and has made the
same system calls; it has unlinked only files that it had created as temporary ones. -/
def Invisible (cq : Chunkqueue) (ops : List ChunkOp) : Prop :=
  ∀ pre, pre <+: ops →
    (recycling.run cq pre).1.view = (allocating.run cq pre).1.view ∧
    (recycling.run cq pre).2 = (allocating.run cq pre).2 ∧
    ∀ n, Syscall.unlink n ∈ (recycling.run cq pre).2 →
      Syscall.mkstemp n ∈ (recycling.run cq pre).2

theorem sameQueue_run {tempdirs : Option (List Buffer)} {ops : List ChunkOp}
    (h : recycling.Guarded Reusable (chunkqueueSetTempdirs chunkqueueInit tempdirs) ops) :
    SameQueue (recycling.run (chunkqueueSetTempdirs chunkqueueInit tempdirs) ops).1
      (allocating.run (chunkqueueSetTempdirs chunkqueueInit tempdirs) ops).1 ∧
    (recycling.run (chunkqueueSetTempdirs chunkqueueInit tempdirs) ops).2 =
      (allocating.run (chunkqueueSetTempdirs chunkqueueInit tempdirs) ops).2 := by
  have hinit : SameQueue (chunkqueueSetTempdirs chunkqueueInit tempdirs)
      (chunkqueueSetTempdirs chunkqueueInit tempdirs) :=
    ⟨.nil, rfl, rfl, rfl, by simp [chunkqueueSetTempdirs, chunkqueueInit]⟩
  exact Machine.run_simulation (M := recycling) (N := allocating) (R := SameQueue)
    (fun _ _ op hst (hop : Reusable _ op) => SameQueue.step hst op hop) ops hinit h

theorem ownTempfiles_run (tempdirs : Option (List Buffer)) (ops : List ChunkOp) :
    OwnTempfiles (allocating.run (chunkqueueSetTempdirs chunkqueueInit tempdirs) ops).1
      (allocating.run (chunkqueueSetTempdirs chunkqueueInit tempdirs) ops).2 := by
  have hinit : OwnTempfiles (chunkqueueSetTempdirs chunkqueueInit tempdirs) [] :=
    ⟨by simp [chunkqueueSetTempdirs, chunkqueueInit], by simp⟩
  have hrun := Machine.run_log_invariant (M := allocating) (P := OwnTempfiles)
    (fun _ _ op h => OwnTempfiles.step h op) ops hinit
  exact hrun

theorem invisible_of_guarded {tempdirs : Option (List Buffer)} {ops : List ChunkOp}
    (h : recycling.Guarded Reusable (chunkqueueSetTempdirs chunkqueueInit tempdirs) ops) :
    Invisible (chunkqueueSetTempdirs chunkqueueInit tempdirs) ops := by
  intro pre hpre
  obtain ⟨hsame, hcalls⟩ := sameQueue_run (h.of_prefix hpre)
  refine ⟨hsame.view_eq, hcalls, fun n hn => ?_⟩
  rw [hcalls] at hn ⊢
  exact (ownTempfiles_run tempdirs pre).unlinked n hn

/-- **Recycling is invisible** in exactly the runs in which every `chunkqueue_append_file` and
`chunkqueue_get_append_tempfile` finds a reusable chunk. -/
theorem invisible_iff (tempdirs : Option (List Buffer)) (ops : List ChunkOp) :
    Invisible (chunkqueueSetTempdirs chunkqueueInit tempdirs) ops ↔
      recycling.Guarded Reusable (chunkqueueSetTempdirs chunkqueueInit tempdirs) ops := by
  refine ⟨fun h => ?_, invisible_of_guarded⟩
  induction ops using List.reverseRecOn with
  | nil => trivial
  | append_singleton ops op ih =>
    have hops := ih fun pre hpre => h pre (hpre.trans (List.prefix_append _ _))
    obtain ⟨hsame, -⟩ := sameQueue_run hops
    have hview := (h _ List.prefix_rfl).1
    simp only [Machine.run_append, Machine.run_cons, Machine.run_nil] at hview
    exact Machine.guarded_append.mpr ⟨hops, hsame.reusable op hview, trivial⟩

end Invisible

/-- A temporary file is written and its chunk recycled; the document queued next takes that chunk,
and is unlinked once it is sent. -/
theorem not_invisible_tempfile_then_file :
    ¬ @Invisible ⟨fun _ => 165⟩ (chunkqueueSetTempdirs chunkqueueInit none)
      [.getAppendTempfile fun _ => some (7, ⟨ascii "aaaaaa", rfl⟩), .reset,
        .appendFile ⟨ascii "/srv/index.html" ++ [0], 16, 1⟩ 0 10, .reset] := by
  intro h
  have := (h _ List.prefix_rfl).2.2 (ascii "/srv/index.html") (by decide +kernel)
  revert this
  decide +kernel

end Lighttpd
