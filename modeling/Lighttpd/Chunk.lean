import Lighttpd.Buffer

/-!
# `chunk.c`: the queue of memory and file chunks

`first` is the list of queued chunks from `cq->first` to `cq->last`, `unused` the stack of chunks
kept for reuse. An operation returns the queue and the system calls it made, in order.
-/

namespace Lighttpd

open CLib

inductive ChunkType where
  | unused
  | mem
  | file
  deriving DecidableEq, Repr

/-- `c->file`. A descriptor of -1 is `none`, and so is an `mmap.start` of `MAP_FAILED`. -/
structure ChunkFile where
  name : Buffer
  start : Int
  length : Int
  fd : Option Nat
  mmapStart : Option Nat
  mmapLength : Nat
  isTemp : Bool
  deriving DecidableEq, Repr

structure Chunk where
  type : ChunkType
  mem : Buffer
  file : ChunkFile
  offset : Int
  deriving DecidableEq, Repr

structure Chunkqueue where
  first : List Chunk
  unused : List Chunk
  unusedChunks : Nat
  tempdirs : Option (List Buffer)
  bytesIn : Int
  bytesOut : Int
  deriving DecidableEq, Repr

/-- The system calls of the queue; `mkstemp` is recorded when it creates a file. -/
inductive Syscall where
  | unlink (name : Bytes)
  | close (fd : Nat)
  | munmap (start length : Nat)
  | mkstemp (name : Bytes)
  deriving DecidableEq, Repr

def chunkInit : Chunk where
  type := .unused
  mem := bufferInit
  file :=
    { name := bufferInit, start := 0, length := 0, fd := none
      mmapStart := none, mmapLength := 0, isTemp := false }
  offset := 0

def chunkReset (c : Chunk) : Chunk × List Syscall :=
  let unlinks :=
    if c.file.isTemp ∧ ¬ bufferIsEmpty c.file.name then [Syscall.unlink c.file.name.str] else []
  let closes := c.file.fd.toList.map Syscall.close
  let unmaps := c.file.mmapStart.toList.map (Syscall.munmap · c.file.mmapLength)
  let file := { c.file with name := bufferReset c.file.name, fd := none, mmapStart := none }
  ({ c with mem := bufferReset c.mem, file := file }, unlinks ++ closes ++ unmaps)

def chunkqueueInit : Chunkqueue :=
  { first := [], unused := [], unusedChunks := 0, tempdirs := none, bytesIn := 0, bytesOut := 0 }

def chunkqueueSetTempdirs (cq : Chunkqueue) (tempdirs : Option (List Buffer)) : Chunkqueue :=
  { cq with tempdirs := tempdirs }

def chunkqueueGetUnusedChunk (cq : Chunkqueue) : Chunkqueue × Chunk :=
  match cq.unused with
  | [] => (cq, chunkInit)
  | c :: unused => ({ cq with unused := unused, unusedChunks := cq.unusedChunks - 1 }, c)

def chunkqueuePrependChunk (cq : Chunkqueue) (c : Chunk) : Chunkqueue :=
  { cq with first := c :: cq.first }

def chunkqueueAppendChunk (cq : Chunkqueue) (c : Chunk) : Chunkqueue :=
  { cq with first := cq.first ++ [c] }

def chunkIsFinished (c : Chunk) : Bool :=
  match c.type with
  | .mem => c.mem.used == 0 || c.offset == (c.mem.used : Int) - 1
  | .file => c.offset == c.file.length
  | .unused => false

def keepUnused (c : Chunk) (unused : List Chunk) (n : Nat) : List Chunk × Nat :=
  if n > 4 then (unused, n) else (c :: unused, n + 1)

/-- The loop of `chunkqueue_remove_finished_chunks`: what stays queued, the stack of unused chunks
and its counter, and the calls. -/
def removeFinished : List Chunk → List Chunk → Nat → List Chunk × List Chunk × Nat × List Syscall
  | [], unused, n => ([], unused, n, [])
  | c :: cs, unused, n =>
    if chunkIsFinished c then
      let kept := keepUnused (chunkReset c).1 unused n
      let (first, unused, n, calls) := removeFinished cs kept.1 kept.2
      (first, unused, n, (chunkReset c).2 ++ calls)
    else (c :: cs, unused, n, [])

def chunkqueueRemoveFinishedChunks (cq : Chunkqueue) : Chunkqueue × List Syscall :=
  let (first, unused, n, calls) := removeFinished cq.first cq.unused cq.unusedChunks
  ({ cq with first := first, unused := unused, unusedChunks := n }, calls)

/-- `size_t` has 32 bits, so `used - 1` wraps around for an empty buffer. -/
def markWritten (c : Chunk) : Chunk :=
  match c.type with
  | .mem => { c with offset := ((c.mem.used + (2 ^ 32 - 1)) % 2 ^ 32 : Nat) }
  | .file => { c with offset := c.file.length }
  | .unused => c

def chunkqueueReset (cq : Chunkqueue) : Chunkqueue × List Syscall :=
  let (cq, calls) := chunkqueueRemoveFinishedChunks { cq with first := cq.first.map markWritten }
  ({ cq with bytesIn := 0, bytesOut := 0 }, calls)

theorem removeFinished_all (cs : List Chunk) (h : ∀ c ∈ cs, chunkIsFinished c = true) :
    ∀ (unused : List Chunk) (n : Nat), (removeFinished cs unused n).1 = [] := by
  induction cs with
  | nil => exact fun _ _ => rfl
  | cons c cs ih =>
    intro unused n
    obtain ⟨hc, hcs⟩ := List.forall_mem_cons.mp h
    unfold removeFinished
    rw [if_pos hc]
    exact ih hcs _ _

theorem finished_markWritten {c : Chunk} (htype : c.type ≠ .unused) (hused : c.mem.used < 2 ^ 32) :
    chunkIsFinished (markWritten c) = true := by
  unfold markWritten
  cases hc : c.type with
  | file => simp [chunkIsFinished]
  | mem =>
    simp only [chunkIsFinished, Bool.or_eq_true, beq_iff_eq]
    omega
  | unused => exact absurd hc htype

theorem first_chunkqueueReset {cq : Chunkqueue}
    (h : ∀ c ∈ cq.first, c.type ≠ .unused ∧ c.mem.used < 2 ^ 32) :
    (chunkqueueReset cq).1.first = [] := by
  refine removeFinished_all (cq.first.map markWritten) (fun c hc => ?_) _ _
  obtain ⟨d, hd, rfl⟩ := List.mem_map.mp hc
  exact finished_markWritten (h d hd).1 (h d hd).2

def chunkqueueLength (cq : Chunkqueue) : Int :=
  (cq.first.map fun c =>
    match c.type with
    | .mem => if c.mem.used ≠ 0 then (c.mem.used : Int) - 1 else 0
    | .file => c.file.length
    | .unused => 0).sum

section Operations

variable [Malloc]

def chunkqueueAppendFile (cq : Chunkqueue) (fn : Buffer) (offset len : Int) : Chunkqueue :=
  if len = 0 then cq
  else
    let (cq, c) := chunkqueueGetUnusedChunk cq
    let file := { c.file with
      name := bufferCopyStringBuffer c.file.name fn, start := offset, length := len }
    chunkqueueAppendChunk cq { c with type := .file, file := file, offset := 0 }

def chunkqueueAppendBuffer (cq : Chunkqueue) (mem : Buffer) : Chunkqueue :=
  if mem.used = 0 then cq
  else
    let (cq, c) := chunkqueueGetUnusedChunk cq
    chunkqueueAppendChunk cq
      { c with type := .mem, offset := 0, mem := bufferCopyStringBuffer c.mem mem }

def chunkqueueAppendBufferWeak (cq : Chunkqueue) (mem : Buffer) : Chunkqueue :=
  let (cq, c) := chunkqueueGetUnusedChunk cq
  chunkqueueAppendChunk cq { c with type := .mem, offset := 0, mem := mem }

def chunkqueuePrependBuffer (cq : Chunkqueue) (mem : Buffer) : Chunkqueue :=
  if mem.used = 0 then cq
  else
    let (cq, c) := chunkqueueGetUnusedChunk cq
    chunkqueuePrependChunk cq
      { c with type := .mem, offset := 0, mem := bufferCopyStringBuffer c.mem mem }

/-- `mem` is the `len` bytes at the argument; the last of them is taken for a terminator. -/
def chunkqueueAppendMem (cq : Chunkqueue) (mem : Bytes) : Chunkqueue :=
  if mem.length = 0 then cq
  else
    let (cq, c) := chunkqueueGetUnusedChunk cq
    chunkqueueAppendChunk cq
      { c with type := .mem, offset := 0
               mem := bufferCopyStringLen c.mem (some (mem.take (mem.length - 1))) }

def chunkqueueGetPrependBuffer (cq : Chunkqueue) : Chunkqueue :=
  let (cq, c) := chunkqueueGetUnusedChunk cq
  chunkqueuePrependChunk cq { c with type := .mem, offset := 0, mem := bufferReset c.mem }

def chunkqueueGetAppendBuffer (cq : Chunkqueue) : Chunkqueue :=
  let (cq, c) := chunkqueueGetUnusedChunk cq
  chunkqueueAppendChunk cq { c with type := .mem, offset := 0, mem := bufferReset c.mem }

/-- What the system answers to `mkstemp`: a descriptor and the characters for the six `X`, or
failure. -/
abbrev MkstempAnswer := Option (Nat × Block 6)

/-- `mkstemp(template->ptr)` -/
def mkstemp (template : Buffer) (answer : MkstempAnswer) : Option Nat × Buffer :=
  match answer with
  | none => (none, template)
  | some (fd, six) =>
    if template.str.length < 6 then (none, template)
    else (some fd, { template with
      ptr := memcpy template.ptr (template.str.length - 6) six.bytes })

/-- The template in one of the `tempdirs`. -/
def tempTemplate (template dir : Buffer) : Buffer :=
  bufferAppendStringLen (bufferAppendSlash (bufferCopyStringBuffer template dir))
    (some (ascii "lighttpd-upload-XXXXXX"))

/-- The loop over the `tempdirs`, which ends with the first success; `answers i` is for the `i`-th
directory. -/
def tryTempdirs : List Buffer → (Nat → MkstempAnswer) → Nat → Buffer → Option Nat × Buffer
  | [], _, _, template => (none, template)
  | dir :: dirs, answers, i, template =>
    match mkstemp (tempTemplate template dir) (answers i) with
    | (some fd, template) => (some fd, template)
    | (none, template) => tryTempdirs dirs answers (i + 1) template

/-- The descriptor `mkstemp` gave, and the last template. -/
def createTempfile (tempdirs : Option (List Buffer)) (answers : Nat → MkstempAnswer) :
    Option Nat × Buffer :=
  let template := bufferCopyString bufferInit (some (ascii "/var/tmp/lighttpd-upload-XXXXXX"))
  match tempdirs with
  | some (dir :: dirs) => tryTempdirs (dir :: dirs) answers 0 template
  | _ => mkstemp template (answers 0)

def chunkqueueGetAppendTempfile (cq : Chunkqueue) (answers : Nat → MkstempAnswer) :
    Chunkqueue × List Syscall :=
  let (cq, c) := chunkqueueGetUnusedChunk cq
  let (fd, template) := createTempfile cq.tempdirs answers
  let file := { c.file with
    fd := fd
    isTemp := if fd.isSome then true else c.file.isTemp
    name := bufferCopyStringBuffer c.file.name template
    length := 0 }
  (chunkqueueAppendChunk cq { c with type := .file, offset := 0, file := file },
    if fd.isSome then [.mkstemp template.str] else [])

end Operations

end Lighttpd
