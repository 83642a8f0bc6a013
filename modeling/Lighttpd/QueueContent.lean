import Lighttpd.Chunk

/-!
# The bytes of a queue

A queue stands for bytes: those of its memory chunks, without the terminators, and those of its file
chunks, which are read when the queue is written. `Files` is what the system keeps.
-/

namespace Lighttpd

open CLib

/-! ## The files -/

/-- The files: contents by name, and names by open descriptor. -/
structure Files where
  contents : List (Bytes × Bytes)
  fds : List (Nat × Bytes)
  deriving DecidableEq, Repr

namespace Files

def content (fs : Files) (name : Bytes) : Option Bytes := fs.contents.lookup name

def nameOf (fs : Files) (fd : Nat) : Option Bytes := fs.fds.lookup fd

/-- An empty file is created and opened. `mkstemp` never gives a name or a descriptor that is in
use, so such an answer has no value. -/
def create (fs : Files) (name : Bytes) (fd : Nat) : Option Files :=
  if (fs.content name).isSome ∨ (fs.nameOf fd).isSome then none
  else some ⟨(name, []) :: fs.contents, (fd, name) :: fs.fds⟩

/-- `open(name, O_WRONLY | O_APPEND)` -/
def openAppend (fs : Files) (name : Bytes) (fd : Nat) : Option Files :=
  if (fs.content name).isSome ∧ (fs.nameOf fd).isNone then
    some { fs with fds := (fd, name) :: fs.fds }
  else none

def append (fs : Files) (fd : Nat) (s : Bytes) : Files :=
  { fs with contents := fs.contents.map fun f =>
      if fs.nameOf fd = some f.1 then (f.1, f.2 ++ s) else f }

def close (fs : Files) (fd : Nat) : Files := { fs with fds := fs.fds.filter (·.1 != fd) }

theorem content_append (fs : Files) (fd : Nat) (s name : Bytes) :
    (fs.append fd s).content name =
      if fs.nameOf fd = some name then (fs.content name).map (· ++ s) else fs.content name := by
  have key : ∀ (o : Option Bytes) (l : List (Bytes × Bytes)),
      (l.map fun f => if o = some f.1 then (f.1, f.2 ++ s) else f).lookup name =
        if o = some name then (l.lookup name).map (· ++ s) else l.lookup name := by
    intro o l
    induction l with
    | nil => simp
    | cons f l ih =>
      obtain ⟨n, t⟩ := f
      rw [List.map_cons]
      by_cases hn : name = n
      · subst hn
        by_cases ho : o = some name <;> simp [ho]
      · have hbeq : (name == n) = false := by simpa using hn
        split <;>
        · simp only [List.lookup_cons, hbeq]
          exact ih
  exact key (fs.nameOf fd) fs.contents

theorem create_spec {fs fs' : Files} {name : Bytes} {fd : Nat} (h : fs.create name fd = some fs') :
    fs.content name = none ∧ fs'.nameOf fd = some name ∧ fs'.content name = some [] ∧
      ∀ n, n ≠ name → fs'.content n = fs.content n := by
  unfold create at h
  split at h
  · cases h
  · next hfree =>
    obtain rfl := Option.some.inj h
    rw [not_or, Option.not_isSome_iff_eq_none] at hfree
    refine ⟨hfree.1, by simp [nameOf], by simp [content], fun n hn => ?_⟩
    have hbeq : (n == name) = false := by simpa using hn
    simp [content, List.lookup_cons, hbeq]

end Files

/-! ## The bytes of a chunk -/

/-- The bytes of a memory chunk behind its offset, without the terminator. -/
def Chunk.unread (c : Chunk) : Bytes :=
  (c.mem.ptr.drop c.offset.toNat).take (c.mem.used - c.offset.toNat - 1)

def Chunk.content (fs : Files) (c : Chunk) : Bytes :=
  match c.type with
  | .mem => c.unread
  | .file => (((fs.content c.file.name.str).getD []).drop (c.file.start + c.offset).toNat).take
      (c.file.length - c.offset).toNat
  | .unused => []

def Chunkqueue.content (fs : Files) (cq : Chunkqueue) : Bytes :=
  (cq.first.map (Chunk.content fs)).flatten

theorem Chunk.unread_eq (c : Chunk) :
    c.unread = (c.mem.ptr.take (c.mem.used - 1)).drop c.offset.toNat := by
  rw [Chunk.unread, List.drop_take]
  congr 1
  omega

def Files.part (fs : Files) (name : Bytes) (start length : Int) : Bytes :=
  (((fs.content name).getD []).drop start.toNat).take length.toNat

def Files.Has (fs : Files) (name : Bytes) (start length : Int) : Prop :=
  0 ≤ start ∧ 0 ≤ length ∧ ∃ s, fs.content name = some s ∧ start + length ≤ s.length

theorem Files.length_part {fs : Files} {name : Bytes} {start length : Int}
    (h : fs.Has name start length) : ((fs.part name start length).length : Int) = length := by
  obtain ⟨h0, h1, s, hs, hle⟩ := h
  simp only [Files.part, hs, Option.getD_some, List.length_take, List.length_drop]
  omega

/-! ## The last chunk -/

/-- A change to `cq->last->mem`. -/
def Chunkqueue.mapLastMem (cq : Chunkqueue) (f : Buffer → Buffer) : Chunkqueue :=
  { cq with first := cq.first.dropLast ++
      (cq.first.getLast?.map fun c => { c with mem := f c.mem }).toList }

/-- `cq->last->mem` -/
def Chunkqueue.lastMem (cq : Chunkqueue) : Buffer := (cq.first.getLast?.map (·.mem)).getD bufferInit

theorem first_mapLastMem {cq : Chunkqueue} {cs : List Chunk} {c : Chunk}
    (h : cq.first = cs ++ [c]) (f : Buffer → Buffer) :
    (cq.mapLastMem f).first = cs ++ [{ c with mem := f c.mem }] := by
  simp [Chunkqueue.mapLastMem, h]

/-! ## Appending -/

theorem content_appendChunk (fs : Files) (cq : Chunkqueue) (c : Chunk) :
    (chunkqueueAppendChunk cq c).content fs = cq.content fs ++ c.content fs := by
  simp [Chunkqueue.content, chunkqueueAppendChunk]

@[simp] theorem chunkqueueGetUnusedChunk_first (cq : Chunkqueue) :
    (chunkqueueGetUnusedChunk cq).1.first = cq.first := by
  unfold chunkqueueGetUnusedChunk
  split <;> rfl

@[simp] theorem content_getUnusedChunk (fs : Files) (cq : Chunkqueue) :
    (chunkqueueGetUnusedChunk cq).1.content fs = cq.content fs := by
  simp [Chunkqueue.content]

theorem content_mem (fs : Files) {c : Chunk} {s : Bytes} (htype : c.type = .mem)
    (hoff : c.offset = 0) (hs : c.mem.Text s) : c.content fs = s := by
  rw [Chunk.content, htype]
  show c.unread = s
  rw [Chunk.unread_eq, hoff]
  exact take_of_holds hs.holds hs.used

section Append

variable [Malloc] (fs : Files) (cq : Chunkqueue)

theorem content_appendFile {fn : Buffer} (hfn : fn.Ended) (offset len : Int) :
    (chunkqueueAppendFile cq fn offset len).content fs =
      cq.content fs ++ fs.part fn.str offset len := by
  unfold chunkqueueAppendFile
  split
  · next hlen => simp [Files.part, hlen]
  · rw [content_appendChunk, content_getUnusedChunk]
    simp only [Chunk.content, bufferCopyStringBuffer_str _ hfn, Files.part, Int.add_zero,
      Int.sub_zero]

theorem content_appendBuffer (mem : Buffer) :
    (chunkqueueAppendBuffer cq mem).content fs = cq.content fs ++ mem.ptr.take (mem.used - 1) := by
  unfold chunkqueueAppendBuffer
  split
  · next hu => simp [hu]
  · next hu =>
    rw [content_appendChunk, content_getUnusedChunk]
    congr 1
    refine content_mem fs rfl rfl ?_
    simp only [bufferCopyStringBuffer, if_neg hu]
    exact text_bufferCopyStringLen _ _

theorem content_appendMem (mem : Bytes) :
    (chunkqueueAppendMem cq mem).content fs = cq.content fs ++ mem.take (mem.length - 1) := by
  unfold chunkqueueAppendMem
  split
  · next hlen => simp [hlen]
  · rw [content_appendChunk, content_getUnusedChunk]
    congr 1
    exact content_mem fs rfl rfl (text_bufferCopyStringLen _ _)

end Append

end Lighttpd
