import Lighttpd.Lib.Numeral
import Mathlib.Data.List.Flatten

/-!
# `buffer.c`: the growing byte buffer

A `Buffer` is the heap block `ptr` points to, the `used` counter, and the number of the allocation
the block comes from, which tells a stale `char *` from a live one. The block is empty exactly when
`ptr` is `NULL` and `size` is 0. Two conventions for `used` meet in callers: the string functions
count the terminating NUL, the memory functions do not.
-/

namespace Lighttpd

open CLib

/-- `ssize_t` has 32 bits. -/
def SSIZE_MAX : Nat := 2147483647

/-- What the bytes of a fresh heap block hold. `malloc` leaves them indeterminate, so the results
about buffers hold for every instance. -/
class Malloc where
  junk : Nat → UInt8

@[reducible] def zeroMalloc : Malloc := ⟨fun _ => 0⟩

/-- `malloc(n)`. -/
def malloc [Malloc] (n : Nat) : Bytes := (List.range n).map Malloc.junk

/-- `realloc(p, n)`: the old bytes, then indeterminate ones. -/
def realloc [Malloc] (p : Bytes) (n : Nat) : Bytes := p ++ (malloc n).drop p.length

/-- `memcpy(m + off, s, s.length)`. -/
def memcpy (m : Bytes) (off : Nat) (s : Bytes) : Bytes :=
  m.take off ++ s ++ m.drop (off + s.length)

structure Buffer where
  ptr : Bytes
  used : Nat
  gen : Nat
  deriving DecidableEq, Repr

namespace Buffer

/-- `b->size`, the allocated size. -/
def size (b : Buffer) : Nat := b.ptr.length

def bytes (b : Buffer) : Bytes := b.ptr.take b.used

/-- `CONST_BUF_LEN`: the bytes in use without the terminator, `none` for `NULL`. -/
def constBufLen (b : Buffer) : Option Bytes :=
  if b.size = 0 then none else some (b.ptr.take (b.used - 1))

/-- The C string at `b->ptr`. -/
def str (b : Buffer) : Bytes := cstr b.ptr

def WF (b : Buffer) : Prop := b.used ≤ b.size

instance (b : Buffer) : Decidable b.WF := inferInstanceAs (Decidable (_ ≤ _))

/-- The buffer holds the string `s`. -/
def Holds (b : Buffer) (s : Bytes) : Prop := b.bytes = s ++ [0]

def Ended (b : Buffer) : Prop := ∃ s rest, b.ptr = s ++ 0 :: rest ∧ b.used = s.length + 1

/-- A buffer without its allocation: the counter, the bytes in use and the string. -/
def view (b : Buffer) : Nat × Bytes × Bytes := (b.used, b.bytes, b.str)

/-- The buffer holds the NUL-terminated string `s`, perhaps with more bytes in use behind it. -/
structure Terminated (b : Buffer) (s : Bytes) : Prop where
  cstr : IsCStr s
  text : (s ++ [0]) <+: b.bytes
  wf : b.WF

namespace Terminated

variable {b : Buffer} {s : Bytes}

theorem length_lt (h : b.Terminated s) : s.length < b.used := by
  have := h.text.length_le
  simp only [List.length_append, List.length_singleton, bytes, List.length_take] at this
  omega

theorem str (h : b.Terminated s) : b.str = s := by
  obtain ⟨rest, hrest⟩ := h.text.trans (List.take_prefix b.used b.ptr)
  rw [Buffer.str, ← hrest, List.append_assoc]
  exact cstr_append_zero h.cstr rest

end Terminated

end Buffer

def BUFFER_PIECE_SIZE : Nat := 64

/-- `settings.h` -/
def BUFFER_MAX_REUSE_SIZE : Nat := 4 * 1024

/-- Allocations are a multiple of `BUFFER_PIECE_SIZE`. -/
def pieces (n : Nat) : Nat := n + (BUFFER_PIECE_SIZE - n % BUFFER_PIECE_SIZE)

section Operations

variable [Malloc]

def bufferInit : Buffer := ⟨[], 0, 0⟩

def bufferReset (b : Buffer) : Buffer :=
  if b.size > BUFFER_MAX_REUSE_SIZE then { b with ptr := [], used := 0 }
  else if b.size ≠ 0 then { b with ptr := b.ptr.set 0 0, used := 0 }
  else { b with used := 0 }

def bufferPrepareCopy (b : Buffer) (size : Nat) : Buffer :=
  if b.size = 0 ∨ size > b.size then ⟨malloc (pieces size), 0, b.gen + 1⟩
  else { b with used := 0 }

def bufferPrepareAppend (b : Buffer) (size : Nat) : Buffer :=
  if b.size = 0 then ⟨malloc (pieces size), 0, b.gen + 1⟩
  else if b.used + size > b.size then
    { b with ptr := realloc b.ptr (pieces (b.size + size)), gen := b.gen + 1 }
  else b

/-- `s` is the string at the argument. -/
def bufferCopyString (b : Buffer) (s : Option Bytes) : Buffer :=
  match s with
  | none => b
  | some s =>
    let b := bufferPrepareCopy b (s.length + 1)
    { b with ptr := memcpy b.ptr 0 (s ++ [0]), used := s.length + 1 }

/-- `s` is the `s_len` bytes at the argument, `none` for `NULL`. -/
def bufferCopyStringLen (b : Buffer) (s : Option Bytes) : Buffer :=
  match s with
  | none => b
  | some s =>
    let b := bufferPrepareCopy b (s.length + 1)
    { b with ptr := (memcpy b.ptr 0 s).set s.length 0, used := s.length + 1 }

def bufferCopyStringBuffer (b : Buffer) (src : Buffer) : Buffer :=
  if src.used = 0 then bufferReset b else bufferCopyStringLen b (some (src.ptr.take (src.used - 1)))

/-- `if (b->used == 0) b->used++;` -/
def bufferStart (b : Buffer) : Buffer := if b.used = 0 then { b with used := 1 } else b

def bufferAppendString (b : Buffer) (s : Option Bytes) : Buffer :=
  match s with
  | none => b
  | some s =>
    let b := bufferStart (bufferPrepareAppend b (s.length + 1))
    { b with ptr := memcpy b.ptr (b.used - 1) (s ++ [0]), used := b.used + s.length }

def bufferAppendStringLen (b : Buffer) (s : Option Bytes) : Buffer :=
  match s with
  | none => b
  | some s =>
    if s.length = 0 then b
    else
      let b := bufferStart (bufferPrepareAppend b (s.length + 1))
      let used := b.used + s.length
      { b with ptr := (memcpy b.ptr (b.used - 1) s).set (used - 1) 0, used := used }

def bufferAppendStringBuffer (b : Buffer) (src : Buffer) : Buffer :=
  if src.used = 0 then b else bufferAppendStringLen b (some (src.ptr.take (src.used - 1)))

def bufferAppendMemory (b : Buffer) (s : Option Bytes) : Buffer :=
  match s with
  | none => b
  | some s =>
    if s.length = 0 then b
    else
      let b := bufferPrepareAppend b s.length
      { b with ptr := memcpy b.ptr b.used s, used := b.used + s.length }

def bufferCopyMemory (b : Buffer) (s : Option Bytes) : Buffer :=
  match s with
  | none => b
  | some s => bufferAppendMemory { b with used := 0 } (some s)

/-- `LI_ltostr`: the digits, last one first (`fuel` bounds their number), then swapped around. -/
def ltostrDigits : Nat → Nat → Bytes
  | 0, val => [digitByte val]
  | fuel + 1, val =>
    if val > 9 then digitByte (val % 10) :: ltostrDigits fuel (val / 10) else [digitByte val]

def ltostr (val : Int) : Bytes :=
  (if val < 0 then [45] else []) ++ (ltostrDigits val.natAbs val.natAbs).reverse

def bufferAppendLong (b : Buffer) (val : Int) : Buffer :=
  let b := bufferStart (bufferPrepareAppend b 32)
  let digits := ltostr val
  { b with ptr := memcpy b.ptr (b.used - 1) (digits ++ [0]), used := b.used + digits.length }

def bufferCopyLong (b : Buffer) (val : Int) : Buffer := bufferAppendLong { b with used := 0 } val

/-- The same code for an `off_t`, which is longer than a `long`. -/
def bufferAppendOffT (b : Buffer) (val : Int) : Buffer := bufferAppendLong b val

def bufferCopyOffT (b : Buffer) (val : Int) : Buffer := bufferAppendOffT { b with used := 0 } val

/-- `BUFFER_APPEND_SLASH` -/
def bufferAppendSlash (b : Buffer) : Buffer :=
  if b.used > 1 ∧ b.ptr[b.used - 2]? ≠ some 47 then bufferAppendStringLen b (some [47]) else b

def bufferIsEmpty (b : Buffer) : Bool := b.used == 0

/-- `strcmp` decides, so what stands behind an embedded NUL does not count. -/
def bufferIsEqual (a b : Buffer) : Bool :=
  if a.used ≠ b.used then false else if a.used = 0 then true else a.str == b.str

def bufferIsEqualString (a : Buffer) (s : Bytes) : Bool :=
  if a.used ≠ s.length + 1 then false else a.str == s

/-- A `char` is signed. -/
def charVal (c : UInt8) : Int := c.toInt8.toInt

/-- The two bytes as they are compared when they differ: only a pair of an upper-case and a
lower-case letter is brought to one case. -/
def caselessPair (a1 b1 : UInt8) : UInt8 × UInt8 :=
  let upper (c : UInt8) := 65 ≤ c && c ≤ 90
  let lower (c : UInt8) := 97 ≤ c && c ≤ 122
  if upper a1 && lower b1 then (a1 ||| 32, b1)
  else if lower a1 && upper b1 then (a1, b1 ||| 32)
  else (a1, b1)

/-- The word-wise loop of the source only skips equal words, so it is not modelled. -/
def bufferCaselessCompare : Bytes → Bytes → Int
  | [], b => -(b.length : Int)
  | a, [] => a.length
  | a1 :: a, b1 :: b =>
    if a1 = b1 then bufferCaselessCompare a b
    else
      let (a2, b2) := caselessPair a1 b1
      if charVal a2 - charVal b2 ≠ 0 then charVal a2 - charVal b2 else bufferCaselessCompare a b

end Operations

/-! ## Blocks -/

theorem length_memcpy {m s : Bytes} {off : Nat} (h : off + s.length ≤ m.length) :
    (memcpy m off s).length = m.length := by
  simp [memcpy]
  omega

theorem take_memcpy {m s : Bytes} {off : Nat} (h : off ≤ m.length) :
    (memcpy m off s).take (off + s.length) = m.take off ++ s := by
  unfold memcpy
  rw [List.take_append_of_le_length (by simp [h])]
  exact List.take_of_length_le (by simp [h])

theorem memcpy_append {a b s : Bytes} {off : Nat} (h : off + s.length ≤ a.length) :
    memcpy (a ++ b) off s = memcpy a off s ++ b := by
  unfold memcpy
  rw [List.take_append_of_le_length (by omega), List.drop_append_of_le_length h]
  simp

theorem take_set_memcpy {m s : Bytes} {k : Nat} (h : k + s.length < m.length) :
    ((memcpy m k s).set (k + s.length) 0).take (k + s.length + 1) =
      m.take k ++ s ++ [0] := by
  have hlen : (memcpy m k s).length = m.length := length_memcpy (by omega)
  rw [List.take_succ_eq_append_getElem (by simp [hlen, h])]
  rw [List.take_set_of_le (Nat.le_refl _), take_memcpy (by omega)]
  simp

theorem lt_pieces (n : Nat) : n < pieces n := by
  unfold pieces BUFFER_PIECE_SIZE
  omega

@[simp] theorem length_malloc [Malloc] (n : Nat) : (malloc n).length = n := by simp [malloc]

theorem length_realloc [Malloc] {p : Bytes} {n : Nat} (h : p.length ≤ n) :
    (realloc p n).length = n := by
  simp [realloc]
  omega

/-! ## What each operation leaves in the buffer -/

theorem wf_of_used_zero {b : Buffer} (h : b.used = 0) : b.WF := by simp [Buffer.WF, h]

theorem wf_of_holds {b : Buffer} {s : Bytes} (h : b.Holds s) (hu : b.used = s.length + 1) :
    b.WF := by
  have := congrArg List.length h
  simp only [Buffer.bytes, List.length_take, List.length_append, List.length_singleton] at this
  unfold Buffer.WF Buffer.size
  omega

theorem take_of_holds {b : Buffer} {s : Bytes} (h : b.Holds s) (hu : b.used = s.length + 1) :
    b.ptr.take (b.used - 1) = s := by
  have htake : (b.ptr.take b.used).take (b.used - 1) = s := by
    rw [← Buffer.bytes, h, hu]
    simp
  rwa [List.take_take, Nat.min_eq_left (Nat.sub_le _ _)] at htake

theorem ended_of_holds {b : Buffer} {s : Bytes} (h : b.Holds s) (hb : b.WF) : b.Ended := by
  have hlen := congrArg List.length h
  simp only [Buffer.bytes, List.length_append, List.length_singleton, List.length_take] at hlen
  refine ⟨s, b.ptr.drop b.used, ?_, ?_⟩
  · have hsplit := List.take_append_drop b.used b.ptr
    rw [← Buffer.bytes, h] at hsplit
    simpa using hsplit.symm
  · simp only [Buffer.WF, Buffer.size] at hb
    omega

@[simp] theorem bufferReset_used (b : Buffer) : (bufferReset b).used = 0 := by
  unfold bufferReset
  split
  · rfl
  · split <;> rfl

@[simp] theorem bufferReset_bytes (b : Buffer) : (bufferReset b).bytes = [] := by
  simp [Buffer.bytes]

@[simp] theorem bufferInit_bytes : bufferInit.bytes = [] := rfl

@[simp] theorem bufferReset_str (b : Buffer) : (bufferReset b).str = [] := by
  unfold bufferReset Buffer.str Buffer.size
  split
  · rfl
  · split
    · next h =>
      have hne : b.ptr ≠ [] := fun e => by simp [e] at h
      obtain ⟨x, xs, hx⟩ := List.exists_cons_of_ne_nil hne
      simp [hx, cstr]
    · next h =>
      have hnil : b.ptr = [] := by simpa using h
      simp [hnil, cstr]

@[simp] theorem bufferReset_view (b : Buffer) : (bufferReset b).view = (0, [], []) := by
  simp [Buffer.view]

theorem wf_bufferReset (b : Buffer) : (bufferReset b).WF := wf_of_used_zero (by simp)

section Specs

variable [Malloc]

@[simp] theorem bufferPrepareCopy_used (b : Buffer) (n : Nat) :
    (bufferPrepareCopy b n).used = 0 := by
  unfold bufferPrepareCopy
  split <;> rfl

theorem le_size_bufferPrepareCopy (b : Buffer) (n : Nat) : n ≤ (bufferPrepareCopy b n).size := by
  unfold bufferPrepareCopy
  split
  · simp only [Buffer.size, length_malloc]
    exact Nat.le_of_lt (lt_pieces n)
  · next h =>
    simp only [Buffer.size] at h ⊢
    omega

theorem bufferPrepareAppend_spec {b : Buffer} (hb : b.WF) (n : Nat) :
    (bufferPrepareAppend b n).used = b.used ∧ b.used + n ≤ (bufferPrepareAppend b n).size ∧
      (bufferPrepareAppend b n).ptr.take b.used = b.bytes := by
  unfold bufferPrepareAppend
  split
  · next h0 =>
    have hu : b.used = 0 := by
      unfold Buffer.WF at hb
      omega
    refine ⟨hu.symm, ?_, by simp [Buffer.bytes, hu]⟩
    simp only [Buffer.size, length_malloc, hu]
    have := lt_pieces n
    omega
  · split
    · have hlt := lt_pieces (b.size + n)
      simp only [Buffer.WF, Buffer.size] at hb hlt ⊢
      have hlen : (realloc b.ptr (pieces (b.ptr.length + n))).length = pieces (b.ptr.length + n) :=
        length_realloc (by omega)
      refine ⟨trivial, ?_, ?_⟩
      · rw [hlen]
        omega
      · exact List.take_append_of_le_length hb
    · next h => exact ⟨rfl, Nat.le_of_not_lt h, rfl⟩

theorem holds_bufferCopyStringLen (b : Buffer) (s : Bytes) :
    (bufferCopyStringLen b (some s)).Holds s := by
  have hsize := le_size_bufferPrepareCopy b (s.length + 1)
  simp only [Buffer.Holds, Buffer.bytes, bufferCopyStringLen]
  have := take_set_memcpy (m := (bufferPrepareCopy b (s.length + 1)).ptr) (s := s) (k := 0)
    (by simp only [Buffer.size] at hsize; omega)
  simpa using this

@[simp] theorem bufferCopyStringLen_used (b : Buffer) (s : Bytes) :
    (bufferCopyStringLen b (some s)).used = s.length + 1 := rfl

theorem wf_bufferCopyStringLen (b : Buffer) (s : Bytes) :
    (bufferCopyStringLen b (some s)).WF :=
  wf_of_holds (holds_bufferCopyStringLen b s) rfl

@[simp] theorem bufferCopyStringLen_view (b : Buffer) (s : Bytes) :
    (bufferCopyStringLen b (some s)).view = (s.length + 1, s ++ [0], cstr s) := by
  have hholds := holds_bufferCopyStringLen b s
  have hstr : (bufferCopyStringLen b (some s)).str = cstr s := by
    obtain ⟨rest, hrest⟩ : (s ++ [0]) <+: (bufferCopyStringLen b (some s)).ptr :=
      hholds ▸ List.take_prefix _ _
    rw [Buffer.str, ← hrest, List.append_assoc]
    exact cstr_append_nul s rest
  rw [Buffer.view, hstr, bufferCopyStringLen_used, hholds]

theorem bufferCopyStringBuffer_view (b b' src : Buffer) :
    (bufferCopyStringBuffer b src).view = (bufferCopyStringBuffer b' src).view := by
  unfold bufferCopyStringBuffer
  split <;> simp

theorem bufferCopyStringBuffer_str (b : Buffer) {src : Buffer} (h : src.Ended) :
    (bufferCopyStringBuffer b src).str = src.str := by
  obtain ⟨s, rest, hptr, hused⟩ := h
  have hview := bufferCopyStringLen_view b s
  have htake : src.ptr.take (src.used - 1) = s := by simp [hptr, hused]
  unfold bufferCopyStringBuffer
  rw [if_neg (by omega), htake, Buffer.str, Buffer.str, hptr, cstr_append_nul]
  exact congrArg (·.2.2) hview

theorem bufferCopyStringBuffer_bytes (b : Buffer) {src : Buffer} (hu : src.used ≠ 0) :
    (bufferCopyStringBuffer b src).Holds (src.ptr.take (src.used - 1)) := by
  unfold bufferCopyStringBuffer
  rw [if_neg hu]
  exact holds_bufferCopyStringLen _ _

theorem wf_bufferCopyStringBuffer (b src : Buffer) : (bufferCopyStringBuffer b src).WF := by
  unfold bufferCopyStringBuffer
  split
  · exact wf_bufferReset b
  · exact wf_bufferCopyStringLen _ _

theorem bufferCopyMemory_bytes (b : Buffer) {s : Bytes} (hs : s ≠ []) :
    (bufferCopyMemory b (some s)).used = s.length ∧
      (bufferCopyMemory b (some s)).bytes = s ∧ (bufferCopyMemory b (some s)).WF := by
  have hlen : s.length ≠ 0 := by simpa using hs
  have hwf : ({ b with used := 0 } : Buffer).WF := wf_of_used_zero rfl
  obtain ⟨hu, hsize, -⟩ := bufferPrepareAppend_spec hwf s.length
  simp only [bufferCopyMemory, bufferAppendMemory, if_neg hlen]
  have hu0 : (bufferPrepareAppend { b with used := 0 } s.length).used = 0 := hu
  simp only [Nat.zero_add] at hsize
  refine ⟨by rw [hu0, Nat.zero_add], ?_, ?_⟩
  · simp only [Buffer.bytes, hu0]
    have := take_memcpy (m := (bufferPrepareAppend { b with used := 0 } s.length).ptr) (s := s)
      (Nat.zero_le _)
    simpa using this
  · simp only [Buffer.WF, Buffer.size, hu0, Nat.zero_add]
    rw [length_memcpy (by simp only [Nat.zero_add]; exact hsize)]
    exact hsize

theorem bufferAppendMemory_bytes {b : Buffer} (hb : b.WF) (s : Bytes) :
    (bufferAppendMemory b (some s)).bytes = b.bytes ++ s ∧ (bufferAppendMemory b (some s)).WF := by
  by_cases hlen : s.length = 0
  · obtain rfl : s = [] := List.length_eq_zero_iff.mp hlen
    exact ⟨by simp [bufferAppendMemory], hb⟩
  · obtain ⟨hu, hsize, hbytes⟩ := bufferPrepareAppend_spec hb s.length
    simp only [bufferAppendMemory, if_neg hlen]
    have hwf : (bufferPrepareAppend b s.length).WF := by
      simp only [Buffer.WF]
      omega
    simp only [Buffer.WF, Buffer.size] at hwf hsize ⊢
    refine ⟨?_, ?_⟩
    · simp only [Buffer.bytes] at hbytes ⊢
      rw [take_memcpy hwf, hu, hbytes]
    · rw [length_memcpy (by omega)]
      omega

theorem take_bufferAppendString_nil {b : Buffer} (hb : b.WF) (hu : b.used ≠ 0) :
    (bufferAppendString b (some [])).ptr.take ((bufferAppendString b (some [])).used - 1) =
      b.bytes.dropLast := by
  obtain ⟨hused, hsize, htake⟩ := bufferPrepareAppend_spec hb 1
  simp only [bufferAppendString, List.length_nil, Nat.zero_add, List.nil_append, Nat.add_zero]
  generalize bufferPrepareAppend b 1 = p at hused hsize htake
  have hstart : bufferStart p = p := if_neg (by omega)
  have hle : p.used - 1 ≤ p.ptr.length := by
    simp only [Buffer.size] at hsize
    omega
  have hlen : b.bytes.length = b.used := by
    simp only [Buffer.bytes, List.length_take, Buffer.WF, Buffer.size] at hb ⊢
    omega
  rw [hstart, List.dropLast_eq_take, hlen, ← htake, List.take_take, memcpy,
    List.append_assoc, List.take_append_of_le_length (by simp [hle]), List.take_take, hused]
  congr 1
  omega

theorem bufferAppendStringLen_bytes {b : Buffer} (hb : b.WF) {s : Bytes} (hs : s ≠ []) :
    (bufferAppendStringLen b (some s)).bytes = b.bytes.dropLast ++ s ++ [0] ∧
      (bufferAppendStringLen b (some s)).WF := by
  have hlen : s.length ≠ 0 := by simpa using hs
  obtain ⟨hu, hsize, htake⟩ := bufferPrepareAppend_spec hb (s.length + 1)
  simp only [bufferAppendStringLen, if_neg hlen]
  generalize hp : bufferPrepareAppend b (s.length + 1) = p at hu hsize htake
  have hst : (bufferStart p).ptr = p.ptr ∧ (bufferStart p).used = max 1 b.used := by
    unfold bufferStart
    split
    · next h0 => exact ⟨rfl, by simp only; omega⟩
    · exact ⟨rfl, by omega⟩
  rw [hst.1, hst.2]
  simp only [Buffer.size] at hsize
  have hoff : max 1 b.used - 1 + s.length < p.ptr.length := by omega
  have hset := take_set_memcpy hoff
  have hpos : max 1 b.used + s.length - 1 = max 1 b.used - 1 + s.length := by omega
  have htot : max 1 b.used + s.length = max 1 b.used - 1 + s.length + 1 := by omega
  have hold : p.ptr.take (max 1 b.used - 1) = b.bytes.dropLast := by
    rw [← htake, List.dropLast_eq_take, List.take_take, List.length_take]
    congr 1
    omega
  refine ⟨?_, ?_⟩
  · show List.take _ _ = _
    rw [hpos, htot, hset, hold]
  · simp only [Buffer.WF, Buffer.size, List.length_set]
    rw [length_memcpy (by omega)]
    omega

/-! ## Texts -/

/-- The buffer holds `s` and nothing else. -/
structure Buffer.Text (b : Buffer) (s : Bytes) : Prop where
  holds : b.Holds s
  used : b.used = s.length + 1

omit [Malloc] in
theorem Buffer.Text.wf {b : Buffer} {s : Bytes} (h : b.Text s) : b.WF := wf_of_holds h.holds h.used

omit [Malloc] in
theorem Buffer.Text.constBufLen {b : Buffer} {s : Bytes} (h : b.Text s) :
    b.constBufLen = some s := by
  have hwf := h.wf
  have hu := h.used
  unfold Buffer.constBufLen
  rw [if_neg (by simp only [Buffer.WF] at hwf; omega), take_of_holds h.holds h.used]

omit [Malloc] in
theorem Buffer.Text.unique {b : Buffer} {s t : Bytes} (hs : b.Text s) (ht : b.Text t) : s = t :=
  List.append_cancel_right ((Buffer.Holds.eq_1 b s ▸ hs.holds).symm.trans ht.holds)

omit [Malloc] in
theorem Buffer.Text.ptr_eq {b : Buffer} {t : Bytes} (h : b.Text t) :
    ∃ behind, b.ptr = t ++ 0 :: behind := by
  refine ⟨b.ptr.drop b.used, ?_⟩
  have hsplit := List.take_append_drop b.used b.ptr
  rw [← Buffer.bytes, h.holds, List.append_assoc] at hsplit
  exact hsplit.symm

def textBuffer (s : Bytes) : Buffer := ⟨s ++ [0], s.length + 1, 1⟩

omit [Malloc] in
theorem text_textBuffer (s : Bytes) : (textBuffer s).Text s where
  holds := by
    rw [Buffer.Holds, Buffer.bytes, textBuffer, List.take_of_length_le (by simp)]
  used := rfl

theorem text_bufferCopyStringLen (b : Buffer) (s : Bytes) :
    (bufferCopyStringLen b (some s)).Text s :=
  ⟨holds_bufferCopyStringLen b s, rfl⟩

theorem text_bufferCopyString (b : Buffer) (s : Bytes) : (bufferCopyString b (some s)).Text s := by
  have htake := @take_memcpy (bufferPrepareCopy b (s.length + 1)).ptr (s ++ [0]) 0 (Nat.zero_le _)
  refine ⟨?_, rfl⟩
  simpa [Buffer.Holds, Buffer.bytes, bufferCopyString] using htake

theorem bufferPrepareAppend_gen {b : Buffer} (hu : b.used ≠ 0) (hb : b.WF) (n : Nat) :
    (bufferPrepareAppend b n).gen = if b.used + n > b.size then b.gen + 1 else b.gen := by
  have hsize : b.size ≠ 0 := by
    simp only [Buffer.WF] at hb
    omega
  unfold bufferPrepareAppend
  rw [if_neg hsize]
  split <;> rfl

theorem text_bufferAppendString {b : Buffer} {t : Bytes} (h : b.Text t) (s : Bytes) :
    (bufferAppendString b (some s)).Text (t ++ s) ∧ (bufferAppendString b (some s)).gen =
      if b.used + (s.length + 1) > b.size then b.gen + 1 else b.gen := by
  have hu : b.used ≠ 0 := by
    rw [h.used]
    omega
  obtain ⟨hused, hsize, htake⟩ := bufferPrepareAppend_spec h.wf (s.length + 1)
  have hgen := bufferPrepareAppend_gen hu h.wf (s.length + 1)
  simp only [bufferAppendString]
  generalize bufferPrepareAppend b (s.length + 1) = p at *
  have hstart : bufferStart p = p := if_neg (by omega)
  rw [hstart]
  refine ⟨⟨?_, ?_⟩, hgen⟩
  · have hoff : p.used - 1 + (s ++ [0]).length = p.used + s.length := by
      rw [List.length_append, List.length_singleton]
      omega
    have hpt : p.ptr.take (p.used - 1) = t := by
      have : p.ptr.take (b.used - 1) = (p.ptr.take b.used).take (b.used - 1) := by
        rw [List.take_take, Nat.min_eq_left (Nat.sub_le _ _)]
      rw [hused, this, htake, h.holds, h.used]
      simp
    simp only [Buffer.Holds, Buffer.bytes]
    rw [← hoff, take_memcpy (by simp only [Buffer.size] at hsize; omega), hpt, List.append_assoc]
  · show p.used + s.length = (t ++ s).length + 1
    rw [hused, h.used, List.length_append]
    omega

theorem text_bufferAppendString_unused {b : Buffer} (hu : b.used = 0) (s : Bytes) :
    (bufferAppendString b (some s)).Text s := by
  obtain ⟨hused, hsize, -⟩ := bufferPrepareAppend_spec (wf_of_used_zero hu) (s.length + 1)
  simp only [bufferAppendString]
  generalize bufferPrepareAppend b (s.length + 1) = p at *
  have hp : p.used = 0 := hused.trans hu
  have hstart : bufferStart p = { p with used := 1 } := if_pos hp
  have htake := take_memcpy (m := p.ptr) (s := s ++ [0]) (Nat.zero_le _)
  rw [hstart]
  refine ⟨?_, Nat.add_comm 1 s.length⟩
  show (memcpy p.ptr 0 (s ++ [0])).take (1 + s.length) = s ++ [0]
  rw [List.length_append, List.length_singleton, Nat.zero_add, List.take_zero,
    List.nil_append] at htake
  rw [Nat.add_comm, htake]

theorem text_bufferAppendStringLen {b : Buffer} {t : Bytes} (h : b.Text t) (s : Bytes) :
    (bufferAppendStringLen b (some s)).Text (t ++ s) := by
  by_cases hs : s = []
  · subst hs
    simpa [bufferAppendStringLen] using h
  · have hbytes := (bufferAppendStringLen_bytes h.wf hs).1
    have hlen : s.length ≠ 0 := by simpa using hs
    refine ⟨?_, ?_⟩
    · rw [Buffer.Holds, hbytes, h.holds]
      simp
    · obtain ⟨hused, -, -⟩ := bufferPrepareAppend_spec h.wf (s.length + 1)
      have hstart : bufferStart (bufferPrepareAppend b (s.length + 1)) =
          bufferPrepareAppend b (s.length + 1) := if_neg (by rw [hused, h.used]; omega)
      simp only [bufferAppendStringLen, if_neg hlen, hstart, hused, h.used, List.length_append]
      omega

theorem text_bufferAppendStringLen_unused {b : Buffer} (hu : b.used = 0) {s : Bytes} (hs : s ≠ []) :
    (bufferAppendStringLen b (some s)).Text s := by
  obtain ⟨hbytes, hwf⟩ := bufferAppendStringLen_bytes (wf_of_used_zero hu) hs
  have hempty : b.bytes = [] := by simp [Buffer.bytes, hu]
  rw [hempty, List.dropLast_nil, List.nil_append] at hbytes
  refine ⟨hbytes, ?_⟩
  have hlen := congrArg List.length hbytes
  simp only [Buffer.WF, Buffer.size] at hwf
  simp only [Buffer.bytes, List.length_take, List.length_append, List.length_singleton] at hlen
  omega

theorem text_bufferAppendStringBuffer {b src : Buffer} {t s : Bytes} (h : b.Text t)
    (hs : src.Text s) : (bufferAppendStringBuffer b src).Text (t ++ s) := by
  have hu : src.used ≠ 0 := by
    rw [hs.used]
    omega
  rw [bufferAppendStringBuffer, if_neg hu, take_of_holds hs.holds hs.used]
  exact text_bufferAppendStringLen h s

theorem text_bufferAppendStringBuffer_take {b : Buffer} {t : Bytes} (h : b.Text t) (src : Buffer) :
    (bufferAppendStringBuffer b src).Text (t ++ src.ptr.take (src.used - 1)) := by
  unfold bufferAppendStringBuffer
  split
  · next hu => simpa [hu] using h
  · exact text_bufferAppendStringLen h _

omit [Malloc] in
theorem reverse_ltostrDigits (fuel n : Nat) (h : n ≤ fuel) :
    (ltostrDigits fuel n).reverse = decimalNatAux fuel n := by
  induction fuel generalizing n with
  | zero =>
    obtain rfl : n = 0 := by omega
    rfl
  | succ fuel ih =>
    unfold ltostrDigits decimalNatAux
    by_cases hn : n < 10
    · rw [if_neg (by omega), if_pos hn]
      rfl
    · rw [if_pos (by omega), if_neg hn, List.reverse_cons, ih (n / 10) (by omega)]

omit [Malloc] in
theorem ltostr_eq_decimal (v : Int) : ltostr v = decimal v := by
  unfold ltostr decimal decimalNat
  rw [reverse_ltostrDigits _ _ (Nat.le_refl _)]
  split <;> rfl

theorem text_bufferAppendLong {b : Buffer} {t : Bytes} (h : b.Text t) (v : Int) :
    (bufferAppendLong b v).Text (t ++ decimal v) := by
  obtain ⟨hused, hsize, htake⟩ := bufferPrepareAppend_spec h.wf 32
  simp only [bufferAppendLong, ltostr_eq_decimal]
  generalize decimal v = digits
  generalize bufferPrepareAppend b 32 = p at *
  have hu : p.used = t.length + 1 := by rw [hused, h.used]
  have hstart : bufferStart p = p := if_neg (by omega)
  have hpt : p.ptr.take t.length = t := by
    have : p.ptr.take t.length = (p.ptr.take b.used).take t.length := by
      rw [List.take_take, h.used, Nat.min_eq_left (by omega)]
    rw [this, htake, h.holds, List.take_left' rfl]
  rw [hstart]
  refine ⟨?_, ?_⟩
  · have hoff : t.length + (digits ++ [0]).length = p.used + digits.length := by
      rw [List.length_append, List.length_singleton]
      omega
    simp only [Buffer.size] at hsize
    simp only [Buffer.Holds, Buffer.bytes, hu, Nat.add_sub_cancel]
    rw [← hu, ← hoff, take_memcpy (by omega), hpt, List.append_assoc]
  · show p.used + digits.length = (t ++ digits).length + 1
    rw [hu, List.length_append]
    omega

theorem text_bufferAppendOffT {b : Buffer} {t : Bytes} (h : b.Text t) (v : Int) :
    (bufferAppendOffT b v).Text (t ++ decimal v) := text_bufferAppendLong h v

/-- The buffer holds the text `t`, or is empty as the text is. -/
def Buffer.Shows (b : Buffer) (t : Bytes) : Prop := b.Text t ∨ b.used = 0 ∧ t = []

omit [Malloc] in
theorem Buffer.Text.str {b : Buffer} {s : Bytes} (h : b.Text s) (hs : IsCStr s) : b.str = s := by
  have hterm : b.Terminated s := ⟨hs, ⟨[], by rw [h.holds, List.append_nil]⟩, h.wf⟩
  exact hterm.str

omit [Malloc] in
theorem bufferIsEqual_text {a b : Buffer} {s t : Bytes} (ha : a.Text s) (hs : IsCStr s)
    (hb : b.Text t) (ht : IsCStr t) : bufferIsEqual a b = true ↔ s = t := by
  unfold bufferIsEqual
  rw [ha.str hs, hb.str ht, ha.used, hb.used]
  constructor
  · intro h
    split at h
    · cases h
    · rw [if_neg (Nat.succ_ne_zero _)] at h
      exact beq_iff_eq.mp h
  · rintro rfl
    rw [if_neg (not_not.mpr rfl), if_neg (Nat.succ_ne_zero _)]
    exact beq_self_eq_true s

theorem text_bufferAppendLong_shows {b : Buffer} {t : Bytes} (h : b.Shows t) (v : Int) :
    (bufferAppendLong b v).Text (t ++ decimal v) := by
  rcases h with h | ⟨hu, rfl⟩
  · exact text_bufferAppendLong h v
  · obtain ⟨hused, -, -⟩ := bufferPrepareAppend_spec (wf_of_used_zero hu) 32
    have hstart : bufferStart (bufferPrepareAppend b 32) =
        { bufferPrepareAppend b 32 with used := 1 } := if_pos (by omega)
    have hlen : 1 + (decimal v).length = (decimal v ++ [0]).length := by
      rw [List.length_append, List.length_singleton]
      omega
    unfold bufferAppendLong
    rw [hstart, ltostr_eq_decimal]
    refine ⟨?_, Nat.add_comm _ _⟩
    simp only [Buffer.Holds, Buffer.bytes, memcpy, List.nil_append]
    rw [hlen]
    exact List.take_left' rfl

theorem shows_bufferAppendStringLen {b : Buffer} {t : Bytes} (h : b.Shows t) (s : Bytes) :
    (bufferAppendStringLen b (some s)).Shows (t ++ s) := by
  rcases h with h | ⟨hused, rfl⟩
  · exact Or.inl (text_bufferAppendStringLen h s)
  · by_cases hs : s = []
    · subst hs
      exact Or.inr ⟨hused, rfl⟩
    · exact Or.inl (text_bufferAppendStringLen_unused hused hs)

theorem shows_bufferAppendString {b : Buffer} {t : Bytes} (h : b.Shows t) (s : Bytes) :
    (bufferAppendString b (some s)).Shows (t ++ s) := by
  rcases h with h | ⟨hused, rfl⟩
  · exact Or.inl (text_bufferAppendString h s).1
  · exact Or.inl (text_bufferAppendString_unused hused s)

theorem shows_bufferPrepareAppend {b : Buffer} {t : Bytes} (h : b.Shows t) (n : Nat) :
    (bufferPrepareAppend b n).Shows t := by
  rcases h with h | ⟨hused, rfl⟩
  · obtain ⟨hu, -, hbytes⟩ := bufferPrepareAppend_spec h.wf n
    refine Or.inl ⟨?_, hu.trans h.used⟩
    rw [Buffer.Holds, Buffer.bytes, hu, hbytes, h.holds]
  · exact Or.inr ⟨(bufferPrepareAppend_spec (wf_of_used_zero hused) n).1.trans hused, rfl⟩

omit [Malloc] in
theorem Buffer.Shows.unique {b : Buffer} {s t : Bytes} (hs : b.Shows s) (ht : b.Shows t) :
    s = t := by
  rcases hs with hs | ⟨hused, rfl⟩ <;> rcases ht with ht | ⟨hused', rfl⟩
  · exact hs.unique ht
  · exact absurd (hs.used.symm.trans hused') (Nat.succ_ne_zero _)
  · exact absurd (ht.used.symm.trans hused) (Nat.succ_ne_zero _)
  · rfl

omit [Malloc] in
theorem Buffer.Shows.take {b : Buffer} {t : Bytes} (h : b.Shows t) : b.ptr.take (b.used - 1) = t := by
  rcases h with h | ⟨hused, rfl⟩
  · exact take_of_holds h.holds h.used
  · rw [hused]
    rfl

omit [Malloc] in
theorem shows_bufferReset (b : Buffer) : (bufferReset b).Shows [] :=
  Or.inr ⟨bufferReset_used b, rfl⟩

theorem shows_bufferCopyStringBuffer (b src : Buffer) :
    (bufferCopyStringBuffer b src).Shows (src.ptr.take (src.used - 1)) := by
  unfold bufferCopyStringBuffer
  split
  · next hu =>
    rw [hu]
    exact shows_bufferReset b
  · exact Or.inl (text_bufferCopyStringLen _ _)

theorem gen_le_bufferPrepareAppend (b : Buffer) (n : Nat) : b.gen ≤ (bufferPrepareAppend b n).gen := by
  unfold bufferPrepareAppend
  split
  · exact Nat.le_succ _
  · split
    · exact Nat.le_succ _
    · exact Nat.le_refl _

omit [Malloc] in
@[simp] theorem bufferStart_gen (b : Buffer) : (bufferStart b).gen = b.gen := by
  unfold bufferStart
  split <;> rfl

theorem gen_le_bufferAppendStringLen (b : Buffer) (s : Bytes) :
    b.gen ≤ (bufferAppendStringLen b (some s)).gen := by
  simp only [bufferAppendStringLen]
  split
  · exact Nat.le_refl _
  · rw [bufferStart_gen]
    exact gen_le_bufferPrepareAppend b _

theorem gen_le_bufferAppendStringBuffer (b src : Buffer) :
    b.gen ≤ (bufferAppendStringBuffer b src).gen := by
  unfold bufferAppendStringBuffer
  split
  · exact Nat.le_refl _
  · exact gen_le_bufferAppendStringLen b _

theorem gen_le_bufferAppendString (b : Buffer) (s : Bytes) :
    b.gen ≤ (bufferAppendString b (some s)).gen := by
  simp only [bufferAppendString, bufferStart_gen]
  exact gen_le_bufferPrepareAppend b _

theorem ended_bufferCopyString (b : Buffer) (s : Bytes) : (bufferCopyString b (some s)).Ended :=
  ⟨s, (bufferPrepareCopy b (s.length + 1)).ptr.drop (s.length + 1), by
    simp [bufferCopyString, memcpy], rfl⟩

theorem ended_bufferAppendStringLen {b : Buffer} (hb : b.WF) {s : Bytes} (hs : s ≠ []) :
    (bufferAppendStringLen b (some s)).Ended :=
  ended_of_holds (bufferAppendStringLen_bytes hb hs).1 (bufferAppendStringLen_bytes hb hs).2

theorem wf_bufferAppendSlash {b : Buffer} (hb : b.WF) : (bufferAppendSlash b).WF := by
  unfold bufferAppendSlash
  split
  · exact (bufferAppendStringLen_bytes hb (by simp)).2
  · exact hb

/-- A slash behind a text, but not behind another one, and not at its start. -/
def withSlash (t : Bytes) : Bytes := if t ≠ [] ∧ t.getLast? ≠ some 47 then t ++ [47] else t

theorem text_bufferAppendSlash {b : Buffer} {t : Bytes} (h : b.Text t) :
    (bufferAppendSlash b).Text (withSlash t) := by
  have hcond : (b.used > 1 ∧ b.ptr[b.used - 2]? ≠ some 47) ↔ t ≠ [] ∧ t.getLast? ≠ some 47 := by
    have hused := h.used
    have htake : b.ptr.take (b.used - 1) = t := take_of_holds h.holds h.used
    have hlast : b.ptr[b.used - 2]? = t[b.used - 2]? ∨ b.used ≤ 1 := by
      by_cases hle : b.used ≤ 1
      · exact Or.inr hle
      · rw [← htake, List.getElem?_take_of_lt (by omega)]
        exact Or.inl rfl
    have hempty : b.used > 1 ↔ t ≠ [] := by
      rw [hused, ← List.length_pos_iff]
      omega
    rw [hempty]
    apply and_congr_right
    intro hne
    rcases hlast with hlast | hle
    · rw [hlast, hused, List.getLast?_eq_getElem?]
      rfl
    · have := hempty.mpr hne
      omega
  unfold bufferAppendSlash withSlash
  by_cases hslash : t ≠ [] ∧ t.getLast? ≠ some 47
  · rw [if_pos hslash, if_pos (hcond.mpr hslash)]
    exact text_bufferAppendStringLen h [47]
  · rw [if_neg hslash, if_neg (mt hcond.mp hslash)]
    exact h

omit [Malloc] in
theorem Buffer.Text.view {b : Buffer} {t : Bytes} (h : b.Text t) :
    b.view = (t.length + 1, t ++ [0], cstr t) := by
  have hstr : b.str = cstr t := by
    obtain ⟨rest, hrest⟩ : (t ++ [0]) <+: b.ptr := h.holds ▸ List.take_prefix _ _
    rw [Buffer.str, ← hrest, List.append_assoc]
    exact cstr_append_nul t rest
  rw [Buffer.view, hstr, h.used, h.holds]

omit [Malloc] in
theorem take_of_view {b b' : Buffer} (h : b.view = b'.view) :
    b.ptr.take (b.used - 1) = b'.ptr.take (b'.used - 1) := by
  have hused : b.used = b'.used := congrArg Prod.fst h
  have hbytes : b.ptr.take b.used = b'.ptr.take b'.used := congrArg (·.2.1) h
  have htake : ∀ c : Buffer, c.ptr.take (c.used - 1) = (c.ptr.take c.used).take (c.used - 1) := by
    intro c
    rw [List.take_take, Nat.min_eq_left (Nat.sub_le _ _)]
  rw [htake b, htake b', hbytes, hused]

theorem bufferCopyStringBuffer_congr {src src' : Buffer} (h : src.view = src'.view)
    (b b' : Buffer) : (bufferCopyStringBuffer b src).view = (bufferCopyStringBuffer b' src').view := by
  have hused : src.used = src'.used := congrArg Prod.fst h
  unfold bufferCopyStringBuffer
  rw [take_of_view h, hused]
  by_cases hempty : src'.used = 0
  · rw [if_pos hempty, if_pos hempty, bufferReset_view, bufferReset_view]
  · rw [if_neg hempty, if_neg hempty, bufferCopyStringLen_view, bufferCopyStringLen_view]

theorem bufferCopyStringBuffer_copy (b b' b'' src : Buffer) :
    (bufferCopyStringBuffer b (bufferCopyStringBuffer b' src)).view =
      (bufferCopyStringBuffer b'' src).view := by
  unfold bufferCopyStringBuffer
  by_cases hempty : src.used = 0
  · rw [if_pos hempty, if_pos hempty, if_pos (bufferReset_used b'), bufferReset_view,
      bufferReset_view]
  · have htext := text_bufferCopyStringLen b' (src.ptr.take (src.used - 1))
    rw [if_neg hempty, if_neg hempty, if_neg (by rw [htext.used]; omega),
      take_of_holds htext.holds htext.used, bufferCopyStringLen_view, bufferCopyStringLen_view]

end Specs

end Lighttpd
