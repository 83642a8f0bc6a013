import Lighttpd.HttpChunk
import Lighttpd.UrlCoding

/-!
# Operations on buffers that check each access

Here the operations of `buffer.c` check each access to a block, and count in `size_t`. An operation
that stays within the block is the one that the other modules use, or puts a text with its NUL in
the place of the last byte in use (`withText`).
-/

namespace Lighttpd

open CLib

/-- Why a run stops: `SEGFAULT()` and `assert`, or an access outside of a block. -/
inductive Stop where
  | aborted
  | outside
  deriving DecidableEq, Repr

/-- A `size_t` has 32 bits. -/
def sizeT (n : Nat) : Nat := n % 2 ^ 32

theorem sizeT_of_lt {n : Nat} (h : n < 2 ^ 32) : sizeT n = n := Nat.mod_eq_of_lt h

namespace Guarded

section Code

variable [Malloc]

/-- `memcpy(b->ptr + off, s, s.length)` -/
def store (b : Buffer) (off : Nat) (s : Bytes) : Except Stop Buffer :=
  if off + s.length ≤ b.size then .ok { b with ptr := memcpy b.ptr off s } else .error .outside

/-- The `n` bytes at `b->ptr` -/
def load (b : Buffer) (n : Nat) : Except Stop Bytes :=
  if n ≤ b.size then .ok (b.ptr.take n) else .error .outside

/-- `b->used - 1` -/
def last (b : Buffer) : Nat := sizeT (b.used + 2 ^ 32 - 1)

def bufferPrepareCopy (b : Buffer) (size : Nat) : Buffer :=
  if b.size = 0 ∨ size > b.size then ⟨malloc (sizeT (pieces size)), 0, b.gen + 1⟩
  else { b with used := 0 }

def bufferPrepareAppend (b : Buffer) (size : Nat) : Buffer :=
  if b.size = 0 then ⟨malloc (sizeT (pieces size)), 0, b.gen + 1⟩
  else if sizeT (b.used + size) > b.size then
    let size := sizeT (pieces (sizeT (b.size + size)))
    { b with ptr := (realloc b.ptr size).take size, gen := b.gen + 1 }
  else b

def bufferCopyString (b : Buffer) (s : Bytes) : Except Stop Buffer := do
  let sLen := sizeT (s.length + 1)
  let b ← store (bufferPrepareCopy b sLen) 0 (s ++ [0])
  .ok { b with used := sLen }

def bufferCopyStringLen (b : Buffer) (s : Bytes) : Except Stop Buffer := do
  let b ← store (bufferPrepareCopy b (sizeT (s.length + 1))) 0 s
  let b ← store b s.length [0]
  .ok { b with used := sizeT (s.length + 1) }

def bufferCopyStringBuffer (b src : Buffer) : Except Stop Buffer := do
  if src.used = 0 then .ok (bufferReset b)
  else
    let s ← load src (src.used - 1)
    bufferCopyStringLen b s

/-- `b->ptr[b->used++] = c` -/
def putByte (b : Buffer) (c : UInt8) : Except Stop Buffer := do
  let b ← store b b.used [c]
  .ok { b with used := sizeT (b.used + 1) }

def bufferCopyStringHex (b : Buffer) (s : Bytes) : Except Stop Buffer :=
  if sizeT (s.length * 2) < s.length then .ok b
  else (s.flatMap hexPair ++ [0]).foldlM putByte
    (bufferPrepareCopy b (sizeT (sizeT (s.length * 2) + 1)))

def bufferAppendString (b : Buffer) (s : Bytes) : Except Stop Buffer := do
  let b := bufferStart (bufferPrepareAppend b (sizeT (s.length + 1)))
  let b ← store b (last b) (s ++ [0])
  .ok { b with used := sizeT (b.used + s.length) }

def bufferAppendStringRfill (b : Buffer) (s : Bytes) (maxlen : Nat) : Except Stop Buffer := do
  let s := s.take maxlen
  let b := bufferStart (bufferPrepareAppend b (sizeT (maxlen + 1)))
  let b ← store b (last b) s
  let b ← store b (last b + s.length) (List.replicate (maxlen - s.length) 32)
  let b := { b with used := sizeT (b.used + maxlen) }
  store b (last b) [0]

def bufferAppendStringLen (b : Buffer) (s : Bytes) : Except Stop Buffer := do
  if s.length = 0 then .ok b
  else
    let b := bufferStart (bufferPrepareAppend b (sizeT (s.length + 1)))
    let b ← store b (last b) s
    let b := { b with used := sizeT (b.used + s.length) }
    store b (last b) [0]

def bufferAppendStringBuffer (b src : Buffer) (same : Bool) : Except Stop Buffer := do
  if src.used = 0 then .ok b
  else
    let s ← load src (src.used - 1)
    let b' ← bufferAppendStringLen b s
    if same ∧ b'.gen ≠ b.gen then .error .outside else .ok b'

def bufferAppendMemory (b : Buffer) (s : Bytes) : Except Stop Buffer := do
  if s.length = 0 then .ok b
  else
    let b := bufferPrepareAppend b s.length
    let b ← store b b.used s
    .ok { b with used := sizeT (b.used + s.length) }

def bufferCopyMemory (b : Buffer) (s : Bytes) : Except Stop Buffer :=
  bufferAppendMemory { b with used := 0 } s

def hexShift (value : Nat) : Nat :=
  let shift := hexCount 8 value
  let shift := if shift = 0 then 1 else shift
  if shift % 2 = 1 then shift + 1 else shift

def bufferAppendLongHex (b : Buffer) (value : UInt32) : Except Stop Buffer := do
  let shift := hexShift value.toNat
  let b := bufferStart (bufferPrepareAppend b (shift + 1))
  let b ← store b (last b) (hexText shift value.toNat ++ [0])
  .ok { b with used := sizeT (b.used + shift) }

/-- `LI_ltostr` for a `long` of `w` bits; the negative of the least value is that value. -/
def liLtostr (w : Nat) (val : Int) : Bytes :=
  let v := if val < 0 ∧ val ≠ -2 ^ (w - 1) then -val else val
  (if val < 0 then [45] else []) ++
    if v > 9 then (ltostrDigits v.toNat v.toNat).reverse else [UInt8.ofInt (48 + v)]

/-- `buffer_append_long` and `buffer_append_off_t` -/
def bufferAppendNumber (b : Buffer) (digits : Bytes) : Except Stop Buffer := do
  let b := bufferStart (bufferPrepareAppend b 32)
  let b ← store b (last b) (digits ++ [0])
  .ok { b with used := sizeT (b.used + digits.length) }

def bufferAppendLong (b : Buffer) (val : Int32) : Except Stop Buffer :=
  bufferAppendNumber b (liLtostr 32 val.toInt)

def bufferCopyLong (b : Buffer) (val : Int32) : Except Stop Buffer :=
  bufferAppendLong { b with used := 0 } val

def bufferAppendOffT (b : Buffer) (val : Int64) : Except Stop Buffer :=
  bufferAppendNumber b (liLtostr 64 val.toInt)

def bufferCopyOffT (b : Buffer) (val : Int64) : Except Stop Buffer :=
  bufferAppendOffT { b with used := 0 } val

/-- `none` is `ENCODING_UNSET`. -/
def bufferAppendStringEncoded (b : Buffer) (s : Bytes) (encoding : Option BufferEncoding) :
    Except Stop Buffer := do
  match b.ptr[last b]? with
  | none => .error .outside
  | some c =>
    if c ≠ 0 then .error .aborted
    else if s.length = 0 then .ok b
    else
      match encoding with
      | none => .error .aborted
      | some encoding =>
        let text := encodeText encoding s
        let dLen := sizeT text.length
        let b := bufferPrepareAppend b dLen
        let b ← store b (last b) text
        let b ← store b (sizeT (b.used + dLen + 2 ^ 32 - 1)) [0]
        .ok { b with used := sizeT (b.used + dLen) }

def lowerBytes : Bytes → Except Stop Bytes
  | [] => .error .outside
  | c :: ptr =>
    if c = 0 then .ok (c :: ptr)
    else do
      let ptr ← lowerBytes ptr
      .ok ((if 65 ≤ c ∧ c ≤ 90 then c ||| 32 else c) :: ptr)

def bufferToLower (b : Buffer) : Except Stop Buffer := do
  if b.used = 0 then .ok b
  else
    let ptr ← lowerBytes b.ptr
    .ok { b with ptr := ptr }

end Code

end Guarded

/-! ## Operations in bounds -/

theorem memcpy_memcpy {m s t : Bytes} {off : Nat} (h : off + s.length + t.length ≤ m.length) :
    memcpy (memcpy m off s) (off + s.length) t = memcpy m off (s ++ t) := by
  have htake : (memcpy m off s).take (off + s.length) = m.take off ++ s := take_memcpy (by omega)
  have hlen : (m.take off ++ s).length = off + s.length := by
    rw [List.length_append, List.length_take, Nat.min_eq_left (by omega)]
  have hdrop : (memcpy m off s).drop (off + s.length + t.length) =
      m.drop (off + (s ++ t).length) := by
    rw [List.length_append, ← Nat.add_assoc, ← List.drop_drop]
    unfold memcpy
    rw [← hlen, List.drop_left, List.drop_drop, hlen]
  rw [memcpy, htake, hdrop, memcpy, List.append_assoc (m.take off) s t]

theorem memcpy_singleton {m : Bytes} {k : Nat} (h : k < m.length) (c : UInt8) :
    memcpy m k [c] = m.set k c := by
  rw [memcpy, List.set_eq_take_append_cons_drop, if_pos h, List.append_assoc]
  rfl

theorem getElem?_memcpy {m s : Bytes} {off : Nat} (h : off ≤ m.length) {k : Nat}
    (hk : k < s.length) : (memcpy m off s)[off + k]? = s[k]? := by
  have hlen : (m.take off).length = off := by rw [List.length_take, Nat.min_eq_left h]
  rw [memcpy, List.append_assoc, List.getElem?_append_right (by omega), hlen,
    Nat.add_sub_cancel_left, List.getElem?_append_left hk]

theorem set_memcpy_last {p : Buffer} {s : Bytes} (hpos : 0 < p.used)
    (hroom : p.used + s.length ≤ p.size) :
    (memcpy p.ptr (p.used - 1) s).set (p.used + s.length - 1) 0 =
      memcpy p.ptr (p.used - 1) (s ++ [0]) := by
  have hindex : p.used + s.length - 1 = p.used - 1 + s.length := by omega
  simp only [Buffer.size] at hroom
  rw [hindex, ← memcpy_singleton, memcpy_memcpy]
  · rw [List.length_singleton]
    omega
  · rw [length_memcpy (by omega)]
    omega

def Buffer.Closed (b : Buffer) : Prop := 0 < b.used → b.ptr[b.used - 1]? = some 0

/-- The text behind what is in use, in the place of the last byte. -/
def withText (p : Buffer) (text : Bytes) : Buffer :=
  { p with ptr := memcpy p.ptr (p.used - 1) (text ++ [0]), used := p.used + text.length }

theorem withText_spec {p : Buffer} {text : Bytes} (hpos : 0 < p.used)
    (hroom : p.used + text.length ≤ p.size) : (withText p text).WF ∧ (withText p text).Closed := by
  have hlen : p.used - 1 + (text ++ [0]).length = p.used + text.length := by
    rw [List.length_append, List.length_singleton]
    omega
  have hsize : p.used - 1 + (text ++ [0]).length ≤ p.ptr.length := by
    rw [hlen]
    exact hroom
  constructor
  · simp only [Buffer.WF, Buffer.size, withText]
    rw [length_memcpy hsize]
    exact hroom
  · intro _
    have hlast : (text ++ [0])[text.length]? = some 0 := List.getElem?_concat_length
    have hget := @getElem?_memcpy p.ptr (text ++ [0]) (p.used - 1) (by omega) text.length
      (by rw [List.length_append, List.length_singleton]; omega)
    have hindex : p.used + text.length - 1 = p.used - 1 + text.length := by omega
    rw [withText, hindex, hget, hlast]

namespace Guarded

theorem ok_bind {α β : Type} (x : α) (f : α → Except Stop β) : (Except.ok x >>= f) = f x := rfl

theorem store_of_le {b : Buffer} {off : Nat} {s : Bytes} (h : off + s.length ≤ b.size) :
    store b off s = .ok { b with ptr := memcpy b.ptr off s } := if_pos h

theorem last_of_pos {b : Buffer} (hpos : 0 < b.used) (hcount : b.used < 2 ^ 32) :
    last b = b.used - 1 := by
  unfold last sizeT
  omega

theorem store_last {p : Buffer} {s : Bytes} (hpos : 0 < p.used) (hcount : p.used < 2 ^ 32)
    (hroom : p.used - 1 + s.length ≤ p.size) :
    store p (last p) s = .ok { p with ptr := memcpy p.ptr (p.used - 1) s } := by
  rw [last_of_pos hpos hcount]
  exact store_of_le hroom

theorem store_behind {p q : Buffer} {off : Nat} {s t : Bytes} (hptr : q.ptr = memcpy p.ptr off s)
    (hroom : off + s.length + t.length ≤ p.size) :
    store q (off + s.length) t = .ok { q with ptr := memcpy p.ptr off (s ++ t) } := by
  have hsize : q.size = p.size := by
    rw [Buffer.size, hptr]
    exact length_memcpy (by simp only [Buffer.size] at hroom; omega)
  rw [store_of_le (by omega), hptr, memcpy_memcpy hroom]

theorem store_text_end {p : Buffer} {text : Bytes} (hpos : 0 < p.used)
    (hroom : p.used + text.length ≤ p.size) (hcount : p.used + text.length < 2 ^ 32) :
    (do
      let b ← store p (last p) text
      let b := { b with used := sizeT (b.used + text.length) }
      store b (last b) [0]) = .ok (withText p text) := by
  have hsecond : ∀ q : Buffer, q.ptr = memcpy p.ptr (p.used - 1) text → q.gen = p.gen →
      q.used = p.used + text.length → store q (last q) [0] = .ok (withText p text) := by
    intro q hptr hgen hused
    have hlast : last q = p.used - 1 + text.length := by
      rw [last_of_pos (by omega) (by omega), hused]
      omega
    rw [hlast, store_behind hptr (by rw [List.length_singleton]; omega), hgen, hused]
    rfl
  rw [store_last hpos (by omega) (by omega), ok_bind]
  exact hsecond _ rfl rfl (sizeT_of_lt hcount)

theorem sizeT_pieces {n : Nat} (h : n + 64 < 2 ^ 32) : sizeT (pieces n) = pieces n := by
  apply sizeT_of_lt
  unfold pieces BUFFER_PIECE_SIZE
  omega

theorem load_text {src : Buffer} (hsrc : src.WF) (hused : src.used ≠ 0) :
    load src (src.used - 1) = .ok (src.ptr.take (src.used - 1)) ∧
      (src.ptr.take (src.used - 1)).length + 1 = src.used := by
  have hle : src.used ≤ src.ptr.length := hsrc
  constructor
  · exact if_pos (by simp only [Buffer.size]; omega)
  · rw [List.length_take, Nat.min_eq_left (by omega)]
    omega

section Prepared

variable [Malloc]

theorem bufferPrepareCopy_eq (b : Buffer) {n : Nat} (h : n + 64 < 2 ^ 32) :
    bufferPrepareCopy b n = Lighttpd.bufferPrepareCopy b n := by
  unfold bufferPrepareCopy Lighttpd.bufferPrepareCopy
  rw [sizeT_pieces h]

theorem bufferPrepareAppend_eq {b : Buffer} (hb : b.WF) {n : Nat} (h : b.size + n + 64 < 2 ^ 32) :
    bufferPrepareAppend b n = Lighttpd.bufferPrepareAppend b n := by
  have hused : b.used ≤ b.size := hb
  have hlen : (realloc b.ptr (pieces (b.size + n))).length = pieces (b.size + n) := by
    have := lt_pieces (b.size + n)
    exact length_realloc (by simp only [Buffer.size] at this ⊢; omega)
  unfold bufferPrepareAppend Lighttpd.bufferPrepareAppend
  rw [sizeT_pieces (by omega : n + 64 < 2 ^ 32), sizeT_of_lt (by omega : b.used + n < 2 ^ 32),
    sizeT_of_lt (by omega : b.size + n < 2 ^ 32), sizeT_pieces h]
  simp only [List.take_of_length_le (Nat.le_of_eq hlen)]

/-- The buffer in which the string operations write, with room for `m` bytes and the NUL. -/
def started (b : Buffer) (m : Nat) : Buffer :=
  bufferStart (Lighttpd.bufferPrepareAppend b (m + 1))

theorem started_eq {b : Buffer} (hb : b.WF) {m : Nat} (h : b.size + (m + 1) + 64 < 2 ^ 32) :
    bufferStart (bufferPrepareAppend b (sizeT (m + 1))) = started b m := by
  rw [sizeT_of_lt (by omega), bufferPrepareAppend_eq hb h]
  rfl

theorem started_spec {b : Buffer} (hb : b.WF) {m : Nat} (h : b.size + (m + 1) + 64 < 2 ^ 32) :
    0 < (started b m).used ∧ (started b m).used + m ≤ (started b m).size ∧
      (started b m).used + m < 2 ^ 32 := by
  obtain ⟨hused, hsize, -⟩ := bufferPrepareAppend_spec hb (m + 1)
  have hle : b.used ≤ b.size := hb
  unfold started
  generalize Lighttpd.bufferPrepareAppend b (m + 1) = q at *
  unfold bufferStart
  split
  · simp only [Buffer.size] at hsize ⊢
    omega
  · omega

theorem store_started {b : Buffer} (hb : b.WF) {m : Nat} (h : b.size + (m + 1) + 64 < 2 ^ 32)
    {text : Bytes} (htext : text.length ≤ m) :
    (do
      let p ← store (started b m) (last (started b m)) (text ++ [0])
      .ok { p with used := sizeT (p.used + text.length) }) = .ok (withText (started b m) text) := by
  obtain ⟨hpos, hroom, hcount⟩ := started_spec hb h
  have hlen : (text ++ [0]).length = text.length + 1 := by simp
  rw [store_last hpos (by omega) (by omega), ok_bind, sizeT_of_lt (by simp only; omega)]
  rfl

theorem bufferAppendString_eq {b : Buffer} (hb : b.WF) {s : Bytes}
    (h : b.size + (s.length + 1) + 64 < 2 ^ 32) :
    bufferAppendString b s = .ok (Lighttpd.bufferAppendString b (some s)) := by
  unfold bufferAppendString
  rw [started_eq hb h]
  exact store_started hb h (Nat.le_refl _)

theorem bufferAppendStringLen_eq {b : Buffer} (hb : b.WF) {s : Bytes}
    (h : b.size + (s.length + 1) + 64 < 2 ^ 32) :
    bufferAppendStringLen b s = .ok (Lighttpd.bufferAppendStringLen b (some s)) := by
  unfold bufferAppendStringLen
  by_cases hs : s.length = 0
  · rw [if_pos hs]
    simp only [Lighttpd.bufferAppendStringLen, if_pos hs]
  · obtain ⟨hpos, hroom, hcount⟩ := started_spec hb h
    have hset := set_memcpy_last hpos hroom
    rw [if_neg hs, started_eq hb h]
    refine (store_text_end hpos hroom hcount).trans ?_
    simp only [Lighttpd.bufferAppendStringLen, if_neg hs]
    unfold started at hset
    rw [hset]
    rfl

theorem bufferAppendStringBuffer_eq {b src : Buffer} (hb : b.WF) (hsrc : src.WF)
    (h : b.size + src.used + 64 < 2 ^ 32) :
    bufferAppendStringBuffer b src false = .ok (Lighttpd.bufferAppendStringBuffer b src) := by
  unfold bufferAppendStringBuffer Lighttpd.bufferAppendStringBuffer
  by_cases hu : src.used = 0
  · rw [if_pos hu, if_pos hu]
  · obtain ⟨hload, hlen⟩ := load_text hsrc hu
    rw [if_neg hu, if_neg hu, hload, ok_bind, bufferAppendStringLen_eq hb (by omega), ok_bind,
      if_neg (fun hsame => Bool.false_ne_true hsame.1)]

theorem bufferAppendStringRfill_eq {b : Buffer} (hb : b.WF) (s : Bytes) {maxlen : Nat}
    (h : b.size + (maxlen + 1) + 64 < 2 ^ 32) :
    bufferAppendStringRfill b s maxlen = .ok (withText (started b maxlen)
      (s.take maxlen ++ List.replicate (maxlen - (s.take maxlen).length) 32)) := by
  obtain ⟨hpos, hroom, hcount⟩ := started_spec hb h
  unfold bufferAppendStringRfill
  rw [started_eq hb h]
  dsimp only
  have hcut : (s.take maxlen).length ≤ maxlen := List.length_take_le _ _
  generalize started b maxlen = p at *
  generalize s.take maxlen = s at *
  have hblanks : (List.replicate (maxlen - s.length) (32 : UInt8)).length = maxlen - s.length :=
    List.length_replicate
  generalize List.replicate (maxlen - s.length) (32 : UInt8) = blanks at *
  have htext : (s ++ blanks).length = maxlen := by
    rw [List.length_append]
    omega
  -- the blanks follow the bytes of the string
  have hsecond : ∀ q : Buffer, q.ptr = memcpy p.ptr (p.used - 1) s → q.used = p.used →
      store q (last q + s.length) blanks =
        .ok { q with ptr := memcpy p.ptr (p.used - 1) (s ++ blanks) } := by
    intro q hptr hused
    have hlast : last q = p.used - 1 := by rw [last_of_pos (by omega) (by omega), hused]
    rw [hlast]
    exact @store_behind p q (p.used - 1) s blanks hptr (by omega)
  have hend := @store_text_end p (s ++ blanks) hpos (by omega) (by omega)
  rw [@store_last p (s ++ blanks) hpos (by omega) (by omega), ok_bind, htext] at hend
  rw [@store_last p s hpos (by omega) (by omega), ok_bind,
    hsecond ⟨memcpy p.ptr (p.used - 1) s, p.used, p.gen⟩ rfl rfl, ok_bind]
  exact hend

theorem bufferAppendMemory_eq {b : Buffer} (hb : b.WF) {s : Bytes}
    (h : b.size + s.length + 64 < 2 ^ 32) :
    bufferAppendMemory b s = .ok (Lighttpd.bufferAppendMemory b (some s)) := by
  have hle : b.used ≤ b.size := hb
  unfold bufferAppendMemory
  simp only [Lighttpd.bufferAppendMemory]
  by_cases hs : s.length = 0
  · rw [if_pos hs, if_pos hs]
  · obtain ⟨hused, hroom, -⟩ := bufferPrepareAppend_spec hb s.length
    rw [if_neg hs, if_neg hs, bufferPrepareAppend_eq hb h]
    generalize Lighttpd.bufferPrepareAppend b s.length = p at *
    rw [store_of_le (by omega), ok_bind, sizeT_of_lt (by simp only; omega)]

theorem bufferAppendStringEncoded_eq {b : Buffer} (hb : b.WF) (hpos : 0 < b.used) {s : Bytes}
    (encoding : BufferEncoding) (h : b.size + (encodeText encoding s).length + 64 < 2 ^ 32) :
    bufferAppendStringEncoded b s (some encoding) =
      match Lighttpd.bufferAppendStringEncoded b s encoding with
      | none => .error .aborted
      | some b => .ok b := by
  have hle : b.used ≤ b.size := hb
  obtain ⟨c, hc⟩ : ∃ c, b.ptr[b.used - 1]? = some c :=
    ⟨_, List.getElem?_eq_getElem (by simp only [Buffer.size] at hle; omega)⟩
  unfold bufferAppendStringEncoded Lighttpd.bufferAppendStringEncoded
  rw [last_of_pos hpos (by omega), hc]
  by_cases hzero : c = 0
  · have hended : ¬ (b.used = 0 ∨ some c ≠ some 0) := by
      rw [hzero]
      rintro (hu | hne)
      · omega
      · exact hne rfl
    rw [if_neg hended]
    simp only [if_neg (not_not.mpr hzero)]
    by_cases hs : s = []
    · rw [if_pos hs, if_pos (List.length_eq_zero_iff.mpr hs)]
    · obtain ⟨hused, hroom, -⟩ := bufferPrepareAppend_spec hb (encodeText encoding s).length
      rw [if_neg hs, if_neg (mt List.length_eq_zero_iff.mp hs), sizeT_of_lt (by omega),
        bufferPrepareAppend_eq hb h]
      generalize Lighttpd.bufferPrepareAppend b (encodeText encoding s).length = p at *
      have hindex : sizeT (p.used + (encodeText encoding s).length + 2 ^ 32 - 1) =
          p.used - 1 + (encodeText encoding s).length := by
        unfold sizeT
        omega
      rw [store_last (by omega) (by omega) (by omega), ok_bind, hindex,
        store_behind rfl (by rw [List.length_singleton]; omega), ok_bind,
        sizeT_of_lt (by simp only; omega)]
  · have hopen : b.used = 0 ∨ some c ≠ some 0 := .inr fun heq => hzero (Option.some.inj heq)
    rw [if_pos hopen]
    exact if_pos hzero

theorem bufferCopyString_eq (b : Buffer) {s : Bytes} (h : s.length + 1 + 64 < 2 ^ 32) :
    bufferCopyString b s = .ok (Lighttpd.bufferCopyString b (some s)) := by
  have hsize := le_size_bufferPrepareCopy b (s.length + 1)
  unfold bufferCopyString
  dsimp only
  rw [sizeT_of_lt (by omega), bufferPrepareCopy_eq b h,
    store_of_le (by rw [List.length_append, List.length_singleton]; omega), ok_bind]
  rfl

theorem bufferCopyStringLen_eq (b : Buffer) {s : Bytes} (h : s.length + 1 + 64 < 2 ^ 32) :
    bufferCopyStringLen b s = .ok (Lighttpd.bufferCopyStringLen b (some s)) := by
  have hsize := le_size_bufferPrepareCopy b (s.length + 1)
  unfold bufferCopyStringLen
  rw [sizeT_of_lt (by omega), bufferPrepareCopy_eq b h, store_of_le (by omega), ok_bind]
  simp only [Lighttpd.bufferCopyStringLen]
  generalize Lighttpd.bufferPrepareCopy b (s.length + 1) = p at *
  have hlen : (memcpy p.ptr 0 s).length = p.ptr.length :=
    length_memcpy (by simp only [Buffer.size] at hsize; omega)
  have hroom : s.length + [(0 : UInt8)].length ≤ (memcpy p.ptr 0 s).length := by
    simp only [Buffer.size, List.length_singleton] at *
    omega
  rw [store_of_le hroom, ok_bind, memcpy_singleton hroom]

theorem bufferCopyStringBuffer_eq (b : Buffer) {src : Buffer} (hsrc : src.WF)
    (h : src.used + 64 < 2 ^ 32) :
    bufferCopyStringBuffer b src = .ok (Lighttpd.bufferCopyStringBuffer b src) := by
  unfold bufferCopyStringBuffer Lighttpd.bufferCopyStringBuffer
  by_cases hu : src.used = 0
  · rw [if_pos hu, if_pos hu]
  · obtain ⟨hload, hlen⟩ := load_text hsrc hu
    rw [if_neg hu, if_neg hu, hload, ok_bind]
    exact bufferCopyStringLen_eq b (by omega)

omit [Malloc] in
theorem putByte_foldlM (s : Bytes) : ∀ {p : Buffer}, p.used + s.length ≤ p.size →
    p.used + s.length < 2 ^ 32 → s.foldlM putByte p =
      .ok { p with ptr := memcpy p.ptr p.used s, used := p.used + s.length } := by
  induction s with
  | nil =>
    intro p _ _
    have hmem : memcpy p.ptr p.used [] = p.ptr := by simp [memcpy]
    rw [List.foldlM_nil, hmem]
    rfl
  | cons c s ih =>
    intro p hroom hcount
    rw [List.length_cons] at hroom hcount
    have hput : putByte p c =
        .ok { p with ptr := memcpy p.ptr p.used [c], used := p.used + 1 } := by
      unfold putByte
      rw [store_of_le (by rw [List.length_singleton]; omega), ok_bind,
        sizeT_of_lt (by simp only; omega)]
    have hlen : (memcpy p.ptr p.used [c]).length = p.ptr.length :=
      length_memcpy (by simp only [Buffer.size, List.length_singleton] at *; omega)
    have hmem : memcpy (memcpy p.ptr p.used [c]) (p.used + 1) s = memcpy p.ptr p.used (c :: s) :=
      @memcpy_memcpy p.ptr [c] s p.used
        (by simp only [Buffer.size, List.length_singleton] at *; omega)
    have hnext := @ih ⟨memcpy p.ptr p.used [c], p.used + 1, p.gen⟩
      (by simp only [Buffer.size] at *; omega) (by simp only; omega)
    rw [List.foldlM_cons, hput, ok_bind, hnext]
    simp only [hmem, List.length_cons]
    rw [Nat.add_assoc, Nat.add_comm 1]

omit [Malloc] in
theorem length_hexPairs (s : Bytes) : (s.flatMap hexPair).length = s.length * 2 := by
  induction s with
  | nil => rfl
  | cons c s ih =>
    rw [List.flatMap_cons, List.length_append, ih, List.length_cons]
    simp only [hexPair, List.length_cons, List.length_nil]
    omega

theorem bufferCopyStringHex_eq (b : Buffer) {s : Bytes} (h : s.length * 2 + 1 + 64 < 2 ^ 32) :
    bufferCopyStringHex b s = .ok (withText
      { Lighttpd.bufferPrepareCopy b (s.length * 2 + 1) with used := 1 } (s.flatMap hexPair)) := by
  have hsize := le_size_bufferPrepareCopy b (s.length * 2 + 1)
  have hused := bufferPrepareCopy_used b (s.length * 2 + 1)
  have hlen : (s.flatMap hexPair ++ [0]).length = s.length * 2 + 1 := by
    rw [List.length_append, length_hexPairs, List.length_singleton]
  unfold bufferCopyStringHex
  rw [sizeT_of_lt (by omega), if_neg (by omega), sizeT_of_lt (by omega), bufferPrepareCopy_eq b h]
  generalize Lighttpd.bufferPrepareCopy b (s.length * 2 + 1) = p at *
  rw [putByte_foldlM _ (by omega) (by omega), hused, hlen, Nat.zero_add]
  simp only [withText, length_hexPairs, Nat.add_comm 1]

omit [Malloc] in
theorem length_ltostrDigits (fuel : Nat) : ∀ {n k : Nat}, n < 10 ^ (k + 1) →
    (ltostrDigits fuel n).length ≤ k + 1 := by
  induction fuel with
  | zero =>
    intro n k _
    simp [ltostrDigits]
  | succ fuel ih =>
    intro n k hn
    unfold ltostrDigits
    split
    · next hbig =>
      cases k with
      | zero =>
        rw [Nat.zero_add, Nat.pow_one] at hn
        omega
      | succ k =>
        have hdiv : n / 10 < 10 ^ (k + 1) := by
          rw [Nat.pow_succ] at hn
          omega
        rw [List.length_cons]
        exact Nat.succ_le_succ (ih hdiv)
    · simp

omit [Malloc] in
theorem length_liLtostr {w : Nat} (hw : w ≤ 64) {val : Int} (hlow : -2 ^ (w - 1) ≤ val)
    (hhigh : val < 2 ^ (w - 1)) : (liLtostr w val).length ≤ 31 := by
  have hpow : (2 : Int) ^ (w - 1) ≤ 2 ^ 63 := by
    exact_mod_cast Nat.pow_le_pow_right (by decide) (by omega : w - 1 ≤ 63)
  have hdigits : ∀ v : Int, v ≤ 2 ^ 63 →
      (if v > 9 then (ltostrDigits v.toNat v.toNat).reverse
        else [UInt8.ofInt (48 + v)]).length ≤ 20 := by
    intro v hv
    split
    · rw [List.length_reverse]
      exact @length_ltostrDigits v.toNat v.toNat 19 (by omega)
    · simp
  have hsign : (if val < 0 then [(45 : UInt8)] else []).length ≤ 1 := by split <;> decide
  have hsmall : (if val < 0 ∧ val ≠ -2 ^ (w - 1) then -val else val) ≤ 2 ^ 63 := by
    split <;> omega
  unfold liLtostr
  dsimp only
  rw [List.length_append]
  exact (Nat.add_le_add hsign (hdigits _ hsmall)).trans (by decide)

theorem bufferAppendNumber_eq {b : Buffer} (hb : b.WF) (h : b.size + (31 + 1) + 64 < 2 ^ 32)
    {digits : Bytes} (hdigits : digits.length ≤ 31) :
    bufferAppendNumber b digits = .ok (withText (started b 31) digits) := by
  have hcount : sizeT (31 + 1) = 32 := sizeT_of_lt (by decide)
  have hprepare := @started_eq _ b hb 31 h
  rw [hcount] at hprepare
  unfold bufferAppendNumber
  rw [hprepare]
  exact store_started hb h hdigits

end Prepared

theorem hexCount_le (fuel : Nat) : ∀ len, hexCount fuel len ≤ fuel := by
  induction fuel with
  | zero => exact fun _ => Nat.le_refl 0
  | succ fuel ih =>
    intro len
    unfold hexCount
    split
    · exact Nat.zero_le _
    · exact Nat.succ_le_succ (ih _)

theorem hexShift_le (value : Nat) : hexShift value ≤ 8 := by
  have := hexCount_le 8 value
  unfold hexShift
  dsimp only
  split <;> split <;> omega

theorem bufferAppendLongHex_eq [Malloc] {b : Buffer} (hb : b.WF)
    (h : b.size + (31 + 1) + 64 < 2 ^ 32) (value : UInt32) :
    bufferAppendLongHex b value = .ok (withText (started b (hexShift value.toNat))
      (hexText (hexShift value.toNat) value.toNat)) := by
  have hshift := hexShift_le value.toNat
  have hlen : (hexText (hexShift value.toNat) value.toNat).length = hexShift value.toNat :=
    (hexText_spec _ _).2.2
  have hstart := @started_eq _ b hb (hexShift value.toNat) (by omega)
  have hstore := @store_started _ b hb (hexShift value.toNat) (by omega) _ (Nat.le_of_eq hlen)
  rw [hlen] at hstore
  rw [sizeT_of_lt (by omega)] at hstart
  unfold bufferAppendLongHex
  dsimp only
  rw [hstart]
  exact hstore

theorem lowerBytes_spec (ptr : Bytes) (h : 0 ∈ ptr) : ∃ lowered, lowerBytes ptr = .ok lowered ∧
    lowered.length = ptr.length ∧ ∀ i : Nat, ptr[i]? = some 0 → lowered[i]? = some 0 := by
  induction ptr with
  | nil => exact absurd h (List.not_mem_nil)
  | cons c ptr ih =>
    unfold lowerBytes
    by_cases hc : c = 0
    · rw [if_pos hc]
      exact ⟨_, rfl, rfl, fun _ hi => hi⟩
    · obtain ⟨lowered, hlower, hlen, hzero⟩ :=
        ih ((List.mem_cons.mp h).resolve_left fun heq => hc heq.symm)
      rw [if_neg hc, hlower, ok_bind]
      refine ⟨_, rfl, by rw [List.length_cons, List.length_cons, hlen], ?_⟩
      intro i hi
      cases i with
      | zero => exact absurd (Option.some.inj hi) hc
      | succ i => exact hzero i hi

end Guarded

end Lighttpd
