import Lighttpd.BufferGuards
import Mathlib.Logic.Function.Basic

/-!
# Runs of operations on buffers

A string operation ends its buffer with a NUL, the memory operations do not, and both leave `used`
within the block (`buffersSafe`): if what is asked for can be counted, a buffer is not appended to
itself, and `buffer_to_lower` finds a NUL.
-/

namespace Lighttpd

open CLib

/-! ## Runs -/

/-- One call with a buffer; a pointer that may be `NULL` is an option. -/
inductive BufferCall where
  | prepareCopy (size : Nat)
  | prepareAppend (size : Nat)
  | copyString (s : Option Bytes)
  | copyStringLen (s : Option Bytes)
  | copyStringBuffer (src : Option Nat)
  | copyStringHex (s : Bytes)
  | appendString (s : Option Bytes)
  | appendStringRfill (s : Option Bytes) (maxlen : Nat)
  | appendStringLen (s : Option Bytes)
  | appendStringBuffer (src : Option Nat)
  | appendLongHex (value : UInt32)
  | appendLong (val : Int32)
  | copyLong (val : Int32)
  | appendOffT (val : Int64)
  | copyOffT (val : Int64)
  | appendStringEncoded (s : Option Bytes) (encoding : Option BufferEncoding)
  | copyMemory (s : Option Bytes)
  | appendMemory (s : Option Bytes)
  | toLower
  | reset

def BufferCall.memory : BufferCall → Bool
  | .copyMemory _ | .appendMemory _ => true
  | _ => false

/-- `if (!s) return -1;` -/
def given {α : Type} (b : Buffer) (s : Option α) (f : α → Except Stop Buffer) :
    Except Stop Buffer :=
  match s with
  | none => .ok b
  | some s => f s

/-- The buffers of a run, and of each whether it saw no memory operation since it last was not in
use. -/
structure Buffers where
  buf : Nat → Buffer
  strings : Nat → Bool

def Buffers.start : Buffers := ⟨fun _ => bufferInit, fun _ => true⟩

section Runs

variable [Malloc]

def runCall (buf : Nat → Buffer) (i : Nat) : BufferCall → Except Stop Buffer
  | .prepareCopy size => .ok (Guarded.bufferPrepareCopy (buf i) size)
  | .prepareAppend size => .ok (Guarded.bufferPrepareAppend (buf i) size)
  | .copyString s => given (buf i) s (Guarded.bufferCopyString (buf i))
  | .copyStringLen s => given (buf i) s (Guarded.bufferCopyStringLen (buf i))
  | .copyStringBuffer src =>
    given (buf i) src fun src => Guarded.bufferCopyStringBuffer (buf i) (buf src)
  | .copyStringHex s => Guarded.bufferCopyStringHex (buf i) s
  | .appendString s => given (buf i) s (Guarded.bufferAppendString (buf i))
  | .appendStringRfill s maxlen =>
    given (buf i) s fun s => Guarded.bufferAppendStringRfill (buf i) s maxlen
  | .appendStringLen s => given (buf i) s (Guarded.bufferAppendStringLen (buf i))
  | .appendStringBuffer src =>
    given (buf i) src fun src => Guarded.bufferAppendStringBuffer (buf i) (buf src) (src = i)
  | .appendLongHex value => Guarded.bufferAppendLongHex (buf i) value
  | .appendLong val => Guarded.bufferAppendLong (buf i) val
  | .copyLong val => Guarded.bufferCopyLong (buf i) val
  | .appendOffT val => Guarded.bufferAppendOffT (buf i) val
  | .copyOffT val => Guarded.bufferCopyOffT (buf i) val
  | .appendStringEncoded s encoding =>
    given (buf i) s fun s => Guarded.bufferAppendStringEncoded (buf i) s encoding
  | .copyMemory s => given (buf i) s (Guarded.bufferCopyMemory (buf i))
  | .appendMemory s => given (buf i) s (Guarded.bufferAppendMemory (buf i))
  | .toLower => Guarded.bufferToLower (buf i)
  | .reset => .ok (bufferReset (buf i))

def Buffers.call (st : Buffers) (i : Nat) (call : BufferCall) : Except Stop Buffers := do
  let b ← runCall st.buf i call
  .ok ⟨Function.update st.buf i b,
    Function.update st.strings i (!call.memory && (st.strings i || b.used == 0))⟩

def Buffers.run (st : Buffers) : List (Nat × BufferCall) → Except Stop Buffers
  | [] => .ok st
  | (i, call) :: calls => do
    let st ← st.call i call
    st.run calls

end Runs

/-! ## What a call keeps -/

def BufferCall.asks (buf : Nat → Buffer) (i : Nat) : BufferCall → Nat
  | .prepareCopy size => size
  | .prepareAppend size => (buf i).size + size
  | .copyString s | .copyStringLen s => (s.getD []).length + 1
  | .copyStringBuffer src => src.elim 0 fun src => (buf src).used
  | .copyStringHex s => s.length * 2 + 1
  | .appendString s | .appendStringLen s => (buf i).size + ((s.getD []).length + 1)
  | .appendStringRfill _ maxlen => (buf i).size + (maxlen + 1)
  | .appendStringBuffer src => (buf i).size + src.elim 0 fun src => (buf src).used
  | .appendLongHex _ | .appendLong _ | .copyLong _ | .appendOffT _ | .copyOffT _ =>
    (buf i).size + (31 + 1)
  | .appendStringEncoded s encoding =>
    (buf i).size + encoding.elim 0 fun encoding => (encodeText encoding (s.getD [])).length
  | .copyMemory s | .appendMemory s => (buf i).size + (s.getD []).length
  | .toLower | .reset => 0

/-- What is asked for can be counted, a buffer is not appended to itself, only a buffer in use is
encoded to, and a NUL stops `buffer_to_lower`. -/
def Buffers.Allows (st : Buffers) (i : Nat) (call : BufferCall) : Prop :=
  call.asks st.buf i + 64 < 2 ^ 32 ∧
    match call with
    | .appendStringBuffer src => src ≠ some i
    | .appendStringEncoded s _ => s ≠ none → 0 < (st.buf i).used
    | .toLower => st.strings i = true ∨ (st.buf i).used = 0 ∨ 0 ∈ (st.buf i).ptr
    | _ => True

/-- The bytes in use are in the block, and behind string operations there is a NUL. -/
structure Buffers.Safe (st : Buffers) : Prop where
  used_le : ∀ i, (st.buf i).used ≤ (st.buf i).size
  ended : ∀ i, st.strings i = true → 0 < (st.buf i).used →
    (st.buf i).ptr[(st.buf i).used - 1]? = some 0

def KeepsBlock (b : Buffer) (memory : Bool) (r : Except Stop Buffer) : Prop :=
  ∃ b', r = .ok b' ∧ b'.WF ∧ (memory = false → b.Closed → b'.Closed)

theorem closed_of_used_zero {b : Buffer} (h : b.used = 0) : b.Closed := fun hpos => by omega

theorem Buffer.Text.closed {b : Buffer} {t : Bytes} (h : b.Text t) : b.Closed := by
  intro _
  obtain ⟨behind, hptr⟩ := h.ptr_eq
  rw [hptr, h.used, Nat.add_sub_cancel, List.getElem?_append_right (Nat.le_refl _), Nat.sub_self]
  rfl

theorem Buffer.Ended.closed {b : Buffer} (h : b.Ended) : b.Closed := by
  obtain ⟨s, rest, hptr, hused⟩ := h
  intro _
  rw [hptr, hused, Nat.add_sub_cancel, List.getElem?_append_right (Nat.le_refl _), Nat.sub_self]
  rfl

theorem KeepsBlock.same {b : Buffer} (hb : b.WF) (memory : Bool) : KeepsBlock b memory (.ok b) :=
  ⟨b, rfl, hb, fun _ h => h⟩

theorem KeepsBlock.closed {b b' : Buffer} (hb : b'.WF) (h : b'.Closed) (memory : Bool) :
    KeepsBlock b memory (.ok b') :=
  ⟨b', rfl, hb, fun _ _ => h⟩

theorem KeepsBlock.given {α : Type} {b : Buffer} (hb : b.WF) {memory : Bool} {s : Option α}
    {f : α → Except Stop Buffer} (h : ∀ t, s = some t → KeepsBlock b memory (f t)) :
    KeepsBlock b memory (given b s f) := by
  cases s with
  | none => exact KeepsBlock.same hb memory
  | some t => exact h t rfl

section Calls

variable [Malloc]

theorem keeps_bufferCopyString {b : Buffer} {s : Bytes} (h : s.length + 1 + 64 < 2 ^ 32) :
    KeepsBlock b false (Guarded.bufferCopyString b s) := by
  have htext := text_bufferCopyString b s
  rw [Guarded.bufferCopyString_eq b h]
  exact KeepsBlock.closed htext.wf htext.closed false

theorem keeps_bufferCopyStringLen {b : Buffer} {s : Bytes} (h : s.length + 1 + 64 < 2 ^ 32) :
    KeepsBlock b false (Guarded.bufferCopyStringLen b s) := by
  have htext := text_bufferCopyStringLen b s
  rw [Guarded.bufferCopyStringLen_eq b h]
  exact KeepsBlock.closed htext.wf htext.closed false

theorem keeps_bufferCopyStringBuffer {b src : Buffer} (hsrc : src.WF)
    (h : src.used + 64 < 2 ^ 32) : KeepsBlock b false (Guarded.bufferCopyStringBuffer b src) := by
  rw [Guarded.bufferCopyStringBuffer_eq b hsrc h]
  refine KeepsBlock.closed (wf_bufferCopyStringBuffer b src) ?_ false
  rcases shows_bufferCopyStringBuffer b src with htext | ⟨hused, -⟩
  · exact htext.closed
  · exact closed_of_used_zero hused

omit [Malloc] in
theorem keeps_withText {b p : Buffer} {text : Bytes} (hpos : 0 < p.used)
    (hroom : p.used + text.length ≤ p.size) : KeepsBlock b false (.ok (withText p text)) :=
  KeepsBlock.closed (withText_spec hpos hroom).1 (withText_spec hpos hroom).2 false

theorem keeps_started {b c : Buffer} (hb : b.WF) {m : Nat} (h : b.size + (m + 1) + 64 < 2 ^ 32)
    {text : Bytes} (htext : text.length ≤ m) :
    KeepsBlock c false (.ok (withText (Guarded.started b m) text)) := by
  obtain ⟨hpos, hroom, -⟩ := Guarded.started_spec hb h
  exact keeps_withText hpos (by omega)

theorem keeps_bufferCopyStringHex {b : Buffer} {s : Bytes} (h : s.length * 2 + 1 + 64 < 2 ^ 32) :
    KeepsBlock b false (Guarded.bufferCopyStringHex b s) := by
  have hsize := le_size_bufferPrepareCopy b (s.length * 2 + 1)
  rw [Guarded.bufferCopyStringHex_eq b h]
  apply keeps_withText (Nat.one_pos)
  simp only [Guarded.length_hexPairs, Buffer.size] at hsize ⊢
  omega

theorem keeps_bufferAppendString {b : Buffer} (hb : b.WF) {s : Bytes}
    (h : b.size + (s.length + 1) + 64 < 2 ^ 32) :
    KeepsBlock b false (Guarded.bufferAppendString b s) := by
  rw [Guarded.bufferAppendString_eq hb h]
  exact keeps_started hb h (Nat.le_refl _)

theorem keeps_bufferAppendStringLen {b : Buffer} (hb : b.WF) {s : Bytes}
    (h : b.size + (s.length + 1) + 64 < 2 ^ 32) :
    KeepsBlock b false (Guarded.bufferAppendStringLen b s) := by
  rw [Guarded.bufferAppendStringLen_eq hb h]
  by_cases hs : s = []
  · subst hs
    exact KeepsBlock.same hb false
  · exact KeepsBlock.closed (bufferAppendStringLen_bytes hb hs).2
      (ended_bufferAppendStringLen hb hs).closed false

theorem keeps_bufferAppendStringBuffer {b src : Buffer} (hb : b.WF) (hsrc : src.WF)
    (h : b.size + src.used + 64 < 2 ^ 32) :
    KeepsBlock b false (Guarded.bufferAppendStringBuffer b src false) := by
  rw [Guarded.bufferAppendStringBuffer_eq hb hsrc h]
  unfold bufferAppendStringBuffer
  by_cases hu : src.used = 0
  · rw [if_pos hu]
    exact KeepsBlock.same hb false
  · have hlen := (Guarded.load_text hsrc hu).2
    rw [if_neg hu, ← Guarded.bufferAppendStringLen_eq hb (by omega)]
    exact keeps_bufferAppendStringLen hb (by omega)

theorem keeps_bufferAppendStringRfill {b : Buffer} (hb : b.WF) (s : Bytes) {maxlen : Nat}
    (h : b.size + (maxlen + 1) + 64 < 2 ^ 32) :
    KeepsBlock b false (Guarded.bufferAppendStringRfill b s maxlen) := by
  rw [Guarded.bufferAppendStringRfill_eq hb s h]
  refine keeps_started hb h ?_
  rw [List.length_append, List.length_replicate]
  have := List.length_take_le maxlen s
  omega

theorem keeps_bufferAppendNumber {b c : Buffer} (hb : b.WF)
    (h : b.size + (31 + 1) + 64 < 2 ^ 32) {digits : Bytes} (hdigits : digits.length ≤ 31) :
    KeepsBlock c false (Guarded.bufferAppendNumber b digits) := by
  rw [Guarded.bufferAppendNumber_eq hb h hdigits]
  exact keeps_started hb h hdigits

theorem keeps_bufferAppendLong {b c : Buffer} (hb : b.WF) (h : b.size + (31 + 1) + 64 < 2 ^ 32)
    (val : Int32) : KeepsBlock c false (Guarded.bufferAppendLong b val) :=
  keeps_bufferAppendNumber hb h
    (Guarded.length_liLtostr (by decide) val.le_toInt val.toInt_lt)

theorem keeps_bufferAppendOffT {b c : Buffer} (hb : b.WF) (h : b.size + (31 + 1) + 64 < 2 ^ 32)
    (val : Int64) : KeepsBlock c false (Guarded.bufferAppendOffT b val) :=
  keeps_bufferAppendNumber hb h
    (Guarded.length_liLtostr (by decide) val.le_toInt val.toInt_lt)

theorem keeps_bufferCopyLong {b : Buffer} (h : b.size + (31 + 1) + 64 < 2 ^ 32) (val : Int32) :
    KeepsBlock b false (Guarded.bufferCopyLong b val) :=
  @keeps_bufferAppendLong _ { b with used := 0 } b (wf_of_used_zero rfl) h val

theorem keeps_bufferCopyOffT {b : Buffer} (h : b.size + (31 + 1) + 64 < 2 ^ 32) (val : Int64) :
    KeepsBlock b false (Guarded.bufferCopyOffT b val) :=
  @keeps_bufferAppendOffT _ { b with used := 0 } b (wf_of_used_zero rfl) h val

theorem keeps_bufferAppendLongHex {b : Buffer} (hb : b.WF) (h : b.size + (31 + 1) + 64 < 2 ^ 32)
    (value : UInt32) : KeepsBlock b false (Guarded.bufferAppendLongHex b value) := by
  have hshift := Guarded.hexShift_le value.toNat
  rw [Guarded.bufferAppendLongHex_eq hb h value]
  exact keeps_started hb (by omega) (Nat.le_of_eq (hexText_spec _ _).2.2)

theorem keeps_bufferAppendMemory {b c : Buffer} (hb : b.WF) {s : Bytes}
    (h : b.size + s.length + 64 < 2 ^ 32) : KeepsBlock c true (Guarded.bufferAppendMemory b s) := by
  rw [Guarded.bufferAppendMemory_eq hb h]
  exact ⟨_, rfl, (bufferAppendMemory_bytes hb s).2, fun hm => absurd hm.symm Bool.false_ne_true⟩

omit [Malloc] in
theorem keeps_bufferToLower {b : Buffer} (hb : b.WF) (h : b.used = 0 ∨ 0 ∈ b.ptr) :
    KeepsBlock b false (Guarded.bufferToLower b) := by
  unfold Guarded.bufferToLower
  by_cases hu : b.used = 0
  · rw [if_pos hu]
    exact KeepsBlock.same hb false
  · obtain ⟨lowered, hlower, hlen, hzero⟩ := Guarded.lowerBytes_spec b.ptr (h.resolve_left hu)
    rw [if_neg hu, hlower, Guarded.ok_bind]
    refine ⟨_, rfl, ?_, fun _ hclosed hpos => hzero _ (hclosed hpos)⟩
    simp only [Buffer.WF, Buffer.size] at hb ⊢
    rw [hlen]
    exact hb

theorem keeps_prepareCopy {b : Buffer} {n : Nat} (h : n + 64 < 2 ^ 32) :
    KeepsBlock b false (.ok (Guarded.bufferPrepareCopy b n)) := by
  have hused := bufferPrepareCopy_used b n
  rw [Guarded.bufferPrepareCopy_eq b h]
  exact KeepsBlock.closed (wf_of_used_zero hused) (closed_of_used_zero hused) false

theorem keeps_prepareAppend {b : Buffer} (hb : b.WF) {n : Nat} (h : b.size + n + 64 < 2 ^ 32) :
    KeepsBlock b false (.ok (Guarded.bufferPrepareAppend b n)) := by
  obtain ⟨hused, hroom, htake⟩ := bufferPrepareAppend_spec hb n
  rw [Guarded.bufferPrepareAppend_eq hb h]
  refine ⟨_, rfl, ?_, ?_⟩
  · simp only [Buffer.WF]
    omega
  · intro _ hclosed hpos
    have hget := hclosed (hused ▸ hpos)
    rw [← List.getElem?_take_of_lt (by omega : b.used - 1 < b.used)] at hget
    rw [hused, ← List.getElem?_take_of_lt (by omega : b.used - 1 < b.used), htake]
    exact hget

theorem keeps_bufferAppendStringEncoded {b : Buffer} (hb : b.WF) (hpos : 0 < b.used) {s : Bytes}
    (encoding : Option BufferEncoding)
    (h : b.size + (encoding.elim 0 fun encoding => (encodeText encoding s).length) + 64 < 2 ^ 32) :
    Guarded.bufferAppendStringEncoded b s encoding = .error .aborted ∨
      KeepsBlock b false (Guarded.bufferAppendStringEncoded b s encoding) := by
  have hle : b.used ≤ b.size := hb
  cases encoding with
  | none =>
    obtain ⟨c, hc⟩ : ∃ c, b.ptr[b.used - 1]? = some c :=
      ⟨_, List.getElem?_eq_getElem (by simp only [Buffer.size] at hle; omega)⟩
    unfold Guarded.bufferAppendStringEncoded
    rw [Guarded.last_of_pos hpos (by omega), hc]
    dsimp only
    split
    · exact .inl rfl
    · split
      · exact .inr (KeepsBlock.same hb false)
      · exact .inl rfl
  | some encoding =>
    rw [Guarded.bufferAppendStringEncoded_eq hb hpos encoding h]
    unfold bufferAppendStringEncoded
    split
    · exact .inl rfl
    · next b' heq =>
      refine .inr ?_
      split at heq
      · cases heq
      · split at heq
        · cases heq
          exact KeepsBlock.same hb false
        · obtain ⟨hused, hroom, -⟩ := bufferPrepareAppend_spec hb (encodeText encoding s).length
          cases heq
          exact keeps_withText (by omega) (by omega)

theorem runCall_spec {st : Buffers} (h : st.Safe) {i : Nat} {call : BufferCall}
    (hallow : st.Allows i call) : runCall st.buf i call = .error .aborted ∨
      KeepsBlock (st.buf i) call.memory (runCall st.buf i call) := by
  have hwf : ∀ k, (st.buf k).WF := h.used_le
  obtain ⟨hasks, hcall⟩ := hallow
  cases call with
  | prepareCopy size => exact .inr (keeps_prepareCopy hasks)
  | prepareAppend size => exact .inr (keeps_prepareAppend (hwf i) hasks)
  | copyString s =>
    refine .inr (KeepsBlock.given (hwf i) ?_)
    rintro t rfl
    exact keeps_bufferCopyString hasks
  | copyStringLen s =>
    refine .inr (KeepsBlock.given (hwf i) ?_)
    rintro t rfl
    exact keeps_bufferCopyStringLen hasks
  | copyStringBuffer src =>
    refine .inr (KeepsBlock.given (hwf i) ?_)
    rintro k rfl
    exact keeps_bufferCopyStringBuffer (hwf k) hasks
  | copyStringHex s => exact .inr (keeps_bufferCopyStringHex hasks)
  | appendString s =>
    refine .inr (KeepsBlock.given (hwf i) ?_)
    rintro t rfl
    exact keeps_bufferAppendString (hwf i) hasks
  | appendStringRfill s maxlen =>
    refine .inr (KeepsBlock.given (hwf i) ?_)
    rintro t rfl
    exact keeps_bufferAppendStringRfill (hwf i) t hasks
  | appendStringLen s =>
    refine .inr (KeepsBlock.given (hwf i) ?_)
    rintro t rfl
    exact keeps_bufferAppendStringLen (hwf i) hasks
  | appendStringBuffer src =>
    refine .inr (KeepsBlock.given (hwf i) ?_)
    rintro k rfl
    have hother : decide (k = i) = false := decide_eq_false fun heq => hcall (congrArg some heq)
    rw [hother]
    exact keeps_bufferAppendStringBuffer (hwf i) (hwf k) hasks
  | appendLongHex value => exact .inr (keeps_bufferAppendLongHex (hwf i) hasks value)
  | appendLong val => exact .inr (keeps_bufferAppendLong (hwf i) hasks val)
  | copyLong val => exact .inr (keeps_bufferCopyLong hasks val)
  | appendOffT val => exact .inr (keeps_bufferAppendOffT (hwf i) hasks val)
  | copyOffT val => exact .inr (keeps_bufferCopyOffT hasks val)
  | appendStringEncoded s encoding =>
    cases s with
    | none => exact .inr (KeepsBlock.same (hwf i) _)
    | some s =>
      exact keeps_bufferAppendStringEncoded (hwf i) (hcall (Option.some_ne_none s)) encoding hasks
  | copyMemory s =>
    refine .inr (KeepsBlock.given (hwf i) ?_)
    rintro t rfl
    exact keeps_bufferAppendMemory (wf_of_used_zero rfl) hasks
  | appendMemory s =>
    refine .inr (KeepsBlock.given (hwf i) ?_)
    rintro t rfl
    exact keeps_bufferAppendMemory (hwf i) hasks
  | toLower =>
    refine .inr (keeps_bufferToLower (hwf i) ?_)
    rcases hcall with hstrings | hrest
    · by_cases hu : (st.buf i).used = 0
      · exact .inl hu
      · exact .inr (List.mem_of_getElem? (h.ended i hstrings (Nat.pos_of_ne_zero hu)))
    · exact hrest
  | reset =>
    exact .inr (KeepsBlock.closed (wf_bufferReset _) (closed_of_used_zero (bufferReset_used _)) _)

theorem Buffers.Safe.call {st : Buffers} (h : st.Safe) {i : Nat} {call : BufferCall}
    (hallow : st.Allows i call) : st.call i call = .error .aborted ∨
      ∃ st', st.call i call = .ok st' ∧ st'.Safe := by
  unfold Buffers.call
  rcases runCall_spec h hallow with herr | ⟨b', hok, hwf, hclosed⟩
  · rw [herr]
    exact .inl rfl
  · rw [hok, Guarded.ok_bind]
    refine .inr ⟨_, rfl, ?_, ?_⟩
    · intro k
      dsimp only
      by_cases hk : k = i
      · subst hk
        rw [Function.update_self]
        exact hwf
      · rw [Function.update_of_ne hk]
        exact h.used_le k
    · intro k
      dsimp only
      by_cases hk : k = i
      · subst hk
        rw [Function.update_self, Function.update_self]
        intro hstrings hpos
        rw [Bool.and_eq_true, Bool.not_eq_true', Bool.or_eq_true, beq_iff_eq] at hstrings
        obtain ⟨hmemory, hbefore | hzero⟩ := hstrings
        · exact hclosed hmemory (h.ended k hbefore) hpos
        · omega
      · rw [Function.update_of_ne hk, Function.update_of_ne hk]
        exact h.ended k

theorem strings_call {st st' : Buffers} {i : Nat} {call : BufferCall}
    (h : st.call i call = .ok st') (hmemory : call.memory = false) (hst : st.strings i = true) :
    st'.strings i = true := by
  unfold Buffers.call at h
  cases hrun : runCall st.buf i call with
  | error e =>
    rw [hrun] at h
    cases h
  | ok b =>
    rw [hrun] at h
    cases h
    dsimp only
    rw [Function.update_self, hmemory, hst]
    rfl

omit [Malloc] in
theorem safe_start : Buffers.start.Safe where
  used_le := fun _ => Nat.le_refl 0
  ended := fun _ _ hpos => absurd hpos (Nat.lt_irrefl 0)

def Buffers.AllowsAll (st : Buffers) : List (Nat × BufferCall) → Prop
  | [] => True
  | (i, call) :: calls =>
    st.Allows i call ∧ ∀ st', st.call i call = .ok st' → st'.AllowsAll calls

theorem Buffers.Safe.run {st : Buffers} (h : st.Safe) {calls : List (Nat × BufferCall)}
    (hallow : st.AllowsAll calls) : st.run calls = .error .aborted ∨
      ∃ st', st.run calls = .ok st' ∧ st'.Safe := by
  induction calls generalizing st with
  | nil => exact .inr ⟨st, rfl, h⟩
  | cons head calls ih =>
    obtain ⟨i, call⟩ := head
    obtain ⟨hcall, hrest⟩ := hallow
    unfold Buffers.run
    rcases h.call hcall with herr | ⟨st', hok, hsafe⟩
    · rw [herr]
      exact .inl rfl
    · rw [hok]
      exact ih hsafe (hrest st' hok)

/-- No run of such calls leaves a block, and each state it reaches is safe. -/
theorem buffersSafe {calls : List (Nat × BufferCall)} (hallow : Buffers.start.AllowsAll calls) :
    Buffers.start.run calls ≠ .error .outside ∧
      ∀ st, Buffers.start.run calls = .ok st → st.Safe := by
  rcases safe_start.run hallow with herr | ⟨st, hok, hsafe⟩
  · rw [herr]
    exact ⟨fun heq => (nomatch heq), fun _ heq => (nomatch heq)⟩
  · rw [hok]
    refine ⟨fun heq => (nomatch heq), ?_⟩
    intro st' heq
    cases heq
    exact hsafe

end Calls

/-- A string that is copied and brought to lower case. -/
theorem buffersSafe_lower :
    let calls := [(0, BufferCall.copyStringLen (some [65])), (0, .toLower)]
    @Buffers.run zeroMalloc .start calls ≠ .error .outside ∧
      ∀ st, @Buffers.run zeroMalloc .start calls = .ok st → st.Safe := by
  refine @buffersSafe zeroMalloc _ ⟨⟨by decide, trivial⟩, fun st hst =>
    ⟨⟨by simp [BufferCall.asks], .inl ?_⟩, fun _ _ => trivial⟩⟩
  exact @strings_call zeroMalloc _ _ _ _ hst rfl rfl

def Buffers.Leaves (calls : List (Nat × BufferCall)) : Bool :=
  match @Buffers.run zeroMalloc .start calls with
  | .error .outside => true
  | _ => false

theorem leaves_bufferCopyStringLen {s : Bytes} (hlen : s.length = 2 ^ 32 - 1) :
    Buffers.Leaves [(0, .copyStringLen (some s))] = true := by
  have hcopy : @Guarded.bufferCopyStringLen zeroMalloc bufferInit s = .error .outside := by
    have hprepare : (@Guarded.bufferPrepareCopy zeroMalloc bufferInit 0).size = 64 := by decide
    have hzero : sizeT (s.length + 1) = 0 := by
      unfold sizeT
      omega
    unfold Guarded.bufferCopyStringLen
    rw [hzero, Guarded.store, if_neg (by omega)]
    rfl
  have hcall : @runCall zeroMalloc Buffers.start.buf 0 (.copyStringLen (some s)) =
      .error .outside := hcopy
  have hrun : @Buffers.run zeroMalloc .start [(0, .copyStringLen (some s))] = .error .outside := by
    unfold Buffers.run Buffers.call
    rw [hcall]
    rfl
  rw [Buffers.Leaves, hrun]

/-- There is no NUL in a block that memory operations have filled, the string of a buffer that
grows is gone, and a length cannot be counted. -/
theorem not_buffersSafe :
    Buffers.Leaves [(0, .copyMemory (some (List.replicate 64 65))),
      (0, .appendMemory (some (List.replicate 64 65))), (0, .toLower)] = true ∧
    Buffers.Leaves [(0, .copyString (some (List.replicate 64 65))),
      (0, .appendStringBuffer (some 0))] = true ∧
    Buffers.Leaves [(0, .copyStringLen (some (List.replicate (2 ^ 32 - 1) 65)))] = true := by
  have hlen : ∀ n, (List.replicate n (65 : UInt8)).length = n := fun _ => List.length_replicate
  refine ⟨by decide +kernel, by decide +kernel, ?_⟩
  exact leaves_bufferCopyStringLen (hlen (2 ^ 32 - 1))

end Lighttpd
