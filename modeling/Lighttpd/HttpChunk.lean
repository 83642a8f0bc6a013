import Lighttpd.QueueContent
import Lighttpd.Lib.ChunkedBody

/-!
# `http_chunk.c`: writing a chunked body

Each payload goes behind its size. The functions write the size of an empty payload, too, which ends
the body, and of a size only 32 bits, so the body can be read back exactly as long as every payload
has a length from 1 to 2^32 - 1 (`roundTrips_iff`).
-/

namespace Lighttpd

open CLib

/-- The fields of the server and the connection the functions use. -/
structure HttpChunk where
  writeQueue : Chunkqueue
  transferEncoding : Nat
  tmpChunkLen : Buffer
  deriving DecidableEq, Repr

def HTTP_TRANSFER_ENCODING_CHUNKED : Nat := 1

def HttpChunk.chunked (con : HttpChunk) : Prop :=
  con.transferEncoding &&& HTTP_TRANSFER_ENCODING_CHUNKED ≠ 0

instance (con : HttpChunk) : Decidable con.chunked := inferInstanceAs (Decidable (_ ≠ _))

/-- The first loop counts the digits, at most `fuel` of them. -/
def hexCount : Nat → Nat → Nat
  | 0, _ => 0
  | fuel + 1, len => if len = 0 then 0 else hexCount fuel (len >>> 4) + 1

def hexByte (d : Nat) : UInt8 := UInt8.ofNat (d + if d ≤ 9 then 48 else 97 - 10)

/-- The second loop writes `i` digits, from the last one on. -/
def hexText : Nat → Nat → Bytes
  | 0, _ => []
  | i + 1, len => hexText i (len >>> 4) ++ [hexByte (len &&& 0xf)]

section Operations

variable [Malloc]

def httpChunkAppendLen (con : HttpChunk) (len : Nat) : HttpChunk :=
  let b :=
    if len = 0 then bufferCopyStringLen con.tmpChunkLen (some (ascii "0"))
    else
      let i := hexCount 8 len
      let b := bufferPrepareCopy con.tmpChunkLen (i + 1)
      { b with ptr := (memcpy b.ptr 0 (hexText i len)).set i 0, used := i + 1 }
  let b := bufferAppendStringLen b (some (ascii "\r\n"))
  { con with writeQueue := chunkqueueAppendBuffer con.writeQueue b, tmpChunkLen := b }

/-- `chunkqueue_append_mem(cq, s, sizeof(s))` -/
def appendLiteral (cq : Chunkqueue) (s : Bytes) : Chunkqueue := chunkqueueAppendMem cq (s ++ [0])

/-- The length is converted to a `size_t` of 32 bits. -/
def httpChunkAppendFile (con : HttpChunk) (fn : Buffer) (offset len : Int) : HttpChunk :=
  let con := if con.chunked then httpChunkAppendLen con (len % 2 ^ 32).toNat else con
  let cq := chunkqueueAppendFile con.writeQueue fn offset len
  { con with writeQueue := if con.chunked ∧ len > 0 then appendLiteral cq (ascii "\r\n") else cq }

/-- `n - 1` for a `size_t`, which wraps around. -/
def sizePred (n : Nat) : Nat := (n + (2 ^ 32 - 1)) % 2 ^ 32

def httpChunkAppendBuffer (con : HttpChunk) (mem : Buffer) : HttpChunk :=
  let con := if con.chunked then httpChunkAppendLen con (sizePred mem.used) else con
  let cq := chunkqueueAppendBuffer con.writeQueue mem
  { con with
    writeQueue := if con.chunked ∧ mem.used > 0 then appendLiteral cq (ascii "\r\n") else cq }

/-- `mem` is the `len` bytes at the argument. -/
def httpChunkAppendMem (con : HttpChunk) (mem : Bytes) : HttpChunk :=
  if mem.length = 0 then
    { con with writeQueue :=
        if con.chunked then appendLiteral con.writeQueue (ascii "0\r\n\r\n")
        else appendLiteral con.writeQueue [] }
  else
    let con := if con.chunked then httpChunkAppendLen con (mem.length - 1) else con
    let cq := chunkqueueAppendMem con.writeQueue mem
    { con with writeQueue := if con.chunked then appendLiteral cq (ascii "\r\n") else cq }

inductive PayloadCall where
  | file (fn : Buffer) (offset len : Int)
  | buffer (b : Buffer)
  | mem (s : Bytes)

def PayloadCall.run (con : HttpChunk) : PayloadCall → HttpChunk
  | .file fn offset len => httpChunkAppendFile con fn offset len
  | .buffer b => httpChunkAppendBuffer con b
  | .mem s => httpChunkAppendMem con s

def writeBody (con : HttpChunk) (calls : List PayloadCall) : HttpChunk :=
  httpChunkAppendMem (calls.foldl PayloadCall.run con) []

end Operations

/-! ## Sizes -/

theorem hexByte_spec : ∀ d < 16, isHexDigit (hexByte d) = true ∧ hexVal (hexByte d) = d := by
  decide

theorem hexText_spec : ∀ (i len : Nat), (∀ c ∈ hexText i len, isHexDigit c = true) ∧
    hexValue (hexText i len) = len % 16 ^ i ∧ (hexText i len).length = i
  | 0, len => ⟨by simp [hexText], by simp [hexText, hexValue, Nat.mod_one], rfl⟩
  | i + 1, len => by
    obtain ⟨hhex, hval, hlen⟩ := hexText_spec i (len >>> 4)
    have hmod : len &&& 0xf = len % 16 := Nat.and_two_pow_sub_one_eq_mod len 4
    have hdiv : len >>> 4 = len / 16 := Nat.shiftRight_eq_div_pow len 4
    obtain ⟨hd, hv⟩ := hexByte_spec (len % 16) (Nat.mod_lt _ (by decide))
    refine ⟨?_, ?_, ?_⟩
    · intro c hc
      rw [hexText, List.mem_append, List.mem_singleton, hmod] at hc
      rcases hc with hc | rfl
      · exact hhex c hc
      · exact hd
    · rw [hexText, hexValue_append_singleton, hval, hmod, hv, hdiv, Nat.pow_succ, Nat.mul_comm _ 16,
        Nat.mod_mul]
      omega
    · rw [hexText, List.length_append, hlen, List.length_singleton]

theorem lt_hexCount : ∀ (fuel len : Nat), len < 16 ^ fuel → len < 16 ^ hexCount fuel len
  | 0, _, h => h
  | fuel + 1, len, h => by
    unfold hexCount
    split
    · next h0 => simp [h0]
    · have hdiv : len >>> 4 = len / 16 := Nat.shiftRight_eq_div_pow len 4
      have ih := lt_hexCount fuel (len >>> 4) (by rw [hdiv]; rw [Nat.pow_succ] at h; omega)
      rw [Nat.pow_succ]
      rw [hdiv] at ih ⊢
      omega

theorem hexCount_of_le : ∀ (fuel len : Nat), 16 ^ fuel ≤ len → hexCount fuel len = fuel
  | 0, _, _ => rfl
  | fuel + 1, len, h => by
    have hpos : 0 < 16 ^ fuel := Nat.pow_pos (by decide)
    have hdiv : len >>> 4 = len / 16 := Nat.shiftRight_eq_div_pow len 4
    unfold hexCount
    rw [Nat.pow_succ] at h
    rw [if_neg (by omega), hexCount_of_le fuel (len >>> 4) (by rw [hdiv]; omega)]

def sizeText (len : Nat) : Bytes := if len = 0 then ascii "0" else hexText (hexCount 8 len) len

theorem sizeText_spec (len : Nat) : sizeText len ≠ [] ∧
    (∀ c ∈ sizeText len, isHexDigit c = true) ∧ hexValue (sizeText len) = len % 2 ^ 32 := by
  unfold sizeText
  split
  · next h0 =>
    have hzero : ascii "0" = [48] := rfl
    subst h0
    rw [hzero]
    refine ⟨List.cons_ne_nil _ _, ?_, rfl⟩
    intro c hc
    obtain rfl := List.mem_singleton.mp hc
    rfl
  · next h0 =>
    obtain ⟨hhex, hval, hlen⟩ := hexText_spec (hexCount 8 len) len
    refine ⟨?_, hhex, ?_⟩
    · intro hnil
      rw [hnil, hexCount, if_neg h0] at hlen
      cases hlen
    · rw [hval]
      have hpow : (16 : Nat) ^ 8 = 2 ^ 32 := by decide
      by_cases hlt : len < 16 ^ 8
      · rw [Nat.mod_eq_of_lt (lt_hexCount 8 len hlt), Nat.mod_eq_of_lt (hpow ▸ hlt)]
      · rw [hexCount_of_le 8 len (Nat.le_of_not_lt hlt), hpow]

/-! ## What a call adds -/

namespace PayloadCall

def payload (fs : Files) : PayloadCall → Bytes
  | .file fn offset len => fs.part fn.str offset len
  | .buffer b => b.ptr.take (b.used - 1)
  | .mem s => s.take (s.length - 1)

/-- The argument is what the caller says: the part of the file is there, the buffer is not used
beyond its block. -/
def Valid (fs : Files) : PayloadCall → Prop
  | .file fn offset len => fn.Ended ∧ fs.Has fn.str offset len
  | .buffer b => b.WF
  | .mem _ => True

def size : PayloadCall → Nat
  | .file _ _ len => (len % 2 ^ 32).toNat
  | .buffer b => sizePred b.used
  | .mem s => s.length - 1

def closing : PayloadCall → Bytes
  | .file _ _ len => if len > 0 then crlf else []
  | .buffer b => if b.used > 0 then crlf else []
  | .mem _ => crlf

theorem framing {fs : Files} {call : PayloadCall} (h : call.Valid fs) :
    (hexValue (sizeText call.size) = (call.payload fs).length % 2 ^ 32 ∧ call.closing = crlf) ∨
      (call.payload fs = [] ∧ call.closing = []) := by
  rw [(sizeText_spec call.size).2.2]
  cases call with
  | file fn offset len =>
    have hlen := Files.length_part h.2
    have hpos := h.2.2.1
    simp only [size, closing, payload]
    by_cases h0 : len > 0
    · rw [if_pos h0]
      exact Or.inl ⟨by omega, rfl⟩
    · rw [if_neg h0]
      exact Or.inr ⟨List.length_eq_zero_iff.mp (by omega), rfl⟩
  | buffer b =>
    have hwf : b.used ≤ b.ptr.length := h
    simp only [size, closing, payload, List.length_take, sizePred]
    by_cases h0 : b.used > 0
    · rw [if_pos h0]
      exact Or.inl ⟨by omega, rfl⟩
    · rw [if_neg h0]
      exact Or.inr ⟨by rw [show b.used = 0 by omega]; rfl, rfl⟩
  | mem s =>
    simp only [size, closing, payload, List.length_take]
    exact Or.inl ⟨by omega, trivial⟩

end PayloadCall

section Content

variable [Malloc] (fs : Files)

omit [Malloc] in
theorem ascii_crlf : ascii "\r\n" = crlf := rfl

theorem content_appendLiteral (cq : Chunkqueue) (s : Bytes) :
    (appendLiteral cq s).content fs = cq.content fs ++ s := by
  rw [appendLiteral, content_appendMem]
  simp

theorem content_httpChunkAppendLen (con : HttpChunk) (len : Nat) :
    (httpChunkAppendLen con len).writeQueue.content fs =
      con.writeQueue.content fs ++ (sizeText len ++ crlf) := by
  have happend : ∀ b : Buffer, b.Text (sizeText len) →
      (chunkqueueAppendBuffer con.writeQueue
        (bufferAppendStringLen b (some (ascii "\r\n")))).content fs =
          con.writeQueue.content fs ++ (sizeText len ++ crlf) := by
    intro b hb
    have htext := text_bufferAppendStringLen hb (ascii "\r\n")
    rw [content_appendBuffer, take_of_holds htext.holds htext.used]
    rfl
  unfold httpChunkAppendLen
  refine happend _ ?_
  unfold sizeText
  split
  · exact text_bufferCopyStringLen _ _
  · have hlen := (hexText_spec (hexCount 8 len) len).2.2
    have htext := text_bufferCopyStringLen con.tmpChunkLen (hexText (hexCount 8 len) len)
    simp only [bufferCopyStringLen, hlen] at htext
    exact htext

@[simp] theorem httpChunkAppendLen_transferEncoding (con : HttpChunk) (len : Nat) :
    (httpChunkAppendLen con len).transferEncoding = con.transferEncoding := rfl

theorem content_httpChunkAppendFile {con : HttpChunk} (hcon : con.chunked) {fn : Buffer}
    (hfn : fn.Ended) (offset len : Int) :
    (httpChunkAppendFile con fn offset len).chunked ∧
      (httpChunkAppendFile con fn offset len).writeQueue.content fs =
        con.writeQueue.content fs ++ (sizeText (len % 2 ^ 32).toNat ++ crlf ++
          fs.part fn.str offset len ++ if len > 0 then crlf else []) := by
  unfold httpChunkAppendFile
  generalize (len % 2 ^ 32).toNat = n
  have hsize := content_httpChunkAppendLen fs con n
  have hcon₁ : (httpChunkAppendLen con n).chunked := by
    rwa [HttpChunk.chunked, httpChunkAppendLen_transferEncoding]
  rw [if_pos hcon]
  refine ⟨by rwa [HttpChunk.chunked, httpChunkAppendLen_transferEncoding], ?_⟩
  simp only [hcon₁, true_and]
  split
  · rw [content_appendLiteral, content_appendFile fs _ hfn, hsize]
    simp [ascii_crlf]
  · rw [content_appendFile fs _ hfn, hsize]
    simp

theorem content_httpChunkAppendBuffer {con : HttpChunk} (hcon : con.chunked) (b : Buffer) :
    (httpChunkAppendBuffer con b).chunked ∧
      (httpChunkAppendBuffer con b).writeQueue.content fs =
        con.writeQueue.content fs ++ (sizeText (sizePred b.used) ++ crlf ++
          b.ptr.take (b.used - 1) ++ if b.used > 0 then crlf else []) := by
  unfold httpChunkAppendBuffer
  generalize sizePred b.used = n
  have hsize := content_httpChunkAppendLen fs con n
  have hcon₁ : (httpChunkAppendLen con n).chunked := by
    rwa [HttpChunk.chunked, httpChunkAppendLen_transferEncoding]
  rw [if_pos hcon]
  refine ⟨by rwa [HttpChunk.chunked, httpChunkAppendLen_transferEncoding], ?_⟩
  simp only [hcon₁, true_and]
  split
  · rw [content_appendLiteral, content_appendBuffer, hsize]
    simp [ascii_crlf]
  · rw [content_appendBuffer, hsize]
    simp

theorem content_httpChunkAppendMem {con : HttpChunk} (hcon : con.chunked) (s : Bytes) :
    (httpChunkAppendMem con s).chunked ∧
      (httpChunkAppendMem con s).writeQueue.content fs =
        con.writeQueue.content fs ++ (sizeText (s.length - 1) ++ crlf ++
          s.take (s.length - 1) ++ crlf) := by
  unfold httpChunkAppendMem
  split
  · next h0 =>
    obtain rfl := List.length_eq_zero_iff.mp h0
    refine ⟨hcon, ?_⟩
    dsimp only
    rw [content_appendLiteral]
    rfl
  · generalize hn : s.length - 1 = n
    have hsize := content_httpChunkAppendLen fs con n
    have hcon₁ : (httpChunkAppendLen con n).chunked := by
      rwa [HttpChunk.chunked, httpChunkAppendLen_transferEncoding]
    refine ⟨by rwa [HttpChunk.chunked, httpChunkAppendLen_transferEncoding], ?_⟩
    dsimp only
    rw [if_pos hcon₁, content_appendLiteral, content_appendMem, hsize, hn]
    simp [ascii_crlf]

/-- **What a call adds** to a chunked body. -/
theorem content_run {con : HttpChunk} (hcon : con.chunked) {call : PayloadCall}
    (h : call.Valid fs) :
    (call.run con).chunked ∧ (call.run con).writeQueue.content fs = con.writeQueue.content fs ++
      (sizeText call.size ++ crlf ++ call.payload fs ++ call.closing) := by
  cases call with
  | file fn offset len => exact content_httpChunkAppendFile fs hcon h.1 offset len
  | buffer b => exact content_httpChunkAppendBuffer fs hcon b
  | mem s => exact content_httpChunkAppendMem fs hcon s

end Content

/-! ## Round trips -/

namespace PayloadCall

def block (fs : Files) (call : PayloadCall) : Bytes :=
  sizeText call.size ++ crlf ++ call.payload fs ++ call.closing

/-- The lengths for which a size can be written that is not taken for the end. -/
def Short (fs : Files) (call : PayloadCall) : Prop :=
  0 < (call.payload fs).length ∧ (call.payload fs).length < 2 ^ 32

def ending : Bytes := [48] ++ crlf ++ crlf

variable {fs : Files}

theorem chunkedBody_block {call : PayloadCall} (hv : call.Valid fs) (hs : call.Short fs)
    {rest d : Bytes} : ChunkedBody (call.block fs ++ rest) d ↔
      ∃ tail, d = call.payload fs ++ tail ∧ ChunkedBody rest tail := by
  obtain ⟨hne, hhex, -⟩ := sizeText_spec call.size
  obtain ⟨hpos, hlt⟩ := hs
  rcases framing hv with ⟨hval, hclose⟩ | ⟨hnil, -⟩
  · rw [block, hclose]
    exact chunkedBody_chunk hne hhex (List.ne_nil_of_length_pos hpos)
      (hval.trans (Nat.mod_eq_of_lt hlt))
  · rw [hnil] at hpos
    cases hpos

theorem not_chunkedBody_block {call : PayloadCall} (hv : call.Valid fs) (hs : ¬ call.Short fs) :
    ¬ ChunkedBody (call.block fs ++ ending) (call.payload fs) := by
  obtain ⟨-, hhex, -⟩ := sizeText_spec call.size
  intro hb
  unfold block at hb
  rw [List.append_assoc, List.append_assoc (sizeText call.size ++ crlf)] at hb
  rcases hb.cases_size hhex with ⟨-, hnil, trailer, htr, he⟩ |
    ⟨data, rest, tail, hdata, hval, he, hp, hrest⟩
  · rw [hnil, List.nil_append, ending, ← List.append_assoc, ← List.append_assoc] at he
    refine not_trailer_zero htr (List.append_cancel_right he).symm ?_
    rcases framing hv with ⟨-, hclose⟩ | ⟨-, hclose⟩
    · exact Or.inr ⟨[13], hclose⟩
    · exact Or.inl hclose
  · have hpos := List.length_pos_of_ne_nil hdata
    have hlen := congrArg List.length he
    have hplen := congrArg List.length hp
    simp only [List.length_append, ending, crlf, List.length_cons, List.length_nil] at hlen hplen
    rcases framing hv with ⟨hsize, hclose⟩ | ⟨hnil, -⟩
    · rw [hclose, crlf, List.length_cons, List.length_singleton] at hlen
      unfold Short at hs
      -- of a payload of 2^32 bytes or more a rest is left, but no room for its size
      have htail : tail ≠ [] := by
        rintro rfl
        rw [List.length_nil] at hplen
        omega
      have hroom := hrest.length_le.2 htail
      omega
    · rw [hnil] at hplen
      simp only [List.length_nil] at hplen
      omega

end PayloadCall

/-- Every beginning of the calls gives a body that is read back as the payloads, one after the
other, with the end of the body behind them. -/
def RoundTrips [Malloc] (fs : Files) (con : HttpChunk) (calls : List PayloadCall) : Prop :=
  ∀ pre, pre <+: calls →
    ChunkedBody ((writeBody con pre).writeQueue.content fs) (pre.map (·.payload fs)).flatten

section RoundTrip

variable [Malloc] {fs : Files} {con : HttpChunk}

theorem content_calls (hcon : con.chunked) : ∀ {calls : List PayloadCall},
    (∀ call ∈ calls, call.Valid fs) → (calls.foldl PayloadCall.run con).chunked ∧
      (calls.foldl PayloadCall.run con).writeQueue.content fs =
        con.writeQueue.content fs ++ (calls.map (·.block fs)).flatten := by
  intro calls
  induction calls using List.reverseRecOn with
  | nil => exact fun _ => ⟨hcon, by simp⟩
  | append_singleton calls call ih =>
    intro hv
    obtain ⟨hc, hcontent⟩ := ih fun c hc => hv c (by simp [hc])
    obtain ⟨hc', hcontent'⟩ := content_run fs hc (hv call (by simp))
    rw [List.foldl_append]
    refine ⟨hc', hcontent'.trans ?_⟩
    rw [hcontent, List.map_append, List.flatten_append, List.append_assoc, List.map_singleton,
      List.flatten_singleton]
    rfl

theorem content_writeBody (hcon : con.chunked) (hempty : con.writeQueue.first = [])
    {calls : List PayloadCall} (hv : ∀ call ∈ calls, call.Valid fs) :
    (writeBody con calls).writeQueue.content fs =
      (calls.map (·.block fs)).flatten ++ PayloadCall.ending := by
  obtain ⟨hc, hcontent⟩ := content_calls hcon hv
  have hnil : con.writeQueue.content fs = [] := by simp [Chunkqueue.content, hempty]
  rw [writeBody, (content_httpChunkAppendMem fs hc []).2, hcontent, hnil, List.nil_append]
  rfl

omit [Malloc] in
theorem chunkedBody_blocks {calls : List PayloadCall} (hv : ∀ call ∈ calls, call.Valid fs)
    (hs : ∀ call ∈ calls, call.Short fs) {rest d : Bytes} :
    ChunkedBody ((calls.map (·.block fs)).flatten ++ rest)
        ((calls.map (·.payload fs)).flatten ++ d) ↔ ChunkedBody rest d := by
  induction calls with
  | nil => exact Iff.rfl
  | cons call calls ih =>
    have ih := ih (fun c hc => hv c (by simp [hc])) fun c hc => hs c (by simp [hc])
    simp only [List.map_cons, List.flatten_cons, List.append_assoc]
    rw [PayloadCall.chunkedBody_block (hv call (by simp)) (hs call (by simp))]
    constructor
    · rintro ⟨tail, he, hrest⟩
      exact ih.mp (List.append_cancel_left he ▸ hrest)
    · exact fun h => ⟨_, rfl, ih.mpr h⟩

/-- **When a chunked body round-trips**: every payload has a length from 1 to 2^32 - 1. -/
theorem roundTrips_iff (hcon : con.chunked) (hempty : con.writeQueue.first = [])
    {calls : List PayloadCall} (hv : ∀ call ∈ calls, call.Valid fs) :
    RoundTrips fs con calls ↔ ∀ call ∈ calls, call.Short fs := by
  constructor
  · intro h
    induction calls using List.reverseRecOn with
    | nil => simp
    | append_singleton calls call ih =>
      have hv' : ∀ c ∈ calls, c.Valid fs := fun c hc => hv c (by simp [hc])
      have hs := ih hv' fun pre hpre => h pre (hpre.trans (List.prefix_append _ _))
      have hlast := h (calls ++ [call]) List.prefix_rfl
      rw [content_writeBody hcon hempty hv] at hlast
      simp only [List.map_append, List.flatten_append, List.map_singleton, List.flatten_singleton,
        List.append_assoc] at hlast
      rw [chunkedBody_blocks hv' hs] at hlast
      have hcall : call.Short fs := by
        by_contra hlong
        exact PayloadCall.not_chunkedBody_block (hv call (by simp)) hlong hlast
      intro c hc
      rcases List.mem_append.mp hc with hc | hc
      · exact hs c hc
      · exact (List.mem_singleton.mp hc) ▸ hcall
  · intro hs pre hpre
    have hsub := hpre.subset
    rw [content_writeBody hcon hempty fun c hc => hv c (hsub hc)]
    have hb := (chunkedBody_blocks (fun c hc => hv c (hsub hc)) fun c hc => hs c (hsub hc)).mpr
      chunkedBody_end
    rwa [List.append_nil] at hb

end RoundTrip

section Body

variable [Malloc] {fs : Files} {con : HttpChunk} {b s : Bytes}

/-- What is queued so far stands for these bytes of the body. -/
def BodySoFar (fs : Files) (con : HttpChunk) (b : Bytes) : Prop :=
  if con.chunked then ∃ calls : List PayloadCall, (∀ call ∈ calls, call.Valid fs ∧ call.Short fs) ∧
    con.writeQueue.content fs = (calls.map (·.block fs)).flatten ∧
    (calls.map (·.payload fs)).flatten = b
  else con.writeQueue.content fs = b

def BodyIs (fs : Files) (con : HttpChunk) (b : Bytes) : Prop :=
  if con.chunked then ChunkedBody (con.writeQueue.content fs) b else con.writeQueue.content fs = b

omit [Malloc] in
theorem bodySoFar_nil (h : con.writeQueue.content fs = []) : BodySoFar fs con [] := by
  unfold BodySoFar
  split
  · exact ⟨[], by simp, by rw [h]; rfl, rfl⟩
  · exact h

theorem content_httpChunkAppendMem_plain (fs : Files) (h : ¬ con.chunked) (s : Bytes) :
    ¬ (httpChunkAppendMem con s).chunked ∧ (httpChunkAppendMem con s).writeQueue.content fs =
      con.writeQueue.content fs ++ s.take (s.length - 1) := by
  unfold httpChunkAppendMem
  rw [if_neg h, if_neg h]
  split
  · next h0 =>
    obtain rfl := List.length_eq_zero_iff.mp h0
    exact ⟨h, content_appendLiteral fs con.writeQueue []⟩
  · dsimp only
    rw [if_neg h]
    exact ⟨h, content_appendMem fs con.writeQueue s⟩

@[simp] theorem httpChunkAppendMem_transferEncoding (con : HttpChunk) (s : Bytes) :
    (httpChunkAppendMem con s).transferEncoding = con.transferEncoding := by
  unfold httpChunkAppendMem
  split
  · rfl
  · by_cases h : con.chunked
    · rw [if_pos h]
      rfl
    · rw [if_neg h]

theorem BodySoFar.append (h : BodySoFar fs con b) (hpos : 0 < s.length) (hlt : s.length < 2 ^ 32) :
    BodySoFar fs (httpChunkAppendMem con (s ++ [0])) (b ++ s) := by
  have htake : (s ++ [0]).take ((s ++ [0]).length - 1) = s := by simp
  unfold BodySoFar at h ⊢
  by_cases hcon : con.chunked
  · rw [if_pos hcon] at h
    obtain ⟨calls, hshort, hcontent, hpayload⟩ := h
    let call : PayloadCall := .mem (s ++ [0])
    have hcall : call.payload fs = s := htake
    obtain ⟨hchunked, hrun⟩ : (httpChunkAppendMem con (s ++ [0])).chunked ∧
        (httpChunkAppendMem con (s ++ [0])).writeQueue.content fs =
          con.writeQueue.content fs ++ call.block fs := content_run fs hcon (show call.Valid fs from trivial)
    rw [if_pos hchunked]
    refine ⟨calls ++ [call], ?_, ?_, ?_⟩
    · intro c hc
      rcases List.mem_append.mp hc with hc | hc
      · exact hshort c hc
      · obtain rfl := List.mem_singleton.mp hc
        refine ⟨trivial, ?_⟩
        unfold PayloadCall.Short
        rw [hcall]
        exact ⟨hpos, hlt⟩
    · rw [List.map_append, List.flatten_append, ← hcontent, hrun]
      simp
    · rw [List.map_append, List.flatten_append, hpayload]
      simp [hcall]
  · rw [if_neg hcon] at h
    obtain ⟨hplain, hcontent⟩ := content_httpChunkAppendMem_plain fs hcon (s ++ [0])
    rw [if_neg hplain, hcontent, h, htake]

theorem BodySoFar.finish (h : BodySoFar fs con b) : BodyIs fs (httpChunkAppendMem con []) b := by
  unfold BodySoFar at h
  unfold BodyIs
  by_cases hcon : con.chunked
  · rw [if_pos hcon] at h
    obtain ⟨calls, hshort, hcontent, hpayload⟩ := h
    obtain ⟨hchunked, hcontent'⟩ := content_httpChunkAppendMem fs hcon []
    have hend := (chunkedBody_blocks (fun c hc => (hshort c hc).1) fun c hc => (hshort c hc).2).mpr
      chunkedBody_end
    rw [if_pos hchunked, hcontent', hcontent, ← hpayload]
    rwa [List.append_nil] at hend
  · rw [if_neg hcon] at h
    obtain ⟨hplain, hcontent⟩ := content_httpChunkAppendMem_plain fs hcon []
    rw [if_neg hplain, hcontent, h]
    exact List.append_nil b

end Body

def startBody : HttpChunk := ⟨chunkqueueInit, HTTP_TRANSFER_ENCODING_CHUNKED, bufferInit⟩

/-- `http_chunk_append_mem(srv, con, "", 1)` -/
def emptyPayload : PayloadCall := .mem [0]

theorem roundTrips_iff_emptyPayload : @RoundTrips zeroMalloc ⟨[], []⟩ startBody [emptyPayload] ↔
    ∀ call ∈ [emptyPayload], call.Short ⟨[], []⟩ :=
  @roundTrips_iff zeroMalloc ⟨[], []⟩ startBody (by decide) rfl [emptyPayload]
    (by simp [emptyPayload, PayloadCall.Valid])

theorem not_roundTrips_emptyPayload : ¬ ∀ (mal : Malloc) (fs : Files) (con : HttpChunk)
    (calls : List PayloadCall), con.chunked → con.writeQueue.first = [] →
      (∀ call ∈ calls, call.Valid fs) → ChunkedBody ((@writeBody mal con calls).writeQueue.content fs)
        (calls.map (·.payload fs)).flatten := by
  intro h
  have hv : ∀ call ∈ [emptyPayload], call.Valid ⟨[], []⟩ := by
    simp [emptyPayload, PayloadCall.Valid]
  have hb := h zeroMalloc ⟨[], []⟩ startBody [emptyPayload] (by decide) rfl hv
  rw [@content_writeBody zeroMalloc ⟨[], []⟩ startBody (by decide) rfl [emptyPayload] hv] at hb
  refine PayloadCall.not_chunkedBody_block (hv emptyPayload (by simp)) ?_ (by simpa using hb)
  simp [PayloadCall.Short, emptyPayload, PayloadCall.payload]

end Lighttpd
