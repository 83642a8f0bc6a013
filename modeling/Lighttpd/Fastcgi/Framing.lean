import Lighttpd.Fastcgi.CreateEnv

/-!
# The records of a request

What `fcgi_create_env` queues is read back as records: the begin record, the environment, and the
body in records that are full but for the last one. A body of memory chunks is copied, one of
temporary files is queued, and a file is removed with the last chunk that refers to it.
-/

namespace Lighttpd

open CLib

/-! ## Headers -/

theorem ofNat_and_0xff (n : Nat) : UInt8.ofNat (n &&& 0xff) = UInt8.ofNat n := by
  apply UInt8.toNat_inj.mp
  have hmod : n &&& 0xff = n % 2 ^ 8 := Nat.and_two_pow_sub_one_eq_mod n 8
  rw [UInt8.toNat_ofNat', UInt8.toNat_ofNat', hmod, Nat.mod_mod]

theorem fcgiHeader_encode (type requestId : Nat) {s : Bytes} (hs : s.length ≤ FCGI_MAX_LENGTH) :
    ∃ header, fcgiHeader type requestId s.length 0 = some header ∧ header.length = 8 ∧
      header ++ s = Record.encode ⟨type, requestId, s, 0⟩ := by
  refine ⟨_, if_pos (by omega), rfl, ?_⟩
  simp only [Record.encode, Record.wordBytes, ofNat_and_0xff, Nat.shiftRight_eq_div_pow,
    Int.toNat_natCast, List.cons_append, List.nil_append, List.replicate_zero, List.append_nil]

/-! ## The body -/

structure MemBody (reqCq : Chunkqueue) (body : Bytes) : Prop where
  chunks : ∀ c ∈ reqCq.first, c.Readable ∧ c.unread ≠ []
  content : reqCq.unread = body

structure Chunk.TempPart (fs : Files) (c : Chunk) : Prop where
  type : c.type = .file
  isTemp : c.file.isTemp = true
  name : c.file.name.Ended
  start : c.file.start = 0
  nonneg : 0 ≤ c.offset
  lt : c.offset < c.file.length
  stored : ∃ s, fs.content c.file.name.str = some s ∧ c.file.length ≤ s.length

structure TempBody (fs : Files) (reqCq : Chunkqueue) (body : Bytes) : Prop where
  chunks : ∀ c ∈ reqCq.first, c.TempPart fs
  content : reqCq.content fs = body
  nodup : (reqCq.first.map (·.file.name.str)).Nodup

/-- The files the queue refers to, and whether they are removed with the chunk. -/
def fileRefs (cs : List Chunk) : List (Bytes × Bool) :=
  cs.filterMap fun c => if c.type = .file then some (c.file.name.str, c.file.isTemp) else none

/-- A file is removed with its last chunk, and not even then if its name is in `rest`. -/
def Owned (refs : List (Bytes × Bool)) (rest : List Bytes) : Prop :=
  ∀ l r name isTemp, refs = l ++ (name, isTemp) :: r →
    (isTemp = true ↔ name ∉ r.map (·.1) ∧ name ∉ rest)

theorem Owned.nil (rest : List Bytes) : Owned [] rest := by
  intro l r name isTemp hsplit
  cases l with
  | nil => cases hsplit
  | cons _ _ => cases hsplit

theorem Owned.append {refs : List (Bytes × Bool)} {rest rest' : List Bytes} (h : Owned refs rest)
    {name : Bytes} {isTemp : Bool} (hlast : isTemp = true ↔ name ∉ rest')
    (hrest : ∀ n, n ∉ rest ↔ n ≠ name ∧ n ∉ rest') : Owned (refs ++ [(name, isTemp)]) rest' := by
  intro l r n t hsplit
  rcases r.eq_nil_or_concat' with rfl | ⟨r, x, rfl⟩
  · obtain ⟨-, hend⟩ := List.append_inj' hsplit rfl
    obtain ⟨rfl, rfl⟩ := Prod.mk.inj (List.cons.inj hend).1
    simpa using hlast
  · rw [← List.cons_append, ← List.append_assoc] at hsplit
    obtain ⟨hrefs, hx⟩ := List.append_inj' hsplit rfl
    obtain rfl := (List.cons.inj hx).1
    rw [h l r n t hrefs, hrest n, List.map_append, List.mem_append, not_or, and_assoc]
    simp

/-! ## A record that is filled -/

/-- Behind `pre` the queue holds a chunk with a header, and `parts` of the body; together they are
the bytes `t`. -/
structure Filling (fs : Files) (pre : List Chunk) (wb : Chunkqueue) (t : Bytes) (h : Chunk)
    (parts : List Chunk) : Prop where
  first : wb.first = pre ++ h :: parts
  type : h.type = .mem
  offset : h.offset = 0
  wf : h.mem.WF
  text : h.mem.bytes ++ (parts.map (Chunk.content fs)).flatten = t
  unused : wb.unused = []

theorem modify_at (pre : List Chunk) (h : Chunk) (parts : List Chunk) (f : Chunk → Chunk) :
    (pre ++ h :: parts).modify pre.length f = pre ++ f h :: parts := by
  induction pre with
  | nil => rfl
  | cons c pre ih => rw [List.cons_append, List.length_cons, List.modify_succ_cons, ih]; rfl

theorem content_addVirtualZero (fs : Files) {h : Chunk} (htype : h.type = .mem)
    (hoff : h.offset = 0) :
    Chunk.content fs { h with mem := { h.mem with used := h.mem.used + 1 } } = h.mem.bytes := by
  rw [Chunk.content, htype]
  show Chunk.unread _ = _
  rw [Chunk.unread_eq]
  simp only [hoff, Int.toNat_zero, List.drop_zero, Nat.add_sub_cancel, Buffer.bytes]

theorem fileRefs_append (cs ds : List Chunk) : fileRefs (cs ++ ds) = fileRefs cs ++ fileRefs ds :=
  List.filterMap_append

theorem fileRefs_mem {c : Chunk} (h : c.type = .mem) (cs : List Chunk) :
    fileRefs (c :: cs) = fileRefs cs := by
  simp [fileRefs, h]

theorem fileRefs_file {c : Chunk} (h : c.type = .file) (cs : List Chunk) :
    fileRefs (c :: cs) = (c.file.name.str, c.file.isTemp) :: fileRefs cs := by
  simp [fileRefs, h]

theorem getUnusedChunk_nil {wb : Chunkqueue} (h : wb.unused = []) :
    chunkqueueGetUnusedChunk wb = (wb, chunkInit) := by
  unfold chunkqueueGetUnusedChunk
  rw [h]

section Code

variable [Malloc] {fs : Files}

theorem appendBytes_spec {wb : Chunkqueue} (hunused : wb.unused = []) {s : Bytes} (hs : s ≠ []) :
    ∃ h, (appendBytes wb s).1 = wb.first.length ∧
      Filling fs wb.first (appendBytes wb s).2 s h [] ∧
      (appendBytes wb s).2.bytesIn = wb.bytesIn := by
  have hfirst : (chunkqueueGetAppendBuffer wb).first =
      wb.first ++ [{ chunkInit with type := .mem, offset := 0, mem := bufferReset bufferInit }] := by
    unfold chunkqueueGetAppendBuffer
    rw [getUnusedChunk_nil hunused]
    rfl
  have hkept : (chunkqueueGetAppendBuffer wb).unused = [] ∧
      (chunkqueueGetAppendBuffer wb).bytesIn = wb.bytesIn := by
    unfold chunkqueueGetAppendBuffer
    rw [getUnusedChunk_nil hunused]
    exact ⟨hunused, rfl⟩
  have hlen : (chunkqueueGetAppendBuffer wb).first.length - 1 = wb.first.length := by
    rw [hfirst, List.length_append, List.length_singleton]
    omega
  obtain ⟨-, hbytes, hwf⟩ := bufferCopyMemory_bytes (bufferReset bufferInit) hs
  refine ⟨{ chunkInit with
    type := .mem, offset := 0, mem := bufferCopyMemory (bufferReset bufferInit) (some s) },
    hlen, ⟨?_, rfl, rfl, hwf, ?_, hkept.1⟩, hkept.2⟩
  · show List.modify _ _ _ = _
    rw [hlen, hfirst, modify_at]
  · rw [List.map_nil, List.flatten_nil, List.append_nil]
    exact hbytes

theorem Filling.appendMemory {pre : List Chunk} {wb : Chunkqueue} {t : Bytes} {h : Chunk}
    (hf : Filling fs pre wb t h []) (s : Bytes) :
    Filling fs pre (appendMemory pre.length s wb) (t ++ s)
      { h with mem := bufferAppendMemory h.mem (some s) } [] := by
  obtain ⟨happ, hwf⟩ := bufferAppendMemory_bytes hf.wf s
  have htext := hf.text
  rw [List.map_nil, List.flatten_nil, List.append_nil] at htext
  refine ⟨?_, hf.type, hf.offset, hwf, ?_, hf.unused⟩
  · show List.modify _ _ _ = _
    rw [hf.first, modify_at]
  · rw [List.map_nil, List.flatten_nil, List.append_nil, happ, htext]

/-! ## One turn -/

variable (fs) in
def BodyQueued (kind : ChunkType) (wb reqCq : Chunkqueue) (body : Bytes) : Prop :=
  match kind with
  | .mem => MemBody reqCq body ∧ fileRefs wb.first = []
  | .file => TempBody fs reqCq body ∧ Owned (fileRefs wb.first) (reqCq.first.map (·.file.name.str))
  | .unused => False

variable (fs) in
/-- A record is filled from a body of one kind; memory goes behind the header. -/
structure Sending (kind : ChunkType) (pre : List Chunk) (wb reqCq : Chunkqueue) (t body : Bytes) :
    Prop where
  filling : ∃ h parts, Filling fs pre wb t h parts ∧ (kind = .mem → parts = [])
  body : BodyQueued fs kind wb reqCq body

variable (fs) in
/-- The `n` bytes at the beginning of the body were moved. No file was removed. -/
structure BodyMoved (kind : ChunkType) (pre : List Chunk) (wb reqCq : Chunkqueue) (t body : Bytes)
    (n : Nat) (wb' reqCq' : Chunkqueue) (calls : List Syscall) : Prop where
  sending : Sending fs kind pre wb' reqCq' (t ++ body.take n) (body.drop n)
  le : n ≤ body.length
  bytesIn : wb'.bytesIn = wb.bytesIn + n
  body : reqCq'.bytesIn = reqCq.bytesIn
  harmless : kind = .file → ∀ name, Syscall.unlink name ∉ calls

omit [Malloc] in
theorem removeFinished_one {c : Chunk} {cs : List Chunk} (hc : chunkIsFinished c = true)
    (hcs : ∀ d ∈ cs, chunkIsFinished d = false) (unused : List Chunk) (n : Nat) :
    (removeFinished (c :: cs) unused n).1 = cs ∧
      (removeFinished (c :: cs) unused n).2.2.2 = (chunkReset c).2 := by
  unfold removeFinished
  rw [if_pos hc]
  cases cs with
  | nil => exact ⟨rfl, List.append_nil _⟩
  | cons d ds =>
    have hd := hcs d (by simp)
    simp [removeFinished, hd]

omit [Malloc] in
theorem Chunk.Readable.isFinished {c : Chunk} (h : c.Readable) :
    chunkIsFinished c = true ↔ c.unread = [] := by
  have hlen := h.length
  have h0 := h.nonneg
  have h1 := h.lt
  rw [← List.length_eq_zero_iff]
  simp only [chunkIsFinished, h.type, Bool.or_eq_true, beq_iff_eq]
  omega

theorem takeFromBody_mem {pre : List Chunk} {wb reqCq : Chunkqueue} {t body : Bytes} {room : Nat}
    (h : Sending fs .mem pre wb reqCq t body) (hbody : body ≠ []) (hroom : 0 < room) :
    ∃ (n : Nat) (wb' reqCq' : Chunkqueue) (calls : List Syscall),
      takeFromBody pre.length room wb reqCq = some ((n : Int), wb', reqCq', calls) ∧
        0 < n ∧ n ≤ room ∧ BodyMoved fs .mem pre wb reqCq t body n wb' reqCq' calls := by
  obtain ⟨⟨hdr, parts, hfill, hparts⟩, hmem, hrefs⟩ := h
  obtain rfl := hparts rfl
  cases hfirst : reqCq.first with
  | nil =>
    have hnil : reqCq.unread = [] := by rw [Chunkqueue.unread, hfirst]; rfl
    exact absurd (hmem.content.symm.trans hnil) hbody
  | cons c cs =>
    obtain ⟨hc, hne⟩ := hmem.chunks c (by rw [hfirst]; simp)
    have hcs : ∀ d ∈ cs, d.Readable ∧ d.unread ≠ [] := fun d hd =>
      hmem.chunks d (by rw [hfirst]; exact List.mem_cons_of_mem _ hd)
    have hall : body = c.unread ++ (cs.map Chunk.unread).flatten := by
      rw [← hmem.content, Chunkqueue.unread, hfirst]
      rfl
    have hlen := hc.length
    have hpos : 0 < c.unread.length := List.length_pos_iff.mpr hne
    have hmin : min ((c.mem.used : Int) - 1 - c.offset) room =
        (min c.unread.length room : Nat) := by omega
    have hn : min c.unread.length room ≤ c.unread.length := Nat.min_le_left _ _
    generalize hk : min c.unread.length room = n at hmin hn
    have hbytes : (c.mem.ptr.drop c.offset.toNat).take n = c.unread.take n := by
      have h0 := hc.nonneg
      rw [Chunk.unread, List.take_take, Nat.min_eq_left (by omega)]
    have htaken : body.take n = c.unread.take n := by
      rw [hall, List.take_append_of_le_length hn]
    -- the queue with the bytes behind the header
    let hdr' := { hdr with mem := bufferAppendMemory hdr.mem (some (c.unread.take n)) }
    let wb' := { appendMemory pre.length (c.unread.take n) wb with bytesIn := wb.bytesIn + n }
    have hfilled : Filling fs pre wb' (t ++ body.take n) hdr' [] := by
      have happ := hfill.appendMemory (c.unread.take n)
      rw [htaken]
      exact ⟨happ.first, happ.type, happ.offset, happ.wf, happ.text, happ.unused⟩
    have hnofiles : fileRefs wb'.first = [] := by
      rw [hfill.first, fileRefs_append] at hrefs
      rw [hfilled.first, fileRefs_append, (List.append_eq_nil_iff.mp hrefs).1, List.nil_append]
      exact fileRefs_mem hfill.type []
    have hle : n ≤ body.length := by
      rw [hall, List.length_append]
      omega
    obtain ⟨hread, hdrop⟩ := hc.advance hn
    have hcase : takeFromBody pre.length room wb reqCq =
        let reqCq' := { reqCq with
          first := { c with offset := c.offset + n } :: cs, bytesOut := reqCq.bytesOut + n }
        if c.offset + n = (c.mem.used : Int) - 1 then
          some ((n : Int), wb', (chunkqueueRemoveFinishedChunks reqCq').1,
            (chunkqueueRemoveFinishedChunks reqCq').2)
        else some ((n : Int), wb', reqCq', []) := by
      unfold takeFromBody
      simp only [hfirst, hc.type, if_neg hc.used_ne_zero, hmin, Int.toNat_natCast, hbytes]
      rfl
    by_cases hend : n = c.unread.length
    · rw [hcase, if_pos (by omega)]
      have hnil : ({ c with offset := c.offset + n } : Chunk).unread = [] := by
        rw [hdrop, hend, List.drop_length]
      have hrest : ∀ d ∈ cs, chunkIsFinished d = false := fun d hd => by
        have hd' := hcs d hd
        rw [← Bool.not_eq_true, hd'.1.isFinished]
        exact hd'.2
      obtain ⟨hremoved, -⟩ := removeFinished_one (hread.isFinished.mpr hnil) hrest reqCq.unused
        reqCq.unusedChunks
      refine ⟨n, _, _, _, rfl, by omega, by omega, ⟨⟨⟨hdr', [], hfilled, fun _ => rfl⟩, ?_, hnofiles⟩,
        hle, rfl, rfl, fun hk => by cases hk⟩⟩
      refine ⟨?_, ?_⟩
      · intro d hd
        have hd' : d ∈ (removeFinished ({ c with offset := c.offset + n } :: cs) reqCq.unused
          reqCq.unusedChunks).1 := hd
        rw [hremoved] at hd'
        exact hcs d hd'
      · show ((removeFinished ({ c with offset := c.offset + n } :: cs) reqCq.unused
          reqCq.unusedChunks).1.map Chunk.unread).flatten = _
        rw [hremoved, hall, hend, List.drop_left]
    · rw [hcase, if_neg (by omega)]
      refine ⟨n, _, _, _, rfl, by omega, by omega, ⟨⟨⟨hdr', [], hfilled, fun _ => rfl⟩, ?_, hnofiles⟩,
        hle, rfl, rfl, fun hk => by cases hk⟩⟩
      refine ⟨?_, ?_⟩
      · intro d hd
        rcases List.mem_cons.mp hd with rfl | hd
        · refine ⟨hread, ?_⟩
          rw [hdrop]
          intro hnil
          have := congrArg List.length hnil
          simp only [List.length_drop, List.length_nil] at this
          omega
        · exact hcs d hd
      · rw [hall, List.drop_append_of_le_length hn, ← hdrop]
        rfl

/-- The chunk of the write queue for `n` bytes of a file of the body. -/
def queuedPart (c : Chunk) (n : Nat) (isTemp : Bool) : Chunk :=
  { chunkInit with
    type := .file
    offset := 0
    file := { chunkInit.file with
      name := bufferCopyStringBuffer bufferInit c.file.name
      start := c.offset
      length := n
      isTemp := isTemp } }

omit [Malloc] in
theorem Chunk.TempPart.content {c : Chunk} (h : c.TempPart fs) {s : Bytes}
    (hs : fs.content c.file.name.str = some s) :
    c.content fs = (s.drop c.offset.toNat).take (c.file.length - c.offset).toNat := by
  simp only [Chunk.content, h.type, h.start, hs, Int.zero_add, Option.getD_some]

omit [Malloc] in
theorem Chunk.TempPart.length {c : Chunk} (h : c.TempPart fs) :
    ((c.content fs).length : Int) = c.file.length - c.offset := by
  obtain ⟨s, hs, hle⟩ := h.stored
  have h0 := h.nonneg
  have hlt := h.lt
  rw [h.content hs, List.length_take, List.length_drop]
  omega

omit [Malloc] in
theorem Chunk.TempPart.advance {c : Chunk} (h : c.TempPart fs) {n : Nat}
    (hn : n < (c.content fs).length) :
    ({ c with offset := c.offset + n } : Chunk).TempPart fs ∧
      ({ c with offset := c.offset + n } : Chunk).content fs = (c.content fs).drop n := by
  have hlen := h.length
  have h0 := h.nonneg
  obtain ⟨s, hs, hle⟩ := h.stored
  have hpart : ({ c with offset := c.offset + n } : Chunk).TempPart fs :=
    ⟨h.type, h.isTemp, h.name, h.start, by simp only; omega, by simp only; omega, s, hs, hle⟩
  refine ⟨hpart, ?_⟩
  rw [hpart.content hs, h.content hs, List.drop_take, List.drop_drop]
  simp only
  congr 2 <;> omega

omit [Malloc] in
theorem Chunk.TempPart.isFinished {c : Chunk} (h : c.TempPart fs) : chunkIsFinished c = false := by
  have hlt := h.lt
  simp only [chunkIsFinished, h.type, beq_eq_false_iff_ne, ne_eq]
  omega

theorem Chunk.TempPart.queuedPart {c : Chunk} (h : c.TempPart fs) {n : Nat}
    (hn : n ≤ (c.content fs).length) (isTemp : Bool) :
    (queuedPart c n isTemp).content fs = (c.content fs).take n ∧
      fileRefs [queuedPart c n isTemp] = [(c.file.name.str, isTemp)] := by
  have hstr := bufferCopyStringBuffer_str bufferInit h.name
  have hlen := h.length
  obtain ⟨s, hs, -⟩ := h.stored
  refine ⟨?_, ?_⟩
  · rw [h.content hs, List.take_take, Nat.min_eq_left (by omega)]
    simp only [Chunk.content, Lighttpd.queuedPart, hstr, hs, Option.getD_some, Int.add_zero,
      Int.sub_zero, Int.toNat_natCast]
  · rw [fileRefs_file rfl]
    simp only [Lighttpd.queuedPart, hstr]
    rfl

theorem takeFromBody_file {pre : List Chunk} {wb reqCq : Chunkqueue} {t body : Bytes} {room : Nat}
    (h : Sending fs .file pre wb reqCq t body) (hbody : body ≠ []) (hroom : 0 < room) :
    ∃ (n : Nat) (wb' reqCq' : Chunkqueue) (calls : List Syscall),
      takeFromBody pre.length room wb reqCq = some ((n : Int), wb', reqCq', calls) ∧
        0 < n ∧ n ≤ room ∧ BodyMoved fs .file pre wb reqCq t body n wb' reqCq' calls := by
  obtain ⟨⟨hdr, parts, hfill, -⟩, htemp, howned⟩ := h
  cases hfirst : reqCq.first with
  | nil =>
    have hnil : reqCq.content fs = [] := by rw [Chunkqueue.content, hfirst]; rfl
    exact absurd (htemp.content.symm.trans hnil) hbody
  | cons c cs =>
    have hc := htemp.chunks c (by rw [hfirst]; simp)
    have hcs : ∀ d ∈ cs, d.TempPart fs := fun d hd =>
      htemp.chunks d (by rw [hfirst]; exact List.mem_cons_of_mem _ hd)
    have hnodup := htemp.nodup
    rw [hfirst] at howned hnodup
    obtain ⟨hnew, hnodup'⟩ := List.nodup_cons.mp hnodup
    have hall : body = c.content fs ++ (cs.map (Chunk.content fs)).flatten := by
      rw [← htemp.content, Chunkqueue.content, hfirst]
      rfl
    have hlen := hc.length
    have hlt := hc.lt
    have hmin : min (c.file.length - c.offset) room =
        (min (c.content fs).length room : Nat) := by omega
    have hn : min (c.content fs).length room ≤ (c.content fs).length := Nat.min_le_left _ _
    have hpos : min (c.content fs).length room ≠ 0 := by omega
    generalize hk : min (c.content fs).length room = n at hmin hn hpos
    have htaken : body.take n = (c.content fs).take n := by
      rw [hall, List.take_append_of_le_length hn]
    have hle : n ≤ body.length := by
      rw [hall, List.length_append]
      omega
    -- the queue with the part of the file, which is stolen if it is the last one
    let wb' (isTemp : Bool) := { wb with
      first := wb.first ++ [queuedPart c n isTemp], bytesIn := wb.bytesIn + n }
    have happend : chunkqueueAppendFile wb c.file.name c.offset n =
        { wb with first := wb.first ++ [queuedPart c n false] } := by
      unfold chunkqueueAppendFile
      rw [if_neg (by omega), getUnusedChunk_nil hfill.unused]
      rfl
    have hfilled : ∀ isTemp, Filling fs pre (wb' isTemp) (t ++ body.take n) hdr
        (parts ++ [queuedPart c n isTemp]) := fun isTemp => by
      refine ⟨?_, hfill.type, hfill.offset, hfill.wf, ?_, hfill.unused⟩
      · simp only [wb', hfill.first, List.append_assoc, List.cons_append]
      · rw [List.map_append, List.flatten_append, ← List.append_assoc, hfill.text, List.map_singleton,
          List.flatten_singleton, (hc.queuedPart hn isTemp).1, htaken]
    have hrefs : ∀ isTemp, fileRefs (wb' isTemp).first =
        fileRefs wb.first ++ [(c.file.name.str, isTemp)] := fun isTemp => by
      simp only [wb', fileRefs_append, (hc.queuedPart hn isTemp).2]
    let done : Chunk := { c with
      type := .file, offset := c.offset + n, file := { c.file with isTemp := false } }
    have hcase : takeFromBody pre.length room wb reqCq =
        if c.offset + n = c.file.length then
          let reqCq' := { reqCq with first := done :: cs, bytesOut := reqCq.bytesOut + n }
          some ((n : Int), wb' true, (chunkqueueRemoveFinishedChunks reqCq').1,
            (chunkqueueRemoveFinishedChunks reqCq').2)
        else some ((n : Int), wb' false, { reqCq with
          first := { c with offset := c.offset + n } :: cs, bytesOut := reqCq.bytesOut + n }, []) := by
      unfold takeFromBody
      simp only [hfirst, hc.type, hmin, happend]
      rw [if_neg (by omega)]
      split
      · rw [List.getLast?_concat]
        simp only [hc.isTemp, List.dropLast_concat]
        rw [if_neg]
        · rfl
        · rintro (hbad | hbad)
          · exact hbad rfl
          · exact hbad trivial
      · rfl
    by_cases hend : n = (c.content fs).length
    · rw [hcase, if_pos (by omega)]
      have hdone : chunkIsFinished done = true := by
        simp only [chunkIsFinished, done, beq_iff_eq]
        omega
      obtain ⟨hremoved, hcalls⟩ := removeFinished_one hdone (fun d hd => (hcs d hd).isFinished)
        reqCq.unused reqCq.unusedChunks
      have hfirst' : ∀ bytesOut, (chunkqueueRemoveFinishedChunks { reqCq with
          first := done :: cs, bytesOut := bytesOut }).1.first = cs := fun _ => hremoved
      refine ⟨n, _, _, _, rfl, by omega, by omega,
        ⟨⟨⟨hdr, _, hfilled true, fun hk => by cases hk⟩, ⟨?_, ?_, ?_⟩, ?_⟩, hle, rfl, rfl, ?_⟩⟩
      · intro d hd
        rw [hfirst'] at hd
        exact hcs d hd
      · rw [Chunkqueue.content, hfirst', hall, hend, List.drop_left]
      · rw [hfirst']
        exact hnodup'
      · rw [hfirst', hrefs]
        exact howned.append (by simpa using hnew) fun m => by simp
      · intro _ name hmem
        have hmem' : Syscall.unlink name ∈ (chunkReset done).2 := hcalls ▸ hmem
        simp [chunkReset, done] at hmem'
    · rw [hcase, if_neg (by omega)]
      obtain ⟨hpart, hdrop⟩ := hc.advance (n := n) (by omega)
      refine ⟨n, _, _, _, rfl, by omega, by omega,
        ⟨⟨⟨hdr, _, hfilled false, fun hk => by cases hk⟩, ⟨?_, ?_, ?_⟩, ?_⟩, hle, rfl, rfl,
          fun _ name hmem => by cases hmem⟩⟩
      · intro d hd
        rcases List.mem_cons.mp hd with rfl | hd
        · exact hpart
        · exact hcs d hd
      · rw [hall, List.drop_append_of_le_length hn, ← hdrop]
        rfl
      · exact hnodup
      · rw [hrefs]
        exact howned.append (by simp) fun m => by simp

theorem takeFromBody_spec {kind : ChunkType} {pre : List Chunk} {wb reqCq : Chunkqueue}
    {t body : Bytes} {room : Nat} (h : Sending fs kind pre wb reqCq t body) (hbody : body ≠ [])
    (hroom : 0 < room) :
    ∃ (n : Nat) (wb' reqCq' : Chunkqueue) (calls : List Syscall),
      takeFromBody pre.length room wb reqCq = some ((n : Int), wb', reqCq', calls) ∧
        0 < n ∧ n ≤ room ∧ BodyMoved fs kind pre wb reqCq t body n wb' reqCq' calls := by
  cases kind with
  | mem => exact takeFromBody_mem h hbody hroom
  | file => exact takeFromBody_file h hbody hroom
  | unused => exact h.body.elim

/-! ## The loops -/

theorem fillRecord_spec {kind : ChunkType} {pre : List Chunk} (weWant : Nat) :
    ∀ (fuel written : Nat) {wb reqCq : Chunkqueue} {t body : Bytes},
      Sending fs kind pre wb reqCq t body → written ≤ weWant → weWant - written ≤ body.length →
        weWant - written < fuel →
      ∃ (wb' reqCq' : Chunkqueue) (calls : List Syscall),
        fillRecord pre.length weWant fuel written wb reqCq = some (wb', reqCq', calls) ∧
          BodyMoved fs kind pre wb reqCq t body (weWant - written) wb' reqCq' calls
  | 0, written, wb, reqCq, t, body, _, _, _, hfuel => by omega
  | fuel + 1, written, wb, reqCq, t, body, h, hle, hbody, hfuel => by
    unfold fillRecord
    by_cases hdone : written = weWant
    · subst hdone
      refine ⟨wb, reqCq, [], by rw [if_pos rfl], ?_⟩
      rw [Nat.sub_self]
      exact ⟨by simpa using h, Nat.zero_le _, by simp, rfl, fun _ name hmem => by cases hmem⟩
    · have hroom : (weWant : Int) - written = (weWant - written : Nat) := by omega
      have hne : body ≠ [] := by
        rintro rfl
        simp only [List.length_nil] at hbody
        omega
      obtain ⟨n, wb₁, reqCq₁, calls₁, hturn, hpos, hn, hmoved⟩ :=
        takeFromBody_spec h hne (by omega : 0 < weWant - written)
      have hrest : (body.drop n).length = body.length - n := List.length_drop
      obtain ⟨wb₂, reqCq₂, calls₂, hrun, hmoved₂⟩ := fillRecord_spec weWant fuel (written + n)
        hmoved.sending (by omega) (by omega) (by omega)
      refine ⟨wb₂, reqCq₂, calls₁ ++ calls₂, ?_, ?_⟩
      · rw [if_neg (by omega), hroom, hturn]
        simp only [Option.bind_eq_bind, Option.bind_some]
        rw [← Int.natCast_add, hrun]
        rfl
      · have hsum : weWant - written = n + (weWant - (written + n)) := by omega
        have hsending := hmoved₂.sending
        rw [List.append_assoc, ← List.take_add, List.drop_drop, ← hsum] at hsending
        refine ⟨hsending, hbody, ?_, hmoved₂.body.trans hmoved.body, ?_⟩
        · rw [hmoved₂.bytesIn, hmoved.bytesIn, hsum]
          push_cast
          omega
        · intro hk name hmem
          rcases List.mem_append.mp hmem with hmem | hmem
          · exact hmoved.harmless hk name hmem
          · exact hmoved₂.harmless hk name hmem

omit [Malloc] in
theorem Filling.first_addVirtualZero {pre : List Chunk} {wb : Chunkqueue} {t : Bytes} {h : Chunk}
    {parts : List Chunk} (hf : Filling fs pre wb t h parts) :
    (addVirtualZero pre.length wb).first =
      pre ++ { h with mem := { h.mem with used := h.mem.used + 1 } } :: parts := by
  show List.modify _ _ _ = _
  rw [hf.first, modify_at]

omit [Malloc] in
theorem Filling.addVirtualZero {pre : List Chunk} {wb : Chunkqueue} {t : Bytes} {h : Chunk}
    {parts : List Chunk} (hf : Filling fs pre wb t h parts) :
    (addVirtualZero pre.length wb).content fs =
        (pre.map (Chunk.content fs)).flatten ++ t ∧
      fileRefs (addVirtualZero pre.length wb).first = fileRefs wb.first := by
  have hfirst := hf.first_addVirtualZero
  refine ⟨?_, ?_⟩
  · rw [Chunkqueue.content, hfirst, List.map_append, List.flatten_append, List.map_cons,
      List.flatten_cons, content_addVirtualZero fs hf.type hf.offset, hf.text]
  · rw [hfirst, hf.first, fileRefs_append, fileRefs_append, fileRefs_mem hf.type]
    congr 1
    exact fileRefs_mem hf.type parts

omit [Malloc] in
theorem BodyQueued.of_refs {kind : ChunkType} {wb wb' reqCq : Chunkqueue} {body : Bytes}
    (h : BodyQueued fs kind wb reqCq body) (hrefs : fileRefs wb'.first = fileRefs wb.first) :
    BodyQueued fs kind wb' reqCq body := by
  cases kind with
  | mem => exact ⟨h.1, hrefs.trans h.2⟩
  | file =>
    refine ⟨h.1, ?_⟩
    rw [hrefs]
    exact h.2
  | unused => exact h.elim

omit [Malloc] in
theorem BodyQueued.left {kind : ChunkType} {wb reqCq : Chunkqueue}
    (h : BodyQueued fs kind wb reqCq []) : reqCq.first = [] := by
  cases hfirst : reqCq.first with
  | nil => rfl
  | cons c cs =>
    exfalso
    cases kind with
    | mem =>
      have hc := h.1.chunks c (by rw [hfirst]; simp)
      have hnil := h.1.content
      rw [Chunkqueue.unread, hfirst, List.map_cons, List.flatten_cons] at hnil
      exact hc.2 (List.append_eq_nil_iff.mp hnil).1
    | file =>
      have hc := h.1.chunks c (by rw [hfirst]; simp)
      have hlt := hc.lt
      have hlen := hc.length
      have hnil := h.1.content
      rw [Chunkqueue.content, hfirst, List.map_cons, List.flatten_cons] at hnil
      rw [(List.append_eq_nil_iff.mp hnil).1, List.length_nil] at hlen
      omega
    | unused => exact h

variable (fs) in
/-- The body went to the write queue, in the records `stdin`. -/
structure Framed (kind : ChunkType) (requestId : Nat) (wb : Chunkqueue) (body : Bytes)
    (stdin : List Record) (wb' reqCq' : Chunkqueue) (calls : List Syscall) : Prop where
  content : wb'.content fs = wb.content fs ++ (stdin.map Record.encode).flatten
  records : ∀ r ∈ stdin, r.type = FCGI_STDIN ∧ r.requestId = requestId ∧ r.padding = 0 ∧
    r.content ≠ [] ∧ r.content.length ≤ FCGI_MAX_LENGTH
  body : (stdin.map Record.content).flatten = body
  bytesIn : wb'.bytesIn = wb.bytesIn + (stdin.map Record.encode).flatten.length
  unused : wb'.unused = []
  queued : BodyQueued fs kind wb' reqCq' []
  harmless : kind = .file → ∀ name, Syscall.unlink name ∉ calls

theorem sendBody_spec {kind : ChunkType} (requestId : Nat) :
    ∀ (fuel offset : Nat) {wb reqCq : Chunkqueue} {body : Bytes}, wb.unused = [] →
      BodyQueued fs kind wb reqCq body → reqCq.bytesIn = offset + body.length →
        body.length + 1 < fuel →
      ∃ (stdin : List Record) (wb' reqCq' : Chunkqueue) (calls : List Syscall),
        sendBody requestId fuel offset wb reqCq = some (wb', reqCq', calls) ∧
          Framed fs kind requestId wb body stdin wb' reqCq' calls
  | 0, offset, wb, reqCq, body, _, _, _, hfuel => by omega
  | fuel + 1, offset, wb, reqCq, body, hunused, hbody, hin, hfuel => by
    unfold sendBody
    by_cases hnil : body = []
    · subst hnil
      rw [if_pos (by rw [hin, List.length_nil]; omega)]
      exact ⟨[], wb, reqCq, [], rfl, by simp, by simp, rfl, by simp, hunused, hbody,
        fun _ name hmem => by cases hmem⟩
    · have hpos : 0 < body.length := List.length_pos_iff.mpr hnil
      rw [if_neg (by omega)]
      -- the length of the next record
      let n := min body.length FCGI_MAX_LENGTH
      have hwant : (if reqCq.bytesIn - offset > FCGI_MAX_LENGTH then (FCGI_MAX_LENGTH : Int)
          else reqCq.bytesIn - offset) = n := by
        simp only [n]
        split <;> omega
      have hn : n ≤ body.length := Nat.min_le_left _ _
      have hmax : n ≤ FCGI_MAX_LENGTH := Nat.min_le_right _ _
      have hn0 : 0 < n := by
        simp only [n, FCGI_MAX_LENGTH]
        omega
      have htake : (body.take n).length = n := by
        rw [List.length_take, Nat.min_eq_left hn]
      obtain ⟨header, hheader, hlen, hencode⟩ :=
        fcgiHeader_encode FCGI_STDIN requestId (s := body.take n) (by omega)
      rw [htake] at hheader
      have hne : header ≠ [] := by
        rintro rfl
        cases hlen
      obtain ⟨hdr, hi, hfill, hkeep⟩ := @appendBytes_spec _ fs wb hunused header hne
      rcases happend : appendBytes wb header with ⟨i, wb₁⟩
      rw [happend] at hi hfill hkeep
      simp only at hi hfill hkeep
      subst hi
      have hsending : Sending fs kind wb.first { wb₁ with bytesIn := wb₁.bytesIn + header.length }
          reqCq header body := by
        refine ⟨⟨hdr, [], ⟨hfill.first, hfill.type, hfill.offset, hfill.wf, hfill.text,
          hfill.unused⟩, fun _ => rfl⟩, hbody.of_refs ?_⟩
        show fileRefs wb₁.first = _
        rw [hfill.first, fileRefs_append, fileRefs_mem hfill.type]
        exact List.append_nil _
      obtain ⟨wb₂, reqCq₂, calls₂, hfilled, hmoved⟩ :=
        fillRecord_spec n fuel 0 hsending (Nat.zero_le _) (by omega) (by omega)
      rw [Nat.sub_zero] at hmoved
      obtain ⟨⟨hdr₂, parts, hfill₂, -⟩, hbody₂⟩ := hmoved.sending
      obtain ⟨hcontent, hrefs⟩ := hfill₂.addVirtualZero
      have hdrop : (body.drop n).length = body.length - n := List.length_drop
      have hunused₂ : (addVirtualZero wb.first.length wb₂).unused = [] := hfill₂.unused
      obtain ⟨stdin, wb', reqCq', calls, hrun, hframed⟩ := sendBody_spec requestId fuel (offset + n)
        hunused₂ (hbody₂.of_refs hrefs) (by rw [hmoved.body, hin]; omega) (by omega)
      rw [Int.natCast_add] at hrun
      change fillRecord wb.first.length n fuel 0 _ _ = _ at hfilled
      refine ⟨⟨FCGI_STDIN, requestId, body.take n, 0⟩ :: stdin, wb', reqCq', calls₂ ++ calls, ?_, ?_⟩
      · simp only [hwant, hheader, happend, hfilled, hrun, Option.bind_eq_bind, Option.bind_some]
      · refine ⟨?_, ?_, ?_, ?_, hframed.unused, hframed.queued, ?_⟩
        · rw [hframed.content, hcontent, hencode, List.map_cons, List.flatten_cons,
            ← List.append_assoc]
          rfl
        · intro r hr
          rcases List.mem_cons.mp hr with rfl | hr
          · refine ⟨rfl, rfl, rfl, List.length_pos_iff.mp ?_, ?_⟩
            · rw [htake]
              exact hn0
            · rw [htake]
              exact hmax
          · exact hframed.records r hr
        · rw [List.map_cons, List.flatten_cons, hframed.body, List.take_append_drop]
        · have hlast : (addVirtualZero wb.first.length wb₂).bytesIn = wb₂.bytesIn := rfl
          rw [hframed.bytesIn, hlast, hmoved.bytesIn, List.map_cons, List.flatten_cons,
            List.length_append, ← hencode, List.length_append, htake]
          simp only [hkeep]
          push_cast
          omega
        · intro hk name hmem
          rcases List.mem_append.mp hmem with hmem | hmem
          · exact hmoved.harmless hk name hmem
          · exact hframed.harmless hk name hmem

/-! ## The environment -/

omit [Malloc] in
theorem length_fcgiEnvLength (n : Nat) :
    (fcgiEnvLength n).length = if n > 127 then 4 else 1 := by
  unfold fcgiEnvLength
  split <;> rfl

theorem fcgiEnvAdd_spec {env env' : Buffer} {key val : Option Bytes} (hwf : env.WF)
    (h : fcgiEnvAdd env key val = some env') : env'.WF ∧ env'.used < FCGI_MAX_LENGTH := by
  unfold fcgiEnvAdd at h
  split at h
  · next key val =>
    have hpair : (fcgiEnvLength key.length ++ fcgiEnvLength val.length ++ key ++ val).length =
        key.length + val.length + (if key.length > 127 then 4 else 1) +
          if val.length > 127 then 4 else 1 := by
      simp only [List.length_append, length_fcgiEnvLength]
      omega
    dsimp only at h
    rw [← hpair] at h
    generalize fcgiEnvLength key.length ++ fcgiEnvLength val.length ++ key ++ val = pair at h
    split at h
    · cases h
    · next hfits =>
      obtain rfl := Option.some.inj h
      obtain ⟨hused, hsize, -⟩ := bufferPrepareAppend_spec hwf pair.length
      simp only [Buffer.WF, Buffer.size] at hsize ⊢
      rw [length_memcpy (by rw [hused]; exact hsize), hused]
      exact ⟨hsize, by omega⟩
  · cases h

theorem fcgiEnvAddAll_spec : ∀ (vars : List FcgiEnvVar) {env env' : Buffer}, env.WF →
    env.used < FCGI_MAX_LENGTH → fcgiEnvAddAll vars env = some env' →
      env'.WF ∧ env'.used < FCGI_MAX_LENGTH
  | [], env, env', hwf, hlt, h => by
    obtain rfl := Option.some.inj h
    exact ⟨hwf, hlt⟩
  | v :: vs, env, env', hwf, hlt, h => by
    unfold fcgiEnvAddAll at h
    split at h
    · next hadd =>
      obtain ⟨hwf', hlt'⟩ := fcgiEnvAdd_spec hwf hadd
      exact fcgiEnvAddAll_spec vs hwf' hlt' h
    · split at h
      · cases h
      · exact fcgiEnvAddAll_spec vs hwf hlt h

/-- The environment of a request, `none` if a variable that is needed does not fit. -/
def fcgiEnv (vars : List FcgiEnvVar) : Option Buffer :=
  fcgiEnvAddAll vars (bufferPrepareCopy bufferInit 1024)

theorem fcgiEnv_spec {vars : List FcgiEnvVar} {env : Buffer} (h : fcgiEnv vars = some env) :
    env.bytes.length = env.used ∧ env.used < FCGI_MAX_LENGTH := by
  have hempty : (bufferPrepareCopy bufferInit 1024).used = 0 := rfl
  have hmax : 0 < FCGI_MAX_LENGTH := by decide
  obtain ⟨hwf, hlt⟩ := fcgiEnvAddAll_spec vars (wf_of_used_zero hempty) (by omega) h
  refine ⟨?_, hlt⟩
  rw [Buffer.bytes, List.length_take]
  exact Nat.min_eq_left hwf

/-! ## The request -/

def headRecords (mode requestId : Nat) (params : Bytes) : List Record :=
  [⟨FCGI_BEGIN_REQUEST, requestId, beginBody mode, 0⟩, ⟨FCGI_PARAMS, requestId, params, 0⟩,
    ⟨FCGI_PARAMS, requestId, [], 0⟩]

def endRecord (requestId : Nat) : Record := ⟨FCGI_STDIN, requestId, [], 0⟩

omit [Malloc] in
theorem fcgiHeader_begin (mode requestId : Nat) :
    ∃ header, fcgiHeader FCGI_BEGIN_REQUEST requestId 8 0 = some header ∧
      header ++ beginBody mode =
        Record.encode ⟨FCGI_BEGIN_REQUEST, requestId, beginBody mode, 0⟩ := by
  have hmax : (beginBody mode).length ≤ FCGI_MAX_LENGTH := by
    simp only [beginBody, List.length_cons, List.length_nil, FCGI_MAX_LENGTH]
    omega
  obtain ⟨header, hheader, -, hencode⟩ := fcgiHeader_encode FCGI_BEGIN_REQUEST requestId hmax
  exact ⟨header, hheader, hencode⟩

theorem queueParams_spec {pre : List Chunk} {wb : Chunkqueue} {t : Bytes} {h : Chunk}
    (hf : Filling fs pre wb t h []) (requestId : Nat) {env : Buffer}
    (hlen : env.bytes.length = env.used) (hmax : env.used < FCGI_MAX_LENGTH) :
    ∃ wb', queueParams pre.length requestId env wb = some wb' ∧
      wb'.content fs = (pre.map (Chunk.content fs)).flatten ++ (t ++
        ([⟨FCGI_PARAMS, requestId, env.bytes, 0⟩, ⟨FCGI_PARAMS, requestId, [], 0⟩].map
          Record.encode).flatten) ∧
      fileRefs wb'.first = fileRefs wb.first ∧ wb'.unused = [] ∧
      wb'.bytesIn = wb.bytesIn + (t ++
        ([⟨FCGI_PARAMS, requestId, env.bytes, 0⟩, ⟨FCGI_PARAMS, requestId, [], 0⟩].map
          Record.encode).flatten).length := by
  obtain ⟨header, hheader, -, hencode⟩ :=
    fcgiHeader_encode FCGI_PARAMS requestId (s := env.bytes) (by omega)
  obtain ⟨last, hlast, -, hencode'⟩ :=
    fcgiHeader_encode FCGI_PARAMS requestId (s := []) (Nat.zero_le _)
  rw [hlen] at hheader
  change fcgiHeader FCGI_PARAMS requestId 0 0 = some last at hlast
  rw [List.append_nil] at hencode'
  have hhead := ((hf.appendMemory header).appendMemory env.bytes).appendMemory last
  have htext : t ++ header ++ env.bytes ++ last = t ++
      ([⟨FCGI_PARAMS, requestId, env.bytes, 0⟩, ⟨FCGI_PARAMS, requestId, [], 0⟩].map
        Record.encode).flatten := by
    simp only [List.map_cons, List.map_nil, List.flatten_cons, List.flatten_nil, List.append_nil,
      ← hencode, ← hencode', List.append_assoc]
  rw [htext] at hhead
  generalize t ++ ([⟨FCGI_PARAMS, requestId, env.bytes, 0⟩, ⟨FCGI_PARAMS, requestId, [], 0⟩].map
    Record.encode).flatten = front at hhead htext ⊢
  obtain ⟨h', hhead⟩ : ∃ h', Filling fs pre (appendMemory pre.length last
      (appendMemory pre.length env.bytes (appendMemory pre.length header wb))) front h' [] :=
    ⟨_, hhead⟩
  obtain ⟨hcontent, hrefs⟩ := hhead.addVirtualZero
  have hfirst := hhead.first_addVirtualZero
  have hwf := hhead.wf
  simp only [Buffer.WF, Buffer.size] at hwf
  have hused := congrArg List.length hhead.text
  rw [List.map_nil, List.flatten_nil, List.append_nil, Buffer.bytes, List.length_take,
    Nat.min_eq_left hwf] at hused
  unfold queueParams
  simp only [hheader, hlast, Option.bind_eq_bind, Option.bind_some]
  refine ⟨_, rfl, hcontent, hrefs.trans ?_, hhead.unused, ?_⟩
  · rw [hhead.first, hf.first, fileRefs_append, fileRefs_append, fileRefs_mem hf.type,
      fileRefs_mem hhead.type]
  · rw [hfirst, List.getElem?_append_right (Nat.le_refl _), Nat.sub_self]
    simp only [List.getElem?_cons_zero, Option.map_some, Option.getD_some, Nat.add_sub_cancel]
    rw [hused]
    rfl

theorem queueEnd_spec {wb : Chunkqueue} (hunused : wb.unused = []) (requestId : Nat) :
    ∃ wb', queueEnd requestId wb = some wb' ∧
      wb'.content fs = wb.content fs ++ (endRecord requestId).encode ∧
      fileRefs wb'.first = fileRefs wb.first ∧
      wb'.bytesIn = wb.bytesIn + (endRecord requestId).encode.length := by
  obtain ⟨header, hheader, hlen, hencode⟩ :=
    fcgiHeader_encode FCGI_STDIN requestId (s := []) (Nat.zero_le _)
  change fcgiHeader FCGI_STDIN requestId 0 0 = some header at hheader
  rw [List.append_nil] at hencode
  have hne : header ≠ [] := by
    rintro rfl
    cases hlen
  obtain ⟨hdr, hi, hfill, hkeep⟩ := @appendBytes_spec _ fs wb hunused header hne
  rcases happend : appendBytes wb header with ⟨i, wb₁⟩
  rw [happend] at hi hfill hkeep
  simp only at hi hfill hkeep
  subst hi
  obtain ⟨hcontent, hrefs⟩ := hfill.addVirtualZero
  have hend : (endRecord requestId).encode = header := hencode.symm
  unfold queueEnd
  simp only [hheader, happend, Option.bind_eq_bind, Option.bind_some]
  refine ⟨_, rfl, ?_, hrefs.trans ?_, ?_⟩
  · rw [hend]
    exact hcontent
  · rw [hfill.first, fileRefs_append, fileRefs_mem hfill.type]
    exact List.append_nil _
  · rw [hend, ← hkeep]
    rfl

omit [Malloc] in
theorem bytesIn_getUnusedChunk (wb : Chunkqueue) :
    (chunkqueueGetUnusedChunk wb).1.bytesIn = wb.bytesIn := by
  unfold chunkqueueGetUnusedChunk
  split <;> rfl

theorem bytesIn_appendFile (wb : Chunkqueue) (fn : Buffer) (offset len : Int) :
    (chunkqueueAppendFile wb fn offset len).bytesIn = wb.bytesIn := by
  unfold chunkqueueAppendFile
  split
  · rfl
  · exact bytesIn_getUnusedChunk wb

theorem bytesIn_appendBytes (wb : Chunkqueue) (s : Bytes) :
    (appendBytes wb s).2.bytesIn = wb.bytesIn := bytesIn_getUnusedChunk wb

theorem fcgiCreateEnv_failed (fuel mode : Nat) {vars : List FcgiEnvVar} (requestId : Nat)
    (con : BackendConnection) (wb : Chunkqueue) (henv : fcgiEnv vars = none) :
    ∃ wb', fcgiCreateEnv fuel mode vars requestId con wb =
        some (-1, { con with httpStatus := 400, fileFinished := true }, wb', []) ∧
      wb'.bytesIn = wb.bytesIn := by
  obtain ⟨header, hheader, -⟩ := fcgiHeader_begin mode requestId
  unfold fcgiEnv at henv
  unfold fcgiCreateEnv
  simp only [hheader, henv, Option.bind_eq_bind, Option.bind_some]
  exact ⟨_, rfl, bytesIn_appendBytes wb _⟩

variable (fs) in
/-- The request is on the write queue: all records, and nothing is left of the body. -/
structure Requested (kind : ChunkType) (mode requestId : Nat) (params body : Bytes)
    (wb : Chunkqueue) (stdin : List Record) (wb' reqCq' : Chunkqueue) (calls : List Syscall) :
    Prop where
  content : wb'.content fs = wb.content fs ++
    ((headRecords mode requestId params ++ stdin ++ [endRecord requestId]).map
      Record.encode).flatten
  records : ∀ r ∈ stdin, r.type = FCGI_STDIN ∧ r.requestId = requestId ∧ r.padding = 0 ∧
    r.content ≠ [] ∧ r.content.length ≤ FCGI_MAX_LENGTH
  body : (stdin.map Record.content).flatten = body
  bytesIn : wb'.bytesIn = wb.bytesIn +
    ((headRecords mode requestId params ++ stdin ++ [endRecord requestId]).map
      Record.encode).flatten.length
  queued : BodyQueued fs kind wb' reqCq' []
  harmless : kind = .file → ∀ name, Syscall.unlink name ∉ calls

theorem fcgiCreateEnv_spec {kind : ChunkType} (fuel mode : Nat) {vars : List FcgiEnvVar}
    (requestId : Nat) (con : BackendConnection) {wb : Chunkqueue} {body : Bytes} {env : Buffer}
    (henv : fcgiEnv vars = some env) (hunused : wb.unused = [])
    (hbody : BodyQueued fs kind wb con.requestContentQueue body)
    (hin : con.requestContentQueue.bytesIn = body.length)
    (hlength : body ≠ [] → con.request.contentLength ≠ 0) (hfuel : body.length + 1 < fuel) :
    ∃ (stdin : List Record) (wb' reqCq' : Chunkqueue) (calls : List Syscall),
      fcgiCreateEnv fuel mode vars requestId con wb =
          some (0, { con with requestContentQueue := reqCq' }, wb', calls) ∧
        Requested fs kind mode requestId env.bytes body wb stdin wb' reqCq' calls := by
  obtain ⟨henvlen, henvmax⟩ := fcgiEnv_spec henv
  unfold fcgiEnv at henv
  obtain ⟨header, hheader, hencode⟩ := fcgiHeader_begin mode requestId
  have hne : header ++ beginBody mode ≠ [] := fun hnil =>
    absurd (List.append_eq_nil_iff.mp hnil).2 (List.cons_ne_nil _ _)
  obtain ⟨hdr, hi, hfill, hkeep⟩ := @appendBytes_spec _ fs wb hunused _ hne
  rcases happend : appendBytes wb (header ++ beginBody mode) with ⟨i, wb₁⟩
  rw [happend] at hi hfill hkeep
  simp only at hi hfill hkeep
  subst hi
  obtain ⟨wb₂, hparams, hcontent₂, hrefs₂, hunused₂, hin₂⟩ :=
    queueParams_spec hfill requestId henvlen henvmax
  have hrefs : fileRefs wb₂.first = fileRefs wb.first := by
    rw [hrefs₂, hfill.first, fileRefs_append, fileRefs_mem hfill.type]
    exact List.append_nil _
  -- the body, if there is one
  obtain ⟨stdin, wb₃, reqCq', calls, hsend, hframed⟩ :
      ∃ (stdin : List Record) (wb₃ reqCq' : Chunkqueue) (calls : List Syscall),
        (if con.request.contentLength ≠ 0 then
          sendBody requestId fuel 0 wb₂ con.requestContentQueue
        else some (wb₂, con.requestContentQueue, [])) = some (wb₃, reqCq', calls) ∧
          Framed fs kind requestId wb₂ body stdin wb₃ reqCq' calls := by
    by_cases hzero : con.request.contentLength = 0
    · have hnil : body = [] := by
        by_cases hnil : body = []
        · exact hnil
        · exact absurd hzero (hlength hnil)
      subst hnil
      rw [if_neg (by simpa using hzero)]
      exact ⟨[], _, _, _, rfl, by simp, by simp, rfl, by simp, hunused₂, hbody.of_refs hrefs,
        fun _ name hmem => by cases hmem⟩
    · rw [if_pos hzero]
      exact sendBody_spec requestId fuel 0 hunused₂ (hbody.of_refs hrefs) (by omega) hfuel
  obtain ⟨wb₄, hend, hcontent₄, hrefs₄, hin₄⟩ := @queueEnd_spec _ fs wb₃ hframed.unused requestId
  have hhead : header ++ beginBody mode ++
      ([⟨FCGI_PARAMS, requestId, env.bytes, 0⟩, ⟨FCGI_PARAMS, requestId, [], 0⟩].map
        Record.encode).flatten =
      ((headRecords mode requestId env.bytes).map Record.encode).flatten := by
    rw [hencode]
    rfl
  rw [hhead] at hcontent₂ hin₂
  refine ⟨stdin, wb₄, reqCq', calls, ?_, ?_, hframed.records, hframed.body, ?_,
    hframed.queued.of_refs hrefs₄, hframed.harmless⟩
  · unfold fcgiCreateEnv
    simp only [hheader, happend, henv, hparams, hsend, hend, Option.bind_eq_bind,
      Option.bind_some]
  · rw [hcontent₄, hframed.content, hcontent₂, List.map_append, List.map_append,
      List.flatten_append, List.flatten_append, List.map_singleton, List.flatten_singleton]
    simp only [List.append_assoc]
    rfl
  · rw [hin₄, hframed.bytesIn, hin₂, hkeep, List.map_append, List.map_append,
      List.flatten_append, List.flatten_append, List.map_singleton, List.flatten_singleton,
      List.length_append, List.length_append]
    push_cast
    omega

/-! ## How much is queued

Whatever the chunks of the body are, the counter of the write queue is ahead of its old value by the
length that the body is said to have.
-/

theorem takeFromBody_bytesIn {i : Nat} {room n : Int} {wb reqCq wb' reqCq' : Chunkqueue}
    {calls : List Syscall} (h : takeFromBody i room wb reqCq = some (n, wb', reqCq', calls)) :
    wb'.bytesIn = wb.bytesIn + n ∧ reqCq'.bytesIn = reqCq.bytesIn := by
  unfold takeFromBody at h
  split at h
  · cases h
  · next c cs hfirst =>
    split at h
    · simp only at h
      split at h
      · cases h
      · split at h
        · split at h
          · cases h
          · split at h
            · cases h
            · cases h
              exact ⟨by rw [bytesIn_appendFile], rfl⟩
        · cases h
          exact ⟨by rw [bytesIn_appendFile], rfl⟩
    · simp only at h
      split at h
      · cases h
      · split at h
        · cases h
          exact ⟨rfl, rfl⟩
        · cases h
          exact ⟨rfl, rfl⟩
    · cases h
      exact ⟨(Int.add_zero _).symm, rfl⟩

theorem fillRecord_bytesIn {i : Nat} {weWant : Int} : ∀ (fuel : Nat) {written : Int}
    {wb reqCq wb' reqCq' : Chunkqueue} {calls : List Syscall},
    fillRecord i weWant fuel written wb reqCq = some (wb', reqCq', calls) →
      wb'.bytesIn = wb.bytesIn + (weWant - written) ∧ reqCq'.bytesIn = reqCq.bytesIn
  | 0, _, _, _, _, _, _, h => by cases h
  | fuel + 1, written, wb, reqCq, wb', reqCq', calls, h => by
    unfold fillRecord at h
    split at h
    · next hdone =>
      cases h
      exact ⟨by omega, rfl⟩
    · simp only [Option.bind_eq_bind, Option.bind_eq_some_iff, Option.some.injEq,
        Prod.mk.injEq] at h
      obtain ⟨⟨n, wb₁, reqCq₁, calls₁⟩, hturn, ⟨wb₂, reqCq₂, calls₂⟩, hrun, rfl, rfl, -⟩ := h
      obtain ⟨h1, h2⟩ := takeFromBody_bytesIn hturn
      obtain ⟨h3, h4⟩ := fillRecord_bytesIn fuel hrun
      simp only at h3 h4 ⊢
      exact ⟨by omega, by omega⟩

theorem sendBody_bytesIn {requestId : Nat} : ∀ (fuel : Nat) {offset : Int}
    {wb reqCq wb' reqCq' : Chunkqueue} {calls : List Syscall},
    sendBody requestId fuel offset wb reqCq = some (wb', reqCq', calls) →
      wb.bytesIn + (reqCq.bytesIn - offset) ≤ wb'.bytesIn
  | 0, _, _, _, _, _, _, h => by cases h
  | fuel + 1, offset, wb, reqCq, wb', reqCq', calls, h => by
    unfold sendBody at h
    split at h
    · next hdone =>
      cases h
      omega
    · simp only [Option.bind_eq_bind, Option.bind_eq_some_iff, Option.some.injEq,
        Prod.mk.injEq] at h
      obtain ⟨header, -, ⟨wb₁, reqCq₁, calls₁⟩, hfill, ⟨wb₂, reqCq₂, calls₂⟩, hrun, rfl, rfl, -⟩ := h
      obtain ⟨h1, h2⟩ := fillRecord_bytesIn fuel hfill
      have h3 := sendBody_bytesIn fuel hrun
      have h4 : (addVirtualZero (appendBytes wb header).1 wb₁).bytesIn = wb₁.bytesIn := rfl
      simp only [bytesIn_appendBytes] at h1 h2 h3 h4 ⊢
      omega

theorem fcgiCreateEnv_bytesIn {fuel mode requestId : Nat} {vars : List FcgiEnvVar}
    {con con' : BackendConnection} {wb wb' : Chunkqueue} {ret : Int} {calls : List Syscall}
    (h : fcgiCreateEnv fuel mode vars requestId con wb = some (ret, con', wb', calls))
    (hret : ret ≠ -1) (hin : 0 ≤ con.requestContentQueue.bytesIn) : wb.bytesIn < wb'.bytesIn := by
  simp only [fcgiCreateEnv, Option.bind_eq_bind, Option.bind_eq_some_iff] at h
  obtain ⟨header, -, h⟩ := h
  split at h
  · cases h
    exact absurd rfl hret
  · simp only [Option.bind_eq_some_iff, Option.some.injEq, Prod.mk.injEq] at h
    obtain ⟨wb₁, hparams, ⟨wb₂, reqCq₂, calls₂⟩, hsent, wb₃, hend, -, -, rfl, -⟩ := h
    have hparams' : wb.bytesIn ≤ wb₁.bytesIn := by
      simp only [queueParams, Option.bind_eq_bind, Option.bind_eq_some_iff, Option.some.injEq]
        at hparams
      obtain ⟨_, -, _, -, rfl⟩ := hparams
      have hkept : (appendBytes wb (header ++ beginBody mode)).2.bytesIn = wb.bytesIn :=
        bytesIn_appendBytes wb _
      simp only [addVirtualZero, appendMemory, Chunkqueue.modify, hkept]
      omega
    have hsent' : wb₁.bytesIn ≤ wb₂.bytesIn := by
      split at hsent
      · have := sendBody_bytesIn fuel hsent
        omega
      · cases hsent
        exact Int.le_refl _
    have hend' : wb₂.bytesIn < wb₃.bytesIn := by
      simp only [queueEnd, Option.bind_eq_bind, Option.bind_eq_some_iff, Option.some.injEq] at hend
      obtain ⟨fin, hfin, rfl⟩ := hend
      have hlen : fin.length = 8 := by
        simp only [fcgiHeader] at hfin
        split at hfin
        · obtain rfl := Option.some.inj hfin
          rfl
        · cases hfin
      have hkept : (appendBytes wb₂ fin).2.bytesIn = wb₂.bytesIn := bytesIn_appendBytes wb₂ _
      simp only [addVirtualZero, Chunkqueue.modify, hkept, hlen]
      omega
    omega

end Code

end Lighttpd
