import Lighttpd.Connections.HeaderEnd

/-!
# Receiving a body

In `CON_STATE_READ_POST` bytes go from `read_queue` to `request_content_queue`: a body of at most 64k
to one buffer, a larger one to temporary files. Whatever the chunks and the calls are, no byte is
lost, none comes twice and none is taken from what follows the body (`bodyReceived`).
-/

namespace Lighttpd

open CLib

/-! ## The last chunk -/

theorem first_mapLast {cq : Chunkqueue} {cs : List Chunk} {c : Chunk} (h : cq.first = cs ++ [c])
    (f : Chunk → Chunk) : (cq.mapLast f).first = cs ++ [f c] := by
  simp [Chunkqueue.mapLast, h]

theorem last_of_first {cq : Chunkqueue} {cs : List Chunk} {c : Chunk} (h : cq.first = cs ++ [c]) :
    cq.last = c := by
  simp [Chunkqueue.last, h]

/-! ## Temporary files -/

structure Tempfile (fs : Files) (c : Chunk) (s : Bytes) : Prop where
  type : c.type = .file
  isTemp : c.file.isTemp = true
  offset : c.offset = 0
  start : c.file.start = 0
  length : c.file.length = s.length
  content : fs.content c.file.name.str = some s

theorem Tempfile.of_content {fs fs' : Files} {c : Chunk} {s : Bytes} (h : Tempfile fs c s)
    (hc : fs'.content c.file.name.str = fs.content c.file.name.str) : Tempfile fs' c s :=
  ⟨h.type, h.isTemp, h.offset, h.start, h.length, hc.trans h.content⟩

theorem Tempfile.bytes {fs : Files} {c : Chunk} {s : Bytes} (h : Tempfile fs c s) :
    c.content fs = s := by
  simp [Chunk.content, h.type, h.content, h.offset, h.start, h.length]

theorem Tempfile.keep {fs fs' : Files} {c : Chunk} (h : ∃ s, Tempfile fs c s)
    (hc : fs'.content c.file.name.str = fs.content c.file.name.str) :
    (∃ s, Tempfile fs' c s) ∧ c.content fs' = c.content fs := by
  obtain ⟨s, hs⟩ := h
  have hs' := hs.of_content hc
  exact ⟨⟨s, hs'⟩, hs'.bytes.trans hs.bytes.symm⟩

/-- The body in temporary files. The last one is open until the body is complete. -/
structure InTempfiles (contentLength : Nat) (fs : Files) (cs : List Chunk) (body : Bytes) :
    Prop where
  files : ∀ c ∈ cs, ∃ s, Tempfile fs c s
  bytes : (cs.map (Chunk.content fs)).flatten = body
  apart : ∀ front c, cs = front ++ [c] → ∀ d ∈ front, d.file.name.str ≠ c.file.name.str
  opened : body.length < contentLength → ∀ front c, cs = front ++ [c] →
    ∃ fd, c.file.fd = some fd ∧ fs.nameOf fd = some c.file.name.str

structure Selected (dst : Chunkqueue) (fs : Files) (body : Bytes) (front : List Chunk) (c : Chunk)
    (s : Bytes) : Prop where
  first : dst.first = front ++ [c]
  files : ∀ d ∈ front, ∃ s, Tempfile fs d s
  bytes : (front.map (Chunk.content fs)).flatten ++ s = body
  last : Tempfile fs c s
  apart : ∀ d ∈ front, d.file.name.str ≠ c.file.name.str
  opened : ∃ fd, c.file.fd = some fd ∧ fs.nameOf fd = some c.file.name.str

structure SameCounters (dst dst' : Chunkqueue) : Prop where
  starts : ∀ c ∈ dst'.unused, c.file.start = 0
  tempdirs : dst'.tempdirs = dst.tempdirs
  bytesIn : dst'.bytesIn = dst.bytesIn

theorem closeLast_spec {dst : Chunkqueue} (fs : Files) {front : List Chunk} {c : Chunk}
    (h : dst.first = front ++ [c]) :
    (closeLast dst fs).1.first = front ++ [c.setFd none] ∧
      (∀ name, (closeLast dst fs).2.content name = fs.content name) := by
  refine ⟨first_mapLast h _, fun name => ?_⟩
  unfold closeLast
  cases dst.last.file.fd with
  | none => rfl
  | some fd => rfl

theorem Tempfile.setFd {fs : Files} {c : Chunk} {s : Bytes} (h : Tempfile fs c s)
    (fd : Option Nat) : Tempfile fs (c.setFd fd) s :=
  ⟨h.type, h.isTemp, h.offset, h.start, h.length, h.content⟩

section Body

variable [Malloc]

theorem chunkqueueGetAppendTempfile_first {cq : Chunkqueue}
    (hstart : ∀ c ∈ cq.unused, c.file.start = 0) (answers : Nat → MkstempAnswer) :
    ∃ e, (chunkqueueGetAppendTempfile cq answers).1.first = cq.first ++ [e] ∧
      e.type = .file ∧ e.offset = 0 ∧ e.file.start = 0 ∧ e.file.length = 0 ∧
      e.file.fd = (createTempfile cq.tempdirs answers).1 ∧
      ((createTempfile cq.tempdirs answers).1.isSome → e.file.isTemp = true) ∧
      (∀ c ∈ (chunkqueueGetAppendTempfile cq answers).1.unused, c.file.start = 0) ∧
      (chunkqueueGetAppendTempfile cq answers).1.tempdirs = cq.tempdirs ∧
      (chunkqueueGetAppendTempfile cq answers).1.bytesIn = cq.bytesIn := by
  unfold chunkqueueGetAppendTempfile chunkqueueGetUnusedChunk
  split
  next cq' c he =>
    split at he
    · obtain ⟨rfl, rfl⟩ := Prod.mk.inj he
      refine ⟨_, rfl, rfl, rfl, rfl, rfl, rfl, fun h => if_pos h, hstart, rfl, rfl⟩
    · next d ds hunused =>
      obtain ⟨rfl, rfl⟩ := Prod.mk.inj he
      refine ⟨_, rfl, rfl, rfl, hstart d (by simp [hunused]), rfl, rfl, fun h => if_pos h, ?_,
        rfl, rfl⟩
      intro x hx
      exact hstart x (by rw [hunused]; exact List.mem_cons_of_mem _ hx)

theorem newReadBuffer_body {cq : Chunkqueue} (hstart : ∀ c ∈ cq.unused, c.file.start = 0)
    (size : Nat) :
    (∀ c ∈ (newReadBuffer cq size).unused, c.file.start = 0) ∧
      (newReadBuffer cq size).tempdirs = cq.tempdirs ∧
      (newReadBuffer cq size).bytesIn = cq.bytesIn := by
  unfold newReadBuffer chunkqueueGetAppendBuffer chunkqueueGetUnusedChunk
  split
  next cq' c he =>
    split at he
    · obtain ⟨rfl, rfl⟩ := Prod.mk.inj he
      exact ⟨hstart, rfl, rfl⟩
    · next d ds hunused =>
      obtain ⟨rfl, rfl⟩ := Prod.mk.inj he
      refine ⟨fun x hx => hstart x ?_, rfl, rfl⟩
      rw [hunused]
      exact List.mem_cons_of_mem _ hx

theorem newTempfile_spec {answer : PostAnswer} {dst dst' : Chunkqueue} {fs fs' : Files}
    (hstart : ∀ c ∈ dst.unused, c.file.start = 0) (hfiles : ∀ c ∈ dst.first, ∃ s, Tempfile fs c s)
    (hcreate : (createTempfile dst.tempdirs answer.mkstemp).1.isSome = true)
    (h : newTempfile answer dst fs = some (dst', fs')) :
    SameCounters dst dst' ∧ ∃ front c s, Selected dst' fs' (dst.content fs) front c s := by
  obtain ⟨e, hfirst, htype, hoff, hst, hlen, hfd, htemp, hunused, hdirs, hin⟩ :=
    chunkqueueGetAppendTempfile_first hstart answer.mkstemp
  unfold newTempfile at h
  simp only [last_of_first hfirst] at h
  obtain ⟨fd, hsome⟩ := Option.isSome_iff_exists.mp hcreate
  rw [hfd, hsome] at h
  obtain ⟨fs₁, hcr, heq⟩ := Option.map_eq_some_iff.mp h
  obtain ⟨rfl, rfl⟩ := Prod.mk.inj heq
  obtain ⟨hnone, hopen, hempty, hother⟩ := Files.create_spec hcr
  have hapart : ∀ d ∈ dst.first, d.file.name.str ≠ e.file.name.str := by
    intro d hd he
    obtain ⟨s, hs⟩ := hfiles d hd
    have hcontent := hs.content
    rw [he, hnone] at hcontent
    cases hcontent
  have hkeep : ∀ d ∈ dst.first, (∃ s, Tempfile fs₁ d s) ∧ d.content fs₁ = d.content fs :=
    fun d hd => Tempfile.keep (hfiles d hd) (hother _ (hapart d hd))
  refine ⟨⟨hunused, hdirs, hin⟩, dst.first, e, [], hfirst, fun d hd => (hkeep d hd).1, ?_, ?_,
    hapart, fd, hfd.trans hsome, hopen⟩
  · rw [List.append_nil, List.map_congr_left fun d hd => (hkeep d hd).2]
    rfl
  · exact ⟨htype, htemp hcreate, hoff, hst, by simpa using hlen, hempty⟩

theorem selectTempfile_spec {contentLength : Nat} {answer : PostAnswer} {dst dst' : Chunkqueue}
    {fs fs' : Files} {body : Bytes} (hstart : ∀ c ∈ dst.unused, c.file.start = 0)
    (hin : InTempfiles contentLength fs dst.first body) (hlt : body.length < contentLength)
    (hcreate : (createTempfile dst.tempdirs answer.mkstemp).1.isSome = true)
    (h : selectTempfile answer dst fs = some (dst', fs')) :
    SameCounters dst dst' ∧ ∃ front c s, Selected dst' fs' body front c s := by
  unfold selectTempfile at h
  split at h
  · next hnone =>
    have hnew := newTempfile_spec hstart hin.files hcreate h
    rwa [Chunkqueue.content, hin.bytes] at hnew
  · next c hc =>
    obtain ⟨front, hfirst⟩ := List.getLast?_eq_some_iff.mp hc
    obtain ⟨s, hs⟩ := hin.files c (by simp [hfirst])
    obtain ⟨fd, hfd, hopen⟩ := hin.opened hlt front c hfirst
    rw [if_pos ⟨hs.type, hs.isTemp, hs.offset⟩] at h
    split at h
    · -- the last file is small enough
      rw [if_neg (by simp [hfd])] at h
      obtain ⟨rfl, rfl⟩ := Prod.mk.inj (Option.some.inj h)
      refine ⟨⟨hstart, rfl, rfl⟩, front, c, s, hfirst, fun d hd => hin.files d (by simp [hfirst, hd]),
        ?_, hs, hin.apart front c hfirst, fd, hfd, hopen⟩
      rw [← hin.bytes, hfirst, List.map_append, List.flatten_append, List.map_singleton,
        List.flatten_singleton, hs.bytes]
    · -- it is closed, and a new one follows
      obtain ⟨hclosed, hcontent⟩ := closeLast_spec fs hfirst
      have hfiles : ∀ d ∈ (closeLast dst fs).1.first, ∃ s, Tempfile (closeLast dst fs).2 d s := by
        intro d hd
        rw [hclosed, List.mem_append, List.mem_singleton] at hd
        rcases hd with hd | rfl
        · exact (Tempfile.keep (hin.files d (by simp [hfirst, hd])) (hcontent _)).1
        · exact ⟨s, (hs.setFd none).of_content (hcontent _)⟩
      have hbytes : (closeLast dst fs).1.content (closeLast dst fs).2 = body := by
        have hfront : front.map (Chunk.content (closeLast dst fs).2) =
            front.map (Chunk.content fs) := List.map_congr_left fun d hd =>
          (Tempfile.keep (hin.files d (by simp [hfirst, hd])) (hcontent _)).2
        rw [Chunkqueue.content, hclosed, ← hin.bytes, hfirst]
        simp only [List.map_append, List.map_singleton, hfront]
        rw [((hs.setFd none).of_content (hcontent _)).bytes, hs.bytes]
      obtain ⟨hsame, hsel⟩ :=
        @newTempfile_spec _ _ (closeLast dst fs).1 _ _ _ hstart hfiles hcreate h
      rw [hbytes] at hsel
      exact ⟨⟨hsame.starts, hsame.tempdirs, hsame.bytesIn⟩, hsel⟩

/-! ## Storing a part of the body -/

/-- The system does what it is asked to for one chunk: a temporary file can be created, and all is
written. -/
structure PostAnswer.Succeeds (tempdirs : Option (List Buffer)) (answer : PostAnswer) : Prop where
  create : (createTempfile tempdirs answer.mkstemp).1.isSome = true
  write : ∀ n, answer.write n = some n

def InMemory (cs : List Chunk) (body : Bytes) : Prop :=
  (cs = [] ∧ body = []) ∨ ∃ c, cs = [c] ∧ c.type = .mem ∧ c.offset = 0 ∧ c.mem.Grown body

/-- `request_content_queue` holds what was received of the body. -/
structure Holding (contentLength : Nat) (dst : Chunkqueue) (fs : Files) (body : Bytes) : Prop where
  bytesIn : dst.bytesIn = body.length
  starts : ∀ c ∈ dst.unused, c.file.start = 0
  large : contentLength > 64 * 1024 → InTempfiles contentLength fs dst.first body
  small : ¬ contentLength > 64 * 1024 → InMemory dst.first body

omit [Malloc] in
theorem Buffer.Grown.unread {c : Chunk} {s : Bytes} (h : c.mem.Grown s) (hoff : c.offset = 0) :
    c.unread = s := by
  rw [Chunk.unread_eq, hoff, Int.toNat_zero, List.drop_zero]
  rcases h with ⟨hu, rfl⟩ | h
  · rw [hu, Nat.zero_sub, List.take_zero]
  · exact take_of_holds h.holds h.used

omit [Malloc] in
theorem Holding.content {contentLength : Nat} {dst : Chunkqueue} {fs : Files} {body : Bytes}
    (h : Holding contentLength dst fs body) : dst.content fs = body := by
  by_cases hlarge : contentLength > 64 * 1024
  · exact (h.large hlarge).bytes
  · rcases h.small hlarge with ⟨hnil, rfl⟩ | ⟨c, hc, htype, hoff, hgrown⟩
    · simp [Chunkqueue.content, hnil]
    · simp [Chunkqueue.content, hc, Chunk.content, htype, hgrown.unread hoff]

omit [Malloc] in
theorem Selected.append {dst : Chunkqueue} {fs : Files} {body s : Bytes} {front : List Chunk}
    {c : Chunk} (h : Selected dst fs body front c s) (t : Bytes) {fd : Nat}
    (hfd : c.file.fd = some fd) :
    Selected (dst.mapLast fun c => { c with file := { c.file with
        length := c.file.length + t.length } }) (fs.append fd t) (body ++ t) front
      { c with file := { c.file with length := c.file.length + t.length } } (s ++ t) := by
  obtain ⟨fd', hfd', hopen⟩ := h.opened
  obtain rfl : fd = fd' := Option.some.inj (hfd.symm.trans hfd')
  have hkeep : ∀ d ∈ front, (∃ s, Tempfile (fs.append fd t) d s) ∧
      d.content (fs.append fd t) = d.content fs := by
    intro d hd
    refine Tempfile.keep (h.files d hd) ?_
    rw [Files.content_append, if_neg]
    rw [hopen]
    exact fun he => h.apart d hd (Option.some.inj he).symm
  have hlast := h.last
  refine ⟨first_mapLast h.first _, fun d hd => (hkeep d hd).1, ?_, ?_, h.apart, fd, hfd, hopen⟩
  · rw [List.map_congr_left fun d hd => (hkeep d hd).2, ← List.append_assoc, h.bytes]
  · refine ⟨hlast.type, hlast.isTemp, hlast.offset, hlast.start, ?_, ?_⟩
    · simp [hlast.length]
    · rw [Files.content_append, if_pos hopen, hlast.content]
      rfl

omit [Malloc] in
theorem Selected.inTempfiles {contentLength : Nat} {dst : Chunkqueue} {fs : Files} {body s : Bytes}
    {front : List Chunk} {c : Chunk} (h : Selected dst fs body front c s) :
    InTempfiles contentLength fs dst.first body := by
  have hlast : ∀ front' c', dst.first = front' ++ [c'] → front' = front ∧ c' = c := by
    intro front' c' he
    obtain ⟨h1, h2⟩ := List.append_inj' (he.symm.trans h.first) rfl
    exact ⟨h1, List.singleton_inj.mp h2⟩
  refine ⟨?_, ?_, ?_, ?_⟩
  · intro d hd
    rw [h.first, List.mem_append, List.mem_singleton] at hd
    rcases hd with hd | rfl
    · exact h.files d hd
    · exact ⟨s, h.last⟩
  · rw [h.first, List.map_append, List.flatten_append, List.map_singleton,
      List.flatten_singleton, h.last.bytes, h.bytes]
  · intro front' c' he
    obtain ⟨rfl, rfl⟩ := hlast front' c' he
    exact h.apart
  · intro _ front' c' he
    obtain ⟨rfl, rfl⟩ := hlast front' c' he
    exact h.opened

omit [Malloc] in
theorem Selected.close {contentLength : Nat} {dst : Chunkqueue} {fs : Files} {body s : Bytes}
    {front : List Chunk} {c : Chunk} (h : Selected dst fs body front c s)
    (hfull : body.length = contentLength) :
    InTempfiles contentLength (closeLast dst fs).2 (closeLast dst fs).1.first body := by
  obtain ⟨hclosed, hcontent⟩ := closeLast_spec fs h.first
  have hkeep : ∀ d ∈ front, (∃ s, Tempfile (closeLast dst fs).2 d s) ∧
      d.content (closeLast dst fs).2 = d.content fs :=
    fun d hd => Tempfile.keep (h.files d hd) (hcontent _)
  have hlast := (h.last.setFd none).of_content (hcontent _)
  refine ⟨?_, ?_, ?_, fun hlt => absurd hfull (by omega)⟩
  · intro d hd
    rw [hclosed, List.mem_append, List.mem_singleton] at hd
    rcases hd with hd | rfl
    · exact (hkeep d hd).1
    · exact ⟨s, hlast⟩
  · rw [hclosed, List.map_append, List.flatten_append, List.map_singleton,
      List.flatten_singleton, hlast.bytes, List.map_congr_left fun d hd => (hkeep d hd).2, h.bytes]
  · intro front' c' he
    obtain ⟨h1, h2⟩ := List.append_inj' (he.symm.trans hclosed) rfl
    obtain rfl := List.singleton_inj.mp h2
    rw [h1]
    exact h.apart

/-- What storing `t` behind `body` gives. -/
structure StoredBehind (contentLength : Nat) (dst : Chunkqueue) (body t : Bytes) (st : Stored) :
    Prop where
  ok : st.ok = true
  tempdirs : st.dst.tempdirs = dst.tempdirs
  holding : Holding contentLength { st.dst with bytesIn := st.dst.bytesIn + t.length } st.fs
    (body ++ t)

theorem storeInTempfile_spec {contentLength : Nat} {answer : PostAnswer} {dst : Chunkqueue}
    {fs : Files} {body t : Bytes} {st : Stored} (hlarge : contentLength > 64 * 1024)
    (hold : Holding contentLength dst fs body) (hlt : body.length < contentLength)
    (hok : answer.Succeeds dst.tempdirs)
    (h : storeInTempfile contentLength answer dst fs t = some st) :
    StoredBehind contentLength dst body t st := by
  have hno : ¬ ¬ contentLength > 64 * 1024 := not_not.mpr hlarge
  have htotal : ∀ n : Int, n = body.length → n + t.length = (body ++ t).length := by
    intro n hn
    rw [hn, List.length_append]
    omega
  unfold storeInTempfile at h
  split at h
  · cases h
  · next dst₁ fs₁ hsel =>
    obtain ⟨hsame, front, c, s, hs⟩ := selectTempfile_spec hold.starts (hold.large hlarge) hlt
      hok.create hsel
    obtain ⟨fd, hfd, -⟩ := hs.opened
    have hin : dst₁.bytesIn = body.length := hsame.bytesIn.trans hold.bytesIn
    have happend := hs.append t hfd
    rw [last_of_first hs.first, hfd] at h
    simp only [hok.write, Option.getD_some, List.take_length, ne_eq, not_true_eq_false,
      if_false] at h
    split at h
    · next hfull =>
      obtain rfl := Option.some.inj h
      have hfull : (body ++ t).length = contentLength := by
        have htot := htotal _ hin
        have hfull : dst₁.bytesIn + t.length = contentLength := hfull
        omega
      exact ⟨rfl, hsame.tempdirs, htotal _ hin, hsame.starts, fun _ => happend.close hfull,
        fun hsmall => absurd hsmall hno⟩
    · obtain rfl := Option.some.inj h
      exact ⟨rfl, hsame.tempdirs, htotal _ hin, hsame.starts, fun _ => happend.inTempfiles,
        fun hsmall => absurd hsmall hno⟩

theorem storeInMemory_spec {contentLength : Nat} {dst : Chunkqueue} {fs : Files} {body : Bytes}
    (t : Bytes) (hsmall : ¬ contentLength > 64 * 1024) (hold : Holding contentLength dst fs body) :
    StoredBehind contentLength dst body t ⟨storeInMemory contentLength dst t, fs, true⟩ := by
  have htotal : ∀ n : Int, n = body.length → n + t.length = (body ++ t).length := by
    intro n hn
    rw [hn, List.length_append]
    omega
  unfold storeInMemory
  rcases hold.small hsmall with ⟨hnil, rfl⟩ | ⟨c, hc, htype, hoff, hgrown⟩
  · -- the first bytes go to a new buffer
    obtain ⟨e, he, hused, htype, hoff⟩ :=
      newReadBuffer_first dst (contentLength - dst.bytesIn + 1).toNat
    obtain ⟨hstarts, hdirs, hin⟩ :=
      newReadBuffer_body hold.starts (contentLength - dst.bytesIn + 1).toNat
    rw [hnil, List.nil_append] at he
    simp only [hnil, List.getLast?_nil]
    have hfirst := first_mapLastMem (List.nil_append [e] ▸ he) (bufferAppendStringLen · (some t))
    have hgrown : e.mem.Grown [] := Or.inl ⟨hused, rfl⟩
    exact ⟨rfl, hdirs, htotal _ (hin.trans hold.bytesIn), hstarts,
      fun hlarge => absurd hlarge hsmall,
      fun _ => Or.inr ⟨_, hfirst, htype, hoff, grown_append hgrown t⟩⟩
  · simp only [hc, List.getLast?_singleton, htype, if_true]
    have hfirst := first_mapLastMem (List.nil_append [c] ▸ hc) (bufferAppendStringLen · (some t))
    exact ⟨rfl, rfl, htotal _ hold.bytesIn, hold.starts, fun hlarge => absurd hlarge hsmall,
      fun _ => Or.inr ⟨_, hfirst, htype, hoff, grown_append hgrown t⟩⟩

theorem storeBody_spec {contentLength : Nat} {answer : PostAnswer} {dst : Chunkqueue} {fs : Files}
    {body t : Bytes} {st : Stored} (hold : Holding contentLength dst fs body)
    (hlt : body.length < contentLength) (hok : answer.Succeeds dst.tempdirs)
    (h : storeBody contentLength answer dst fs t = some st) :
    StoredBehind contentLength dst body t st := by
  unfold storeBody at h
  split at h
  · next hlarge => exact storeInTempfile_spec hlarge hold hlt hok h
  · next hsmall =>
    obtain rfl := Option.some.inj h
    exact storeInMemory_spec t hsmall hold

/-! ## The loop over the chunks -/

theorem postLoop_cons {contentLength : Nat} {answers : Nat → PostAnswer} {i : Nat} {c : Chunk}
    {cs : List Chunk} {dst : Chunkqueue} {fs : Files} {n : Nat} {t : Bytes} (hc : c.Readable)
    (hin : dst.bytesIn = n) (hlt : n < contentLength)
    (ht : t = c.unread.take (contentLength - n)) :
    postLoop contentLength answers i (c :: cs) dst fs =
      match storeBody contentLength (answers i) dst fs t with
      | none => none
      | some ⟨dst, fs, false⟩ => some (c :: cs, ⟨dst, fs, false⟩)
      | some ⟨dst, fs, true⟩ =>
        match postLoop contentLength answers (i + 1) cs
          { dst with bytesIn := dst.bytesIn + t.length } fs with
        | none => none
        | some (cs, stored) => some ({ c with offset := c.offset + t.length } :: cs, stored) := by
  have hlen := hc.length
  have htlen : t.length = min (contentLength - n) c.unread.length := by
    rw [ht, List.length_take]
  have hn : toRead contentLength dst c = (t.length : Nat) := by
    unfold toRead
    dsimp only
    split <;> omega
  have htake : (c.mem.ptr.drop c.offset.toNat).take t.length = t := by
    have h1 : c.unread.take t.length = t := by
      rw [htlen, ← List.take_take, List.take_of_length_le (Nat.le_refl c.unread.length), ← ht]
    have h2 : c.unread.length ≤ c.mem.used - c.offset.toNat - 1 := List.length_take_le _ _
    rwa [Chunk.unread, List.take_take, Nat.min_eq_left (by omega)] at h1
  conv_lhs => unfold postLoop
  rw [if_neg (by omega), if_neg hc.used_ne_zero, hn]
  simp only [Int.toNat_natCast, htake] <;> rfl

/-- What the loop leaves of the chunks `cs`, when `body` was there before. -/
structure Moved (contentLength : Nat) (cs : List Chunk) (body : Bytes) (cs' : List Chunk)
    (dst' : Chunkqueue) (fs' : Files) (body' : Bytes) : Prop where
  holding : Holding contentLength dst' fs' body'
  le : body'.length ≤ contentLength
  grows : body <+: body'
  readable : ∀ c ∈ cs', c.Readable
  bytes : body' ++ (cs'.map Chunk.unread).flatten = body ++ (cs.map Chunk.unread).flatten
  rest : body'.length < contentLength → (cs'.map Chunk.unread).flatten = []

theorem postLoop_spec {contentLength : Nat} {answers : Nat → PostAnswer} : ∀ (cs : List Chunk)
    {i : Nat} {dst : Chunkqueue} {fs : Files} {body : Bytes} {cs' : List Chunk} {st : Stored},
    (∀ c ∈ cs, c.Readable) → Holding contentLength dst fs body → body.length ≤ contentLength →
      (∀ i, (answers i).Succeeds dst.tempdirs) →
      postLoop contentLength answers i cs dst fs = some (cs', st) →
      st.ok = true ∧ st.dst.tempdirs = dst.tempdirs ∧
        ∃ body', Moved contentLength cs body cs' st.dst st.fs body'
  | [], i, dst, fs, body, cs', st, _, hold, hle, _, h => by
    obtain ⟨rfl, rfl⟩ := Prod.mk.inj (Option.some.inj h)
    exact ⟨rfl, rfl, body, hold, hle, List.prefix_rfl, by simp, rfl, fun _ => rfl⟩
  | c :: cs, i, dst, fs, body, cs', st, hcs, hold, hle, hok, h => by
    have hc := hcs c (by simp)
    have hin := hold.bytesIn
    by_cases hfull : body.length = contentLength
    · unfold postLoop at h
      rw [if_pos (by omega)] at h
      obtain ⟨rfl, rfl⟩ := Prod.mk.inj (Option.some.inj h)
      exact ⟨rfl, rfl, body, hold, hle, List.prefix_rfl, hcs, rfl, fun hlt => by omega⟩
    · have hlt : body.length < contentLength := by omega
      rw [postLoop_cons hc hin hlt rfl] at h
      generalize ht : c.unread.take (contentLength - body.length) = t at h
      have htlen : t.length = min (contentLength - body.length) c.unread.length := by
        rw [← ht, List.length_take]
      obtain ⟨hadv, hrest⟩ := hc.advance (n := t.length) (by omega)
      split at h
      · cases h
      · next dst₁ fs₁ hstore =>
        have hst := (storeBody_spec hold hlt (hok i) hstore).ok
        cases hst
      · next dst₁ fs₁ hstore =>
        obtain ⟨-, hdirs, hhold⟩ := storeBody_spec hold hlt (hok i) hstore
        split at h
        · cases h
        · next cs₁ st₁ hloop =>
          obtain ⟨rfl, rfl⟩ := Prod.mk.inj (Option.some.inj h)
          have hlen : (body ++ t).length ≤ contentLength := by
            rw [List.length_append]
            omega
          have hok' : ∀ i, (answers i).Succeeds dst₁.tempdirs := fun i => hdirs ▸ hok i
          obtain ⟨hok₁, hdirs₁, body', hmoved⟩ := postLoop_spec cs
            (fun d hd => hcs d (List.mem_cons_of_mem _ hd)) hhold hlen hok' hloop
          have hgrows := hmoved.grows.length_le
          rw [List.length_append] at hgrows
          refine ⟨hok₁, hdirs₁.trans hdirs, body', hmoved.holding, hmoved.le,
            (List.prefix_append _ _).trans hmoved.grows, ?_, ?_, ?_⟩
          · intro d hd
            rcases List.mem_cons.mp hd with rfl | hd
            · exact hadv
            · exact hmoved.readable d hd
          · rw [List.map_cons, List.flatten_cons, hrest, List.map_cons, List.flatten_cons]
            have hbytes := hmoved.bytes
            have hsplit : t ++ c.unread.drop t.length = c.unread := by
              have htake : c.unread.take t.length = t :=
                (List.prefix_iff_eq_take.mp (ht ▸ List.take_prefix _ _)).symm
              calc t ++ c.unread.drop t.length
                  = c.unread.take t.length ++ c.unread.drop t.length := by rw [htake]
                _ = c.unread := List.take_append_drop _ _
            by_cases hall : t.length = c.unread.length
            · rw [List.drop_eq_nil_of_le (by omega), List.append_nil] at hsplit
              rw [List.drop_eq_nil_of_le (by omega), List.nil_append, hbytes, ← hsplit,
                List.append_assoc]
            · -- the body is complete, so the loop does not go on
              have hle' := hmoved.le
              have he : body ++ t = body' := hmoved.grows.eq_of_length (by
                rw [List.length_append]
                omega)
              rw [← he] at hbytes ⊢
              rw [List.append_cancel_left hbytes, List.append_assoc, ← List.append_assoc t, hsplit]
          · intro hlt'
            rw [List.map_cons, List.flatten_cons, hrest, hmoved.rest hlt', List.append_nil]
            exact List.drop_eq_nil_of_le (by omega)

/-- `mkstemp` gave a name or a descriptor that was in use. -/
def MkstempBroken (answer : PostAnswer) : Prop := ∃ dst fs, newTempfile answer dst fs = none

theorem storeBody_none {contentLength : Nat} {answer : PostAnswer} {dst : Chunkqueue} {fs : Files}
    {body t : Bytes} (hold : Holding contentLength dst fs body) (hlt : body.length < contentLength)
    (h : storeBody contentLength answer dst fs t = none) : MkstempBroken answer := by
  unfold storeBody at h
  split at h
  · next hlarge =>
    have hsel : selectTempfile answer dst fs = none := by
      unfold storeInTempfile at h
      split at h
      · next hsel => exact hsel
      · dsimp only at h
        split at h
        · cases h
        · split at h
          · cases h
          · split at h <;> cases h
    have hin := hold.large hlarge
    unfold selectTempfile at hsel
    split at hsel
    · exact ⟨dst, fs, hsel⟩
    · next c hc =>
      obtain ⟨front, hfirst⟩ := List.getLast?_eq_some_iff.mp hc
      obtain ⟨s, hs⟩ := hin.files c (by simp [hfirst])
      obtain ⟨fd, hfd, -⟩ := hin.opened hlt front c hfirst
      rw [if_pos ⟨hs.type, hs.isTemp, hs.offset⟩] at hsel
      split at hsel
      · rw [if_neg (by simp [hfd])] at hsel
        cases hsel
      · exact ⟨_, _, hsel⟩
  · cases h

/-- The assertion on the chunks holds: a call that receives a body has no value only where `mkstemp`
did not keep its promise. -/
theorem postLoop_none {contentLength : Nat} {answers : Nat → PostAnswer} : ∀ (cs : List Chunk)
    {i : Nat} {dst : Chunkqueue} {fs : Files} {body : Bytes}, (∀ c ∈ cs, c.Readable) →
      Holding contentLength dst fs body → body.length ≤ contentLength →
      (∀ i, (answers i).Succeeds dst.tempdirs) →
      postLoop contentLength answers i cs dst fs = none → ∃ j, MkstempBroken (answers j)
  | [], _, _, _, _, _, _, _, _, h => by cases h
  | c :: cs, i, dst, fs, body, hcs, hold, hle, hok, h => by
    have hc := hcs c (by simp)
    have hin := hold.bytesIn
    by_cases hfull : body.length = contentLength
    · unfold postLoop at h
      rw [if_pos (by omega)] at h
      cases h
    · have hlt : body.length < contentLength := by omega
      rw [postLoop_cons hc hin hlt rfl] at h
      split at h
      · next hstore => exact ⟨i, storeBody_none hold hlt hstore⟩
      · cases h
      · next dst₁ fs₁ hstore =>
        obtain ⟨-, hdirs, hhold⟩ := storeBody_spec hold hlt (hok i) hstore
        split at h
        · next hloop =>
          refine postLoop_none cs (fun d hd => hcs d (List.mem_cons_of_mem _ hd)) hhold ?_
            (fun i => hdirs ▸ hok i) hloop
          rw [List.length_append, List.length_take]
          omega
        · cases h

/-! ## A call -/

omit [Malloc] in
theorem leaveRead_spec (isClosed : Bool) (ostate : ConnectionState) {con : ReadingConnection}
    (h : con.readQueue.Readable) :
    (leaveRead isClosed ostate con).readQueue.Readable ∧
      (leaveRead isClosed ostate con).readQueue.unread = con.readQueue.unread ∧
      (leaveRead isClosed ostate con).requestContentQueue = con.requestContentQueue ∧
      (leaveRead isClosed ostate con).request = con.request ∧
      ((leaveRead isClosed ostate con).state = con.state ∨
        (leaveRead isClosed ostate con).state = .error ∧ ostate = con.state) := by
  obtain ⟨hread, hunread⟩ := chunkqueueRemoveFinishedChunks_spec h
  unfold leaveRead
  split
  · next hclosed => exact ⟨hread, hunread, rfl, rfl, Or.inr ⟨rfl, hclosed.2⟩⟩
  · exact ⟨hread, hunread, rfl, rfl, Or.inl rfl⟩

theorem readPost_spec {con con' : ReadingConnection} {fs fs' : Files} {body : Bytes}
    {answers : Nat → PostAnswer} (hq : con.readQueue.Readable)
    (hold : Holding con.request.contentLength con.requestContentQueue fs body)
    (hle : body.length ≤ con.request.contentLength)
    (hpost : ∀ i, (answers i).Succeeds con.requestContentQueue.tempdirs)
    (h : readPost con fs answers = some (con', fs')) :
    con'.request = con.request ∧ ∃ body',
      Moved con.request.contentLength con.readQueue.first body con'.readQueue.first
        con'.requestContentQueue fs' body' ∧
      con'.state = if body'.length = con.request.contentLength then .handleRequest
        else con.state := by
  unfold readPost at h
  split at h
  · cases h
  · next first st hloop =>
    obtain ⟨hstok, -, body', hmoved⟩ := postLoop_spec _ hq hold hle hpost hloop
    have hin := hmoved.holding.bytesIn
    simp only [hstok, if_true] at h
    split at h
    · next hfull =>
      obtain ⟨rfl, rfl⟩ := Prod.mk.inj (Option.some.inj h)
      exact ⟨rfl, body', hmoved, (if_pos (by omega)).symm⟩
    · next hpart =>
      obtain ⟨rfl, rfl⟩ := Prod.mk.inj (Option.some.inj h)
      exact ⟨rfl, body', hmoved, (if_neg (by omega)).symm⟩

/-- `body` is what was received of a body, and the stream goes on with the unread bytes. -/
structure ReceivesBody (con : ReadingConnection) (fs : Files) (stream body : Bytes) : Prop where
  holding : Holding con.request.contentLength con.requestContentQueue fs body
  le : body.length ≤ con.request.contentLength
  readable : con.state = .readPost → con.readQueue.Readable
  bytes : body ++ con.readQueue.unread = stream
  complete : con.state = .handleRequest ↔ body.length = con.request.contentLength

theorem handleReadState_readPost {con con' : ReadingConnection} {fs fs' : Files}
    {stream body : Bytes} (h : ReceivesBody con fs stream body) (hstate : con.state = .readPost)
    {answer : ReadAnswer} {answers : Nat → PostAnswer} (hok : ¬ ReadFails con answer)
    (hpost : ∀ i, (answers i).Succeeds con.requestContentQueue.tempdirs)
    (hcall : connectionHandleReadState con fs answer answers = some (con', fs')) :
    con'.request = con.request ∧
      ∃ body', ReceivesBody con' fs' (stream ++ received con answer) body' ∧
        (con'.state ≠ .handleRequest → con'.readQueue.unread = []) := by
  obtain ⟨hne, hrec⟩ := receive_spec (h.readable hstate) hok
  have hrequest : (receive con answer).2.request = con.request :=
    congrArg Connection.request hrec.connection
  unfold connectionHandleReadState at hcall
  dsimp only at hcall
  rw [if_neg hne, hstate] at hcall
  obtain ⟨⟨con₂, fs₂⟩, hpostcall, heq⟩ := Option.map_eq_some_iff.mp hcall
  obtain ⟨rfl, rfl⟩ := Prod.mk.inj heq
  obtain ⟨hsame, body', hmoved, hcon₂⟩ := readPost_spec hrec.readable
    (by rw [hrequest, hrec.contentQueue]; exact h.holding) (by rw [hrequest]; exact h.le)
    (by rw [hrec.contentQueue]; exact hpost) hpostcall
  rw [hrequest] at hmoved hsame hcon₂
  have hread₂ : con₂.readQueue.Readable := hmoved.readable
  obtain ⟨hread, hunread, hqueue, hreq, hleft⟩ :=
    leaveRead_spec ((receive con answer).1 == -2) .readPost hread₂
  have hcomplete : (leaveRead ((receive con answer).1 == -2) .readPost con₂).state =
      .handleRequest ↔ body'.length = con.request.contentLength := by
    rw [hrec.state, hstate] at hcon₂
    by_cases hfull : body'.length = con.request.contentLength
    · rw [if_pos hfull] at hcon₂
      rcases hleft with hleft | ⟨-, hleft⟩
      · simp [hleft, hcon₂, hfull]
      · rw [hcon₂] at hleft
        cases hleft
    · rw [if_neg hfull] at hcon₂
      rcases hleft with hleft | ⟨hleft, -⟩ <;> simp [hleft, hcon₂, hfull]
  have hle := hmoved.le
  refine ⟨hreq.trans hsame, body', ⟨?_, ?_, fun _ => hread, ?_, ?_⟩, ?_⟩
  · rw [hreq, hqueue, hsame]
    exact hmoved.holding
  · rw [hreq, hsame]
    exact hle
  · rw [hunread, Chunkqueue.unread, hmoved.bytes, ← h.bytes, List.append_assoc, ← hrec.unread]
    rfl
  · rw [hreq, hsame]
    exact hcomplete
  · intro hnot
    rw [hunread, Chunkqueue.unread]
    exact hmoved.rest (Nat.lt_of_le_of_ne hle fun hfull => hnot (hcomplete.mpr hfull))

theorem handleReadState_none {con : ReadingConnection} {fs : Files} {stream body : Bytes}
    (h : ReceivesBody con fs stream body) (hstate : con.state = .readPost) {answer : ReadAnswer}
    {answers : Nat → PostAnswer}
    (hpost : ∀ i, (answers i).Succeeds con.requestContentQueue.tempdirs)
    (hcall : connectionHandleReadState con fs answer answers = none) :
    ∃ i, MkstempBroken (answers i) := by
  by_cases hok : ReadFails con answer
  · rw [handleReadState_fails hok] at hcall
    cases hcall
  · obtain ⟨hne, hrec⟩ := receive_spec (h.readable hstate) hok
    have hrequest : (receive con answer).2.request = con.request :=
      congrArg Connection.request hrec.connection
    unfold connectionHandleReadState at hcall
    dsimp only at hcall
    rw [if_neg hne, hstate, Option.map_eq_none_iff] at hcall
    unfold readPost at hcall
    rw [hrequest, hrec.contentQueue] at hcall
    split at hcall
    · next hloop => exact postLoop_none _ hrec.readable h.holding h.le hpost hloop
    · cases hcall

/-! ## Runs -/

/-- The connection enters `CON_STATE_READ_POST`; nothing is in the body's queue. Its unused chunks
have no start: neither of the functions that append to it sets one. -/
structure BodyStart (con : ReadingConnection) : Prop where
  state : con.state = .readPost
  contentLength : 0 < con.request.contentLength
  readable : con.readQueue.Readable
  first : con.requestContentQueue.first = []
  bytesIn : con.requestContentQueue.bytesIn = 0
  starts : ∀ c ∈ con.requestContentQueue.unused, c.file.start = 0

/-- The calls for the body of a request: the bytes that came behind the header so far, the
connection and the files. Between two calls the socket may become readable. -/
inductive BodyRun (con₀ : ReadingConnection) (fs₀ : Files) :
    Bytes → ReadingConnection → Files → Prop
  | start : BodyRun con₀ fs₀ con₀.readQueue.unread con₀ fs₀
  | event {stream : Bytes} {con : ReadingConnection} {fs : Files} (isReadable : Bool) :
      BodyRun con₀ fs₀ stream con fs →
        BodyRun con₀ fs₀ stream { con with isReadable := isReadable } fs
  | call {stream : Bytes} {con con' : ReadingConnection} {fs fs' : Files} {answer : ReadAnswer}
      {answers : Nat → PostAnswer} :
      BodyRun con₀ fs₀ stream con fs → con.state = .readPost →
        (∀ i, (answers i).Succeeds con.requestContentQueue.tempdirs) →
        connectionHandleReadState con fs answer answers = some (con', fs') →
          BodyRun con₀ fs₀ (stream ++ received con answer) con' fs'

omit [Malloc] in
theorem BodyStart.receivesBody {con : ReadingConnection} (h : BodyStart con) (fs : Files) :
    ReceivesBody con fs con.readQueue.unread [] := by
  have hpos := h.contentLength
  have hstate := h.state
  refine ⟨⟨h.bytesIn, h.starts, fun _ => ?_, fun _ => Or.inl ⟨h.first, rfl⟩⟩, Nat.zero_le _,
    fun _ => h.readable, rfl, ?_⟩
  · rw [h.first]
    exact ⟨by simp, rfl, by simp, by simp⟩
  · simp [hstate, hpos.ne]

theorem BodyRun.receivesBody {con₀ con : ReadingConnection} {fs₀ fs : Files} {stream : Bytes}
    (h₀ : BodyStart con₀) (run : BodyRun con₀ fs₀ stream con fs) :
    con.request = con₀.request ∧ ∃ body, ReceivesBody con fs stream body := by
  induction run with
  | start => exact ⟨rfl, [], h₀.receivesBody fs₀⟩
  | event isReadable _ ih =>
    obtain ⟨hreq, body, h⟩ := ih
    exact ⟨hreq, body, h.holding, h.le, h.readable, h.bytes, h.complete⟩
  | @call stream con con' fs fs' answer answers _ hstate hpost hcall ih =>
    obtain ⟨hreq, body, h⟩ := ih
    by_cases hok : ReadFails con answer
    · rw [handleReadState_fails hok] at hcall
      obtain ⟨rfl, rfl⟩ := Prod.mk.inj (Option.some.inj hcall)
      have hnot : con.state ≠ .handleRequest := by simp [hstate]
      have hnone : received con answer = [] := by
        rw [received, if_pos hok.1, hok.2]
        rfl
      refine ⟨hreq, body, h.holding, h.le, (fun he => by cases he), ?_, ?_⟩
      · rw [selectReadBuffer_unread, hnone, List.append_nil]
        exact h.bytes
      · exact ⟨(fun he => by cases he), fun hfull => absurd (h.complete.mpr hfull) hnot⟩
    · obtain ⟨hreq', body', h', -⟩ := handleReadState_readPost h hstate hok hpost hcall
      exact ⟨hreq'.trans hreq, body', h'⟩

/-- **A body is received exactly once.** Whatever the chunks and the calls are, the body's queue
holds a beginning of the stream behind the header and the rest of the stream is unread; `bytes_in`
counts the bytes of the body and stays within its length, and the request is handled exactly when it
reaches it. -/
theorem bodyReceived {con₀ con : ReadingConnection} {fs₀ fs : Files} {stream : Bytes}
    (h₀ : BodyStart con₀) (run : BodyRun con₀ fs₀ stream con fs) :
    con.requestContentQueue.content fs ++ con.readQueue.unread = stream ∧
      con.requestContentQueue.bytesIn = (con.requestContentQueue.content fs).length ∧
      con.requestContentQueue.bytesIn ≤ con₀.request.contentLength ∧
      (con.state = .handleRequest ↔
        con.requestContentQueue.bytesIn = con₀.request.contentLength) := by
  obtain ⟨hreq, body, h⟩ := run.receivesBody h₀
  have hin := h.holding.bytesIn
  have hle := h.le
  rw [hreq] at hle
  rw [h.holding.content]
  refine ⟨h.bytes, hin, by omega, ?_⟩
  rw [h.complete, hreq]
  omega

end Body

/-- A body of five bytes that comes with the next request, in two packets. -/
def twoPackets : ReadingConnection :=
  let con := readingConnection [receivedChunk (ascii "x he") 2]
  { con with
    request := { con.request with contentLength := 5 }
    state := .readPost, isReadable := true }

theorem bodyStart_twoPackets : BodyStart twoPackets where
  state := rfl
  contentLength := by decide
  readable := by
    intro c hc
    rw [show twoPackets.readQueue.first = [receivedChunk (ascii "x he") 2] from rfl,
      List.mem_singleton] at hc
    subst hc
    exact readable_receivedChunk (by decide)
  first := rfl
  bytesIn := rfl
  starts := by
    intro c hc
    cases hc

theorem bodyReceived_twoPackets : ∃ con,
    @BodyRun zeroMalloc twoPackets ⟨[], []⟩ (ascii "helloGET") con ⟨[], []⟩ ∧
      con.requestContentQueue.content ⟨[], []⟩ ++ con.readQueue.unread = ascii "helloGET" ∧
      con.requestContentQueue.bytesIn = (con.requestContentQueue.content ⟨[], []⟩).length ∧
      con.requestContentQueue.bytesIn ≤ twoPackets.request.contentLength ∧
      (con.state = .handleRequest ↔
        con.requestContentQueue.bytesIn = twoPackets.request.contentLength) := by
  let answer : ReadAnswer := ⟨some 6, .data (ascii "lloGET")⟩
  let answers : Nat → PostAnswer := fun _ => ⟨fun _ => some (5, ⟨ascii "abcdef", rfl⟩), none, some⟩
  have hsome : ((@connectionHandleReadState zeroMalloc twoPackets ⟨[], []⟩ answer answers).map
      (·.2)) = some ⟨[], []⟩ := by decide +kernel
  obtain ⟨⟨con, fs⟩, hcall, rfl⟩ := Option.map_eq_some_iff.mp hsome
  have hpost : ∀ i, @PostAnswer.Succeeds zeroMalloc twoPackets.requestContentQueue.tempdirs
      (answers i) := fun i => @PostAnswer.Succeeds.mk zeroMalloc _ _ (by decide +kernel) fun n => rfl
  have hstream : twoPackets.readQueue.unread ++ @received zeroMalloc twoPackets answer =
      ascii "helloGET" := by decide +kernel
  have run := @BodyRun.call zeroMalloc _ _ _ _ _ _ _ answer answers
    (@BodyRun.start zeroMalloc twoPackets ⟨[], []⟩) rfl hpost hcall
  rw [hstream] at run
  exact ⟨con, run, @bodyReceived zeroMalloc _ _ _ _ _ bodyStart_twoPackets run⟩

end Lighttpd
