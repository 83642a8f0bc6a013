import Lighttpd.Range.QueuedParts

/-!
# Satisfied ranges

When `http_response_parse_range` of `mod_staticfile` returns 0, every part lies within the file, the
parts are those the value asks for, and what is printed and counted about them is exact.
-/

namespace Lighttpd

open CLib MarkedPieces

section ParseRange

variable [Malloc] {target : RangeTarget} {con : RespondingConnection} {httpRange : Bytes}
  {rangeBuf : Buffer} {found : Option (Nat × DataString)}

/-- The state when the parts before a refusal are queued, or all. -/
def sentParts (target : RangeTarget) (con : RespondingConnection) (httpRange : Bytes)
    (contentType : Option Buffer) : RangeState :=
  (readParts target.size target.last (rangePieces httpRange)).1.foldl
    (sendPart target contentType (decide (44 ∈ httpRange))) (rangeStart target con httpRange)

theorem sentParts_none {contentType : Option Buffer}
    (h : (readParts target.size target.last (rangePieces httpRange)).1 = []) :
    sentParts target con httpRange contentType = rangeStart target con httpRange := by
  unfold sentParts
  rw [h]
  rfl

theorem rangeLoop_refused {refusal : Refusal} (contentType : Option Buffer)
    (hr : (readParts target.size target.last (rangePieces httpRange)).2 = some refusal) :
    ∃ st, rangeLoop target contentType (httpRange.length + 1) (rangeStart target con httpRange) =
        some st ∧
      (sentParts target con httpRange contentType).Stopped (refusal.status con.httpStatus) st := by
  obtain ⟨st, hloop, hout⟩ := @rangeLoop_spec _ target contentType
    (httpRange.length + 1) (rangeStart target con httpRange) (Nat.lt_succ_self _) rfl
  have hparts : (readParts target.size target.last
      (rangePieces (rangeStart target con httpRange).s)).2 = some refusal := hr
  unfold RangeState.Outcome at hout
  rw [hparts] at hout
  exact ⟨st, hloop, hout⟩

theorem rangeLoop_accepted (contentType : Option Buffer)
    (hr : (readParts target.size target.last (rangePieces httpRange)).2 = none) :
    ∃ rest, rangeLoop target contentType (httpRange.length + 1)
      (rangeStart target con httpRange) =
        some { sentParts target con httpRange contentType with s := rest } := by
  obtain ⟨st, hloop, hout⟩ := @rangeLoop_spec _ target contentType
    (httpRange.length + 1) (rangeStart target con httpRange) (Nat.lt_succ_self _) rfl
  have hparts : (readParts target.size target.last
      (rangePieces (rangeStart target con httpRange).s)).2 = none := hr
  unfold RangeState.Outcome at hout
  rw [hparts] at hout
  obtain ⟨rest, rfl⟩ := hout
  exact ⟨rest, hloop⟩

theorem sentParts_error (contentType : Option Buffer) :
    (sentParts target con httpRange contentType).error = false := by
  have hfold : ∀ (ps : List (Int × Int)) (st : RangeState), st.error = false →
      (ps.foldl (sendPart target contentType (decide (44 ∈ httpRange))) st).error = false := by
    intro ps
    induction ps with
    | nil => exact fun st herr => herr
    | cons p ps ih =>
      intro st herr
      apply ih
      unfold sendPart
      rw [queuePart_error]
      exact herr
  exact hfold _ _ rfl

variable (target con httpRange rangeBuf) in
/-- What a call returns: after a refusal only the status and the queue have changed, and the length
that is counted; a single part, or none, has its place in the header, and several have it in front
of them. -/
inductive RangeOutcome (contentType : Option Buffer) : Int × RespondingConnection × Buffer → Prop
  | refused {refusal : Refusal}
      (bad : (readParts target.size target.last (rangePieces httpRange)).2 = some refusal) :
      RangeOutcome contentType (-1,
        { con with
          httpStatus := refusal.status con.httpStatus
          responseLength := (sentParts target con httpRange contentType).responseLength
          writeQueue := (sentParts target con httpRange contentType).writeQueue },
        rangeBuf)
  | single {sent : RangeState} {headers : Arr DataString}
      (good : (readParts target.size target.last (rangePieces httpRange)).2 = none)
      (sends : sentParts target con httpRange contentType = sent) (one : sent.multipart = false)
      (inserted : responseHeaderInsert con.response.headers (ascii "Content-Range")
        (contentRange target.size sent.start sent.stop rangeBuf).constBufLen = some headers) :
      RangeOutcome contentType (0, setHeaders (sent.store con) headers,
        contentRange target.size sent.start sent.stop rangeBuf)
  | multipart {sent : RangeState} {headers : Arr DataString}
      (good : (readParts target.size target.last (rangePieces httpRange)).2 = none)
      (sends : sentParts target con httpRange contentType = sent) (several : sent.multipart = true)
      (overwritten : responseHeaderOverwrite con.response.headers (ascii "Content-Type")
        (multipartType rangeBuf).constBufLen = some headers) :
      RangeOutcome contentType (0, setHeaders ((queueText boundaryEnd sent).store con) headers,
        multipartType rangeBuf)

theorem parseRange_outcome {result : Int × RespondingConnection × Buffer}
    (h : parseRange target con httpRange rangeBuf = some result) :
    ∃ found, arrayGetElement con.response.headers (ascii "Content-Type") = some found ∧
      RangeOutcome target con httpRange rangeBuf (found.map (·.2.value)) result := by
  unfold parseRange at h
  simp only [Option.bind_eq_bind, Option.bind_eq_some_iff] at h
  obtain ⟨found, hfound, st, hloop, h⟩ := h
  refine ⟨found, hfound, ?_⟩
  cases hr : (readParts target.size target.last (rangePieces httpRange)).2 with
  | some refusal =>
    obtain ⟨st', hloop', hst⟩ := @rangeLoop_refused _ _ con _ _ (found.map (·.2.value)) hr
    rw [hloop'] at hloop
    obtain rfl := Option.some.inj hloop
    rw [if_pos hst.error] at h
    obtain rfl := Option.some.inj h
    simp only [RangeState.store, hst.httpStatus, hst.responseLength, hst.writeQueue]
    exact .refused hr
  | none =>
    obtain ⟨rest, hloop'⟩ := @rangeLoop_accepted _ _ con _ (found.map (·.2.value)) hr
    rw [hloop'] at hloop
    obtain rfl := Option.some.inj hloop
    have herr := @sentParts_error _ target con httpRange (found.map (·.2.value))
    generalize hsends : sentParts target con httpRange (found.map (·.2.value)) = sent at h herr
    rw [if_neg (by simp [herr])] at h
    cases hmulti : sent.multipart with
    | false =>
      rw [if_neg (by simp [hmulti])] at h
      simp only [Option.bind_eq_some_iff] at h
      obtain ⟨headers, hheaders, h⟩ := h
      obtain rfl := Option.some.inj h
      exact @RangeOutcome.single _ target con httpRange rangeBuf _ sent headers hr hsends hmulti
        hheaders
    | true =>
      rw [if_pos (by simp [hmulti])] at h
      simp only [Option.bind_eq_some_iff] at h
      obtain ⟨headers, hheaders, h⟩ := h
      obtain rfl := Option.some.inj h
      exact @RangeOutcome.multipart _ target con httpRange rangeBuf _ sent headers hr hsends hmulti
        hheaders

theorem parseRange_refused
    (hfound : arrayGetElement con.response.headers (ascii "Content-Type") = some found)
    {refusal : Refusal}
    (hr : (readParts target.size target.last (rangePieces httpRange)).2 = some refusal) :
    ∃ con', parseRange target con httpRange rangeBuf = some (-1, con', rangeBuf) := by
  obtain ⟨st, hloop, hst⟩ := @rangeLoop_refused _ _ con _ _ (found.map (·.2.value)) hr
  unfold parseRange
  rw [hfound]
  dsimp only [Option.bind_eq_bind, Option.bind_some]
  rw [hloop]
  dsimp only [Option.bind_some]
  rw [if_pos hst.error]
  exact ⟨_, rfl⟩

end ParseRange

/-! ## The parts of a file -/

theorem length_rangePieces {s : Bytes} (h : 44 ∉ s) : (rangePieces s).length ≤ 1 := by
  by_cases h45 : 45 ∈ s
  · have hnil : rangePieces [] = [] := (markedPieces_eq_nil (by decide)).mpr (by simp)
    have hone := @markedPieces_append _ _ 44 45 (by decide) _ _ h (Or.inl rfl)
      (show 45 ∈ s ++ [] by simpa using h45)
    rw [List.append_nil, List.drop_nil] at hone
    unfold rangePieces at hnil ⊢
    rw [hone, hnil]
    simp
  · rw [show rangePieces s = [] from (markedPieces_eq_nil (by decide)).mpr h45]
    simp

theorem length_readParts_le (size last : Int) (ts : List Bytes) :
    (readParts size last ts).1.length ≤ ts.length := by
  induction ts with
  | nil => simp [readParts]
  | cons t ts ih =>
    unfold readParts
    split
    · simp
    · simpa using ih

section Static

variable [Malloc]

def filePart (path : Buffer) (p : Int × Int) : QueuedPiece := .file (fileName path) p.1 (partLength p)

/-- What a successful call has done: `parts` are those the value asks for, in its order, each within
the file, and the queue, the length that is counted and the headers are made of them. -/
structure Satisfied (con : RespondingConnection) (stSize : Int) (httpRange : Bytes)
    (con' : RespondingConnection) (parts : List (Int × Int)) : Prop where
  asked : (rangePieces httpRange).map (readPart stSize (stSize - 1)) = parts.map .ok
  within : ∀ p ∈ parts, 0 ≤ p.1 ∧ 1 ≤ partLength p ∧ p.1 + partLength p ≤ stSize
  responseLength : con'.responseLength = chunkqueueLength con'.writeQueue
  answer : (parts = [] ∧ con'.writeQueue.queued = []) ∨
    (44 ∉ httpRange ∧ ∃ p, parts = [p] ∧
      con'.writeQueue.queued = [filePart con.physicalPath p] ∧
      responseHeaderInsert con.response.headers (ascii "Content-Range")
        (some (ascii "bytes " ++ rangeText stSize p)) = some con'.response.headers) ∨
    (44 ∈ httpRange ∧ parts ≠ [] ∧ ∃ found,
      arrayGetElement con.response.headers (ascii "Content-Type") = some found ∧
      con'.writeQueue.queued = partsQueue stSize (found.map (·.2.value)) true
        (filePart con.physicalPath) parts ++ [.text boundaryEndText])

theorem sentParts_static (con : RespondingConnection) (stSize : Int) (httpRange : Bytes)
    (contentType : Option Buffer) :
    Sent (ModStaticfile.rangeTarget con.physicalPath stSize) contentType (decide (44 ∈ httpRange))
      (filePart con.physicalPath) (readParts stSize (stSize - 1) (rangePieces httpRange)).1
      (rangeStart (ModStaticfile.rangeTarget con.physicalPath stSize) con httpRange)
      (sentParts (ModStaticfile.rangeTarget con.physicalPath stSize) con httpRange
        contentType) := by
  apply foldl_sendPart_spec _ _ rfl
  intro p hp cq
  obtain ⟨t, -, hpart⟩ := mem_readParts hp
  obtain ⟨h0, h1, h2⟩ := readPart_within hpart
  have hgrows := grows_appendFile cq con.physicalPath p.1 (partLength p)
  rwa [if_neg (by unfold partLength; omega)] at hgrows

theorem sum_countedLength (stSize : Int) (contentType : Option Buffer) (multipart : Bool)
    (path : Buffer) (ps : List (Int × Int)) :
    (ps.map (countedLength stSize contentType multipart)).sum =
      ((partsQueue stSize contentType multipart (filePart path) ps).map QueuedPiece.length).sum := by
  induction ps with
  | nil => rfl
  | cons p ps ih =>
    have hone : ((partQueue stSize contentType multipart (filePart path) p).map
        QueuedPiece.length).sum = countedLength stSize contentType multipart p := by
      unfold partQueue countedLength
      cases multipart <;> simp [filePart, QueuedPiece.length]
    unfold partsQueue at ih ⊢
    rw [List.map_cons, List.sum_cons, List.flatMap_cons, List.map_append, List.sum_append, hone, ih]

omit [Malloc] in
theorem chunkqueueLength_nil {cq : Chunkqueue} (h : cq.first = []) : chunkqueueLength cq = 0 := by
  simp [chunkqueueLength, h]

omit [Malloc] in
theorem queued_nil {cq : Chunkqueue} (h : cq.first = []) : cq.queued = [] := by
  simp [Chunkqueue.queued, h]

theorem satisfied_of_zero {con con' : RespondingConnection} {stSize : Int} {httpRange : Bytes}
    {rangeBuf rangeBuf' : Buffer} (hqueue : con.writeQueue.first = [])
    (h : ModStaticfile.httpResponseParseRange con stSize httpRange rangeBuf =
      some (0, con', rangeBuf')) :
    ∃ parts, Satisfied con stSize httpRange con' parts := by
  obtain ⟨found, hfound, houtcome⟩ := parseRange_outcome h
  have hsent := sentParts_static con stSize httpRange (found.map (·.2.value))
  -- the parts are within the file, and one for each range
  have hwithin : ∀ p ∈ (readParts stSize (stSize - 1) (rangePieces httpRange)).1,
      0 ≤ p.1 ∧ 1 ≤ partLength p ∧ p.1 + partLength p ≤ stSize := by
    intro p hp
    obtain ⟨t, -, hpart⟩ := mem_readParts hp
    obtain ⟨h0, h1, h2⟩ := readPart_within hpart
    unfold partLength
    omega
  have hasked := @readParts_none stSize (stSize - 1) (rangePieces httpRange)
  have hshort : 44 ∉ httpRange →
      (readParts stSize (stSize - 1) (rangePieces httpRange)).1.length ≤ 1 := fun hc =>
    Nat.le_trans (length_readParts_le _ _ _) (length_rangePieces hc)
  -- the queue was empty, so it is made of them, and its length is counted
  have hq0 : (rangeStart (ModStaticfile.rangeTarget con.physicalPath stSize) con
      httpRange).writeQueue.first = [] := hqueue
  have hqueued := hsent.queue.queued
  rw [queued_nil hq0, List.nil_append] at hqueued
  have hlength := hsent.queue.length
  rw [chunkqueueLength_nil hq0, Int.zero_add] at hlength
  have hcounted := hsent.responseLength
  have hmulti := hsent.multipart
  have hlast := hsent.last
  generalize (readParts stSize (stSize - 1) (rangePieces httpRange)).1 = parts at *
  generalize hS : sentParts (ModStaticfile.rangeTarget con.physicalPath stSize) con httpRange
    (found.map (·.2.value)) = sent at *
  have hlen : sent.responseLength = chunkqueueLength sent.writeQueue := by
    rw [hcounted, hlength]
    exact (Int.zero_add _).trans (sum_countedLength stSize _ _ con.physicalPath parts)
  cases houtcome with
  | single good sends one inserted =>
    obtain rfl : sent = _ := hS.symm.trans sends
    refine ⟨parts, hasked good, hwithin, hlen, ?_⟩
    cases hp : parts with
    | nil =>
      subst hp
      exact Or.inl ⟨rfl, hqueued⟩
    | cons p ps =>
      have hc : 44 ∉ httpRange := by
        rw [hp, if_neg (List.cons_ne_nil _ _), one] at hmulti
        simpa using hmulti.symm
      have hps : ps = [] := by
        have := hshort hc
        rw [hp, List.length_cons] at this
        exact List.length_eq_zero_iff.mp (by omega)
      subst hps
      subst hp
      have hstart : sent.start = p.1 := congrArg Prod.fst hlast
      have hstop : sent.stop = p.2 := congrArg Prod.snd hlast
      rw [hstart, hstop] at inserted
      have htext := text_contentRange stSize p rangeBuf
      refine Or.inr (Or.inl ⟨hc, p, rfl, ?_, ?_⟩)
      · have hsingle : partsQueue stSize (found.map (·.2.value)) (decide (44 ∈ httpRange))
            (filePart con.physicalPath) [p] = [filePart con.physicalPath p] := by
          simp [partsQueue, partQueue, hc]
        exact hqueued.trans hsingle
      · rw [← htext.constBufLen]
        exact inserted
  | multipart good sends several overwritten =>
    obtain rfl : sent = _ := hS.symm.trans sends
    obtain ⟨hgrows, hend⟩ := queueText_spec text_boundaryEnd sent
    have hne : parts ≠ [] := by
      intro hp
      rw [hp, if_pos rfl, several] at hmulti
      cases hmulti
    have hc : 44 ∈ httpRange := by
      rw [if_neg hne, several] at hmulti
      simpa using hmulti.symm
    refine ⟨parts, hasked good, hwithin, ?_, Or.inr (Or.inr ⟨hc, hne, found, hfound, ?_⟩)⟩
    · have hgrown := hgrows.length
      have htext : ([QueuedPiece.text boundaryEndText].map QueuedPiece.length).sum =
          boundaryEndText.length := by simp [QueuedPiece.length]
      rw [htext, ← hlen] at hgrown
      exact hend.trans hgrown.symm
    · rw [show decide (44 ∈ httpRange) = true from decide_eq_true hc] at hqueued
      exact hgrows.queued.trans (congrArg (· ++ _) hqueued)

/-- **Byte ranges.** The loop ends on every value, and a call with the result 0 has queued exactly
the parts that are asked for. -/
theorem byteRanges (con : RespondingConnection) (stSize : Int) (httpRange : Bytes)
    (rangeBuf : Buffer) :
    (∀ contentType, ∃ st, rangeLoop (ModStaticfile.rangeTarget con.physicalPath stSize) contentType
      (httpRange.length + 1)
      (rangeStart (ModStaticfile.rangeTarget con.physicalPath stSize) con httpRange) = some st) ∧
    ∀ con' rangeBuf', con.writeQueue.first = [] →
      ModStaticfile.httpResponseParseRange con stSize httpRange rangeBuf =
        some (0, con', rangeBuf') → ∃ parts, Satisfied con stSize httpRange con' parts := by
  refine ⟨fun contentType => ?_, fun con' rangeBuf' hqueue h => satisfied_of_zero hqueue h⟩
  obtain ⟨st, hloop, -⟩ := @rangeLoop_spec _
    (ModStaticfile.rangeTarget con.physicalPath stSize) contentType
    (httpRange.length + 1) (rangeStart _ con httpRange) (Nat.lt_succ_self _) rfl
  exact ⟨st, hloop⟩

end Static

/-- A connection that answers a request for the file `path`. -/
def respondingConnection (path : Bytes) : RespondingConnection :=
  { connectionInit { mimetypes := arrayInit, allowHttp11 := true } with
    physicalPath := ⟨path ++ [0], path.length + 1, 0⟩
    transferEncoding := 0, parsedResponse := 0, responseLength := -1, etag := bufferInit
    rangeRequests := true, errorfilePrefix := bufferInit
    tmpChunkLen := bufferInit, tmpBuf := bufferInit }

theorem byteRanges_twoParts : ∃ con' rangeBuf',
    @ModStaticfile.httpResponseParseRange zeroMalloc (respondingConnection (ascii "/12345.txt")) 6
        (ascii "0-1,3-4") bufferInit = some (0, con', rangeBuf') ∧
      ∃ parts, @Satisfied zeroMalloc (respondingConnection (ascii "/12345.txt")) 6
        (ascii "0-1,3-4") con' parts := by
  have hzero : (@ModStaticfile.httpResponseParseRange zeroMalloc
      (respondingConnection (ascii "/12345.txt")) 6 (ascii "0-1,3-4") bufferInit).map (·.1) =
        some 0 := by decide +kernel
  obtain ⟨⟨code, con', rangeBuf'⟩, hcall, rfl⟩ := Option.map_eq_some_iff.mp hzero
  exact ⟨con', rangeBuf', hcall, (@byteRanges zeroMalloc
    (respondingConnection (ascii "/12345.txt")) 6 (ascii "0-1,3-4") bufferInit).2 con' rangeBuf' rfl
      hcall⟩

end Lighttpd
