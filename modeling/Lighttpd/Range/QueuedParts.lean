import Lighttpd.Range.RangeSpecs

/-!
# The parts in the queue

What the queue holds after `http_response_parse_range`: each part the value asks for, with a header
of its own and a closing boundary in a multipart answer, and in a single one the `Content-Range`
header of the response (`Satisfied`).
-/

namespace Lighttpd

open CLib MarkedPieces

/-! ## What a chunk stands for -/

inductive QueuedPiece where
  | text (s : Bytes)
  | file (name : Bytes) (start length : Int)
  deriving DecidableEq, Repr

def Chunk.queued (c : Chunk) : QueuedPiece :=
  match c.type with
  | .mem => .text c.unread
  | .file => .file c.file.name.str (c.file.start + c.offset) (c.file.length - c.offset)
  | .unused => .text []

def Chunkqueue.queued (cq : Chunkqueue) : List QueuedPiece := cq.first.map Chunk.queued

def QueuedPiece.length : QueuedPiece → Int
  | .text s => s.length
  | .file _ _ length => length

def QueuedPiece.content (fs : Files) : QueuedPiece → Bytes
  | .text s => s
  | .file name start length => fs.part name start length

theorem content_eq_queued (fs : Files) (cq : Chunkqueue) :
    cq.content fs = (cq.queued.map (QueuedPiece.content fs)).flatten := by
  unfold Chunkqueue.content Chunkqueue.queued
  rw [List.map_map]
  congr 2
  funext c
  unfold Chunk.content Function.comp Chunk.queued
  cases c.type <;> rfl

/-- The queue has an element more, and is longer by its length. -/
structure Grows (cq cq' : Chunkqueue) (qs : List QueuedPiece) : Prop where
  queued : cq'.queued = cq.queued ++ qs
  length : chunkqueueLength cq' = chunkqueueLength cq + (qs.map QueuedPiece.length).sum

theorem Grows.nil (cq : Chunkqueue) : Grows cq cq [] := ⟨by simp, by simp⟩

theorem Grows.trans {cq cq' cq'' : Chunkqueue} {qs rs : List QueuedPiece} (h : Grows cq cq' qs)
    (h' : Grows cq' cq'' rs) : Grows cq cq'' (qs ++ rs) where
  queued := by rw [h'.queued, h.queued, List.append_assoc]
  length := by
    rw [h'.length, h.length, List.map_append, List.sum_append]
    omega

theorem Grows.content {cq cq' : Chunkqueue} {qs : List QueuedPiece} (h : Grows cq cq' qs)
    (fs : Files) :
    cq'.content fs = cq.content fs ++ (qs.map (QueuedPiece.content fs)).flatten := by
  rw [content_eq_queued, content_eq_queued, h.queued, List.map_append, List.flatten_append]

theorem grows_appendMem {cq cq' : Chunkqueue} {c : Chunk} {s : Bytes}
    (hfirst : cq'.first = cq.first ++ [c]) (htype : c.type = .mem) (hoff : c.offset = 0)
    (hs : c.mem.Text s) : Grows cq cq' [.text s] where
  queued := by
    have hq : c.queued = .text s := by
      unfold Chunk.queued
      rw [htype]
      dsimp only
      rw [Chunk.unread_eq, hoff, take_of_holds hs.holds hs.used]
      rfl
    rw [Chunkqueue.queued, hfirst, List.map_append, List.map_singleton, hq]
    rfl
  length := by
    have hu := hs.used
    simp only [chunkqueueLength, hfirst, List.map_append, List.sum_append, List.map_singleton,
      htype, List.sum_singleton, QueuedPiece.length]
    rw [if_pos (by omega)]
    omega

section Queue

variable [Malloc]

def fileName (fn : Buffer) : Bytes := (bufferCopyStringBuffer bufferInit fn).str

theorem fileName_of_ended {fn : Buffer} (h : fn.Ended) : fileName fn = fn.str :=
  bufferCopyStringBuffer_str _ h

theorem grows_appendFile (cq : Chunkqueue) (fn : Buffer) (offset len : Int) :
    Grows cq (chunkqueueAppendFile cq fn offset len)
      (if len = 0 then [] else [.file (fileName fn) offset len]) := by
  unfold chunkqueueAppendFile
  split
  · exact Grows.nil cq
  · have hname : ∀ b, (bufferCopyStringBuffer b fn).str = fileName fn := fun b =>
      congrArg (·.2.2) (bufferCopyStringBuffer_view b bufferInit fn)
    constructor
    · simp [Chunkqueue.queued, chunkqueueAppendChunk, Chunk.queued, hname]
    · simp [chunkqueueLength, chunkqueueAppendChunk, QueuedPiece.length]

theorem grows_chunkqueueAppendMem (cq : Chunkqueue) {mem : Bytes} (hne : mem ≠ []) :
    Grows cq (chunkqueueAppendMem cq mem) [.text (mem.take (mem.length - 1))] := by
  unfold chunkqueueAppendMem
  rw [if_neg (by simpa using hne)]
  have hfirst := chunkqueueGetUnusedChunk_first cq
  refine grows_appendMem (congrArg (· ++ _) hfirst) rfl rfl ?_
  exact text_bufferCopyStringLen _ _

omit [Malloc] in
theorem queueText_spec {text : Buffer → Buffer} {s : Bytes} (htext : ∀ b, (text b).Text s)
    (st : RangeState) : Grows st.writeQueue (queueText text st).writeQueue [.text s] ∧
      (queueText text st).responseLength = st.responseLength + s.length := by
  obtain ⟨cs, c, hfirst, htype, hoff⟩ : ∃ cs c, (chunkqueueGetAppendBuffer st.writeQueue).first =
      cs ++ [c] ∧ c.type = .mem ∧ c.offset = 0 :=
    ⟨_, _, rfl, rfl, rfl⟩
  have hcs : cs = st.writeQueue.first := by
    have := congrArg List.dropLast hfirst
    simpa [chunkqueueGetAppendBuffer, chunkqueueAppendChunk] using this.symm
  subst hcs
  have hmap := first_mapLastMem hfirst text
  refine ⟨grows_appendMem hmap htype hoff (htext c.mem), ?_⟩
  have hlast : ((chunkqueueGetAppendBuffer st.writeQueue).mapLastMem text).lastMem = text c.mem := by
    simp [Chunkqueue.lastMem, hmap]
  have hused := (htext c.mem).used
  simp only [queueText, hlast]
  omega

/-! ## The texts -/

def rangeText (size : Int) (p : Int × Int) : Bytes :=
  decimal p.1 ++ ascii "-" ++ decimal p.2 ++ ascii "/" ++ decimal size

def contentTypeText (contentType : Option Buffer) : Bytes :=
  (contentType.map fun b => b.ptr.take (b.used - 1)).getD []

def partHeaderText (size : Int) (p : Int × Int) (contentType : Option Buffer) : Bytes :=
  ascii "\r\n--fkj49sn38dcn3\r\nContent-Range: bytes " ++ rangeText size p ++
    ascii "\r\nContent-Type: " ++ contentTypeText contentType ++ ascii "\r\n\r\n"

def boundaryEndText : Bytes := ascii "\r\n--fkj49sn38dcn3--\r\n"

theorem text_partHeader (size : Int) (p : Int × Int) (contentType : Option Buffer) (b : Buffer) :
    (partHeader size p.1 p.2 contentType b).Text (partHeaderText size p contentType) := by
  have h1 := text_bufferCopyStringLen b (ascii "\r\n--")
  have h2 := (text_bufferAppendString h1 boundary).1
  have h3 := text_bufferAppendStringLen h2 (ascii "\r\nContent-Range: bytes ")
  have h4 := text_bufferAppendOffT h3 p.1
  have h5 := text_bufferAppendStringLen h4 (ascii "-")
  have h6 := text_bufferAppendOffT h5 p.2
  have h7 := text_bufferAppendStringLen h6 (ascii "/")
  have h8 := text_bufferAppendOffT h7 size
  have h9 := text_bufferAppendStringLen h8 (ascii "\r\nContent-Type: ")
  have hfront : ascii "\r\n--" ++ boundary ++ ascii "\r\nContent-Range: bytes " =
      ascii "\r\n--fkj49sn38dcn3\r\nContent-Range: bytes " := by decide
  have htext : partHeaderText size p contentType = ascii "\r\n--" ++ boundary ++
      ascii "\r\nContent-Range: bytes " ++ decimal p.1 ++ ascii "-" ++ decimal p.2 ++ ascii "/" ++
        decimal size ++ ascii "\r\nContent-Type: " ++ contentTypeText contentType ++
          ascii "\r\n\r\n" := by
    rw [hfront]
    simp only [partHeaderText, rangeText, List.append_assoc]
  rw [htext]
  simp only [partHeader]
  apply text_bufferAppendStringLen
  cases contentType with
  | none => simpa [contentTypeText] using h9
  | some ct => exact text_bufferAppendStringBuffer_take h9 ct

theorem text_boundaryEnd (b : Buffer) : (boundaryEnd b).Text boundaryEndText := by
  have h1 := text_bufferCopyStringLen b (ascii "\r\n--")
  have h2 := (text_bufferAppendString h1 boundary).1
  have h3 := text_bufferAppendStringLen h2 (ascii "--\r\n")
  have htext : boundaryEndText = ascii "\r\n--" ++ boundary ++ ascii "--\r\n" := by decide
  rw [htext]
  exact h3

theorem text_contentRange (size : Int) (p : Int × Int) (b : Buffer) :
    (contentRange size p.1 p.2 b).Text (ascii "bytes " ++ rangeText size p) := by
  have h1 := text_bufferCopyStringLen b (ascii "bytes ")
  have h2 := text_bufferAppendOffT h1 p.1
  have h3 := text_bufferAppendStringLen h2 (ascii "-")
  have h4 := text_bufferAppendOffT h3 p.2
  have h5 := text_bufferAppendStringLen h4 (ascii "/")
  have h6 := text_bufferAppendOffT h5 size
  have htext : ascii "bytes " ++ rangeText size p = ascii "bytes " ++ decimal p.1 ++ ascii "-" ++
      decimal p.2 ++ ascii "/" ++ decimal size := by
    simp only [rangeText, List.append_assoc]
  rw [htext]
  exact h6

/-! ## Queueing the parts -/

def partLength (p : Int × Int) : Int := p.2 - p.1 + 1

section Send

variable {target : RangeTarget} {contentType : Option Buffer} {multipart : Bool}
  {piece : Int × Int → QueuedPiece}

/-- What the queue gets for a part, `piece` being the part itself. -/
def partQueue (size : Int) (contentType : Option Buffer) (multipart : Bool)
    (piece : Int × Int → QueuedPiece) (p : Int × Int) : List QueuedPiece :=
  if multipart then [.text (partHeaderText size p contentType), piece p] else [piece p]

def partsQueue (size : Int) (contentType : Option Buffer) (multipart : Bool)
    (piece : Int × Int → QueuedPiece) (ps : List (Int × Int)) : List QueuedPiece :=
  ps.flatMap (partQueue size contentType multipart piece)

def countedLength (size : Int) (contentType : Option Buffer) (multipart : Bool) (p : Int × Int) :
    Int :=
  (if multipart then ((partHeaderText size p contentType).length : Int) else 0) + partLength p

structure Sent (target : RangeTarget) (contentType : Option Buffer) (multipart : Bool)
    (piece : Int × Int → QueuedPiece) (ps : List (Int × Int)) (st st' : RangeState) : Prop where
  queue : Grows st.writeQueue st'.writeQueue
    (partsQueue target.size contentType multipart piece ps)
  responseLength : st'.responseLength = st.responseLength +
    (ps.map (countedLength target.size contentType multipart)).sum
  error : st'.error = st.error
  httpStatus : st'.httpStatus = st.httpStatus
  last : (st'.start, st'.stop) = ps.getLast?.getD (st.start, st.stop)
  multipart : st'.multipart = if ps = [] then st.multipart else multipart

theorem queuePart_spec {st : RangeState} (herr : st.error = false)
    (happend : ∀ cq, Grows cq (target.append cq st.start (partLength (st.start, st.stop)))
      [piece (st.start, st.stop)]) :
    Sent target contentType st.multipart piece [(st.start, st.stop)] st
      (queuePart target contentType st) := by
  unfold queuePart
  rw [if_neg (by simp [herr])]
  cases hm : st.multipart with
  | false =>
    refine ⟨happend _, ?_, rfl, rfl, rfl, hm⟩
    simp [countedLength, partLength]
  | true =>
    obtain ⟨hgrows, hlen⟩ :=
      queueText_spec (text_partHeader target.size (st.start, st.stop) contentType) st
    refine ⟨hgrows.trans (happend _), ?_, rfl, rfl, rfl, hm⟩
    simp only [if_true, hlen, countedLength, partLength, List.map_singleton, List.sum_singleton]
    simp only [queueText]
    omega

theorem sendPart_spec {st : RangeState} (herr : st.error = false) (p : Int × Int)
    (happend : ∀ cq, Grows cq (target.append cq p.1 (partLength p)) [piece p]) :
    Sent target contentType multipart piece [p] st
      (sendPart target contentType multipart st p) := by
  have h := @queuePart_spec _ target contentType piece
    { st with multipart := multipart, start := p.1, stop := p.2 } herr happend
  exact ⟨h.queue, h.responseLength, h.error, h.httpStatus, h.last, h.multipart⟩

omit [Malloc] in
theorem Sent.cons {p : Int × Int} {ps : List (Int × Int)} {st st' st'' : RangeState}
    (h : Sent target contentType multipart piece [p] st st')
    (h' : Sent target contentType multipart piece ps st' st'') :
    Sent target contentType multipart piece (p :: ps) st st'' where
  queue := by
    have := h.queue.trans h'.queue
    simpa [partsQueue] using this
  responseLength := by
    rw [h'.responseLength, h.responseLength]
    simp only [List.map_cons, List.map_nil, List.sum_cons, List.sum_nil]
    omega
  error := h'.error.trans h.error
  httpStatus := h'.httpStatus.trans h.httpStatus
  last := by
    have hlast := h.last
    rw [h'.last]
    cases ps with
    | nil => exact hlast
    | cons q ps =>
      rw [List.getLast?_cons_cons]
      rfl
  multipart := by
    have hm := h.multipart
    rw [h'.multipart, hm]
    split <;> simp

/-- **What all the parts change.** -/
theorem foldl_sendPart_spec (ps : List (Int × Int)) (st : RangeState) (herr : st.error = false)
    (happend : ∀ p ∈ ps, ∀ cq, Grows cq (target.append cq p.1 (partLength p)) [piece p]) :
    Sent target contentType multipart piece ps st
      (ps.foldl (sendPart target contentType multipart) st) := by
  induction ps generalizing st with
  | nil => exact ⟨Grows.nil _, by simp, rfl, rfl, rfl, rfl⟩
  | cons p ps ih =>
    have hp := @sendPart_spec _ _ contentType multipart _ _ herr p
      (happend p List.mem_cons_self)
    apply hp.cons
    apply ih
    · rw [hp.error, herr]
    · exact fun q hq => happend q (List.mem_cons_of_mem p hq)

end Send

end Queue

end Lighttpd
