import Lighttpd.Chunk

/-!
# `network_writev.c`: a file chunk is written through a mapped window

A file is mapped in areas of 512 kbyte. A step writes from where the chunk stands to the end of the
area, and the next area is mapped when the chunk stands at the end of the last one. The first area
is looked for with `<`: a range that starts at a border gets the area in front of it, of which
nothing is to be sent (`sendsRange_iff`). The memory chunks, which go to `writev` together, are left
out.
-/

namespace Lighttpd

open CLib

/-! ## The step -/

/-- `we_want_to_mmap` -/
def weWantToMmap : Int := 512 * 1024

/-- A chunk with the part of `c->file.mmap` that the queue has no use for, the areas that are
mapped, by their addresses, and `cq->bytes_out`. -/
structure WritevState where
  chunk : Chunk
  mmapOffset : Int
  memory : List (Nat × Bytes)
  bytesOut : Int

inductive WriteReply where
  | wrote (r : Nat)
  | again
  | closed
  | failed

/-- What the system says in a step: the size in the cached status, the descriptor of `open`, the
address of `mmap`, and the answer of `write`. -/
structure WritevAnswers where
  stSize : Option Int
  openFd : Option Nat
  mapped : Option Nat
  write : WriteReply

inductive WritevResult where
  | error (code : Int)
  | wrote (buf : Bytes) (r : Nat) (chunkFinished : Bool)

namespace WritevState

def absOffset (st : WritevState) : Int := st.chunk.file.start + st.chunk.offset

def rangeEnd (st : WritevState) : Int := st.chunk.file.start + st.chunk.file.length

def windowEnd (st : WritevState) : Int := st.mmapOffset + st.chunk.file.mmapLength

def unmap (st : WritevState) (start : Nat) : List (Nat × Bytes) := st.memory.filter (·.1 ≠ start)

end WritevState

def skipAreas (start : Int) : Nat → Int → Int
  | 0, offset => offset
  | n + 1, offset =>
    if offset + weWantToMmap < start then skipAreas start n (offset + weWantToMmap) else offset

def nextArea (st : WritevState) : WritevState :=
  match st.chunk.file.mmapStart with
  | some start =>
    { st with memory := st.unmap start, mmapOffset := st.mmapOffset + weWantToMmap }
  | none => { st with mmapOffset := skipAreas st.chunk.file.start st.chunk.file.start.toNat 0 }

/-- `to_mmap` -/
def toMmap (st : WritevState) : Int :=
  let weWantToSend := st.chunk.file.length - st.chunk.offset
  if st.absOffset + weWantToSend > st.mmapOffset + weWantToMmap then weWantToMmap
  else st.rangeEnd - st.mmapOffset

def mapArea (f : Bytes) (ans : WritevAnswers) (st : WritevState) : Bool × WritevState :=
  let st := nextArea st
  match st.chunk.file.fd <|> ans.openFd with
  | none => (false, st)
  | some fd =>
    let file := { st.chunk.file with fd := some fd }
    -- `size_t`
    let length := (toMmap st % 2 ^ 32).toNat
    match ans.mapped with
    | none =>
      (false, { st with chunk := { st.chunk with file := { file with mmapStart := none } } })
    | some start =>
      (true, { st with
        chunk := { st.chunk with
          file := { file with mmapStart := some start, mmapLength := length } }
        memory := (start, (f.drop st.mmapOffset.toNat).take length) :: st.memory })

/-- The bytes at `c->file.mmap.start + i`, of which all have to be in the area. -/
def WritevState.load (st : WritevState) (i : Int) (count : Nat) : Option Bytes := do
  let start ← st.chunk.file.mmapStart
  let area ← st.memory.lookup start
  if 0 ≤ i ∧ i + count ≤ area.length then some ((area.drop i.toNat).take count) else none

/-- What was accepted is counted; a chunk that is finished needs its area no more. -/
def countSent (st : WritevState) (buf : Bytes) (r : Nat) : WritevResult × WritevState :=
  let st := { st with
    chunk := { st.chunk with offset := st.chunk.offset + r }
    bytesOut := st.bytesOut + r }
  if st.chunk.offset = st.chunk.file.length then
    match st.chunk.file.mmapStart with
    | some start =>
      (.wrote buf r true, { st with
        chunk := { st.chunk with file := { st.chunk.file with mmapStart := none } }
        memory := st.unmap start })
    | none => (.wrote buf r true, st)
  else (.wrote buf r false, st)

def writeArea (ans : WritevAnswers) (st : WritevState) : Option (WritevResult × WritevState) := do
  -- a negative `toSend` is logged, and passed to `write` as a `size_t`
  let toSend := st.windowEnd - st.absOffset
  let buf ← st.load (st.absOffset - st.mmapOffset) (toSend % 2 ^ 32).toNat
  match ans.write with
  | .wrote r => some (countSent st buf r)
  | .again => some (countSent st buf 0)
  | .closed => some (.error (-2), st)
  | .failed => some (.error (-1), st)

/-- The case `FILE_CHUNK` of `network_write_chunkqueue_writev`; `f` is what is in the file. A read
outside the mapped areas has no value. -/
def networkWriteFileChunk (f : Bytes) (ans : WritevAnswers) (st : WritevState) :
    Option (WritevResult × WritevState) :=
  match ans.stSize with
  | none => some (.error (-1), st)
  | some stSize =>
    if st.absOffset > stSize then some (.error (-1), st)
    else if st.chunk.file.mmapStart = none ∨ st.absOffset = st.windowEnd then
      match mapArea f ans st with
      | (false, st) => some (.error (-1), st)
      | (true, st) => writeArea ans st
    else writeArea ans st

/-! ## Runs -/

/-- The answers are those of a system on which the file stays as it is: the cached size is that of
the file, and what `mmap` gives was not mapped, or is given back in this step. -/
structure WritevAnswers.Valid (f : Bytes) (st : WritevState) (ans : WritevAnswers) : Prop where
  stSize : ∀ n, ans.stSize = some n → n = f.length
  mapped : ∀ a, ans.mapped = some a → ∀ p ∈ st.memory, p.1 = a → st.chunk.file.mmapStart = some a

/-- Steps that went well, and what the kernel has accepted in them. -/
inductive WritevRun (f : Bytes) (st₀ : WritevState) : Bytes → WritevState → Prop
  | start : WritevRun f st₀ [] st₀
  | step {sent buf : Bytes} {st st' : WritevState} {ans : WritevAnswers} {r : Nat} {fin : Bool}
      (before : WritevRun f st₀ sent st) (unfinished : st.chunk.offset < st.chunk.file.length)
      (valid : ans.Valid f st) (run : networkWriteFileChunk f ans st = some (.wrote buf r fin, st'))
      (accepted : r ≤ buf.length) : WritevRun f st₀ (sent ++ buf.take r) st'

/-- What is written is not empty, begins where the chunk stands in the file, and lies in the area
and in the range. -/
structure WritesRange (f : Bytes) (st st' : WritevState) (buf : Bytes) : Prop where
  nonempty : buf ≠ []
  file : buf <+: f.drop st.absOffset.toNat
  range : st.absOffset + buf.length ≤ st.rangeEnd
  window : st'.mmapOffset ≤ st.absOffset ∧ st.absOffset + buf.length ≤ st'.windowEnd

/-- In every run the range is sent once from its beginning, and every step writes more of it. -/
def SendsRange (f : Bytes) (st₀ : WritevState) : Prop :=
  ∀ sent st, WritevRun f st₀ sent st →
    sent = (f.drop st₀.absOffset.toNat).take (st.chunk.offset - st₀.chunk.offset).toNat ∧
    (st.chunk.offset < st.chunk.file.length → ∀ ans : WritevAnswers, ans.Valid f st →
      ∃ res st', networkWriteFileChunk f ans st = some (res, st') ∧
        ∀ buf r fin, res = .wrote buf r fin → WritesRange f st st' buf)

/-- The first border of the areas that is not in front of `start`, and not 0. -/
def areaBorder (start : Int) : Int :=
  if start = 0 then weWantToMmap else (start + weWantToMmap - 1) / weWantToMmap * weWantToMmap

section Proofs

variable {f : Bytes} {st st' st₀ : WritevState} {ans : WritevAnswers}

/-! ## The areas -/

theorem skipAreas_spec (start : Int) : ∀ (n : Nat) (offset : Int), start - offset ≤ n → 0 ≤ offset →
    offset % weWantToMmap = 0 → skipAreas start n offset % weWantToMmap = 0 ∧
      start ≤ skipAreas start n offset + weWantToMmap ∧
      (skipAreas start n offset = offset ∨
        offset < skipAreas start n offset ∧ skipAreas start n offset < start) := by
  intro n
  induction n with
  | zero =>
    intro offset hn hoffset hborder
    refine ⟨hborder, ?_, Or.inl rfl⟩
    unfold skipAreas weWantToMmap
    omega
  | succ n ih =>
    intro offset hn hoffset hborder
    unfold skipAreas
    by_cases hlt : offset + weWantToMmap < start
    · have hwidth : weWantToMmap = 524288 := rfl
      have hnext : (offset + weWantToMmap) % weWantToMmap = 0 := by
        rw [Int.add_emod_right]
        exact hborder
      obtain ⟨hmod, hreach, hcase⟩ :=
        ih (offset + weWantToMmap) (by omega) (by omega) hnext
      rw [if_pos hlt]
      refine ⟨hmod, hreach, Or.inr ?_⟩
      omega
    · rw [if_neg hlt]
      exact ⟨hborder, by omega, Or.inl rfl⟩

theorem skipAreas_border {start : Int} (hstart : 0 ≤ start) :
    skipAreas start start.toNat 0 + weWantToMmap = areaBorder start := by
  have hwidth : weWantToMmap = 524288 := rfl
  obtain ⟨hmod, hreach, hcase⟩ :=
    skipAreas_spec start start.toNat 0 (by omega) (by omega) rfl
  generalize skipAreas start start.toNat 0 = offset at hmod hreach hcase ⊢
  unfold areaBorder
  rw [hwidth] at hmod hreach ⊢
  split <;> omega

theorem skipAreas_le {start : Int} (hstart : 0 ≤ start) :
    0 ≤ skipAreas start start.toNat 0 ∧ skipAreas start start.toNat 0 ≤ start := by
  obtain ⟨-, -, hcase⟩ :=
    skipAreas_spec start start.toNat 0 (by omega) (by omega) rfl
  omega

/-- An area is mapped: a part of the range, up to its end or 512 kbyte long. -/
structure MappedArea (f : Bytes) (st : WritevState) : Prop where
  mapped : ∃ start, st.chunk.file.mmapStart = some start ∧ st.memory.lookup start =
    some ((f.drop st.mmapOffset.toNat).take st.chunk.file.mmapLength)
  inFile : 0 ≤ st.mmapOffset
  inRange : st.windowEnd ≤ st.rangeEnd
  whole : st.windowEnd = st.rangeEnd ∨ (st.chunk.file.mmapLength : Int) = weWantToMmap
  size : (st.chunk.file.mmapLength : Int) ≤ weWantToMmap

structure InArea (f : Bytes) (st : WritevState) : Prop extends MappedArea f st where
  front : st.mmapOffset ≤ st.absOffset
  behind : st.absOffset ≤ st.windowEnd

/-- The range is the same, and the chunk stands at the same place. -/
structure SamePlace (st st' : WritevState) : Prop where
  start : st'.chunk.file.start = st.chunk.file.start
  length : st'.chunk.file.length = st.chunk.file.length
  offset : st'.chunk.offset = st.chunk.offset

theorem SamePlace.absOffset (h : SamePlace st st') : st'.absOffset = st.absOffset := by
  unfold WritevState.absOffset
  rw [h.start, h.offset]

theorem SamePlace.rangeEnd (h : SamePlace st st') : st'.rangeEnd = st.rangeEnd := by
  unfold WritevState.rangeEnd
  rw [h.start, h.length]

theorem samePlace_nextArea : SamePlace st (nextArea st) := by
  unfold nextArea
  split <;> exact ⟨rfl, rfl, rfl⟩

theorem mapArea_spec (ans : WritevAnswers) (hfile : 0 ≤ (nextArea st).mmapOffset)
    (hfront : (nextArea st).mmapOffset ≤ st.absOffset) (hrest : st.absOffset < st.rangeEnd) :
    (mapArea f ans st).1 = false ∨ (mapArea f ans st).1 = true ∧
      SamePlace st (mapArea f ans st).2 ∧ MappedArea f (mapArea f ans st).2 ∧
      (mapArea f ans st).2.mmapOffset = (nextArea st).mmapOffset := by
  have hplace : SamePlace st (nextArea st) := samePlace_nextArea
  have habs := hplace.absOffset
  have hend := hplace.rangeEnd
  unfold mapArea
  generalize nextArea st = next at hfile hfront hplace habs hend ⊢
  dsimp only
  cases hfd : next.chunk.file.fd <|> ans.openFd with
  | none => exact Or.inl rfl
  | some fd =>
    dsimp only
    cases hmapped : ans.mapped with
    | none => exact Or.inl rfl
    | some start =>
      have hwidth : weWantToMmap = 524288 := rfl
      have hsend : next.absOffset + (next.chunk.file.length - next.chunk.offset) =
          next.rangeEnd := by
        unfold WritevState.absOffset WritevState.rangeEnd
        omega
      have hlength : (((toMmap next % 2 ^ 32).toNat : Nat) : Int) = toMmap next ∧
          (toMmap next = weWantToMmap ∧ next.mmapOffset + weWantToMmap < next.rangeEnd ∨
            next.mmapOffset + toMmap next = next.rangeEnd ∧ toMmap next ≤ weWantToMmap) := by
        unfold toMmap
        dsimp only
        rw [hsend]
        split <;> omega
      obtain ⟨hsize, hcase⟩ := hlength
      generalize (toMmap next % 2 ^ 32).toNat = length at hsize ⊢
      have hinRange : next.mmapOffset + length ≤ next.rangeEnd := by omega
      have hwhole : next.mmapOffset + (length : Int) = next.rangeEnd ∨
          (length : Int) = weWantToMmap := by omega
      have hfits : (length : Int) ≤ weWantToMmap := by omega
      exact Or.inr ⟨rfl, ⟨hplace.start, hplace.length, hplace.offset⟩,
        ⟨⟨start, rfl, by simp⟩, hfile, hinRange, hwhole, hfits⟩, rfl⟩

/-! ## What is written -/

/-- The bytes of the file from where the chunk stands to the end of the area. -/
def areaRest (f : Bytes) (st : WritevState) : Bytes :=
  (f.drop st.absOffset.toNat).take (st.windowEnd - st.absOffset).toNat

theorem InArea.length_areaRest (h : InArea f st) (hsize : st.rangeEnd ≤ f.length) :
    ((areaRest f st).length : Int) = st.windowEnd - st.absOffset := by
  have hfile := h.inFile
  have hfront := h.front
  have hbehind := h.behind
  have hrange := h.inRange
  unfold areaRest
  rw [List.length_take, List.length_drop]
  omega

theorem InArea.load (h : InArea f st) (hsize : st.rangeEnd ≤ f.length) :
    st.load (st.absOffset - st.mmapOffset) ((st.windowEnd - st.absOffset) % 2 ^ 32).toNat =
      some (areaRest f st) := by
  obtain ⟨start, hstart, hlookup⟩ := h.mapped
  have hwidth : weWantToMmap = 524288 := rfl
  have hfile := h.inFile
  have hfront := h.front
  have hbehind := h.behind
  have hrange := h.inRange
  have hlength := h.size
  have hwindow : st.windowEnd = st.mmapOffset + st.chunk.file.mmapLength := rfl
  have hcount : ((st.windowEnd - st.absOffset) % 2 ^ 32).toNat =
      st.chunk.file.mmapLength - (st.absOffset - st.mmapOffset).toNat := by omega
  have harea : ((f.drop st.mmapOffset.toNat).take st.chunk.file.mmapLength).length =
      st.chunk.file.mmapLength := by
    rw [List.length_take, List.length_drop]
    omega
  unfold WritevState.load areaRest
  rw [hstart]
  simp only [Option.bind_eq_bind, Option.bind_some, hlookup, harea, hcount]
  rw [if_pos (by omega), List.drop_take, List.take_take, List.drop_drop]
  congr 2
  · omega
  · congr 1
    omega

theorem countSent_window (st : WritevState) (buf : Bytes) (r : Nat) :
    ∃ fin, (countSent st buf r).1 = .wrote buf r fin ∧
      (countSent st buf r).2.mmapOffset = st.mmapOffset ∧
      (countSent st buf r).2.windowEnd = st.windowEnd := by
  unfold countSent
  dsimp only
  split
  · split <;> exact ⟨true, rfl, rfl, rfl⟩
  · exact ⟨false, rfl, rfl, rfl⟩

theorem countSent_spec (buf : Bytes) {r : Nat} (h : InArea f st)
    (hr : st.absOffset + r ≤ st.windowEnd) :
    (countSent st buf r).2.chunk.file.start = st.chunk.file.start ∧
      (countSent st buf r).2.chunk.file.length = st.chunk.file.length ∧
      (countSent st buf r).2.chunk.offset = st.chunk.offset + r ∧
      ((countSent st buf r).2.chunk.offset = st.chunk.file.length ∨
        InArea f (countSent st buf r).2) := by
  obtain ⟨start, hstart, hlookup⟩ := h.mapped
  unfold countSent
  dsimp only
  by_cases hfin : st.chunk.offset + r = st.chunk.file.length
  · rw [if_pos hfin, hstart]
    exact ⟨rfl, rfl, rfl, Or.inl hfin⟩
  · rw [if_neg hfin]
    refine ⟨rfl, rfl, rfl,
      Or.inr ⟨⟨⟨start, hstart, hlookup⟩, h.inFile, h.inRange, h.whole, h.size⟩, ?_, ?_⟩⟩
    · have hfront := h.front
      unfold WritevState.absOffset at hfront ⊢
      dsimp only
      omega
    · unfold WritevState.absOffset at hr ⊢
      have hwindow : st.chunk.file.start + (st.chunk.offset + r) ≤ st.windowEnd := by omega
      exact hwindow

/-- A write from the area: its bytes, and where the chunk is behind it. -/
structure WroteArea (f : Bytes) (st : WritevState) (res : WritevResult) (st' : WritevState) :
    Prop where
  writes : ∀ buf r fin, res = .wrote buf r fin → WritesRange f st st' buf
  accepted : ∀ buf r fin, res = .wrote buf r fin → r ≤ buf.length →
    buf.take r = (f.drop st.absOffset.toNat).take r ∧
    st'.chunk.file.start = st.chunk.file.start ∧ st'.chunk.file.length = st.chunk.file.length ∧
    st'.chunk.offset = st.chunk.offset + r ∧ st'.chunk.offset ≤ st.chunk.file.length ∧
    (st'.chunk.offset = st.chunk.file.length ∨ InArea f st')

theorem WroteArea.error {code : Int} : WroteArea f st (.error code) st' where
  writes _ _ _ h := by nomatch h
  accepted _ _ _ h := by nomatch h

theorem InArea.write (h : InArea f st) (ans : WritevAnswers) (hrest : st.absOffset < st.windowEnd)
    (hsize : st.rangeEnd ≤ f.length) :
    ∃ res st', writeArea ans st = some (res, st') ∧ WroteArea f st res st' := by
  have hload := h.load hsize
  have hlength := h.length_areaRest hsize
  have hinRange := h.inRange
  have hend : st.rangeEnd = st.chunk.file.start + st.chunk.file.length := rfl
  have habs : st.absOffset = st.chunk.file.start + st.chunk.offset := rfl
  have hsent : ∀ r : Nat,
      WroteArea f st (countSent st (areaRest f st) r).1 (countSent st (areaRest f st) r).2 := by
    intro r
    obtain ⟨fin, hres, hmmap, hwindow⟩ := countSent_window st (areaRest f st) r
    refine ⟨?_, ?_⟩
    · intro buf r' fin' hbuf
      obtain ⟨rfl, -, -⟩ := WritevResult.wrote.inj (hres.symm.trans hbuf)
      refine ⟨?_, List.take_prefix _ _, by omega, ?_, by omega⟩
      · intro hnil
        rw [hnil, List.length_nil] at hlength
        omega
      · rw [hmmap]
        exact h.front
    · intro buf r' fin' hbuf hle
      obtain ⟨rfl, rfl, -⟩ := WritevResult.wrote.inj (hres.symm.trans hbuf)
      obtain ⟨hstart, hlen, hoffset, hplace⟩ := countSent_spec (areaRest f st) (r := r) h (by omega)
      refine ⟨?_, hstart, hlen, hoffset, by omega, hplace⟩
      have hshort : r ≤ (st.windowEnd - st.absOffset).toNat := by omega
      rw [areaRest, List.take_take, Nat.min_eq_left hshort]
  unfold writeArea
  simp only [hload, Option.bind_eq_bind, Option.bind_some]
  cases ans.write with
  | wrote r => exact ⟨_, _, rfl, hsent r⟩
  | again => exact ⟨_, _, rfl, hsent 0⟩
  | closed => exact ⟨_, _, rfl, .error⟩
  | failed => exact ⟨_, _, rfl, .error⟩

theorem WroteArea.of_samePlace {st₁ : WritevState} {res : WritevResult}
    (h : WroteArea f st₁ res st') (hplace : SamePlace st st₁) : WroteArea f st res st' where
  writes buf r fin hres := by
    have hwrites := h.writes buf r fin hres
    refine ⟨hwrites.nonempty, ?_, ?_, ?_⟩
    · rw [← hplace.absOffset]
      exact hwrites.file
    · rw [← hplace.absOffset, ← hplace.rangeEnd]
      exact hwrites.range
    · rw [← hplace.absOffset]
      exact hwrites.window
  accepted buf r fin hres hle := by
    rw [← hplace.absOffset, ← hplace.start, ← hplace.length, ← hplace.offset]
    exact h.accepted buf r fin hres hle

/-! ## The run -/

structure RangeSent (f : Bytes) (st₀ : WritevState) (sent : Bytes) (st : WritevState) : Prop where
  start : st.chunk.file.start = st₀.chunk.file.start
  length : st.chunk.file.length = st₀.chunk.file.length
  le : st₀.chunk.offset ≤ st.chunk.offset
  sent : sent = (f.drop st₀.absOffset.toNat).take (st.chunk.offset - st₀.chunk.offset).toNat
  place : (st.chunk.file.mmapStart = none ∧ st.chunk.offset = st₀.chunk.offset) ∨
    st.chunk.offset = st.chunk.file.length ∨ InArea f st

theorem write_mapArea (hfile : 0 ≤ (nextArea st).mmapOffset)
    (hfront : (nextArea st).mmapOffset ≤ st.absOffset)
    (hbehind : st.absOffset < (nextArea st).mmapOffset + weWantToMmap)
    (hrest : st.absOffset < st.rangeEnd) (hsize : st.rangeEnd ≤ f.length) :
    ∃ res st', (match mapArea f ans st with
      | (false, st) => some (.error (-1), st)
      | (true, st) => writeArea ans st) = some (res, st') ∧ WroteArea f st res st' := by
  have hspec := mapArea_spec (f := f) ans hfile hfront hrest
  generalize mapArea f ans st = r at hspec ⊢
  obtain ⟨ok, st₁⟩ := r
  rcases hspec with rfl | ⟨rfl, hplace, harea, hoffset⟩
  · exact ⟨_, _, rfl, .error⟩
  · dsimp only at hplace harea hoffset ⊢
    have habs := hplace.absOffset
    have hend := hplace.rangeEnd
    have hwindow : st₁.windowEnd = st₁.mmapOffset + st₁.chunk.file.mmapLength := rfl
    have hlast : st₁.absOffset < st₁.windowEnd := by
      rcases harea.whole with hwhole | hwhole <;> omega
    have hin : InArea f st₁ := ⟨harea, by omega, by omega⟩
    obtain ⟨res, st', hrun, hwrote⟩ := hin.write ans hlast (by omega)
    exact ⟨res, st', hrun, hwrote.of_samePlace hplace⟩

theorem RangeSent.write {sent : Bytes} (h : RangeSent f st₀ sent st) (hvalid : ans.Valid f st)
    (hstart : 0 ≤ st₀.chunk.file.start) (hoffset : 0 ≤ st₀.chunk.offset)
    (hsize : st₀.rangeEnd ≤ f.length) (hborder : st₀.absOffset < areaBorder st₀.chunk.file.start)
    (hunfinished : st.chunk.offset < st.chunk.file.length) :
    ∃ res st', networkWriteFileChunk f ans st = some (res, st') ∧ WroteArea f st res st' := by
  have hend : st.rangeEnd = st₀.rangeEnd := by
    unfold WritevState.rangeEnd
    rw [h.start, h.length]
  have hrest : st.absOffset < st.rangeEnd := by
    unfold WritevState.absOffset WritevState.rangeEnd
    omega
  unfold networkWriteFileChunk
  cases hstat : ans.stSize with
  | none => exact ⟨_, _, rfl, .error⟩
  | some stSize =>
    have hfsize := hvalid.stSize stSize hstat
    dsimp only
    rw [if_neg (by omega)]
    rcases h.place with ⟨hnone, hfirst⟩ | hdone | hin
    · have hnext : (nextArea st).mmapOffset =
          skipAreas st.chunk.file.start st.chunk.file.start.toNat 0 := by
        unfold nextArea
        rw [hnone]
      have habs : st.absOffset = st₀.absOffset := by
        unfold WritevState.absOffset
        rw [h.start, hfirst]
      have hskip := skipAreas_le hstart
      have hreach := skipAreas_border hstart
      have hfrom : st₀.absOffset = st₀.chunk.file.start + st₀.chunk.offset := rfl
      rw [h.start] at hnext
      rw [if_pos (Or.inl hnone)]
      exact write_mapArea (by omega) (by omega) (by omega) hrest (by omega)
    · omega
    · by_cases hborder : st.absOffset = st.windowEnd
      · obtain ⟨start, hmapped, -⟩ := hin.mapped
        have hnext : (nextArea st).mmapOffset = st.mmapOffset + weWantToMmap := by
          unfold nextArea
          rw [hmapped]
        have hfile := hin.inFile
        have hwindow : st.windowEnd = st.mmapOffset + st.chunk.file.mmapLength := rfl
        have hwidth : weWantToMmap = 524288 := rfl
        have hwhole := hin.whole.resolve_left (by omega)
        rw [if_pos (Or.inr hborder)]
        exact write_mapArea (by omega) (by omega) (by omega) hrest (by omega)
      · have hsome : st.chunk.file.mmapStart ≠ none := by
          obtain ⟨start, hmapped, -⟩ := hin.mapped
          rw [hmapped]
          exact Option.some_ne_none start
        have hbehind := hin.behind
        rw [if_neg (not_or_intro hsome hborder)]
        exact hin.write ans (by omega) (by omega)

theorem WritevRun.sending {sent : Bytes} (h : WritevRun f st₀ sent st)
    (hnew : st₀.chunk.file.mmapStart = none) (hstart : 0 ≤ st₀.chunk.file.start)
    (hoffset : 0 ≤ st₀.chunk.offset) (hsize : st₀.rangeEnd ≤ f.length)
    (hborder : st₀.absOffset < areaBorder st₀.chunk.file.start) : RangeSent f st₀ sent st := by
  induction h with
  | start => exact ⟨rfl, rfl, Int.le_refl _, by simp, Or.inl ⟨hnew, rfl⟩⟩
  | @step sent buf st st' ans r fin before unfinished valid run accepted ih =>
    obtain ⟨res, st'', hrun, hwrote⟩ := ih.write valid hstart hoffset hsize hborder unfinished
    obtain ⟨rfl, rfl⟩ := Prod.mk.inj (Option.some.inj (hrun.symm.trans run))
    obtain ⟨htake, hstart', hlength', hoffset', hle', hplace'⟩ :=
      hwrote.accepted buf r fin rfl accepted
    have hle := ih.le
    refine ⟨hstart'.trans ih.start, hlength'.trans ih.length, by omega, ?_, ?_⟩
    · have hfrom : st₀.absOffset = st₀.chunk.file.start + st₀.chunk.offset := rfl
      have habs : st.absOffset.toNat =
          st₀.absOffset.toNat + (st.chunk.offset - st₀.chunk.offset).toNat := by
        have hnow : st.absOffset = st.chunk.file.start + st.chunk.offset := rfl
        have hsame := ih.start
        omega
      have hcount : (st''.chunk.offset - st₀.chunk.offset).toNat =
          (st.chunk.offset - st₀.chunk.offset).toNat + r := by omega
      rw [ih.sent, htake, habs, hcount, List.take_add, List.drop_drop]
    · rw [hlength']
      exact Or.inr hplace'

/-! ## The first area -/

theorem exists_freshArea (memory : List (Nat × Bytes)) : ∃ a, ∀ p ∈ memory, p.1 < a := by
  induction memory with
  | nil => exact ⟨0, fun p hp => by nomatch hp⟩
  | cons q memory ih =>
    obtain ⟨a, ha⟩ := ih
    refine ⟨max a (q.1 + 1), fun p hp => ?_⟩
    rcases List.mem_cons.mp hp with rfl | hp
    · omega
    · have := ha p hp
      omega

theorem mapArea_true {fd start : Nat} (hfd : ans.openFd = some fd)
    (hmapped : ans.mapped = some start) : (mapArea f ans st).1 = true := by
  unfold mapArea
  generalize nextArea st = next
  dsimp only
  cases hopen : next.chunk.file.fd <|> ans.openFd with
  | none =>
    rw [hfd] at hopen
    cases hfile : next.chunk.file.fd with
    | none =>
      rw [hfile] at hopen
      nomatch hopen
    | some fd' =>
      rw [hfile] at hopen
      nomatch hopen
  | some fd' => rw [hmapped]

theorem load_behind (h : MappedArea f st) (hwindow : st.windowEnd ≤ st.absOffset) {count : Nat}
    {buf : Bytes} (hload : st.load (st.absOffset - st.mmapOffset) count = some buf) : buf = [] := by
  obtain ⟨start, hstart, hlookup⟩ := h.mapped
  have hfile := h.inFile
  have hrange := h.inRange
  have hend : st.windowEnd = st.mmapOffset + st.chunk.file.mmapLength := rfl
  have harea : ((f.drop st.mmapOffset.toNat).take st.chunk.file.mmapLength).length ≤
      st.chunk.file.mmapLength := by
    rw [List.length_take]
    exact Nat.min_le_left _ _
  unfold WritevState.load at hload
  rw [hstart] at hload
  simp only [Option.bind_eq_bind, Option.bind_some, hlookup] at hload
  split at hload
  · next hin =>
    obtain rfl : count = 0 := by omega
    rw [List.take_zero] at hload
    exact (Option.some.inj hload).symm
  · cases hload

theorem absOffset_lt_of_sendsRange (hnew : st₀.chunk.file.mmapStart = none)
    (hstart : 0 ≤ st₀.chunk.file.start) (hlt : st₀.chunk.offset < st₀.chunk.file.length)
    (hsize : st₀.rangeEnd ≤ f.length) (hsends : SendsRange f st₀) :
    st₀.absOffset < areaBorder st₀.chunk.file.start := by
  by_contra hbehind
  have hskip := skipAreas_le hstart
  have hreach := skipAreas_border hstart
  have hfrom : st₀.absOffset = st₀.chunk.file.start + st₀.chunk.offset := rfl
  have hend : st₀.rangeEnd = st₀.chunk.file.start + st₀.chunk.file.length := rfl
  have hnext : (nextArea st₀).mmapOffset =
      skipAreas st₀.chunk.file.start st₀.chunk.file.start.toNat 0 := by
    unfold nextArea
    rw [hnew]
  obtain ⟨a, ha⟩ := exists_freshArea st₀.memory
  let ans : WritevAnswers := ⟨some f.length, some 0, some a, .again⟩
  have hvalid : ans.Valid f st₀ := by
    refine ⟨fun n hn => (Option.some.inj hn).symm, fun a' ha' p hp hpa => ?_⟩
    obtain rfl := Option.some.inj ha'
    have := ha p hp
    omega
  obtain ⟨res, st', hrun, hwrites⟩ := (hsends [] st₀ .start).2 hlt ans hvalid
  have htrue : (mapArea f ans st₀).1 = true := mapArea_true rfl rfl
  have hwidth : weWantToMmap = 524288 := rfl
  have hfile : 0 ≤ (nextArea st₀).mmapOffset := by omega
  have hspec := mapArea_spec (f := f) ans hfile (by omega) (by omega)
  unfold networkWriteFileChunk at hrun
  have hstat : ans.stSize = some (f.length : Int) := rfl
  simp only [hstat] at hrun
  rw [if_neg (by omega), if_pos (Or.inl hnew)] at hrun
  generalize mapArea f ans st₀ = r at hrun htrue hspec
  obtain ⟨ok, st₁⟩ := r
  dsimp only at htrue
  subst htrue
  rcases hspec with hfalse | ⟨-, hplace, harea, hoffset₁⟩
  · nomatch hfalse
  · dsimp only at hplace harea hoffset₁ hrun
    have habs := hplace.absOffset
    have hend₁ := hplace.rangeEnd
    have hwindow : st₁.windowEnd = st₁.mmapOffset + st₁.chunk.file.mmapLength := rfl
    have hfits := harea.size
    obtain ⟨buf, hload, hanswer⟩ := Option.bind_eq_some_iff.mp hrun
    have hnil := load_behind harea (by omega) hload
    obtain ⟨hres, -⟩ := Prod.mk.inj (Option.some.inj hanswer)
    obtain ⟨fin, hwrote, -⟩ := countSent_window st₁ buf 0
    exact (hwrites buf 0 fin (hres.symm.trans hwrote)).nonempty hnil

/-- A range is sent by non-empty writes if and only if the chunk stands in front of the border at
which its first area ends: the first one, but 0, that is not in front of the range. -/
theorem sendsRange_iff (hnew : st₀.chunk.file.mmapStart = none) (hstart : 0 ≤ st₀.chunk.file.start)
    (hoffset : 0 ≤ st₀.chunk.offset) (hlt : st₀.chunk.offset < st₀.chunk.file.length)
    (hsize : st₀.rangeEnd ≤ f.length) :
    SendsRange f st₀ ↔ st₀.absOffset < areaBorder st₀.chunk.file.start := by
  constructor
  · exact absOffset_lt_of_sendsRange hnew hstart hlt hsize
  · intro hborder sent st hrun
    have h := hrun.sending hnew hstart hoffset hsize hborder
    refine ⟨h.sent, fun hunfinished ans hvalid => ?_⟩
    obtain ⟨res, st', hstep, hwrote⟩ := h.write hvalid hstart hoffset hsize hborder hunfinished
    exact ⟨res, st', hstep, hwrote.writes⟩

end Proofs

def newRange (start length : Int) : WritevState where
  chunk := { chunkInit with type := .file, file := { chunkInit.file with start, length } }
  mmapOffset := 0
  memory := []
  bytesOut := 0

/-- The last two of three bytes. -/
theorem sendsRange_short : SendsRange [104, 105, 10] (newRange 1 2) := by
  apply (sendsRange_iff rfl ?_ ?_ ?_ ?_).mpr
  all_goals decide

/-- The last byte of a file, right behind the first area: the first write has nothing to write. -/
theorem not_sendsRange_border : ¬ SendsRange (List.replicate 524289 65) (newRange 524288 1) := by
  intro hsends
  have hsize : (newRange 524288 1).rangeEnd ≤ (List.replicate 524289 (65 : UInt8)).length := by
    rw [List.length_replicate]
    decide
  have hborder := absOffset_lt_of_sendsRange rfl (by decide) (by decide) hsize hsends
  exact absurd hborder (by decide)

end Lighttpd
