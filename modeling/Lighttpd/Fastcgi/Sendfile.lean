import Lighttpd.Fastcgi.ResponseHeader
import Lighttpd.Range.QueuedParts
import Mathlib.Algebra.Order.BigOperators.Group.List

/-!
# The files of `X-Sendfile2`

`fcgi_response_parse` queues each file as soon as its entry is parsed. A range is compared with
nothing but itself, and what is queued stays when a later entry is refused. So all is well exactly
if all entries are accepted and lie inside their files, or nothing was queued in front of the entry
that is refused (`sendsListed_iff`).
-/

namespace Lighttpd

open CLib

/-! ## What is listed -/

/-- A part of a file of `size` bytes. -/
structure FileRange where
  name : Bytes
  start : Int
  length : Int
  size : Int
  deriving DecidableEq, Repr

def FileRange.Inside (f : FileRange) : Prop := f.start + f.length ≤ f.size

instance (f : FileRange) : Decidable f.Inside := inferInstanceAs (Decidable (_ ≤ _))

section Listed

variable (files : Bytes → Option StatCacheEntry)

/-- The entry at `pos` and what is behind it and its comma; `none` if it is refused. -/
def listedFile (pos : Bytes) : Option (FileRange × Bytes) := do
  let n ← strchr pos 32
  let name := urldecoded false (pos.take n)
  let range := pos.drop (n + 1)
  let behind := range.dropWhile fun c => c != 32 && c != 44
  let sce ← files name
  if ¬ S_ISREG sce.st.stMode then none
  else
    let (beginRange, endRange) ← sendfileRange sce.st.stSize range behind
    let rest := behind.dropWhile (· == 32)
    let length := (endRange - beginRange + 1).bmod (2 ^ 64)
    if rest ≠ [] ∧ rest.head? ≠ some 44 then none
    else if length < 0 then none
    else some (⟨name, beginRange, length, sce.st.stSize⟩, rest.drop 1)

variable {files} in
theorem listedFile_behind {pos rest : Bytes} {f : FileRange}
    (h : listedFile files pos = some (f, rest)) :
    ∃ n, strchr pos 32 = some n ∧ rest.Sublist (pos.drop (n + 1)) := by
  unfold listedFile at h
  obtain ⟨n, hblank, h⟩ := Option.bind_eq_some_iff.mp h
  obtain ⟨sce, -, h⟩ := Option.bind_eq_some_iff.mp h
  split at h
  · nomatch h
  obtain ⟨⟨beginRange, endRange⟩, -, h⟩ := Option.bind_eq_some_iff.mp h
  dsimp only at h
  split at h
  · nomatch h
  split at h
  · nomatch h
  obtain ⟨-, rfl⟩ := Prod.mk.inj (Option.some.inj h)
  refine ⟨n, hblank, (List.drop_sublist 1 _).trans ?_⟩
  exact (List.dropWhile_sublist (· == 32)).trans (List.dropWhile_sublist _)

variable {files} in
theorem listedFile_shorter {pos rest : Bytes} {f : FileRange}
    (h : listedFile files pos = some (f, rest)) : rest.length < pos.length := by
  obtain ⟨n, hblank, hrest⟩ := listedFile_behind h
  have hlt := strchr_lt hblank
  have hle := hrest.length_le
  rw [List.length_drop] at hle
  omega

/-- The entries of a value in front of the first that is refused, and whether none is. -/
def listedFiles (pos : Bytes) : List FileRange × Bool :=
  if pos.dropWhile (· == 32) = [] then ([], true)
  else
    match _h : listedFile files (pos.dropWhile (· == 32)) with
    | none => ([], false)
    | some (f, rest) => (f :: (listedFiles rest).1, (listedFiles rest).2)
  termination_by pos.length
  decreasing_by
    all_goals
      have hshorter := listedFile_shorter _h
      have hblanks := (List.dropWhile_sublist (· == 32) (l := pos)).length_le
      omega

def listedAll : List Bytes → List FileRange × Bool
  | [] => ([], true)
  | value :: values =>
    match listedFiles files value with
    | (fs, false) => (fs, false)
    | (fs, true) => (fs ++ (listedAll values).1, (listedAll values).2)

end Listed

section Lengths

variable {files : Bytes → Option StatCacheEntry}

theorem listedFile_nonneg {pos rest : Bytes} {f : FileRange}
    (h : listedFile files pos = some (f, rest)) : 0 ≤ f.length := by
  unfold listedFile at h
  obtain ⟨n, -, h⟩ := Option.bind_eq_some_iff.mp h
  obtain ⟨sce, -, h⟩ := Option.bind_eq_some_iff.mp h
  split at h
  · nomatch h
  obtain ⟨⟨beginRange, endRange⟩, -, h⟩ := Option.bind_eq_some_iff.mp h
  dsimp only at h
  split at h
  · nomatch h
  split at h
  · nomatch h
  · next hlen =>
    obtain ⟨rfl, -⟩ := Prod.mk.inj (Option.some.inj h)
    exact Int.not_lt.mp hlen

theorem listedFiles_nonneg (pos : Bytes) : ∀ f ∈ (listedFiles files pos).1, 0 ≤ f.length := by
  fun_induction listedFiles files pos with
  | case1 pos hend => simp
  | case2 pos hne hfile => simp
  | case3 pos hne f rest hfile ih =>
    exact List.forall_mem_cons.mpr ⟨listedFile_nonneg hfile, ih⟩

theorem listedAll_nonneg (values : List Bytes) :
    ∀ f ∈ (listedAll files values).1, 0 ≤ f.length := by
  induction values with
  | nil => simp [listedAll]
  | cons value values ih =>
    have hfirst := @listedFiles_nonneg files value
    unfold listedAll
    generalize listedFiles files value = listed at hfirst
    obtain ⟨fs, _ | _⟩ := listed
    · exact hfirst
    · intro f hf
      exact (List.mem_append.mp hf).elim (hfirst f) (ih f)

end Lengths

def listedLength (fs : List FileRange) : Int := (fs.map FileRange.length).sum

def sendfileValues (allowXsendfile sendContentBody : Bool) (fields : List (Bytes × Bytes)) :
    List Bytes :=
  (fields.filter fun f => Obeyed allowXsendfile sendContentBody f).map (·.2)

/-! ## What is queued -/

def QueuedPiece.isFile : QueuedPiece → Bool
  | .text _ => false
  | .file _ _ _ => true

def filePieces (fs : List FileRange) : List QueuedPiece :=
  (fs.filter fun f => f.length ≠ 0).map fun f => .file f.name f.start f.length

/-- The files are queued, between the sizes of a chunked body if it is one. -/
structure QueuesFiles (cq cq' : Chunkqueue) (fs : List FileRange) : Prop where
  queued : ∃ pieces, cq'.queued = cq.queued ++ pieces ∧
    pieces.filter QueuedPiece.isFile = filePieces fs
  unchanged : filePieces fs = [] → cq' = cq

theorem filePieces_append (fs gs : List FileRange) :
    filePieces (fs ++ gs) = filePieces fs ++ filePieces gs := by
  unfold filePieces
  rw [List.filter_append, List.map_append]

theorem filePieces_eq_nil {fs : List FileRange} :
    filePieces fs = [] ↔ ∀ f ∈ fs, f.length = 0 := by
  unfold filePieces
  rw [List.map_eq_nil_iff, List.filter_eq_nil_iff]
  simp

section Queue

variable {cq cq' cq'' : Chunkqueue} {fs gs : List FileRange}

theorem QueuesFiles.refl (h : filePieces fs = []) : QueuesFiles cq cq fs :=
  ⟨⟨[], (List.append_nil _).symm, h.symm⟩, fun _ => rfl⟩

theorem QueuesFiles.trans (h : QueuesFiles cq cq' fs) (h' : QueuesFiles cq' cq'' gs) :
    QueuesFiles cq cq'' (fs ++ gs) := by
  obtain ⟨⟨pieces, hqueued, hfiles⟩, hsame⟩ := h
  obtain ⟨⟨pieces', hqueued', hfiles'⟩, hsame'⟩ := h'
  refine ⟨⟨pieces ++ pieces', ?_, ?_⟩, fun hnone => ?_⟩
  · rw [hqueued', hqueued, List.append_assoc]
  · rw [List.filter_append, hfiles, hfiles', filePieces_append]
  · rw [filePieces_append] at hnone
    obtain ⟨hnone, hnone'⟩ := List.append_eq_nil_iff.mp hnone
    exact (hsame' hnone').trans (hsame hnone)

theorem QueuesFiles.unchanged_iff (h : QueuesFiles cq cq' fs) :
    cq' = cq ↔ ∀ f ∈ fs, f.length = 0 := by
  rw [← filePieces_eq_nil]
  refine ⟨fun heq => ?_, h.unchanged⟩
  obtain ⟨pieces, hqueued, hfiles⟩ := h.queued
  rw [heq] at hqueued
  obtain rfl := List.self_eq_append_right.mp hqueued
  exact hfiles.symm

variable [Malloc]

theorem queued_chunkqueueAppendBuffer (cq : Chunkqueue) (b : Buffer) : ∃ texts,
    (chunkqueueAppendBuffer cq b).queued = cq.queued ++ texts ∧
      texts.filter QueuedPiece.isFile = [] := by
  unfold chunkqueueAppendBuffer
  split
  · exact ⟨[], (List.append_nil _).symm, rfl⟩
  · have hfirst := chunkqueueGetUnusedChunk_first cq
    obtain ⟨c, hc⟩ : ∃ c : Chunk, c = { (chunkqueueGetUnusedChunk cq).2 with
        type := .mem, offset := 0
        mem := bufferCopyStringBuffer (chunkqueueGetUnusedChunk cq).2.mem b } := ⟨_, rfl⟩
    refine ⟨[c.queued], ?_, by rw [hc]; rfl⟩
    dsimp only
    rw [← hc]
    unfold Chunkqueue.queued chunkqueueAppendChunk
    rw [List.map_append, hfirst]
    rfl

theorem queued_httpChunkAppendLen (q : HttpChunk) (len : Nat) : ∃ texts,
    (httpChunkAppendLen q len).writeQueue.queued = q.writeQueue.queued ++ texts ∧
      texts.filter QueuedPiece.isFile = [] := by
  unfold httpChunkAppendLen
  exact queued_chunkqueueAppendBuffer q.writeQueue _

theorem queued_httpChunkAppendFile (q : HttpChunk) {fn : Buffer} {f : FileRange}
    (hname : fileName fn = f.name) (hlen : f.length ≠ 0) : ∃ pieces,
    (httpChunkAppendFile q fn f.start f.length).writeQueue.queued =
        q.writeQueue.queued ++ pieces ∧
      pieces.filter QueuedPiece.isFile = [.file f.name f.start f.length] := by
  have hfile : ∀ cq, (chunkqueueAppendFile cq fn f.start f.length).queued =
      cq.queued ++ [.file f.name f.start f.length] := by
    intro cq
    rw [(grows_appendFile cq fn f.start f.length).queued, if_neg hlen, hname]
  have hend : ∀ cq, ∃ texts, (appendLiteral cq (ascii "\r\n")).queued = cq.queued ++ texts ∧
      texts.filter QueuedPiece.isFile = [] := fun cq =>
    ⟨_, (grows_chunkqueueAppendMem cq (List.concat_ne_nil _ _)).queued, rfl⟩
  have hfront : ∃ texts, (if q.chunked then httpChunkAppendLen q (f.length % 2 ^ 32).toNat
      else q).writeQueue.queued = q.writeQueue.queued ++ texts ∧
        texts.filter QueuedPiece.isFile = [] := by
    split
    · exact queued_httpChunkAppendLen q _
    · exact ⟨[], (List.append_nil _).symm, rfl⟩
  obtain ⟨size, hsize, hsizeTexts⟩ := hfront
  unfold httpChunkAppendFile
  dsimp only
  generalize (if q.chunked then httpChunkAppendLen q (f.length % 2 ^ 32).toNat else q) = q' at hsize
  split
  · obtain ⟨closing, hclosing, hclosingTexts⟩ :=
      hend (chunkqueueAppendFile q'.writeQueue fn f.start f.length)
    refine ⟨size ++ [.file f.name f.start f.length] ++ closing, ?_, ?_⟩
    · rw [hclosing, hfile, hsize, List.append_assoc, List.append_assoc, List.append_assoc]
    · rw [List.filter_append, List.filter_append, hsizeTexts, hclosingTexts]
      rfl
  · refine ⟨size ++ [.file f.name f.start f.length], ?_, ?_⟩
    · rw [hfile, hsize, List.append_assoc]
    · rw [List.filter_append, hsizeTexts]
      rfl

theorem queuesFiles_appendBodyFile (con : BackendConnection) {fn : Buffer} {f : FileRange}
    (hname : fileName fn = f.name) :
    QueuesFiles con.writeQueue
      (if f.length ≠ 0 then con.appendBodyFile fn f.start f.length else con).writeQueue [f] := by
  split
  · next hlen =>
    have hpiece : filePieces [f] = [.file f.name f.start f.length] := by
      unfold filePieces
      rw [List.filter_cons_of_pos (by simpa using hlen)]
      rfl
    refine ⟨?_, fun hnone => ?_⟩
    · rw [hpiece]
      exact queued_httpChunkAppendFile ⟨con.writeQueue, con.transferEncoding, con.tmpChunkLen⟩
        hname hlen
    · rw [hpiece] at hnone
      nomatch hnone
  · next hlen =>
    refine .refl (filePieces_eq_nil.mpr fun g hg => ?_)
    obtain rfl := List.mem_singleton.mp hg
    exact not_not.mp hlen

end Queue

section Entries

variable (files : Bytes → Option StatCacheEntry)

theorem listedFiles_end {pos : Bytes} (h : pos.dropWhile (· == 32) = []) :
    listedFiles files pos = ([], true) := by
  rw [listedFiles, if_pos h]

theorem listedFiles_refused {pos : Bytes} (hne : pos.dropWhile (· == 32) ≠ [])
    (h : listedFile files (pos.dropWhile (· == 32)) = none) :
    listedFiles files pos = ([], false) := by
  rw [listedFiles, if_neg hne]
  split
  · rfl
  · next hsome =>
    rw [h] at hsome
    nomatch hsome

theorem listedFiles_entry {pos rest : Bytes} {f : FileRange}
    (hne : pos.dropWhile (· == 32) ≠ [])
    (h : listedFile files (pos.dropWhile (· == 32)) = some (f, rest)) :
    listedFiles files pos = (f :: (listedFiles files rest).1, (listedFiles files rest).2) := by
  rw [listedFiles, if_neg hne]
  split
  · next hnone =>
    rw [h] at hnone
    nomatch hnone
  · next hsome =>
    rw [h] at hsome
    obtain ⟨rfl, rfl⟩ := Prod.mk.inj (Option.some.inj hsome)
    rfl

def statFiles (name : Buffer) : Option StatCacheEntry := files name.str

variable [Malloc]

theorem sendfile2Loop_entry (fuel : Nat) {pos : Bytes} (hpos : IsCStr pos) (st : FcgiParse)
    (hne : pos.dropWhile (· == 32) ≠ []) :
    match listedFile files (pos.dropWhile (· == 32)) with
    | none => ∃ con, sendfile2Loop (statFiles files) (fuel + 1) pos st = .ret con ∧
        con.writeQueue = st.con.writeQueue
    | some (f, rest) => ∃ con, sendfile2Loop (statFiles files) (fuel + 1) pos st =
          sendfile2Loop (statFiles files) fuel rest
            { st with
              con := con
              sendfile2ContentLength :=
                (st.sendfile2ContentLength + f.length).bmod (2 ^ 64) } ∧
        QueuesFiles st.con.writeQueue con.writeQueue [f] ∧
          con.response.headers = st.con.response.headers := by
  have hdrop : IsCStr (pos.dropWhile (· == 32)) := fun h0 =>
    hpos ((List.dropWhile_sublist _).subset h0)
  rw [sendfile2Loop]
  dsimp only
  rw [if_neg hne]
  generalize pos.dropWhile (· == 32) = pos at hdrop
  unfold listedFile
  cases hblank : strchr pos 32 with
  | none => exact ⟨_, rfl, rfl⟩
  | some n =>
    have hname : IsCStr (pos.take n) := fun h0 => hdrop (List.take_subset _ _ h0)
    obtain ⟨behind, hptr⟩ := (text_bufferCopyStringLen st.con.tmpBuf (pos.take n)).ptr_eq
    obtain ⟨url, accesses, hdecode, -, htext⟩ := bufferUrldecodeInternal_spec false hptr hname
    have hurl : url.str = urldecoded false (pos.take n) :=
      htext.str (isCStr_urldecoded false hname)
    have hchunk : fileName url = urldecoded false (pos.take n) :=
      (fileName_of_ended (ended_of_holds htext.holds htext.wf)).trans hurl
    unfold bufferUrldecodePath statFiles
    dsimp only [Option.bind_eq_bind, Option.bind_some]
    rw [hdecode, Flow.ofOption_some, Flow.next_bind]
    dsimp only
    rw [hurl]
    generalize (pos.drop (n + 1)).dropWhile (fun c => c != 32 && c != 44) = behind
    cases files (urldecoded false (pos.take n)) with
    | none => exact ⟨_, rfl, rfl⟩
    | some sce =>
      dsimp only [Option.bind_some]
      by_cases hreg : ¬ S_ISREG sce.st.stMode
      · rw [if_pos hreg, if_pos hreg]
        exact ⟨_, rfl, rfl⟩
      rw [if_neg hreg, if_neg hreg]
      cases sendfileRange sce.st.stSize (pos.drop (n + 1)) behind with
      | none => exact ⟨_, rfl, rfl⟩
      | some ends =>
        obtain ⟨beginRange, endRange⟩ := ends
        dsimp only [Option.bind_some]
        generalize (endRange - beginRange + 1).bmod (2 ^ 64) = length
        by_cases hrest : behind.dropWhile (· == 32) ≠ [] ∧
            (behind.dropWhile (· == 32)).head? ≠ some 44
        · rw [if_pos hrest, if_pos hrest]
          exact ⟨_, rfl, rfl⟩
        rw [if_neg hrest, if_neg hrest]
        by_cases hneg : length < 0
        · rw [if_pos hneg, if_pos hneg]
          exact ⟨_, rfl, rfl⟩
        rw [if_neg hneg, if_neg hneg]
        have hnext : (if (behind.dropWhile (· == 32)).head? = some 44 then
            (behind.dropWhile (· == 32)).drop 1 else behind.dropWhile (· == 32)) =
              (behind.dropWhile (· == 32)).drop 1 := by
          split
          · rfl
          · next hcomma =>
            rw [not_not.mp fun hne' => hrest ⟨hne', hcomma⟩]
            rfl
        rw [hnext]
        refine ⟨_, rfl, ?_, ?_⟩
        · exact queuesFiles_appendBodyFile { st.con with tmpBuf := url }
            (f := ⟨_, beginRange, length, sce.st.stSize⟩) hchunk
        · split
          · rfl
          · rfl

/-- The length is longer by `n`, as an `off_t` of 64 bits. -/
def Counts (st st' : FcgiParse) (n : Int) : Prop := ∀ m,
  st.sendfile2ContentLength = m.bmod (2 ^ 64) →
    st'.sendfile2ContentLength = (m + n).bmod (2 ^ 64)

omit [Malloc] in
theorem Counts.trans {st st' st'' : FcgiParse} {n n' : Int} (h : Counts st st' n)
    (h' : Counts st' st'' n') : Counts st st'' (n + n') := by
  intro m hm
  rw [h' _ (h m hm), Int.add_assoc]

structure ValueQueued (st st' : FcgiParse) (fs : List FileRange) : Prop where
  queue : QueuesFiles st.con.writeQueue st'.con.writeQueue fs
  counts : Counts st st' (listedLength fs)
  headers : st'.con.response.headers = st.con.response.headers
  haveSendfile2 : st'.haveSendfile2 = st.haveSendfile2

omit [Malloc] in
theorem ValueQueued.nil (st : FcgiParse) : ValueQueued st st [] := by
  refine ⟨.refl rfl, fun m hm => ?_, rfl, rfl⟩
  rw [hm]
  exact congrArg (fun x => x.bmod (2 ^ 64)) (Int.add_zero m).symm

theorem sendfile2Loop_value {fuel : Nat} {pos : Bytes} (hfuel : pos.length < fuel)
    (hpos : IsCStr pos) (st : FcgiParse) :
    (sendfile2Loop (statFiles files) fuel pos st).Total
      (fun st' => (listedFiles files pos).2 = true ∧
        ValueQueued st st' (listedFiles files pos).1)
      (fun con' => (listedFiles files pos).2 = false ∧
        QueuesFiles st.con.writeQueue con'.writeQueue (listedFiles files pos).1) := by
  induction fuel generalizing pos st with
  | zero => omega
  | succ fuel ih =>
    by_cases hne : pos.dropWhile (· == 32) = []
    · rw [listedFiles_end files hne]
      unfold sendfile2Loop
      dsimp only
      rw [if_pos hne]
      exact ⟨rfl, .nil st⟩
    have hentry := sendfile2Loop_entry files fuel hpos st hne
    have hblanks := List.dropWhile_sublist (· == 32) (l := pos)
    cases hfile : listedFile files (pos.dropWhile (· == 32)) with
    | none =>
      rw [hfile] at hentry
      obtain ⟨con, hrun, hqueue⟩ := hentry
      rw [listedFiles_refused files hne hfile, hrun]
      exact ⟨rfl, hqueue ▸ .refl rfl⟩
    | some entry =>
      obtain ⟨f, rest⟩ := entry
      rw [hfile] at hentry
      obtain ⟨con, hrun, hqueue, hheaders⟩ := hentry
      obtain ⟨n, -, hbehind⟩ := listedFile_behind hfile
      have hrest : IsCStr rest := fun h0 =>
        hpos (hblanks.subset (List.drop_subset _ _ (hbehind.subset h0)))
      have hshorter := listedFile_shorter hfile
      have hlength := hblanks.length_le
      rw [listedFiles_entry files hne hfile, hrun]
      refine (ih (by omega) hrest _).mono ?_ ?_
      · rintro st' ⟨hall, hmore⟩
        refine ⟨hall, hqueue.trans hmore.queue, fun m hm => ?_, hmore.headers.trans hheaders,
          hmore.haveSendfile2⟩
        have hnext := hmore.counts (m + f.length) (by
          dsimp only
          rw [hm, Int.bmod_add_bmod])
        rw [hnext, Int.add_assoc]
        rfl
      · rintro con' ⟨hall, hmore⟩
        exact ⟨hall, hqueue.trans hmore⟩

end Entries

section Lines

variable {files : Bytes → Option StatCacheEntry} {values more : List Bytes}

theorem listedAll_cons (value : Bytes) (values : List Bytes) :
    listedAll files (value :: values) =
      if (listedFiles files value).2 = true then
        ((listedFiles files value).1 ++ (listedAll files values).1, (listedAll files values).2)
      else ((listedFiles files value).1, false) := by
  rw [listedAll]
  generalize listedFiles files value = listed
  obtain ⟨fs, _ | _⟩ := listed
  · rfl
  · rfl

variable (more) in
theorem listedAll_append (h : (listedAll files values).2 = true) :
    listedAll files (values ++ more) =
      ((listedAll files values).1 ++ (listedAll files more).1, (listedAll files more).2) := by
  induction values with
  | nil => rfl
  | cons value values ih =>
    rw [listedAll_cons] at h
    rw [List.cons_append, listedAll_cons, listedAll_cons value values]
    split at h
    · next hfirst => rw [if_pos hfirst, if_pos hfirst, ih h, List.append_assoc]
    · nomatch h

variable (more) in
theorem listedAll_refused (h : (listedAll files values).2 = false) :
    listedAll files (values ++ more) = listedAll files values := by
  induction values with
  | nil => nomatch h
  | cons value values ih =>
    rw [listedAll_cons] at h
    rw [List.cons_append, listedAll_cons, listedAll_cons value values]
    split at h
    · next hfirst => rw [if_pos hfirst, if_pos hfirst, ih h]
    · next hfirst => rw [if_neg hfirst, if_neg hfirst]

theorem listedAll_single (value : Bytes) : listedAll files [value] = listedFiles files value := by
  rw [listedAll_cons]
  split
  · next h => exact Prod.ext (List.append_nil _) h.symm
  · next h => exact Prod.ext rfl (Bool.not_eq_true _ ▸ h).symm

/-- The values are obeyed: their files are queued and counted. -/
structure ValuesQueued (files : Bytes → Option StatCacheEntry) (values : List Bytes)
    (st st' : FcgiParse) : Prop where
  accepted : (listedAll files values).2 = true
  queue : QueuesFiles st.con.writeQueue st'.con.writeQueue (listedAll files values).1
  counts : Counts st st' (listedLength (listedAll files values).1)
  tidy : st.con.response.headers.Tidy → st'.con.response.headers.Tidy
  sent : st.haveSendfile2 = true ∨ values ≠ [] → st'.haveSendfile2 = true

/-- One of the values is refused. The files in front of it are queued. -/
structure ValuesRefused (files : Bytes → Option StatCacheEntry) (values : List Bytes)
    (cq : Chunkqueue) (con : BackendConnection) : Prop where
  refused : (listedAll files values).2 = false
  queue : QueuesFiles cq con.writeQueue (listedAll files values).1

theorem listedLength_append (fs gs : List FileRange) :
    listedLength (fs ++ gs) = listedLength fs + listedLength gs := by
  unfold listedLength
  rw [List.map_append, List.sum_append]

theorem ValuesQueued.trans {st st' st'' : FcgiParse} (h : ValuesQueued files values st st')
    (h' : ValuesQueued files more st' st'') :
    ValuesQueued files (values ++ more) st st'' := by
  have hall := listedAll_append more h.accepted
  refine ⟨?_, ?_, ?_, fun htidy => h'.tidy (h.tidy htidy), ?_⟩
  · rw [hall, h'.accepted]
  · rw [hall]
    exact h.queue.trans h'.queue
  · rw [hall, listedLength_append]
    exact h.counts.trans h'.counts
  · intro hsent
    by_cases hmore : more = []
    · refine h'.sent (Or.inl (h.sent ?_))
      rw [hmore, List.append_nil] at hsent
      exact hsent
    · exact h'.sent (Or.inr hmore)

theorem ValuesQueued.refused {st st' : FcgiParse} {con : BackendConnection}
    (h : ValuesQueued files values st st')
    (h' : ValuesRefused files more st'.con.writeQueue con) :
    ValuesRefused files (values ++ more) st.con.writeQueue con := by
  have hall := listedAll_append more h.accepted
  refine ⟨?_, ?_⟩
  · rw [hall, h'.refused]
  · rw [hall]
    exact h.queue.trans h'.queue

theorem ValuesRefused.append {cq : Chunkqueue} {con : BackendConnection}
    (h : ValuesRefused files values cq con) (more : List Bytes) :
    ValuesRefused files (values ++ more) cq con := by
  have hall := listedAll_refused more h.refused
  exact ⟨hall ▸ h.refused, hall ▸ h.queue⟩

theorem valuesQueued_nil {st st' : FcgiParse}
    (hqueue : st'.con.writeQueue = st.con.writeQueue)
    (hlength : st'.sendfile2ContentLength = st.sendfile2ContentLength)
    (htidy : st.con.response.headers.Tidy → st'.con.response.headers.Tidy)
    (hsent : st.haveSendfile2 = true → st'.haveSendfile2 = true) :
    ValuesQueued files [] st st' := by
  refine ⟨rfl, hqueue ▸ .refl rfl, fun m hm => ?_, htidy, fun h => ?_⟩
  · rw [hlength, hm]
    exact congrArg (fun x => x.bmod (2 ^ 64)) (Int.add_zero m).symm
  · exact hsent (h.resolve_right (not_not_intro rfl))

variable [Malloc] (files) (host : FcgiExtensionHost) (allowXsendfile sendContentBody : Bool)

theorem fcgiResponseLine_files {s : Bytes} (hs : IsCStr s) {st : FcgiParse}
    (htidy : st.con.response.headers.Tidy) :
    (fcgiResponseLine (statFiles files) host allowXsendfile sendContentBody st s).Total
      (ValuesQueued files
        (sendfileValues allowXsendfile sendContentBody (lineField s).toList) st)
      (ValuesRefused files
        (sendfileValues allowXsendfile sendContentBody (lineField s).toList)
        st.con.writeQueue) := by
  cases hline : lineField s with
  | none =>
    rw [fcgiResponseLine_none _ host allowXsendfile sendContentBody hline]
    exact valuesQueued_nil rfl rfl id id
  | some f =>
    obtain ⟨hname, hvalue⟩ := isCStr_lineField hs hline
    obtain ⟨con, hrun, htidy', hqueue⟩ := fcgiResponseLine_field (statFiles files) host
      allowXsendfile sendContentBody hline htidy
    rw [hrun, Option.toList_some]
    by_cases hobeyed : Obeyed allowXsendfile sendContentBody f
    · have hvalues : sendfileValues allowXsendfile sendContentBody [f] = [f.2] := by
        unfold sendfileValues
        rw [List.filter_cons_of_pos (by simpa using hobeyed)]
        rfl
      rw [fcgiKnownField_obeyed hname hobeyed, hvalues]
      refine (sendfile2Loop_value files (Nat.lt_succ_self _) hvalue _).mono ?_ ?_
      · rintro st' ⟨hall, hst'⟩
        rw [← listedAll_single] at hall hst'
        refine ⟨hall, ?_, hst'.counts, fun _ => ?_, fun _ => hst'.haveSendfile2⟩
        · rw [← hqueue]
          exact hst'.queue
        · rw [hst'.headers]
          exact htidy'
      · rintro con' ⟨hall, hcon'⟩
        rw [← listedAll_single] at hall hcon'
        rw [← hqueue]
        exact ⟨hall, hcon'⟩
    · have hvalues : sendfileValues allowXsendfile sendContentBody [f] = [] := by
        unfold sendfileValues
        rw [List.filter_cons_of_neg (by simpa using hobeyed)]
        rfl
      rw [hvalues]
      refine (fcgiKnownField_spec hname hvalue _).mono ?_ ?_
      · intro st' heffect
        obtain ⟨hkept, hlength⟩ := heffect.unqueued hobeyed
        refine valuesQueued_nil (hkept.trans hqueue) hlength (fun _ => ?_) fun hsent => ?_
        · rw [heffect.headers]
          exact htidy'
        · exact heffect.haveSendfile2.mpr (Or.inl hsent)
      · rintro con' ⟨-, h⟩
        exact absurd h hobeyed

theorem fcgiResponseLines_files {ss : List Bytes} (hss : ∀ s ∈ ss, IsCStr s) (st : FcgiParse)
    (htidy : st.con.response.headers.Tidy) :
    (fcgiResponseLines (statFiles files) host allowXsendfile sendContentBody ss st).Total
      (ValuesQueued files
        (sendfileValues allowXsendfile sendContentBody (ss.filterMap lineField)) st)
      (ValuesRefused files
        (sendfileValues allowXsendfile sendContentBody (ss.filterMap lineField))
        st.con.writeQueue) := by
  induction ss generalizing st with
  | nil => exact valuesQueued_nil rfl rfl id id
  | cons s ss ih =>
    have hcons : sendfileValues allowXsendfile sendContentBody ((s :: ss).filterMap lineField) =
        sendfileValues allowXsendfile sendContentBody (lineField s).toList ++
          sendfileValues allowXsendfile sendContentBody (ss.filterMap lineField) := by
      unfold sendfileValues
      rw [← List.map_append, ← List.filter_append, List.filterMap_cons]
      cases lineField s <;> rfl
    have hline := fcgiResponseLine_files files host allowXsendfile sendContentBody
      (hss s List.mem_cons_self) htidy
    rw [hcons]
    unfold fcgiResponseLines
    refine (hline.mono (fun _ hst => hst) fun con' hcon => hcon.append _).bind ?_
    intro st' hst'
    refine (ih (fun s' hs' => hss s' (List.mem_cons_of_mem _ hs')) _ (hst'.tidy htidy)).mono ?_ ?_
    · exact fun st'' hst'' => hst'.trans hst''
    · exact fun con' hcon' => hst'.refused hcon'

end Lines

/-! ## The header -/

/-- The files are in the queue, each part inside its file, and the length of the body is theirs. -/
structure ServesFiles (cq : Chunkqueue) (con : BackendConnection) (fs : List FileRange) : Prop where
  queued : QueuesFiles cq con.writeQueue fs
  inside : ∀ f ∈ fs, f.length ≠ 0 → f.Inside
  responseLength : con.responseLength = listedLength fs
  contentLength : ∃ ds ∈ con.response.headers.elements,
    ds.key.Text (ascii "Content-Length") ∧ ds.value.Text (decimal (listedLength fs))

/-- All files that are listed are sent, or the header is refused and nothing is queued. -/
def SendsListed (listed : List FileRange × Bool) (con : BackendConnection)
    (run : Option (FcgiAnswer × Bool)) : Prop :=
  ∃ ans' ok, run = some (ans', ok) ∧
    (ok = true → listed.2 = true ∧ ServesFiles con.writeQueue ans'.hctx.remoteConn listed.1) ∧
      (ok = false → ans'.hctx.remoteConn.writeQueue = con.writeQueue)

/-- The parts are inside their files, and short enough together; if one is refused there is nothing
to queue in front of it. -/
def FilesFit (listed : List FileRange × Bool) : Prop :=
  if listed.2 = true then
    (∀ f ∈ listed.1, f.length ≠ 0 → f.Inside) ∧ listedLength listed.1 < 2 ^ 63
  else ∀ f ∈ listed.1, f.length = 0

instance (listed : List FileRange × Bool) : Decidable (FilesFit listed) :=
  inferInstanceAs (Decidable (ite _ _ _))

theorem listedLength_fits {fs : List FileRange} (h : ∀ f ∈ fs, 0 ≤ f.length) :
    (listedLength fs).bmod (2 ^ 64) = listedLength fs ↔ listedLength fs < 2 ^ 63 := by
  have hnonneg : 0 ≤ listedLength fs := List.sum_nonneg fun n hn => by
    obtain ⟨f, hf, rfl⟩ := List.mem_map.mp hn
    exact h f hf
  generalize listedLength fs = n at hnonneg
  constructor
  · intro heq
    have hlt := Int.bmod_lt (x := n) (m := 2 ^ 64) (by decide)
    rw [heq] at hlt
    exact hlt
  · intro hlt
    exact Int.bmod_eq_of_le (by omega) (by omega)

section Header

variable [Malloc] (files : Bytes → Option StatCacheEntry) (host : FcgiExtensionHost)
  (allowXsendfile : Bool)

def fcgiHeaderText (ans : FcgiAnswer) (input : Buffer) : Bytes :=
  (bufferCopyStringBuffer ans.parseResponse input).str

def listedInHeader (ans : FcgiAnswer) (input : Buffer) : List FileRange × Bool :=
  listedAll files (sendfileValues allowXsendfile ans.hctx.sendContentBody
    (blockFields (fcgiHeaderText ans input)))

/-- **The files are sent exactly if they fit.** -/
theorem sendsListed_iff (ans : FcgiAnswer) (input : Buffer)
    (htidy : ans.hctx.remoteConn.response.headers.Tidy)
    (hlisted : ∃ f ∈ blockFields (fcgiHeaderText ans input),
      Obeyed allowXsendfile ans.hctx.sendContentBody f) :
    SendsListed (listedInHeader files allowXsendfile ans input) ans.hctx.remoteConn
        (fcgiResponseParse (statFiles files) host allowXsendfile ans input) ↔
      FilesFit (listedInHeader files allowXsendfile ans input) := by
  have hvalues : sendfileValues allowXsendfile ans.hctx.sendContentBody
      (blockFields (fcgiHeaderText ans input)) ≠ [] := by
    obtain ⟨f, hf, hobeyed⟩ := hlisted
    refine List.ne_nil_of_mem (a := f.2) (List.mem_map_of_mem ?_)
    exact List.mem_filter.mpr ⟨hf, decide_eq_true hobeyed⟩
  have ht : IsCStr (fcgiHeaderText ans input) := isCStr_cstr _
  have hss : ∀ s ∈ blockLines (fcgiHeaderText ans input), IsCStr s := fun s hs h0 =>
    ht (mem_of_mem_blockLines hs h0)
  have hlines := fcgiResponseLines_files files host allowXsendfile ans.hctx.sendContentBody hss
    ⟨ans.hctx.remoteConn, false, 0⟩ htidy
  rw [← blockFields] at hlines
  have hnonneg := @listedAll_nonneg files (sendfileValues allowXsendfile
    ans.hctx.sendContentBody (blockFields (fcgiHeaderText ans input)))
  unfold fcgiResponseParse SendsListed FilesFit listedInHeader
  dsimp only
  rw [responseLines_eq (Nat.lt_succ_self _), ← fcgiHeaderText]
  generalize hrun : fcgiResponseLines (statFiles files) host allowXsendfile
    ans.hctx.sendContentBody (blockLines (fcgiHeaderText ans input))
    ⟨ans.hctx.remoteConn, false, 0⟩ = run at hlines
  generalize sendfileValues allowXsendfile ans.hctx.sendContentBody
    (blockFields (fcgiHeaderText ans input)) = values at hvalues hlines hnonneg
  cases run with
  | fault => exact hlines.elim
  | ret con' =>
    obtain ⟨hrefused, hqueue⟩ := hlines
    rw [if_neg (by rw [hrefused]; decide), ← hqueue.unchanged_iff]
    constructor
    · rintro ⟨ans', ok, heq, -, hfailed⟩
      obtain ⟨rfl, rfl⟩ := Prod.mk.inj (Option.some.inj heq)
      exact hfailed rfl
    · intro hsame
      exact ⟨_, false, rfl, nofun, fun _ => hsame⟩
  | next st =>
    have hst : ValuesQueued files values ⟨ans.hctx.remoteConn, false, 0⟩ st := hlines
    obtain ⟨con', hlength, -, -, hqueue, hresponse, hfield, -⟩ := sendfile2Length_spec
      (hst.tidy htidy)
    obtain ⟨hhead, hlen, hkept⟩ := withLocation_kept con'
    have hcount : st.sendfile2ContentLength =
        (listedLength (listedAll files values).1).bmod (2 ^ 64) := by
      rw [hst.counts 0 rfl, Int.zero_add]
    dsimp only
    unfold fcgiResponseEnd
    rw [if_pos (hst.sent (Or.inr hvalues)), hlength, if_pos hst.accepted,
      ← listedLength_fits hnonneg]
    constructor
    · rintro ⟨ans', ok, heq, hdone, -⟩
      obtain ⟨rfl, rfl⟩ := Prod.mk.inj (Option.some.inj heq)
      obtain ⟨-, -, hinside, hsum, -⟩ := hdone rfl
      refine ⟨hinside, ?_⟩
      rw [← hcount, ← hresponse, ← hlen]
      exact hsum
    · rintro ⟨hinside, hfits⟩
      rw [hfits] at hcount
      refine ⟨_, true, rfl, fun _ => ⟨hst.accepted, ?_, hinside, ?_, ?_⟩, nofun⟩
      · show QueuesFiles _ con'.withLocation.writeQueue _
        rw [hkept, hqueue]
        exact hst.queue
      · show con'.withLocation.responseLength = _
        rw [hlen, hresponse, hcount]
      · show ∃ ds ∈ con'.withLocation.response.headers.elements, _
        rw [hhead, ← hcount]
        exact hfield

end Header

section Examples

def oneByteFiles (name : Bytes) : Option StatCacheEntry := filesOf 1 (textBuffer name)

def rangeBlock (range : String) : Bytes := ascii "X-Sendfile2: /f " ++ ascii range ++ ascii "\n"

def afterRange (range : String) : Option (FcgiAnswer × Bool) :=
  @fcgiResponseParse zeroMalloc (statFiles oneByteFiles) childHost true waitingAnswer
    (textBuffer (rangeBlock range))

def listedRange (range : String) : List FileRange × Bool :=
  @listedInHeader zeroMalloc oneByteFiles true waitingAnswer (textBuffer (rangeBlock range))

theorem listedRange_eq {range : String} {f : FileRange}
    (hvalues : sendfileValues true waitingAnswer.hctx.sendContentBody
      (blockFields (@fcgiHeaderText zeroMalloc waitingAnswer (textBuffer (rangeBlock range)))) =
        [ascii "/f " ++ ascii range])
    (hblanks : (ascii "/f " ++ ascii range).dropWhile (· == 32) = ascii "/f " ++ ascii range)
    (hfile : listedFile oneByteFiles (ascii "/f " ++ ascii range) = some (f, [])) :
    listedRange range = ([f], true) := by
  unfold listedRange listedInHeader
  rw [hvalues, listedAll_single, listedFiles_entry oneByteFiles _ (by rw [hblanks]; exact hfile),
    listedFiles_end _ rfl]
  rw [hblanks]
  exact List.append_ne_nil_of_left_ne_nil (by decide) _

theorem sendsListed_iff_byte :
    SendsListed (listedRange "0-0") waitingAnswer.hctx.remoteConn (afterRange "0-0") := by
  let _ : Malloc := zeroMalloc
  have hlisted : listedRange "0-0" = ([⟨ascii "/f", 0, 1, 1⟩], true) :=
    listedRange_eq (by decide +kernel) (by decide +kernel) (by decide +kernel)
  refine (sendsListed_iff oneByteFiles childHost true waitingAnswer
    (textBuffer (rangeBlock "0-0")) tidy_arrayInit (by decide +kernel)).mpr ?_
  have hfits : FilesFit (listedRange "0-0") := by
    rw [hlisted]
    decide
  exact hfits

/-- More bytes than the file has are queued. -/
theorem not_sendsListed_long :
    ¬ SendsListed (listedRange "0-9") waitingAnswer.hctx.remoteConn (afterRange "0-9") := by
  have hlisted : listedRange "0-9" = ([⟨ascii "/f", 0, 10, 1⟩], true) :=
    listedRange_eq (by decide +kernel) (by decide +kernel) (by decide +kernel)
  have hok : (afterRange "0-9").map Prod.snd = some true := by decide +kernel
  rintro ⟨ans', ok, hrun, hdone, -⟩
  rw [hrun] at hok
  obtain ⟨-, hserved⟩ := hdone (Option.some.inj hok)
  rw [hlisted] at hserved
  exact absurd (hserved.inside _ List.mem_cons_self (by decide)) (by decide)

end Examples

end Lighttpd
