import Lighttpd.Connections.ReadState
import Lighttpd.Fastcgi.Sent
import Lighttpd.Lib.Holdings
import Mathlib.Algebra.Order.Group.Multiset
import Mathlib.Tactic.Abel

/-!
# The temporary files of a request

`chunkqueue_get_append_tempfile` creates a file for a part of the body. Whoever reads the body, and
`network_backend_write` for a FastCGI request, opens the file again; `chunk_reset` removes it and
closes the descriptor. `fcgi_create_env` hands a file over to the write queue of the context. That
queue is freed with the context by `chunk_free`, which neither removes nor closes anything, so no
file is left behind as long as no context is freed before its files are sent
(`tempfilesSettled`). What happens to a connection is a run of events, over any number of requests;
bodies of at most 64 kB are not in files, and are left out.
-/

namespace Lighttpd

open CLib

inductive Resource where
  | file (name : Bytes)
  | fd (n : Nat)
  deriving DecidableEq, Repr

def Syscall.access : Syscall → List (Access Resource)
  | .unlink name => [.gave (.file name)]
  | .close fd => [.gave (.fd fd)]
  | .munmap _ _ => []
  | .mkstemp name => [.got (.file name)]

def accesses (calls : List Syscall) : List (Access Resource) := calls.flatMap Syscall.access

/-- `chunk_free` gives back memory only. -/
def chunkFree (_ : Chunk) : List Syscall := []

def chunkqueueFree (cq : Chunkqueue) : List Syscall :=
  cq.first.flatMap chunkFree ++ cq.unused.flatMap chunkFree

/-- What is done to a queue by those who read its chunks: the file of a chunk is opened if it is not
open, closed or mapped, a part is read, and what is finished is removed. -/
inductive QueueUse where
  | openFile (i fd : Nat)
  | closeFile (i : Nat)
  | map (i start length : Nat)
  | advance (i : Nat) (n : Int)
  | removeFinished

def mapChunk (start length : Nat) (c : Chunk) : Chunk :=
  { c with file := { c.file with mmapStart := some start, mmapLength := length } }

def QueueUse.apply (cq : Chunkqueue) : QueueUse → Chunkqueue × List (Access Resource)
  | .openFile i fd =>
    match cq.first[i]? with
    | some c =>
      if c.file.fd = none then (cq.modify i (·.setFd (some fd)), [.got (.fd fd)]) else (cq, [])
    | none => (cq, [])
  | .closeFile i =>
    match cq.first[i]? with
    | some c => (cq.modify i (·.setFd none), accesses (c.file.fd.toList.map .close))
    | none => (cq, [])
  | .map i start length => (cq.modify i (mapChunk start length), [])
  | .advance i n => (cq.modify i (advanceChunk n), [])
  | .removeFinished =>
    let (cq, calls) := chunkqueueRemoveFinishedChunks cq
    (cq, accesses calls)

/-- A connection: its `request_content_queue`, and the write queue of its context from
`fcgi_create_env` on; until then that queue is empty (`HandlerCtx.Sound`). -/
structure Upload where
  requestContentQueue : Chunkqueue
  wb : Option Chunkqueue
  log : List (Access Resource)

/-- A part of the body gets a file, and bytes are written to the last one; the body is read; a
request is made for the backend, and its queue written; the context is freed, and the connection
reset. -/
inductive UploadEvent where
  | tempfile (answers : Nat → MkstempAnswer)
  | store (n : Nat)
  | body (use : QueueUse)
  | request (fuel mode : Nat) (vars : List FcgiEnvVar) (requestId : Nat) (con : BackendConnection)
  | write (use : QueueUse)
  | free
  | reset

section Code

variable [Malloc]

/-- The connection after the event; `none` if it cannot come, or the server aborts. The plugins free
their contexts before the connection is reset. -/
def Upload.step (s : Upload) : UploadEvent → Option Upload
  | .tempfile answers =>
    let (cq, calls) := chunkqueueGetAppendTempfile s.requestContentQueue answers
    some { s with
      requestContentQueue := cq
      log := s.log ++ (accesses calls ++ cq.last.file.fd.toList.map fun fd => .got (.fd fd)) }
  | .store n =>
    let cq := s.requestContentQueue.mapLast (growChunk n)
    some { s with requestContentQueue := { cq with bytesIn := cq.bytesIn + n } }
  | .body use =>
    let (cq, log) := use.apply s.requestContentQueue
    some { s with requestContentQueue := cq, log := s.log ++ log }
  | .request fuel mode vars requestId con =>
    if s.wb.isSome then none
    else do
      let con := { con with requestContentQueue := s.requestContentQueue }
      let (_, con, wb, calls) ← fcgiCreateEnv fuel mode vars requestId con chunkqueueInit
      some { requestContentQueue := con.requestContentQueue, wb := some wb
             log := s.log ++ accesses calls }
  | .write use => do
    let wb ← s.wb
    let (wb, log) := use.apply wb
    some { s with wb := some wb, log := s.log ++ log }
  | .free => do
    let wb ← s.wb
    some { s with wb := none, log := s.log ++ accesses (chunkqueueFree wb) }
  | .reset =>
    if s.wb.isSome then none
    else
      let (cq, calls) := chunkqueueReset s.requestContentQueue
      some { s with requestContentQueue := cq, log := s.log ++ accesses calls }

end Code

/-! ## What a queue holds -/

def Chunk.held (c : Chunk) : List Resource :=
  (if c.file.isTemp ∧ ¬ bufferIsEmpty c.file.name then [.file c.file.name.str] else []) ++
    c.file.fd.toList.map .fd

def heldBy (cs : List Chunk) : Multiset Resource := (cs.flatMap Chunk.held : List Resource)

theorem heldBy_nil : heldBy [] = 0 := rfl

theorem heldBy_cons (c : Chunk) (cs : List Chunk) : heldBy (c :: cs) = c.held + heldBy cs := by
  unfold heldBy
  rw [List.flatMap_cons, Multiset.coe_add]

theorem heldBy_append (cs ds : List Chunk) : heldBy (cs ++ ds) = heldBy cs + heldBy ds := by
  unfold heldBy
  rw [List.flatMap_append, Multiset.coe_add]

theorem heldBy_concat (cs : List Chunk) (c : Chunk) : heldBy (cs ++ [c]) = heldBy cs + c.held := by
  rw [heldBy_append, heldBy_cons, heldBy_nil, add_zero]

theorem accesses_append (calls more : List Syscall) :
    accesses (calls ++ more) = accesses calls ++ accesses more := List.flatMap_append

theorem accesses_chunkReset (c : Chunk) :
    accesses (chunkReset c).2 = c.held.map .gave := by
  have hunmaps :
      accesses (c.file.mmapStart.toList.map (Syscall.munmap · c.file.mmapLength)) = [] := by
    cases c.file.mmapStart <;> rfl
  have hcloses : accesses (c.file.fd.toList.map Syscall.close) =
      (c.file.fd.toList.map Resource.fd).map .gave := by
    cases c.file.fd <;> rfl
  unfold chunkReset Chunk.held
  dsimp only
  rw [accesses_append, accesses_append, hunmaps, hcloses, List.append_nil, List.map_append]
  congr 1
  split <;> rfl

theorem holdings_removeFinished (cs : List Chunk) : ∀ (unused : List Chunk) (n : Nat),
    holdings (heldBy cs) (accesses (removeFinished cs unused n).2.2.2) =
      some (heldBy (removeFinished cs unused n).1) := by
  induction cs with
  | nil =>
    intro unused n
    rfl
  | cons c cs ih =>
    intro unused n
    unfold removeFinished
    split
    · dsimp only
      rw [accesses_append, accesses_chunkReset, heldBy_cons]
      exact holdings_trans (holdings_gave c.held (heldBy cs)) (ih _ _)
    · rfl

theorem clean_removeFinished (cs : List Chunk) : ∀ {unused : List Chunk} (n : Nat),
    (∀ c ∈ unused, c.Clean) → ∀ c ∈ (removeFinished cs unused n).2.1, c.Clean := by
  induction cs with
  | nil => exact fun _ hunused => hunused
  | cons c cs ih =>
    intro unused n hunused
    unfold removeFinished
    split
    · refine ih _ ?_
      unfold keepUnused
      split
      · exact hunused
      · exact List.forall_mem_cons.mpr ⟨clean_chunkReset c, hunused⟩
    · exact hunused

theorem heldBy_modify (f : Chunk → Chunk) (hf : ∀ c, (f c).held = c.held) (cs : List Chunk) :
    ∀ i, heldBy (cs.modify i f) = heldBy cs := by
  induction cs with
  | nil =>
    intro i
    cases i <;> rfl
  | cons c cs ih =>
    intro i
    cases i with
    | zero => rw [List.modify_zero_cons, heldBy_cons, heldBy_cons, hf]
    | succ i => rw [List.modify_succ_cons, heldBy_cons, heldBy_cons, ih]

theorem heldBy_at {c : Chunk} {cs : List Chunk} {i : Nat} (h : cs[i]? = some c) :
    ∃ rest : Multiset Resource, heldBy cs = c.held + rest ∧
      ∀ f : Chunk → Chunk, heldBy (cs.modify i f) = (f c).held + rest := by
  induction cs generalizing i with
  | nil => nomatch h
  | cons d cs ih =>
    cases i with
    | zero =>
      obtain rfl := Option.some.inj h
      exact ⟨heldBy cs, heldBy_cons d cs, fun f => heldBy_cons (f d) cs⟩
    | succ i =>
      obtain ⟨rest, hcs, hmodify⟩ := ih (by simpa using h)
      refine ⟨d.held + rest, ?_, fun f => ?_⟩
      · rw [heldBy_cons, hcs, add_left_comm]
      · rw [List.modify_succ_cons, heldBy_cons, hmodify, add_left_comm]

theorem held_setFd (c : Chunk) (fd : Option Nat) : ((c.setFd fd).held : Multiset Resource) =
    (c.setFd none).held + (fd.toList.map .fd : List Resource) := by
  unfold Chunk.held Chunk.setFd
  simp

theorem QueueUse.apply_held (use : QueueUse) (cq : Chunkqueue) :
    holdings (heldBy cq.first) (use.apply cq).2 = some (heldBy (use.apply cq).1.first) := by
  cases use with
  | openFile i fd =>
    simp only [QueueUse.apply]
    split
    · next c hc =>
      split
      · next hclosed =>
        obtain ⟨rest, hcs, hmodify⟩ := heldBy_at hc
        have hset : c.setFd none = c := by
          unfold Chunk.setFd
          rw [← hclosed]
        have hopened := held_setFd c (some fd)
        have hgot := holdings_got (heldBy cq.first) [Resource.fd fd]
        unfold Chunkqueue.modify
        rw [hmodify, hopened, hset, add_right_comm, ← hcs]
        exact hgot
      · rfl
    · rfl
  | closeFile i =>
    simp only [QueueUse.apply]
    split
    · next c hc =>
      obtain ⟨rest, hcs, hmodify⟩ := heldBy_at hc
      have hheld : (c.held : Multiset Resource) = (c.file.fd.toList.map .fd : List Resource) +
          ((c.setFd none).held : Multiset Resource) :=
        (held_setFd c c.file.fd).trans (add_comm _ _)
      have hgave : accesses (c.file.fd.toList.map Syscall.close) =
          (c.file.fd.toList.map Resource.fd).map .gave := by
        cases c.file.fd <;> rfl
      unfold Chunkqueue.modify
      rw [hmodify, hcs, hgave, hheld, add_assoc]
      exact holdings_gave _ _
    · rfl
  | map i start length =>
    exact congrArg some (heldBy_modify (mapChunk start length) (fun _ => rfl) cq.first i).symm
  | advance i n =>
    exact congrArg some (heldBy_modify (advanceChunk n) (fun _ => rfl) cq.first i).symm
  | removeFinished => exact holdings_removeFinished cq.first cq.unused cq.unusedChunks

/-- The chunks of a body, and those that wait to be used again. -/
structure BodyFiles (cq : Chunkqueue) : Prop where
  type : ∀ c ∈ cq.first, c.type = .file
  name : ∀ c ∈ cq.first, c.file.isTemp = true → c.file.name.Ended
  clean : ∀ c ∈ cq.unused, c.Clean

namespace BodyFiles

variable {cq : Chunkqueue}

theorem modify (h : BodyFiles cq) (f : Chunk → Chunk) (htype : ∀ c, (f c).type = c.type)
    (hname : ∀ c, (f c).file.name = c.file.name) (htemp : ∀ c, (f c).file.isTemp = c.file.isTemp)
    (i : Nat) : BodyFiles (cq.modify i f) := by
  have hall : ∀ c ∈ (cq.modify i f).first, c ∈ cq.first ∨ ∃ d ∈ cq.first, c = f d := by
    intro c hc
    obtain ⟨j, hj⟩ := List.mem_iff_getElem?.mp hc
    simp only [Chunkqueue.modify, List.getElem?_modify, Option.map_eq_map,
      Option.map_eq_some_iff] at hj
    obtain ⟨d, hd, rfl⟩ := hj
    split
    · exact Or.inr ⟨d, List.mem_of_getElem? hd, rfl⟩
    · exact Or.inl (List.mem_of_getElem? hd)
  refine ⟨?_, ?_, h.clean⟩
  · intro c hc
    rcases hall c hc with hold | ⟨d, hd, rfl⟩
    · exact h.type c hold
    · exact (htype d).trans (h.type d hd)
  · intro c hc hown
    rcases hall c hc with hold | ⟨d, hd, rfl⟩
    · exact h.name c hold hown
    · rw [hname]
      exact h.name d hd ((htemp d).symm.trans hown)

theorem removeFinishedChunks (h : BodyFiles cq) :
    BodyFiles (chunkqueueRemoveFinishedChunks cq).1 := by
  have hsub := (removeFinished_subset cq.first cq.unused cq.unusedChunks).1
  exact ⟨fun c hc => h.type c (hsub c hc), fun c hc => h.name c (hsub c hc),
    clean_removeFinished cq.first cq.unusedChunks h.clean⟩

theorem use (h : BodyFiles cq) (use : QueueUse) : BodyFiles (use.apply cq).1 := by
  cases use with
  | openFile i fd =>
    simp only [QueueUse.apply]
    split
    · split
      · exact h.modify (·.setFd (some fd)) (fun _ => rfl) (fun _ => rfl) (fun _ => rfl) i
      · exact h
    · exact h
  | closeFile i =>
    simp only [QueueUse.apply]
    split
    · exact h.modify (·.setFd none) (fun _ => rfl) (fun _ => rfl) (fun _ => rfl) i
    · exact h
  | map i start length =>
    exact h.modify (mapChunk start length) (fun _ => rfl) (fun _ => rfl) (fun _ => rfl) i
  | advance i n => exact h.modify (advanceChunk n) (fun _ => rfl) (fun _ => rfl) (fun _ => rfl) i
  | removeFinished => exact h.removeFinishedChunks

end BodyFiles

section Request

variable [Malloc] {wb wb' reqCq reqCq' : Chunkqueue} {calls : List Syscall}

/-- The files of the body go from its queue to the write queue, which reuses no chunk. -/
structure HandsOver (wb reqCq wb' reqCq' : Chunkqueue) (calls : List Syscall) : Prop where
  unused : wb'.unused = []
  files : BodyFiles reqCq'
  held : holdings (heldBy wb.first + heldBy reqCq.first) (accesses calls) =
    some (heldBy wb'.first + heldBy reqCq'.first)

omit [Malloc] in
theorem HandsOver.trans {wb'' reqCq'' : Chunkqueue} {more : List Syscall}
    (h : HandsOver wb reqCq wb' reqCq' calls) (h' : HandsOver wb' reqCq' wb'' reqCq'' more) :
    HandsOver wb reqCq wb'' reqCq'' (calls ++ more) := by
  refine ⟨h'.unused, h'.files, ?_⟩
  rw [accesses_append]
  exact holdings_trans h.held h'.held

omit [Malloc] in
theorem HandsOver.of_same (hunused : wb'.unused = []) (hfiles : BodyFiles reqCq)
    (hheld : heldBy wb'.first = heldBy wb.first) : HandsOver wb reqCq wb' reqCq [] := by
  refine ⟨hunused, hfiles, ?_⟩
  rw [hheld]
  rfl

omit [Malloc] in
theorem heldBy_getAppendBuffer (h : wb.unused = []) :
    (chunkqueueGetAppendBuffer wb).unused = [] ∧
      heldBy (chunkqueueGetAppendBuffer wb).first = heldBy wb.first := by
  unfold chunkqueueGetAppendBuffer
  rw [getUnusedChunk_nil h]
  refine ⟨h, ?_⟩
  dsimp only [chunkqueueAppendChunk]
  rw [heldBy_concat]
  exact add_zero _

theorem heldBy_appendBytes (h : wb.unused = []) (s : Bytes) :
    (appendBytes wb s).2.unused = [] ∧ heldBy (appendBytes wb s).2.first = heldBy wb.first := by
  obtain ⟨hunused, hheld⟩ := heldBy_getAppendBuffer h
  refine ⟨hunused, ?_⟩
  rw [← hheld]
  exact heldBy_modify (fun c => { c with mem := bufferCopyMemory c.mem (some s) })
    (fun _ => rfl) _ _

theorem heldBy_appendMemory (i : Nat) (s : Bytes) :
    heldBy (appendMemory i s wb).first = heldBy wb.first :=
  heldBy_modify (fun c => { c with mem := bufferAppendMemory c.mem (some s) }) (fun _ => rfl) _ _

omit [Malloc] in
theorem heldBy_addVirtualZero (i : Nat) : heldBy (addVirtualZero i wb).first = heldBy wb.first :=
  heldBy_modify (fun c => { c with mem := { c.mem with used := c.mem.used + 1 } })
    (fun _ => rfl) _ _

theorem appendFile_last (h : wb.unused = []) (fn : Buffer) (offset : Int) {len : Int}
    (hlen : len ≠ 0) : ∃ c, (chunkqueueAppendFile wb fn offset len).first = wb.first ++ [c] ∧
      (chunkqueueAppendFile wb fn offset len).unused = [] ∧ c.type = .file ∧
      c.file.fd = none ∧ c.file.isTemp = false ∧
      c.file.name = bufferCopyStringBuffer bufferInit fn := by
  unfold chunkqueueAppendFile
  rw [if_neg hlen, getUnusedChunk_nil h]
  exact ⟨_, rfl, h, rfl, rfl, rfl, rfl⟩

omit [Malloc] in
theorem held_of_isTemp_false {c : Chunk} (htemp : c.file.isTemp = false) (hfd : c.file.fd = none) :
    c.held = [] := by
  unfold Chunk.held
  rw [htemp, hfd]
  rfl

theorem ended_bufferCopyStringBuffer (b : Buffer) {src : Buffer} (h : src.Ended) :
    (bufferCopyStringBuffer b src).Ended := by
  have hused : src.used ≠ 0 := by
    obtain ⟨s, rest, -, hused⟩ := h
    omega
  exact ended_of_holds (bufferCopyStringBuffer_bytes b hused) (wf_bufferCopyStringBuffer b src)

theorem held_stolen {c c' last last' : Chunk} (hended : c.file.name.Ended)
    (htemp : c.file.isTemp = true) (hc' : c'.file = { c.file with isTemp := false })
    (hname : last.file.name = bufferCopyStringBuffer bufferInit c.file.name)
    (hfd : last.file.fd = none) (hlast' : last'.file = { last.file with isTemp := true }) :
    (c.held : Multiset Resource) = (last'.held : Multiset Resource) + c'.held := by
  have hused : c.file.name.used ≠ 0 := by
    obtain ⟨s, rest, -, hused⟩ := hended
    omega
  have hcopy : (bufferCopyStringBuffer bufferInit c.file.name).used ≠ 0 := by
    rw [bufferCopyStringBuffer, if_neg hused, bufferCopyStringLen_used]
    omega
  unfold Chunk.held
  simp only [hc', hlast', hname, bufferCopyStringBuffer_str _ hended, htemp, hfd, bufferIsEmpty,
    beq_iff_eq, hused, hcopy, not_false_eq_true, and_self, if_true, Bool.false_eq_true, false_and,
    if_false, Option.toList_none, List.map_nil, List.append_nil, List.nil_append,
    Multiset.coe_add]

theorem takeFromBody_handsOver {i : Nat} {room n : Int} (hunused : wb.unused = [])
    (hfiles : BodyFiles reqCq)
    (hrun : takeFromBody i room wb reqCq = some (n, wb', reqCq', calls)) :
    HandsOver wb reqCq wb' reqCq' calls := by
  unfold takeFromBody at hrun
  split at hrun
  · nomatch hrun
  · next c cs hfirst =>
    have hmem : c ∈ reqCq.first := by simp [hfirst]
    have hrest : ∀ (d : Chunk) (m : Int), d.type = .file →
        (d.file.isTemp = true → d.file.name.Ended) →
          BodyFiles { reqCq with first := d :: cs, bytesOut := m } := by
      intro d m htype hname
      have htypes := hfiles.type
      have hnames := hfiles.name
      rw [hfirst] at htypes hnames
      exact ⟨List.forall_mem_cons.mpr ⟨htype, (List.forall_mem_cons.mp htypes).2⟩,
        List.forall_mem_cons.mpr ⟨hname, (List.forall_mem_cons.mp hnames).2⟩, hfiles.clean⟩
    rw [hfiles.type c hmem] at hrun
    dsimp only at hrun
    split at hrun
    · nomatch hrun
    · next hsome =>
      obtain ⟨last, happended, hempty, hlasttype, hlastfd, hlasttemp, hlastname⟩ :=
        appendFile_last hunused c.file.name c.offset hsome
      rw [happended, List.getLast?_concat, List.dropLast_concat] at hrun
      dsimp only at hrun
      split at hrun
      · split at hrun
        · nomatch hrun
        · next hasserted =>
          have htemp : c.file.isTemp = true := not_not.mp fun hnot => hasserted (Or.inr hnot)
          let c' : Chunk := { c with
            type := .file
            offset := c.offset + min (c.file.length - c.offset) room
            file := { c.file with isTemp := false } }
          let reqCq₁ : Chunkqueue := { reqCq with
            first := c' :: cs
            bytesOut := reqCq.bytesOut + min (c.file.length - c.offset) room }
          have hbody : BodyFiles reqCq₁ := hrest c' _ rfl nofun
          let last' : Chunk := { last with file := { last.file with isTemp := true } }
          have hstolen : (c.held : Multiset Resource) =
              (last'.held : Multiset Resource) + c'.held :=
            held_stolen (hfiles.name c hmem htemp) htemp rfl hlastname hlastfd rfl
          have hbefore : heldBy wb.first + heldBy reqCq.first =
              heldBy reqCq₁.first + heldBy (wb.first ++ [last']) := by
            rw [heldBy_concat, hfirst, heldBy_cons c, hstolen, heldBy_cons c']
            abel
          have hremoved := holdings_add (holdings_removeFinished reqCq₁.first reqCq₁.unused
            reqCq₁.unusedChunks) (heldBy (wb.first ++ [last']))
          obtain ⟨-, rfl, rfl, rfl⟩ := by
            simpa only [Option.some.injEq, Prod.mk.injEq] using hrun
          refine ⟨hempty, hbody.removeFinishedChunks, ?_⟩
          rw [hbefore]
          exact hremoved.trans (congrArg some (add_comm _ _))
      · obtain ⟨-, rfl, rfl, rfl⟩ := by
          simpa only [Option.some.injEq, Prod.mk.injEq] using hrun
        refine ⟨hempty, hrest _ _ rfl (hfiles.name c hmem), ?_⟩
        have hlast : last.held = [] := held_of_isTemp_false hlasttemp hlastfd
        dsimp only
        rw [heldBy_concat, hlast, hfirst, heldBy_cons, heldBy_cons]
        exact congrArg some (congrArg (· + _) (add_zero _).symm)

theorem fillRecord_handsOver {i : Nat} {weWant : Int} : ∀ (fuel : Nat) {written : Int}
    {wb reqCq wb' reqCq' : Chunkqueue} {calls : List Syscall}, wb.unused = [] → BodyFiles reqCq →
    fillRecord i weWant fuel written wb reqCq = some (wb', reqCq', calls) →
      HandsOver wb reqCq wb' reqCq' calls
  | 0, _, _, _, _, _, _, _, _, hrun => by nomatch hrun
  | fuel + 1, written, wb, reqCq, wb', reqCq', calls, hunused, hfiles, hrun => by
    unfold fillRecord at hrun
    split at hrun
    · obtain ⟨rfl, rfl, rfl⟩ := by simpa only [Option.some.injEq, Prod.mk.injEq] using hrun
      exact HandsOver.of_same hunused hfiles rfl
    · simp only [Option.bind_eq_bind, Option.bind_eq_some_iff, Option.some.injEq,
        Prod.mk.injEq] at hrun
      obtain ⟨_, hturn, _, hrest, rfl, rfl, rfl⟩ := hrun
      have hfirst := takeFromBody_handsOver hunused hfiles hturn
      exact hfirst.trans (fillRecord_handsOver fuel hfirst.unused hfirst.files hrest)

theorem sendBody_handsOver {requestId : Nat} : ∀ (fuel : Nat) {offset : Int}
    {wb reqCq wb' reqCq' : Chunkqueue} {calls : List Syscall}, wb.unused = [] → BodyFiles reqCq →
    sendBody requestId fuel offset wb reqCq = some (wb', reqCq', calls) →
      HandsOver wb reqCq wb' reqCq' calls
  | 0, _, _, _, _, _, _, _, _, hrun => by nomatch hrun
  | fuel + 1, offset, wb, reqCq, wb', reqCq', calls, hunused, hfiles, hrun => by
    unfold sendBody at hrun
    split at hrun
    · obtain ⟨rfl, rfl, rfl⟩ := by simpa only [Option.some.injEq, Prod.mk.injEq] using hrun
      exact HandsOver.of_same hunused hfiles rfl
    · simp only [Option.bind_eq_bind, Option.bind_eq_some_iff, Option.some.injEq,
        Prod.mk.injEq] at hrun
      obtain ⟨header, -, _, hfill, _, hrest, rfl, rfl, rfl⟩ := hrun
      obtain ⟨hbegun, hheader⟩ := heldBy_appendBytes hunused header
      have hfilled := fillRecord_handsOver fuel (by exact hbegun) hfiles hfill
      have hturn : HandsOver wb reqCq _ _ _ :=
        ⟨hfilled.unused, hfilled.files, by rw [← hheader]; exact hfilled.held⟩
      have hended : HandsOver _ _ (addVirtualZero _ _) _ [] :=
        .of_same hfilled.unused hfilled.files (heldBy_addVirtualZero (appendBytes wb header).1)
      have hmore := sendBody_handsOver fuel hended.unused hended.files hrest
      have hall := (hturn.trans hended).trans hmore
      rwa [List.append_nil] at hall

theorem fcgiCreateEnv_handsOver {fuel mode requestId : Nat} {vars : List FcgiEnvVar}
    {con con' : BackendConnection} {ret : Int} (hunused : wb.unused = [])
    (hfiles : BodyFiles con.requestContentQueue)
    (hrun : fcgiCreateEnv fuel mode vars requestId con wb = some (ret, con', wb', calls)) :
    HandsOver wb con.requestContentQueue wb' con'.requestContentQueue calls := by
  simp only [fcgiCreateEnv, Option.bind_eq_bind, Option.bind_eq_some_iff] at hrun
  obtain ⟨header, -, hrun⟩ := hrun
  obtain ⟨hbegun, hheader⟩ := heldBy_appendBytes hunused (header ++ beginBody mode)
  split at hrun
  · obtain ⟨-, rfl, rfl, rfl⟩ := by simpa only [Option.some.injEq, Prod.mk.injEq] using hrun
    exact HandsOver.of_same hbegun hfiles hheader
  · simp only [Option.bind_eq_some_iff, Option.some.injEq, Prod.mk.injEq] at hrun
    obtain ⟨wb₁, hparams, ⟨wb₂, reqCq₂, calls₂⟩, hsent, wb₃, hend, -, rfl, rfl, rfl⟩ := hrun
    have hparams' : HandsOver wb con.requestContentQueue wb₁ con.requestContentQueue [] := by
      simp only [queueParams, Option.bind_eq_bind, Option.bind_eq_some_iff, Option.some.injEq]
        at hparams
      obtain ⟨_, -, _, -, rfl⟩ := hparams
      refine HandsOver.of_same hbegun hfiles ?_
      dsimp only
      rw [heldBy_addVirtualZero, heldBy_appendMemory, heldBy_appendMemory, heldBy_appendMemory]
      exact hheader
    have hsent' : HandsOver wb₁ con.requestContentQueue wb₂ reqCq₂ calls₂ := by
      split at hsent
      · exact sendBody_handsOver fuel hparams'.unused hfiles hsent
      · obtain ⟨rfl, rfl, rfl⟩ := by simpa only [Option.some.injEq, Prod.mk.injEq] using hsent
        exact HandsOver.of_same hparams'.unused hfiles rfl
    have hend' : HandsOver wb₂ reqCq₂ wb₃ reqCq₂ [] := by
      simp only [queueEnd, Option.bind_eq_bind, Option.bind_eq_some_iff, Option.some.injEq] at hend
      obtain ⟨last, -, rfl⟩ := hend
      obtain ⟨hempty, hlast⟩ := heldBy_appendBytes hsent'.unused last
      refine HandsOver.of_same hempty hsent'.files ?_
      dsimp only
      rw [heldBy_addVirtualZero]
      exact hlast
    have hall := (hparams'.trans hsent').trans hend'
    rwa [List.append_nil] at hall

end Request

section Runs

variable [Malloc]

/-- Between two events: what the log leaves is held by the two queues. -/
structure Upload.Sound (s : Upload) : Prop where
  files : BodyFiles s.requestContentQueue
  held : holdings 0 s.log =
    some (heldBy s.requestContentQueue.first + heldBy ((s.wb.map (·.first)).getD []))

/-- What is freed holds nothing; and where no file can be created the chunk is a new one, or its
`is_temp` is clear. -/
def UploadEvent.Settles (s : Upload) : UploadEvent → Prop
  | .tempfile answers => (createTempfile s.requestContentQueue.tempdirs answers).1 = none →
      ∀ c ∈ s.requestContentQueue.unused.head?, c.file.isTemp = false
  | .free => ∀ wb ∈ s.wb, ∀ c ∈ wb.first, c.held = []
  | _ => True

variable {s s' : Upload}

theorem getAppendTempfile_held {cq : Chunkqueue} (h : BodyFiles cq)
    {answers : Nat → MkstempAnswer}
    (hclear : (createTempfile cq.tempdirs answers).1 = none →
      ∀ c ∈ cq.unused.head?, c.file.isTemp = false) :
    BodyFiles (chunkqueueGetAppendTempfile cq answers).1 ∧
      ∃ c, (chunkqueueGetAppendTempfile cq answers).1.first = cq.first ++ [c] ∧
        accesses (chunkqueueGetAppendTempfile cq answers).2 ++
          c.file.fd.toList.map (fun fd => .got (.fd fd)) = c.held.map .got := by
  obtain ⟨cq₁, c, hget, hfirst, hunused, htempdirs, hold⟩ : ∃ cq₁ c,
      chunkqueueGetUnusedChunk cq = (cq₁, c) ∧ cq₁.first = cq.first ∧
        (∀ d ∈ cq₁.unused, d.Clean) ∧ cq₁.tempdirs = cq.tempdirs ∧
        ((createTempfile cq.tempdirs answers).1 = none → c.file.isTemp = false) := by
    unfold chunkqueueGetUnusedChunk
    split
    · exact ⟨_, _, rfl, rfl, h.clean, rfl, fun _ => rfl⟩
    · next d ds hunused =>
      have hclean := h.clean
      rw [hunused] at hclean hclear
      exact ⟨_, _, rfl, rfl, (List.forall_mem_cons.mp hclean).2, rfl,
        fun hnone => hclear hnone d rfl⟩
  unfold chunkqueueGetAppendTempfile
  rw [hget]
  dsimp only
  rw [htempdirs]
  cases hcreated : createTempfile cq.tempdirs answers with
  | mk fd template =>
    rw [hcreated] at hold
    have hname : fd.isSome → template.Ended := by
      intro hsome
      obtain ⟨n, rfl⟩ := Option.isSome_iff_exists.mp hsome
      exact ended_createTempfile hcreated
    dsimp only [chunkqueueAppendChunk] at hold ⊢
    rw [hfirst]
    refine ⟨⟨?_, ?_, hunused⟩, _, rfl, ?_⟩
    · intro d hd
      rcases List.mem_append.mp hd with hd | hd
      · exact h.type d hd
      · rw [List.mem_singleton.mp hd]
    · intro d hd htemp
      rcases List.mem_append.mp hd with hd | hd
      · exact h.name d hd htemp
      · rw [List.mem_singleton.mp hd] at htemp ⊢
        dsimp only at htemp ⊢
        split at htemp
        · next hsome => exact ended_bufferCopyStringBuffer _ (hname hsome)
        · next hnone =>
          rw [hold (by simpa using hnone)] at htemp
          nomatch htemp
    · cases fd with
      | none =>
        unfold Chunk.held
        simp [hold rfl, accesses]
      | some n =>
        obtain ⟨s, rest, hptr, hused⟩ := hname rfl
        have hne : (bufferCopyStringBuffer c.file.name template).used ≠ 0 := by
          rw [bufferCopyStringBuffer, if_neg (by omega), bufferCopyStringLen_used]
          omega
        unfold Chunk.held
        simp [accesses, Syscall.access, bufferIsEmpty, hne,
          bufferCopyStringBuffer_str c.file.name (hname rfl)]

theorem Upload.Sound.tempfile (h : s.Sound) {answers : Nat → MkstempAnswer}
    (hevent : (UploadEvent.tempfile answers).Settles s)
    (hrun : s.step (.tempfile answers) = some s') : s'.Sound := by
  obtain ⟨hfiles, c, hfirst, hlog⟩ := getAppendTempfile_held h.files hevent
  have hs' : s' = { s with
      requestContentQueue := (chunkqueueGetAppendTempfile s.requestContentQueue answers).1
      log := s.log ++ (accesses (chunkqueueGetAppendTempfile s.requestContentQueue answers).2 ++
        (chunkqueueGetAppendTempfile s.requestContentQueue answers).1.last.file.fd.toList.map
          fun fd => .got (.fd fd)) } := (Option.some.inj hrun).symm
  rw [hs']
  generalize chunkqueueGetAppendTempfile s.requestContentQueue answers = r at hfiles hfirst hlog ⊢
  have hlast : r.1.last = c := by
    unfold Chunkqueue.last
    rw [hfirst, List.getLast?_concat]
    rfl
  refine ⟨hfiles, ?_⟩
  dsimp only
  rw [hlast, hlog, hfirst, heldBy_concat, add_right_comm]
  exact holdings_trans h.held (holdings_got _ c.held)

omit [Malloc] in
theorem mapLast_held {cq : Chunkqueue} (h : BodyFiles cq) (n : Int) :
    BodyFiles (cq.mapLast (growChunk n)) ∧
      heldBy (cq.mapLast (growChunk n)).first = heldBy cq.first := by
  have hkept : ∀ c : Chunk, (growChunk n c).type = c.type ∧
      (growChunk n c).file.name = c.file.name ∧
      (growChunk n c).file.isTemp = c.file.isTemp ∧ (growChunk n c).held = c.held := by
    intro c
    unfold growChunk
    split <;> exact ⟨rfl, rfl, rfl, rfl⟩
  unfold Chunkqueue.mapLast
  rcases cq.first.eq_nil_or_concat' with hnil | ⟨front, c, hcs⟩
  · rw [hnil]
    refine ⟨⟨nofun, nofun, h.clean⟩, rfl⟩
  · obtain ⟨htype, hname, htemp, hheld⟩ := hkept c
    have htypes := h.type
    have hnames := h.name
    rw [hcs] at htypes hnames ⊢
    rw [List.dropLast_concat, List.getLast?_concat]
    dsimp only [Option.map_some, Option.toList_some]
    rw [heldBy_concat, heldBy_concat, hheld, and_iff_left rfl]
    refine ⟨?_, ?_, h.clean⟩
    · intro d hd
      rcases List.mem_append.mp hd with hd | hd
      · exact htypes d (List.mem_append_left _ hd)
      · rw [List.mem_singleton.mp hd, htype]
        exact htypes c (by simp)
    · intro d hd
      rcases List.mem_append.mp hd with hd | hd
      · exact hnames d (List.mem_append_left _ hd)
      · rw [List.mem_singleton.mp hd, hname, htemp]
        exact hnames c (by simp)

omit [Malloc] in
theorem chunkqueueReset_held {cq : Chunkqueue} (h : BodyFiles cq) :
    BodyFiles (chunkqueueReset cq).1 ∧ (chunkqueueReset cq).1.first = [] ∧
      holdings (heldBy cq.first) (accesses (chunkqueueReset cq).2) = some 0 := by
  have hmarked : ∀ c ∈ cq.first, (markWritten c).type = .file ∧
      (markWritten c).file = c.file ∧ chunkIsFinished (markWritten c) = true := by
    intro c hc
    unfold markWritten chunkIsFinished
    rw [h.type c hc]
    exact ⟨rfl, rfl, by simp⟩
  have hheld : heldBy (cq.first.map markWritten) = heldBy cq.first := by
    unfold heldBy
    rw [List.flatMap_map]
    refine congrArg _ (List.flatMap_congr fun c hc => ?_)
    unfold Chunk.held
    rw [(hmarked c hc).2.1]
  have hfiles : BodyFiles { cq with first := cq.first.map markWritten } := by
    refine ⟨?_, ?_, h.clean⟩
    · intro c hc
      obtain ⟨d, hd, rfl⟩ := List.mem_map.mp hc
      exact (hmarked d hd).1
    · intro c hc
      obtain ⟨d, hd, rfl⟩ := List.mem_map.mp hc
      rw [(hmarked d hd).2.1]
      exact h.name d hd
  have hempty := removeFinished_all (cq.first.map markWritten) (by
    intro c hc
    obtain ⟨d, hd, rfl⟩ := List.mem_map.mp hc
    exact (hmarked d hd).2.2) cq.unused cq.unusedChunks
  have hremoved := holdings_removeFinished (cq.first.map markWritten) cq.unused cq.unusedChunks
  rw [hheld, hempty] at hremoved
  have hkept := hfiles.removeFinishedChunks
  exact ⟨⟨hkept.type, hkept.name, hkept.clean⟩, hempty, hremoved⟩

theorem Upload.Sound.step {event : UploadEvent} (h : s.Sound) (hevent : event.Settles s)
    (hrun : s.step event = some s') : s'.Sound := by
  cases event with
  | tempfile answers => exact h.tempfile hevent hrun
  | store n =>
    obtain rfl := Option.some.inj hrun
    obtain ⟨hfiles, hheld⟩ := mapLast_held h.files n
    refine ⟨⟨hfiles.type, hfiles.name, hfiles.clean⟩, ?_⟩
    dsimp only
    rw [hheld]
    exact h.held
  | body use =>
    obtain rfl := Option.some.inj hrun
    have hheld := holdings_add (use.apply_held s.requestContentQueue)
      (heldBy ((s.wb.map (·.first)).getD []))
    exact ⟨h.files.use use, holdings_trans h.held hheld⟩
  | request fuel mode vars requestId con =>
    simp only [Upload.step] at hrun
    split at hrun
    · nomatch hrun
    · next hnone =>
      obtain ⟨⟨ret, con', wb', calls⟩, hcreated, hrun⟩ := Option.bind_eq_some_iff.mp hrun
      obtain rfl := Option.some.inj hrun
      have hover := fcgiCreateEnv_handsOver rfl h.files hcreated
      have hwb : s.wb = none := by simpa using hnone
      have hbefore := h.held
      rw [hwb] at hbefore
      refine ⟨hover.files, holdings_trans hbefore ?_⟩
      rw [add_comm]
      exact hover.held.trans (congrArg some (add_comm _ _))
  | write use =>
    obtain ⟨wb, hwb, hrun⟩ := Option.bind_eq_some_iff.mp hrun
    obtain rfl := Option.some.inj hrun
    have hbefore := h.held
    rw [hwb] at hbefore
    have hheld : holdings (heldBy s.requestContentQueue.first + heldBy wb.first) (use.apply wb).2 =
        some (heldBy s.requestContentQueue.first + heldBy (use.apply wb).1.first) := by
      rw [add_comm, add_comm _ (heldBy (use.apply wb).1.first)]
      exact holdings_add (use.apply_held wb) _
    exact ⟨h.files, holdings_trans hbefore hheld⟩
  | free =>
    obtain ⟨wb, hwb, hrun⟩ := Option.bind_eq_some_iff.mp hrun
    obtain rfl := Option.some.inj hrun
    have hbefore := h.held
    have hnothing : heldBy wb.first = 0 := by
      unfold heldBy
      rw [List.flatMap_eq_nil_iff.mpr (hevent wb hwb)]
      rfl
    have hfreed : accesses (chunkqueueFree wb) = [] := by
      simp [chunkqueueFree, chunkFree, accesses]
    rw [hwb, Option.map_some, Option.getD_some, hnothing] at hbefore
    refine ⟨h.files, ?_⟩
    dsimp only
    rw [hfreed, List.append_nil]
    exact hbefore
  | reset =>
    simp only [Upload.step] at hrun
    split at hrun
    · nomatch hrun
    · next hnone =>
      obtain rfl := Option.some.inj hrun
      obtain ⟨hfiles, hempty, hheld⟩ := chunkqueueReset_held h.files
      have hwb : s.wb = none := by simpa using hnone
      have hnothing : heldBy ((s.wb.map (·.first)).getD []) = 0 := by rw [hwb]; rfl
      have hbefore := h.held
      rw [hnothing, add_zero] at hbefore
      refine ⟨hfiles, ?_⟩
      dsimp only
      rw [hempty, hnothing]
      exact holdings_trans hbefore hheld

/-- A connection from its beginning on, with these directories for its files. -/
def Upload.Started (s : Upload) : Prop :=
  ∃ tempdirs, s = ⟨chunkqueueSetTempdirs chunkqueueInit tempdirs, none, []⟩

/-- The connections to which steps that meet the condition lead. -/
def Upload.Reached : Upload → Prop :=
  Reachable Upload.step (fun s event => event.Settles s) Upload.Started

/-- **Temporary files do not survive their request**: when the connection is reset every file that
was created has been removed, every descriptor closed, and each of them once. -/
theorem tempfilesSettled {s s' : Upload} (h : s.Reached) (hreset : s.step .reset = some s') :
    Settled s'.log := by
  have hsound : s.Sound := by
    refine Reachable.invariant ?_ (fun _ _ _ hs hevent hrun => hs.step hevent hrun) h
    rintro _ ⟨tempdirs, rfl⟩
    exact ⟨⟨nofun, nofun, nofun⟩, rfl⟩
  have hsettles : UploadEvent.reset.Settles s := trivial
  have hafter := hsound.step hsettles hreset
  simp only [Upload.step] at hreset
  split at hreset
  · nomatch hreset
  · next hnone =>
    have hwb : s.wb = none := by simpa using hnone
    have hempty := (chunkqueueReset_held hsound.files).2.1
    obtain rfl := Option.some.inj hreset
    have hheld := hafter.held
    dsimp only at hheld
    rw [hempty, hwb, Option.map_none, Option.getD_none, heldBy_nil, add_zero] at hheld
    exact hheld

end Runs

/-! ## Two uploads -/

def upload : Upload := ⟨chunkqueueInit, none, []⟩

def tempfileCreated : Nat → MkstempAnswer := fun _ => some (5, ⟨ascii "aB3x9Z", rfl⟩)

def bodyStored : List UploadEvent :=
  [.tempfile tempfileCreated, .store 70000, .body (.closeFile 0)]

theorem tempfilesSettled_local : ∃ s s' : Upload, @Upload.Reached zeroMalloc s ∧
    @Upload.step zeroMalloc s .reset = some s' ∧ s'.log.length = 4 ∧ Settled s'.log := by
  let _ : Malloc := zeroMalloc
  obtain ⟨s₁, h₁⟩ : ∃ s₁, upload.step (.tempfile tempfileCreated) = some s₁ := ⟨_, rfl⟩
  obtain ⟨s₂, h₂⟩ : ∃ s₂, s₁.step (.store 70000) = some s₂ := ⟨_, rfl⟩
  obtain ⟨s₃, h₃⟩ : ∃ s₃, s₂.step (.body (.closeFile 0)) = some s₃ := ⟨_, rfl⟩
  have hstart : upload.Reached := .start ⟨none, rfl⟩
  have hcreated : s₁.Reached := hstart.step (a := .tempfile tempfileCreated) nofun h₁
  have hwritten : s₂.Reached := hcreated.step (a := .store 70000) (by trivial) h₂
  have hreached : s₃.Reached := hwritten.step (a := .body (.closeFile 0)) (by trivial) h₃
  have hrun : bodyStored.foldlM Upload.step upload = some s₃ := by
    simp only [bodyStored, List.foldlM_cons, List.foldlM_nil, h₁, h₂, h₃, Option.bind_eq_bind,
      Option.bind_some]
    rfl
  have hlog : ((bodyStored.foldlM Upload.step upload).bind fun s =>
      (s.step .reset).map fun s' => s'.log.length) = some 4 := by
    decide +kernel
  rw [hrun] at hlog
  obtain ⟨s', hreset, hlength⟩ := Option.map_eq_some_iff.mp hlog
  exact ⟨s₃, s', hreached, hreset, hlength, tempfilesSettled hreached hreset⟩

/-- The backend takes the connection, and closes it when a part of the request is written. -/
def backendDies : List UploadEvent :=
  let con := { bodyConnection with
    request := { bodyConnection.request with contentLength := 70000 } }
  bodyStored ++ [.request 8 FCGI_RESPONDER [] 1 con, .write (.advance 0 8), .free, .reset]

theorem not_tempfilesSettled_backendDies : ∃ s',
    backendDies.foldlM (@Upload.step zeroMalloc) upload = some s' ∧ ¬ Settled s'.log := by
  have hleft : (backendDies.foldlM (@Upload.step zeroMalloc) upload).map
      (fun s => holdings 0 s.log) =
        some (some {.file (ascii "/var/tmp/lighttpd-upload-aB3x9Z")}) := by
    decide +kernel
  obtain ⟨s', hrun, hheld⟩ := Option.map_eq_some_iff.mp hleft
  refine ⟨s', hrun, ?_⟩
  unfold Settled
  rw [hheld]
  decide

end Lighttpd
