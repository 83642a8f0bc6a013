import Lighttpd.Connections.ReadState
import Lighttpd.Connections.Table

/-!
# `server.c`: the timeouts, once a second

The main loop walks over the table by the place. A connection that is closed meanwhile gives its
place to the last one, and the walk goes on behind it, so the last one is not looked at. Every
connection is looked at once exactly as long as only the last one is closed (`scanComplete_iff`).

`connection_state_machine` is a parameter: what it makes of a connection, and whether it closes it.
-/

namespace Lighttpd

/-- `connection`, with the fields for the timeouts; the counter of the limit for all connections is
an index. -/
structure TimedConnection where
  state : ConnectionState
  requestCount : Nat
  readIdleTs : Int
  keepAliveIdle : Int
  maxReadIdle : Nat
  writeRequestTs : Int
  maxWriteIdle : Nat
  closeTimeoutTs : Int
  connectionStart : Int
  trafficLimitReached : Bool
  kbytesPerSecond : Nat
  bytesWritten : Int
  bytesWrittenCurSecond : Int
  globalBytesPerSecondCnt : Nat
  deriving DecidableEq, Repr

/-- `settings.h` -/
def HTTP_LINGER_TIMEOUT : Int := 5

namespace TimedConnection

variable (curTs : Int) (con : TimedConnection)

/-- A connection that was used before is given `keep_alive_idle` seconds. -/
def readTimedOut : Bool :=
  (con.state == .read || con.state == .readPost) &&
    if con.requestCount = 1 then curTs - con.readIdleTs > con.maxReadIdle
    else curTs - con.readIdleTs > con.keepAliveIdle

def writeTimedOut : Bool :=
  con.state == .write && con.writeRequestTs != 0 && curTs - con.writeRequestTs > con.maxWriteIdle

def lingerTimedOut : Bool :=
  con.state == .close && curTs - con.closeTimeoutTs > HTTP_LINGER_TIMEOUT

/-- `t_diff` -/
def tDiff : Int := if curTs - con.connectionStart = 0 then 1 else curTs - con.connectionStart

def trafficAllowed : Bool :=
  con.trafficLimitReached &&
    (con.kbytesPerSecond == 0 || con.bytesWritten.tdiv (con.tDiff curTs) < con.kbytesPerSecond * 1024)

/-- The checks of one connection, and `changed`. -/
def check : TimedConnection × Bool :=
  let read := con.readTimedOut curTs
  let con := if read then { con with state := .error } else con
  let write := con.writeTimedOut curTs
  let con := if write then { con with state := .error } else con
  let linger := con.lingerTimedOut curTs
  let traffic := con.trafficAllowed curTs
  let con := if traffic then { con with trafficLimitReached := false } else con
  (con, read || write || linger || traffic)

end TimedConnection

/-- The table, the connection with the address `a` as `con[a]`, and the counters. -/
structure TimeoutScan where
  conns : Connections
  con : List TimedConnection
  counters : List Int
  deriving DecidableEq, Repr

inductive TimeoutEvent where
  | checked (con : Nat)
  | reset (con : Nat)
  deriving DecidableEq, Repr

/-- What `connection_state_machine` makes of a connection, and whether it calls
`connection_close`. -/
abbrev StateMachine : Type := Nat → TimedConnection → TimedConnection × Bool

/-- What becomes of the connection in its turn, and whether it is closed. -/
def timeoutVisit (machine : StateMachine) (curTs : Int) (a : Nat) (con : TimedConnection) :
    TimedConnection × Bool :=
  let (con, changed) := con.check curTs
  let (con, closed) := if changed then machine a con else (con, false)
  ({ con with bytesWrittenCurSecond := 0 }, closed)

section Scan

variable (machine : StateMachine) (curTs : Int)

/-- The body of the loop. `con` is the same in all of it, closed or not. -/
def timeoutTurn (s : TimeoutScan) (ndx : Nat) : Option (TimeoutScan × List TimeoutEvent) := do
  let a ← s.conns.ptr[ndx]?
  let con ← s.con[a]?
  let (con, closed) := timeoutVisit machine curTs a con
  let (_, conns) ← if closed then connectionDel s.conns (some a) else some (0, s.conns)
  some (⟨conns, s.con.set a con, s.counters.set con.globalBytesPerSecondCnt 0⟩,
    [.checked a, .reset a])

/-- `for (ndx = 0; ndx < conns->used; ndx++)`, which ends at the latest after as many turns as there
are connections. -/
def timeoutLoop : Nat → TimeoutScan → Nat → Option (TimeoutScan × List TimeoutEvent)
  | 0, s, _ => some (s, [])
  | n + 1, s, ndx =>
    if ndx < s.conns.used then do
      let (s, out) ← timeoutTurn machine curTs s ndx
      let (s, outs) ← timeoutLoop n s (ndx + 1)
      some (s, out ++ outs)
    else some (s, [])

def timeoutScan (s : TimeoutScan) : Option (TimeoutScan × List TimeoutEvent) :=
  timeoutLoop machine curTs s.conns.used s 0

end Scan

/-! ## A table that is sound -/

/-- A table as all runs have it, the connections that were created, and those that are open. -/
structure SoundScan extends TimeoutScan where
  opened : List Nat
  sound : TableState.Sound ⟨conns, opened⟩
  created : con.length = conns.heap.length

/-- The scan ends, and each connection that was open has its turn, once. -/
def ScanComplete (machine : StateMachine) (curTs : Int) (s : SoundScan) : Prop :=
  ∃ s' out, timeoutScan machine curTs s.toTimeoutScan = some (s', out) ∧
    ∀ a ∈ s.opened, out.count (.checked a) = 1 ∧ out.count (.reset a) = 1

def ClosedAt (machine : StateMachine) (curTs : Int) (s : TimeoutScan) (ndx : Nat) : Prop :=
  ∃ a con, s.conns.ptr[ndx]? = some a ∧ s.con[a]? = some con ∧
    (timeoutVisit machine curTs a con).2 = true

section Turns

variable {machine : StateMachine} {curTs : Int} {s : SoundScan} {ndx : Nat}

namespace SoundScan

theorem mem_opened (s : SoundScan) {a : Nat} :
    a ∈ s.opened ↔ ∃ i < s.conns.used, s.conns.ptr[i]? = some a := by
  rw [s.sound.opened]
  constructor
  · rintro ⟨i, hi⟩
    obtain ⟨j, hj, hlt, hptr⟩ := s.sound.slot hi (by omega)
    exact ⟨j, hlt, hptr⟩
  · rintro ⟨i, hlt, hi⟩
    have hndx := s.sound.ndx i a hi
    rw [if_pos hlt] at hndx
    exact ⟨i, hndx⟩

theorem exists_slot (s : SoundScan) {ndx : Nat} (h : ndx < s.conns.used) :
    ∃ a con, s.conns.ptr[ndx]? = some a ∧ s.con[a]? = some con := by
  have hslot : ndx < s.conns.ptr.length := by
    have hle := s.sound.used
    have hsize := s.sound.size
    dsimp only at hle hsize
    omega
  have ha : s.conns.ptr[ndx]? = some s.conns.ptr[ndx] := List.getElem?_eq_getElem hslot
  generalize s.conns.ptr[ndx] = a at ha
  obtain ⟨hlt, -⟩ := List.getElem?_eq_some_iff.mp (s.sound.ndx ndx a ha)
  have hcon : a < s.con.length := s.created ▸ hlt
  exact ⟨a, s.con[a], ha, List.getElem?_eq_getElem hcon⟩

end SoundScan

theorem connectionDel_slot {conns : Connections} {opened : List Nat} {a : Nat}
    (h : TableState.Sound ⟨conns, opened⟩) (ha : conns.ptr[ndx]? = some a)
    (hndx : ndx < conns.used) : ∃ conns', connectionDel conns (some a) = some (0, conns') ∧
      TableState.Sound ⟨conns', opened.erase a⟩ ∧ conns'.heap.length = conns.heap.length ∧
      conns'.used = conns.used - 1 ∧ (∀ j < ndx, conns'.ptr[j]? = conns.ptr[j]?) ∧
      (ndx + 1 < conns.used → conns'.ptr[ndx]? = conns.ptr[conns.used - 1]?) := by
  have hheap := h.ndx ndx a ha
  rw [if_pos hndx] at hheap
  dsimp only at hheap
  obtain ⟨hslot, -⟩ := List.getElem?_eq_some_iff.mp ha
  have hbound : conns.used - 1 < conns.ptr.length := by
    have hle := h.used
    have hsize := h.size
    dsimp only at hle hsize
    omega
  have hlast : conns.ptr[conns.used - 1]? = some conns.ptr[conns.used - 1] :=
    List.getElem?_eq_getElem hbound
  generalize conns.ptr[conns.used - 1] = last at hlast
  have hopen : (ndx : Int) ≠ -1 := by omega
  unfold connectionDel
  simp only [hheap, Option.bind_eq_bind, Option.bind_some, if_neg hopen, Int.toNat_natCast, hlast,
    ha]
  by_cases hmove : ndx = conns.used - 1
  · rw [if_neg (not_not.mpr hmove)]
    rw [hmove] at ha
    refine ⟨_, rfl, h.drop ha (by dsimp only; omega), List.length_set, rfl, fun _ _ => rfl, ?_⟩
    intro hlt
    omega
  · rw [if_pos hmove]
    refine ⟨_, rfl, h.move ha hlast (by dsimp only; omega), ?_, rfl, ?_, ?_⟩
    · simp only [List.length_set]
    · intro j hj
      rw [List.getElem?_set_ne (by omega), List.getElem?_set_ne (by omega)]
    · intro _
      rw [List.getElem?_set_ne (by omega), List.getElem?_set_self hslot]

structure TimeoutTurn (machine : StateMachine) (curTs : Int) (s : SoundScan) (ndx a : Nat)
    (s' : SoundScan) : Prop where
  ends : timeoutTurn machine curTs s.toTimeoutScan ndx =
    some (s'.toTimeoutScan, [.checked a, .reset a])
  slot : s.conns.ptr[ndx]? = some a
  others : ∀ b, b ≠ a → s'.con[b]? = s.con[b]?
  kept : ∀ j < ndx, s'.conns.ptr[j]? = s.conns.ptr[j]?
  closed : ClosedAt machine curTs s.toTimeoutScan ndx → s'.conns.used = s.conns.used - 1 ∧
    (ndx + 1 < s.conns.used → s'.conns.ptr[ndx]? = s.conns.ptr[s.conns.used - 1]?)
  stays : ¬ ClosedAt machine curTs s.toTimeoutScan ndx → s'.conns = s.conns

variable (machine curTs) in
theorem exists_turn (h : ndx < s.conns.used) : ∃ a s', TimeoutTurn machine curTs s ndx a s' := by
  obtain ⟨a, con, ha, hcon⟩ := s.exists_slot h
  have hat : ClosedAt machine curTs s.toTimeoutScan ndx ↔
      (timeoutVisit machine curTs a con).2 = true := by
    constructor
    · rintro ⟨a', con', ha', hcon', hclosed⟩
      obtain rfl := Option.some.inj (ha.symm.trans ha')
      obtain rfl := Option.some.inj (hcon.symm.trans hcon')
      exact hclosed
    · exact fun hclosed => ⟨a, con, ha, hcon, hclosed⟩
  have hothers : ∀ (con' : TimedConnection) (b : Nat), b ≠ a → (s.con.set a con')[b]? = s.con[b]? :=
    fun con' b hb => List.getElem?_set_ne hb.symm
  have hturn : timeoutTurn machine curTs s.toTimeoutScan ndx =
      (if (timeoutVisit machine curTs a con).2 then connectionDel s.conns (some a)
        else some (0, s.conns)).bind fun r =>
      some (⟨r.2, s.con.set a (timeoutVisit machine curTs a con).1,
        s.counters.set (timeoutVisit machine curTs a con).1.globalBytesPerSecondCnt 0⟩,
        [.checked a, .reset a]) := by
    unfold timeoutTurn
    simp only [ha, hcon, Option.bind_eq_bind, Option.bind_some]
    split <;> rfl
  by_cases hclosed : (timeoutVisit machine curTs a con).2 = true
  · obtain ⟨conns, hdel, hsound, hlength, hused, hkept, hmoved⟩ := connectionDel_slot s.sound ha h
    refine ⟨a, ⟨⟨conns, s.con.set a (timeoutVisit machine curTs a con).1,
      s.counters.set (timeoutVisit machine curTs a con).1.globalBytesPerSecondCnt 0⟩,
      s.opened.erase a, hsound, ?_⟩, ?_, ha, hothers _, hkept, fun _ => ⟨hused, hmoved⟩, ?_⟩
    · rw [List.length_set, s.created, hlength]
    · rw [hturn, if_pos hclosed, hdel]
      rfl
    · exact fun hnot => absurd (hat.mpr hclosed) hnot
  · refine ⟨a, ⟨⟨s.conns, s.con.set a (timeoutVisit machine curTs a con).1,
      s.counters.set (timeoutVisit machine curTs a con).1.globalBytesPerSecondCnt 0⟩,
      s.opened, s.sound, ?_⟩, ?_, ha, hothers _, fun _ _ => rfl, ?_, fun _ => rfl⟩
    · rw [List.length_set, s.created]
    · rw [hturn, if_neg hclosed]
      rfl
    · exact fun hat' => absurd (hat.mp hat') hclosed

theorem TimeoutTurn.used_le {a : Nat} {s' : SoundScan} (h : TimeoutTurn machine curTs s ndx a s') :
    s'.conns.used ≤ s.conns.used := by
  by_cases hclosed : ClosedAt machine curTs s.toTimeoutScan ndx
  · rw [(h.closed hclosed).1]
    exact Nat.sub_le _ _
  · rw [h.stays hclosed]

end Turns

section Loop

variable {machine : StateMachine} {curTs : Int}

def HasTurn (out : List TimeoutEvent) (a : Nat) : Prop :=
  out.count (.checked a) = 1 ∧ out.count (.reset a) = 1

def NoTurn (out : List TimeoutEvent) (a : Nat) : Prop :=
  TimeoutEvent.checked a ∉ out ∧ TimeoutEvent.reset a ∉ out

theorem noTurn_cons {out : List TimeoutEvent} {a b : Nat} (h : NoTurn out a) (hab : a ≠ b) :
    NoTurn ([.checked b, .reset b] ++ out) a := by
  simp only [NoTurn, List.mem_append, List.mem_cons, List.not_mem_nil, or_false, not_or,
    TimeoutEvent.checked.injEq, TimeoutEvent.reset.injEq, reduceCtorEq, not_false_eq_true,
    true_and]
  exact ⟨⟨hab, h.1⟩, hab, h.2⟩

theorem hasTurn_cons_self {out : List TimeoutEvent} {a : Nat} (h : NoTurn out a) :
    HasTurn ([.checked a, .reset a] ++ out) a := by
  constructor
  · rw [List.count_append, List.count_eq_zero.mpr h.1]
    simp
  · rw [List.count_append, List.count_eq_zero.mpr h.2]
    simp

theorem hasTurn_cons {out : List TimeoutEvent} {a b : Nat} (hab : a ≠ b) :
    HasTurn ([.checked b, .reset b] ++ out) a ↔ HasTurn out a := by
  have hchecked : TimeoutEvent.checked b ≠ .checked a := fun h => hab (TimeoutEvent.checked.inj h).symm
  have hreset : TimeoutEvent.reset b ≠ .reset a := fun h => hab (TimeoutEvent.reset.inj h).symm
  unfold HasTurn
  simp [hchecked, hreset]

theorem not_hasTurn {out : List TimeoutEvent} {a : Nat} (h : NoTurn out a) : ¬ HasTurn out a := by
  intro hturn
  rw [HasTurn, List.count_eq_zero.mpr h.1] at hturn
  nomatch hturn.1

theorem timeoutLoop_noTurn (n : Nat) : ∀ {s : SoundScan} {ndx j c : Nat}
    {s' : TimeoutScan} {out : List TimeoutEvent}, s.conns.ptr[j]? = some c → j < ndx →
    timeoutLoop machine curTs n s.toTimeoutScan ndx = some (s', out) → NoTurn out c := by
  induction n with
  | zero =>
    intro s ndx j c s' out _ _ h
    cases h
    exact ⟨List.not_mem_nil, List.not_mem_nil⟩
  | succ n ih =>
    intro s ndx j c s' out hc hj h
    unfold timeoutLoop at h
    by_cases hndx : ndx < s.conns.used
    · obtain ⟨a, t, hturn⟩ := exists_turn machine curTs hndx
      rw [if_pos hndx, hturn.ends] at h
      simp only [Option.bind_eq_bind, Option.bind_some, Option.bind_eq_some_iff,
        Option.some.injEq] at h
      obtain ⟨⟨u, outs⟩, hloop, heq⟩ := h
      cases heq
      have hca : c ≠ a := by
        rintro rfl
        exact Nat.ne_of_lt hj (s.sound.slot_inj hc hturn.slot)
      have hkept : t.conns.ptr[j]? = some c := (hturn.kept j hj).trans hc
      exact noTurn_cons (ih hkept (Nat.lt_succ_of_lt hj) hloop) hca
    · rw [if_neg hndx] at h
      cases h
      exact ⟨List.not_mem_nil, List.not_mem_nil⟩

variable (machine curTs) in
/-- From the place on each connection in use has its turn exactly if none of them but the last one is
closed. By induction on the turns: a connection that is closed gives its place, which is behind the
walk then, to the last one. -/
theorem timeoutLoop_complete (n : Nat) : ∀ (s : SoundScan) (ndx : Nat), s.conns.used - ndx ≤ n →
    ∃ s' out, timeoutLoop machine curTs n s.toTimeoutScan ndx = some (s', out) ∧
      ((∀ i a, ndx ≤ i → i < s.conns.used → s.conns.ptr[i]? = some a → HasTurn out a) ↔
        ∀ i, ndx ≤ i → i + 1 < s.conns.used → ¬ ClosedAt machine curTs s.toTimeoutScan i) := by
  induction n with
  | zero =>
    intro s ndx hn
    refine ⟨_, _, rfl, iff_of_true ?_ ?_⟩
    · intro i a hi hlt
      omega
    · intro i hi hlt
      omega
  | succ n ih =>
    intro s ndx hn
    unfold timeoutLoop
    by_cases hndx : ndx < s.conns.used
    · obtain ⟨a, t, hturn⟩ := exists_turn machine curTs hndx
      have hle := hturn.used_le
      obtain ⟨s', out, hloop, hiff⟩ := ih t (ndx + 1) (by omega)
      rw [if_pos hndx, hturn.ends]
      simp only [Option.bind_eq_bind, Option.bind_some, hloop]
      refine ⟨_, _, rfl, ?_⟩
      by_cases hclosed : ClosedAt machine curTs s.toTimeoutScan ndx
      · obtain ⟨hused, hmoved⟩ := hturn.closed hclosed
        by_cases hlast : ndx + 1 < s.conns.used
        · -- the last connection stands where the walk has been
          obtain ⟨c, -, hc, -⟩ := s.exists_slot (by omega : s.conns.used - 1 < s.conns.used)
          have hnone : NoTurn out c :=
            timeoutLoop_noTurn n ((hmoved hlast).trans hc) (Nat.lt_succ_self ndx) hloop
          have hca : c ≠ a := by
            rintro rfl
            have := s.sound.slot_inj hc hturn.slot
            omega
          apply iff_of_false
          · intro hall
            exact not_hasTurn (noTurn_cons hnone hca) (hall _ c (by omega) (by omega) hc)
          · exact fun hnot => hnot ndx (Nat.le_refl _) hlast hclosed
        · apply iff_of_true
          · intro i b hi hlt hb
            obtain rfl : i = ndx := by omega
            obtain rfl := Option.some.inj (hturn.slot.symm.trans hb)
            have hout : out = [] := by
              cases n with
              | zero =>
                cases hloop
                rfl
              | succ n =>
                unfold timeoutLoop at hloop
                rw [if_neg (by omega)] at hloop
                cases hloop
                rfl
            subst hout
            exact hasTurn_cons_self ⟨List.not_mem_nil, List.not_mem_nil⟩
          · intro i hi hlt
            omega
      · have hconns := hturn.stays hclosed
        rw [hconns] at hiff
        have hself : NoTurn out a := timeoutLoop_noTurn n
          (by rw [hconns]; exact hturn.slot) (Nat.lt_succ_self ndx) hloop
        have hne : ∀ {i b}, ndx + 1 ≤ i → s.conns.ptr[i]? = some b → b ≠ a := by
          rintro i b hi hb rfl
          have := s.sound.slot_inj hb hturn.slot
          omega
        have hat : ∀ i, ndx + 1 ≤ i → (ClosedAt machine curTs t.toTimeoutScan i ↔
            ClosedAt machine curTs s.toTimeoutScan i) := by
          intro i hi
          unfold ClosedAt
          rw [hconns]
          constructor
          · rintro ⟨b, con, hb, hcon, hend⟩
            exact ⟨b, con, hb, hturn.others b (hne hi hb) ▸ hcon, hend⟩
          · rintro ⟨b, con, hb, hcon, hend⟩
            exact ⟨b, con, hb, (hturn.others b (hne hi hb)).symm ▸ hcon, hend⟩
        constructor
        · intro hall i hi hlt
          rcases Nat.eq_or_lt_of_le hi with rfl | hi
          · exact hclosed
          · rw [← hat i hi]
            refine hiff.mp ?_ i hi hlt
            intro k b hk hklt hb
            exact (hasTurn_cons (hne hk hb)).mp (hall k b (Nat.le_of_succ_le hk) hklt hb)
        · intro hnone i b hi hlt hb
          rcases Nat.eq_or_lt_of_le hi with rfl | hi
          · obtain rfl := Option.some.inj (hturn.slot.symm.trans hb)
            exact hasTurn_cons_self hself
          · rw [hasTurn_cons (hne hi hb)]
            refine hiff.mpr ?_ i b hi hlt hb
            intro k hk hklt
            rw [hat k hk]
            exact hnone k (Nat.le_of_succ_le hk) hklt
    · rw [if_neg hndx]
      refine ⟨_, _, rfl, iff_of_true ?_ ?_⟩
      · intro i a hi hlt
        omega
      · intro i hi hlt
        omega

/-- **Every open connection has its turn, once, exactly as long as none but the one in the last place
is closed in its turn.** -/
theorem scanComplete_iff (machine : StateMachine) (curTs : Int) (s : SoundScan) :
    ScanComplete machine curTs s ↔
      ∀ i, i + 1 < s.conns.used → ¬ ClosedAt machine curTs s.toTimeoutScan i := by
  obtain ⟨s', out, hloop, hiff⟩ := timeoutLoop_complete machine curTs
    s.conns.used s 0 (Nat.sub_le _ _)
  have hopened : (∀ a ∈ s.opened, HasTurn out a) ↔
      ∀ i a, 0 ≤ i → i < s.conns.used → s.conns.ptr[i]? = some a → HasTurn out a := by
    constructor
    · intro h i a _ hlt ha
      exact h a (s.mem_opened.mpr ⟨i, hlt, ha⟩)
    · intro h a ha
      obtain ⟨i, hlt, hi⟩ := s.mem_opened.mp ha
      exact h i a (Nat.zero_le i) hlt hi
  constructor
  · rintro ⟨t, out', hscan, hall⟩ i
    cases hloop.symm.trans hscan
    exact hiff.mp (hopened.mp hall) i (Nat.zero_le i)
  · intro hnone
    exact ⟨s', out, hloop, hopened.mpr (hiff.mpr fun i _ => hnone i)⟩

end Loop

/-! ## Two connections that linger -/

def twoAccepted : Connections :=
  ⟨List.range 128, 128, 2, [0, 1] ++ List.replicate 126 (-1)⟩

theorem twoAccepted_sound : TableState.Sound ⟨twoAccepted, [0, 1]⟩ := by
  have hinit : TableState.Sound ⟨Connections.init, []⟩ := by
    refine ⟨rfl, Nat.le_refl _, List.Perm.nil, ?_, List.nodup_nil, ?_⟩
    · intro i con hi
      cases hi
    · intro con
      simp [Connections.init]
  have hrun : (([.accept, .accept] : List TableEvent).foldlM TableState.step
      ⟨Connections.init, []⟩) = some ⟨twoAccepted, [0, 1]⟩ := by decide +kernel
  simp only [List.foldlM_cons, List.foldlM_nil, Option.bind_eq_bind,
    Option.bind_eq_some_iff] at hrun
  obtain ⟨one, hone, two, htwo, heq⟩ := hrun
  cases heq
  exact (hinit.step hone).step htwo

def lingering : TimedConnection where
  state := .close
  requestCount := 1
  readIdleTs := 0
  keepAliveIdle := 5
  maxReadIdle := 60
  writeRequestTs := 0
  maxWriteIdle := 360
  closeTimeoutTs := 0
  connectionStart := 0
  trafficLimitReached := false
  kbytesPerSecond := 0
  bytesWritten := 0
  bytesWrittenCurSecond := 0
  globalBytesPerSecondCnt := 0

def twoLingering : SoundScan where
  conns := twoAccepted
  con := List.replicate 128 lingering
  counters := [0]
  opened := [0, 1]
  sound := twoAccepted_sound
  created := by decide +kernel

/-- `CON_STATE_CLOSE`, where the client sends nothing more. -/
def closeLingering : StateMachine := fun _ con => ({ con with state := .connect }, con.state == .close)

/-- The first one is closed, and the second one has no turn. -/
theorem not_scanComplete_lingering :
    ¬ ∀ machine curTs s, ScanComplete machine curTs s := by
  intro h
  obtain ⟨s', out, hscan, hall⟩ := h closeLingering 10 twoLingering
  have hout : (timeoutScan closeLingering 10 twoLingering.toTimeoutScan).map (·.2) =
      some [.checked 0, .reset 0] := by decide +kernel
  rw [hscan] at hout
  have hturn := (hall 1 (by decide)).1
  have hsame : out = [.checked 0, .reset 0] := Option.some.inj hout
  rw [hsame] at hturn
  nomatch hturn

end Lighttpd
