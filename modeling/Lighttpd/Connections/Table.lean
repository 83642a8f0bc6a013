import Lighttpd.Lib.Machine
import Mathlib.Data.List.Perm.Basic
import Mathlib.Data.List.Nodup

/-!
# `connections.c`: the table of connections

The table keeps every connection that was ever created; those in use stand in front, and each knows
its place (`ndx`). A connection is known by its address. To close one, the last one in use takes its
place. In every run the table is a permutation of all connections with right places, and no
connection is given out twice (`tableSound`).
-/

namespace Lighttpd

/-- `connections`, and `con->ndx` of the connection with the address `a` as `heap[a]`. -/
structure Connections where
  ptr : List Nat
  size : Nat
  used : Nat
  heap : List Int
  deriving DecidableEq, Repr

namespace Connections

/-- `calloc` of the server. -/
def init : Connections := ⟨[], 0, 0, []⟩

/-- `connection_init`, for `n` slots behind the others. -/
def grow : Nat → Connections → Connections
  | 0, conns => conns
  | n + 1, conns =>
    grow n { conns with ptr := conns.ptr ++ [conns.heap.length], heap := conns.heap ++ [-1] }

end Connections

/-- A slot that is not there has no value. `connection_reset` leaves `ndx` alone. -/
def connectionsGetNewConnection (conns : Connections) : Option (Nat × Connections) := do
  let grown :=
    if conns.size = 0 then Connections.grow 128 { conns with size := 128, ptr := [] }
    else if conns.size = conns.used then
      Connections.grow 128 { conns with size := conns.size + 128 }
    else conns
  let con ← grown.ptr[grown.used]?
  some (con, { grown with heap := grown.heap.set con grown.used, used := grown.used + 1 })

/-- `NULL` is `none`. -/
def connectionDel (conns : Connections) (con : Option Nat) : Option (Int × Connections) :=
  match con with
  | none => some (-1, conns)
  | some con => do
    let ndx ← conns.heap[con]?
    if ndx = -1 then some (-1, conns)
    else
      let i := ndx.toNat
      let last ← conns.ptr[conns.used - 1]?
      let temp ← conns.ptr[i]?
      let moved :=
        if i ≠ conns.used - 1 then
          { conns with
            ptr := (conns.ptr.set i last).set (conns.used - 1) temp
            heap := (conns.heap.set last i).set temp (-1) }
        else conns
      some (0, { moved with used := moved.used - 1, heap := moved.heap.set con (-1) })

/-! ## Runs -/

/-- The events of the table: a connection is accepted, or one that was created is closed. -/
inductive TableEvent where
  | accept
  | close (con : Nat)
  deriving DecidableEq, Repr

/-- The table, and the connections that were given out and not closed since. -/
structure TableState where
  conns : Connections
  opened : List Nat
  deriving DecidableEq, Repr

/-- `none` is a pointer to no connection, or a slot that is not there. -/
def TableState.step (s : TableState) : TableEvent → Option TableState
  | .accept => do
    let (con, conns) ← connectionsGetNewConnection s.conns
    some ⟨conns, s.opened ++ [con]⟩
  | .close con => do
    let (_, conns) ← connectionDel s.conns (some con)
    some ⟨conns, s.opened.erase con⟩

/-- Every connection has one slot, those in use know which, and the open ones are in use. -/
structure TableState.Sound (s : TableState) : Prop where
  size : s.conns.ptr.length = s.conns.size
  used : s.conns.used ≤ s.conns.size
  perm : s.conns.ptr.Perm (List.range s.conns.heap.length)
  ndx : ∀ (i con : Nat), s.conns.ptr[i]? = some con →
    s.conns.heap[con]? = some (if i < s.conns.used then (i : Int) else -1)
  nodup : s.opened.Nodup
  opened : ∀ con : Nat, con ∈ s.opened ↔ ∃ i : Nat, s.conns.heap[con]? = some (i : Int)

theorem Connections.grow_spec : ∀ (n : Nat) (conns : Connections),
    (grow n conns).ptr = conns.ptr ++ (List.range n).map (conns.heap.length + ·) ∧
      (grow n conns).heap = conns.heap ++ List.replicate n (-1) ∧
      (grow n conns).size = conns.size ∧ (grow n conns).used = conns.used
  | 0, conns => by simp [grow]
  | n + 1, conns => by
    obtain ⟨hptr, hheap, hsize, hused⟩ := grow_spec n
      { conns with ptr := conns.ptr ++ [conns.heap.length], heap := conns.heap ++ [-1] }
    unfold grow
    refine ⟨?_, ?_, hsize, hused⟩
    · rw [hptr, List.range_succ_eq_map, List.map_cons, List.map_map, List.append_assoc]
      simp only [List.length_append, List.length_singleton, Nat.add_zero, List.singleton_append]
      congr 2
      apply List.map_congr_left
      intro k _
      simp only [Function.comp_apply]
      omega
    · rw [hheap, List.append_assoc, List.replicate_succ]
      rfl

theorem Connections.grow_used_lt {n : Nat} (hn : 0 < n) {conns : Connections}
    (h : conns.used ≤ conns.ptr.length) : (grow n conns).used < (grow n conns).ptr.length := by
  obtain ⟨hptr, -, -, hused⟩ := grow_spec n conns
  rw [hptr, hused, List.length_append, List.length_map, List.length_range]
  omega

namespace TableState.Sound

variable {s : TableState}

theorem ptr_nodup (h : s.Sound) : s.conns.ptr.Nodup := h.perm.nodup_iff.mpr List.nodup_range

theorem grow (h : s.Sound) (hfull : s.conns.size = s.conns.used) :
    TableState.Sound ⟨Connections.grow 128 { s.conns with size := s.conns.size + 128 }, s.opened⟩ := by
  obtain ⟨hptr, hheap, hsize, hused⟩ :=
    Connections.grow_spec 128 { s.conns with size := s.conns.size + 128 }
  refine ⟨?_, ?_, ?_, fun i con hi => ?_, h.nodup, fun con => ?_⟩
  · rw [hptr, hsize, List.length_append, List.length_map, List.length_range, h.size]
  · rw [hsize, hused]
    exact Nat.le_add_right_of_le h.used
  · rw [hptr, hheap, List.length_append, List.length_replicate, List.range_add]
    exact h.perm.append_right _
  · rw [hptr] at hi
    rw [hheap, hused]
    rcases Nat.lt_or_ge i s.conns.ptr.length with hlt | hge
    · rw [List.getElem?_append_left hlt] at hi
      have hold := h.ndx i con hi
      rw [List.getElem?_append_left (List.getElem?_eq_some_iff.mp hold).1]
      exact hold
    · -- a new slot holds a new connection
      rw [List.getElem?_append_right hge, List.getElem?_map, Option.map_eq_some_iff] at hi
      obtain ⟨k, hk, rfl⟩ := hi
      have hklt : k < 128 := by
        obtain ⟨hlt, rfl⟩ := List.getElem?_eq_some_iff.mp hk
        simpa using hlt
      have hle : s.conns.used ≤ i := by
        rw [h.size, hfull] at hge
        exact hge
      rw [List.getElem?_append_right (Nat.le_add_right _ _), Nat.add_sub_cancel_left,
        if_neg (Nat.not_lt.mpr hle)]
      exact List.getElem?_replicate_of_lt hklt
  · rw [hheap, h.opened]
    constructor
    · rintro ⟨i, hi⟩
      refine ⟨i, ?_⟩
      rw [List.getElem?_append_left (List.getElem?_eq_some_iff.mp hi).1]
      exact hi
    · rintro ⟨i, hi⟩
      rcases Nat.lt_or_ge con s.conns.heap.length with hlt | hge
      · rw [List.getElem?_append_left hlt] at hi
        exact ⟨i, hi⟩
      · rw [List.getElem?_append_right hge] at hi
        have := List.eq_of_mem_replicate (List.mem_of_getElem? hi)
        omega

theorem take (h : s.Sound) {con : Nat} (hcon : s.conns.ptr[s.conns.used]? = some con) :
    con ∉ s.opened ∧ TableState.Sound ⟨{ s.conns with
      heap := s.conns.heap.set con s.conns.used, used := s.conns.used + 1 }, s.opened ++ [con]⟩ := by
  have hfree := h.ndx _ _ hcon
  rw [if_neg (Nat.lt_irrefl _)] at hfree
  obtain ⟨hlt, -⟩ := List.getElem?_eq_some_iff.mp hfree
  obtain ⟨hslot, -⟩ := List.getElem?_eq_some_iff.mp hcon
  have hnew : con ∉ s.opened := by
    intro hmem
    obtain ⟨i, hi⟩ := (h.opened con).mp hmem
    rw [hfree] at hi
    have := Option.some.inj hi
    omega
  refine ⟨hnew, h.size, ?_, ?_, fun i c hi => ?_, ?_, fun c => ?_⟩
  · rw [h.size] at hslot
    exact hslot
  · rw [List.length_set]
    exact h.perm
  · rw [List.getElem?_set]
    split
    · next hc =>
      subst hc
      -- a connection has one slot
      have hi' : i = s.conns.used := by
        obtain ⟨hilt, hieq⟩ := List.getElem?_eq_some_iff.mp hi
        obtain ⟨hulteq, hueq⟩ := List.getElem?_eq_some_iff.mp hcon
        exact (List.Nodup.getElem_inj_iff h.ptr_nodup).mp (hieq.trans hueq.symm)
      subst hi'
      rw [if_pos (Nat.lt_succ_self _)]
    · next hc =>
      have hold := h.ndx i c hi
      have hne : i ≠ s.conns.used := by
        rintro rfl
        rw [hcon] at hi
        exact hc (Option.some.inj hi)
      rw [hold]
      congr 1
      by_cases hi' : i < s.conns.used
      · rw [if_pos hi', if_pos (Nat.lt_succ_of_lt hi')]
      · rw [if_neg hi', if_neg (by simp only; omega)]
  · rw [List.nodup_append]
    refine ⟨h.nodup, List.nodup_singleton con, fun a ha b hb hab => ?_⟩
    obtain rfl := List.mem_singleton.mp hb
    exact hnew (hab ▸ ha)
  · rw [List.mem_append, List.mem_singleton, h.opened, List.getElem?_set]
    constructor
    · rintro (⟨i, hi⟩ | rfl)
      · have hc : con ≠ c := by
          rintro rfl
          exact hnew ((h.opened con).mpr ⟨i, hi⟩)
        exact ⟨i, by rw [if_neg hc]; exact hi⟩
      · exact ⟨s.conns.used, by rw [if_pos rfl, if_pos hlt]⟩
    · rintro ⟨i, hi⟩
      split at hi
      · next hc => exact Or.inr hc.symm
      · exact Or.inl ⟨i, hi⟩

theorem slot (h : s.Sound) {con : Nat} {ndx : Int} (hndx : s.conns.heap[con]? = some ndx)
    (hopen : ndx ≠ -1) : ∃ i : Nat, ndx = i ∧ i < s.conns.used ∧ s.conns.ptr[i]? = some con := by
  have hmem : con ∈ s.conns.ptr :=
    h.perm.mem_iff.mpr (List.mem_range.mpr (List.getElem?_eq_some_iff.mp hndx).1)
  obtain ⟨i, hi⟩ := List.getElem?_of_mem hmem
  have hi' := h.ndx i con hi
  rw [hndx] at hi'
  have heq := Option.some.inj hi'
  by_cases hlt : i < s.conns.used
  · rw [if_pos hlt] at heq
    exact ⟨i, heq, hlt, hi⟩
  · rw [if_neg hlt] at heq
    exact absurd heq hopen

theorem slot_inj (h : s.Sound) {i j con : Nat} (hi : s.conns.ptr[i]? = some con)
    (hj : s.conns.ptr[j]? = some con) : i = j := by
  obtain ⟨hilt, hieq⟩ := List.getElem?_eq_some_iff.mp hi
  obtain ⟨hjlt, hjeq⟩ := List.getElem?_eq_some_iff.mp hj
  exact (List.Nodup.getElem_inj_iff h.ptr_nodup).mp (hieq.trans hjeq.symm)

theorem move (h : s.Sound) {i con last : Nat} (hi : s.conns.ptr[i]? = some con)
    (hlast : s.conns.ptr[s.conns.used - 1]? = some last) (hlt : i < s.conns.used - 1) :
    TableState.Sound ⟨{ s.conns with
      ptr := (s.conns.ptr.set i last).set (s.conns.used - 1) con
      heap := ((s.conns.heap.set last i).set con (-1)).set con (-1)
      used := s.conns.used - 1 }, s.opened.erase con⟩ := by
  have hne : last ≠ con := by
    rintro rfl
    have := h.slot_inj hi hlast
    omega
  obtain ⟨hilt, hieq⟩ := List.getElem?_eq_some_iff.mp hi
  obtain ⟨hult, hueq⟩ := List.getElem?_eq_some_iff.mp hlast
  have hheapLast := h.ndx _ _ hlast
  rw [if_pos (by omega)] at hheapLast
  obtain ⟨hlastlt, -⟩ := List.getElem?_eq_some_iff.mp hheapLast
  obtain ⟨hconlt, -⟩ := List.getElem?_eq_some_iff.mp (h.ndx _ _ hi)
  -- what the connections know afterwards
  have hheap : ∀ c, (((s.conns.heap.set last i).set con (-1)).set con (-1))[c]? =
      if con = c then some (-1) else if last = c then some (i : Int) else s.conns.heap[c]? := by
    intro c
    rw [List.getElem?_set]
    split
    · next hc =>
      subst hc
      simp [hconlt]
    · next hc =>
      rw [List.getElem?_set, if_neg hc, List.getElem?_set]
      split
      · next hc' =>
        subst hc'
        simp
      · rfl
  refine ⟨?_, ?_, ?_, fun k c hk => ?_, h.nodup.erase con, fun c => ?_⟩
  · rw [List.length_set, List.length_set, h.size]
  · exact Nat.le_trans (Nat.sub_le _ _) h.used
  · simp only [List.length_set]
    have hswap := List.set_set_perm hilt hult
    rw [hieq, hueq] at hswap
    exact hswap.trans h.perm
  · rw [hheap]
    rw [List.getElem?_set] at hk
    split at hk
    · next hku =>
      subst hku
      have hc : con = c := by
        split at hk
        · exact Option.some.inj hk
        · cases hk
      rw [if_pos hc, if_neg (Nat.lt_irrefl _)]
    · next hku =>
      rw [List.getElem?_set] at hk
      split at hk
      · next hki =>
        subst hki
        have hc : last = c := Option.some.inj hk
        rw [if_neg (fun hcon => hne (hc.trans hcon.symm)), if_pos hc, if_pos hlt]
      · next hki =>
        have hcon : con ≠ c := by
          rintro rfl
          exact hki (h.slot_inj hi hk)
        have hlast' : last ≠ c := by
          rintro rfl
          exact hku (h.slot_inj hlast hk)
        rw [if_neg hcon, if_neg hlast', h.ndx k c hk]
        congr 1
        by_cases hku' : k < s.conns.used - 1
        · rw [if_pos hku', if_pos (by omega)]
        · rw [if_neg hku', if_neg (by omega)]
  · rw [List.Nodup.mem_erase_iff h.nodup, h.opened, hheap]
    split
    · next hc =>
      constructor
      · rintro ⟨hne', -⟩
        exact absurd hc.symm hne'
      · rintro ⟨j, hj⟩
        have := Option.some.inj hj
        omega
    · next hc =>
      split
      · next hc' =>
        subst hc'
        constructor
        · intro _
          exact ⟨i, rfl⟩
        · intro _
          exact ⟨hne, _, hheapLast⟩
      · constructor
        · rintro ⟨-, hj⟩
          exact hj
        · intro hj
          exact ⟨Ne.symm hc, hj⟩

theorem drop (h : s.Sound) {con : Nat} (hlast : s.conns.ptr[s.conns.used - 1]? = some con)
    (hused : 0 < s.conns.used) :
    TableState.Sound ⟨{ s.conns with
      heap := s.conns.heap.set con (-1), used := s.conns.used - 1 }, s.opened.erase con⟩ := by
  obtain ⟨hconlt, -⟩ := List.getElem?_eq_some_iff.mp (h.ndx _ _ hlast)
  refine ⟨h.size, Nat.le_trans (Nat.sub_le _ _) h.used, ?_, fun k c hk => ?_, h.nodup.erase con,
    fun c => ?_⟩
  · rw [List.length_set]
    exact h.perm
  · rw [List.getElem?_set]
    split
    · next hc =>
      subst hc
      have hk' := h.slot_inj hk hlast
      rw [if_neg (by simp only; omega)]
    · next hc =>
      have hne : k ≠ s.conns.used - 1 := by
        rintro rfl
        rw [hlast] at hk
        exact hc (Option.some.inj hk)
      rw [h.ndx k c hk]
      congr 1
      by_cases hku : k < s.conns.used
      · rw [if_pos hku, if_pos (by simp only; omega)]
      · rw [if_neg hku, if_neg (by simp only; omega)]
  · rw [List.Nodup.mem_erase_iff h.nodup, h.opened, List.getElem?_set]
    split
    · next hc =>
      constructor
      · rintro ⟨hne', -⟩
        exact absurd hc.symm hne'
      · rintro ⟨j, hj⟩
        have := Option.some.inj hj
        omega
    · next hc =>
      constructor
      · rintro ⟨-, hj⟩
        exact hj
      · intro hj
        exact ⟨Ne.symm hc, hj⟩

theorem closed (h : s.Sound) {con : Nat} (hcon : s.conns.heap[con]? = some (-1)) :
    s.opened.erase con = s.opened := by
  apply List.erase_of_not_mem
  intro hmem
  obtain ⟨i, hi⟩ := (h.opened con).mp hmem
  rw [hcon] at hi
  have := Option.some.inj hi
  omega

theorem accept (h : s.Sound) : ∃ con conns, connectionsGetNewConnection s.conns = some (con, conns) ∧
    con ∉ s.opened ∧ TableState.Sound ⟨conns, s.opened ++ [con]⟩ := by
  -- the table has a slot that is not in use
  obtain ⟨grown, hgrown, hsound, hfree⟩ : ∃ grown : Connections,
      (if s.conns.size = 0 then Connections.grow 128 { s.conns with size := 128, ptr := [] }
        else if s.conns.size = s.conns.used then
          Connections.grow 128 { s.conns with size := s.conns.size + 128 }
        else s.conns) = grown ∧ TableState.Sound ⟨grown, s.opened⟩ ∧
      grown.used < grown.ptr.length := by
    refine ⟨_, rfl, ?_⟩
    have hroom : s.conns.used ≤ s.conns.ptr.length := h.size.symm ▸ h.used
    by_cases hzero : s.conns.size = 0
    · have hptr : s.conns.ptr = [] := List.length_eq_zero_iff.mp (h.size.trans hzero)
      have hfull : s.conns.size = s.conns.used := by
        have hle := h.used
        omega
      have hsame : { s.conns with size := 128, ptr := [] } =
          { s.conns with size := s.conns.size + 128 } := by
        simp only [hzero, hptr, Nat.zero_add]
      rw [if_pos hzero, hsame]
      exact ⟨h.grow hfull, Connections.grow_used_lt (by decide) hroom⟩
    · rw [if_neg hzero]
      by_cases hfull : s.conns.size = s.conns.used
      · rw [if_pos hfull]
        exact ⟨h.grow hfull, Connections.grow_used_lt (by decide) hroom⟩
      · rw [if_neg hfull]
        refine ⟨h, ?_⟩
        have hle := h.used
        have hsize := h.size
        omega
  have hcon : grown.ptr[grown.used]? = some grown.ptr[grown.used] :=
    List.getElem?_eq_getElem hfree
  generalize grown.ptr[grown.used] = con at hcon
  obtain ⟨hnew, htaken⟩ := hsound.take hcon
  refine ⟨_, _, ?_, hnew, htaken⟩
  unfold connectionsGetNewConnection
  simp only [hgrown, hcon, Option.bind_eq_bind, Option.bind_some]

theorem close (h : s.Sound) {con : Nat} (hcon : con < s.conns.heap.length) :
    ∃ ret conns, connectionDel s.conns (some con) = some (ret, conns) ∧
      TableState.Sound ⟨conns, s.opened.erase con⟩ := by
  have hndx : s.conns.heap[con]? = some s.conns.heap[con] := List.getElem?_eq_getElem hcon
  generalize s.conns.heap[con] = ndx at hndx
  unfold connectionDel
  simp only [hndx, Option.bind_eq_bind, Option.bind_some]
  by_cases hclosed : ndx = -1
  · subst hclosed
    rw [if_pos rfl, h.closed hndx]
    exact ⟨_, _, rfl, h⟩
  · obtain ⟨i, rfl, hlt, hi⟩ := h.slot hndx hclosed
    obtain ⟨last, hlast⟩ : ∃ last, s.conns.ptr[s.conns.used - 1]? = some last := by
      have hbound : s.conns.used - 1 < s.conns.ptr.length := by
        have hle := h.used
        have hsize := h.size
        omega
      exact ⟨_, List.getElem?_eq_getElem hbound⟩
    rw [if_neg hclosed]
    simp only [Int.toNat_natCast, hlast, hi, Option.bind_some]
    by_cases hmove : i = s.conns.used - 1
    · rw [if_neg (not_not.mpr hmove)]
      subst hmove
      exact ⟨_, _, rfl, h.drop hi (by omega)⟩
    · rw [if_pos hmove]
      exact ⟨_, _, rfl, h.move hi hlast (by omega)⟩

theorem step {s' : TableState} {event : TableEvent} (h : s.Sound)
    (hrun : s.step event = some s') : s'.Sound := by
  cases event with
  | accept =>
    obtain ⟨con, conns, hnew, -, hsound⟩ := h.accept
    simp only [TableState.step, hnew, Option.bind_eq_bind, Option.bind_some, Option.some.injEq]
      at hrun
    exact hrun ▸ hsound
  | close con =>
    by_cases hcon : con < s.conns.heap.length
    · obtain ⟨ret, conns, hclosed, hsound⟩ := h.close hcon
      simp only [TableState.step, hclosed, Option.bind_eq_bind, Option.bind_some,
        Option.some.injEq] at hrun
      exact hrun ▸ hsound
    · have hnone : s.conns.heap[con]? = none := List.getElem?_eq_none (Nat.le_of_not_lt hcon)
      simp [TableState.step, connectionDel, hnone] at hrun

end TableState.Sound

def TableState.Run : TableState → Prop :=
  Reachable TableState.step (fun _ _ => True) (· = ⟨Connections.init, []⟩)

theorem tableSound {s : TableState} (h : s.Run) :
    -- every connection that was created has its slot
    s.conns.ptr.length = s.conns.size ∧
    s.conns.ptr.Perm (List.range s.conns.heap.length) ∧
    -- those in use know it, the others know that they are not
    (∀ (i con : Nat), s.conns.ptr[i]? = some con →
      s.conns.heap[con]? = some (if i < s.conns.used then (i : Int) else -1)) ∧
    -- no two open connections are one
    s.opened.Nodup ∧
    -- and whatever is opened or closed next, the table has a place for it
    (∃ con conns, connectionsGetNewConnection s.conns = some (con, conns) ∧ con ∉ s.opened) ∧
    ∀ con < s.conns.heap.length, (connectionDel s.conns (some con)).isSome := by
  have hsound : s.Sound := by
    apply Reachable.invariant (P := TableState.Sound) _ _ h
    · rintro s rfl
      refine ⟨rfl, Nat.le_refl _, List.Perm.nil, ?_, List.nodup_nil, ?_⟩
      · intro i con hi
        cases hi
      · intro con
        simp [Connections.init]
    · intro s event s' hs _ hrun
      exact hs.step hrun
  obtain ⟨con, conns, hnew, hfresh, -⟩ := hsound.accept
  refine ⟨hsound.size, hsound.perm, hsound.ndx, hsound.nodup, ⟨con, conns, hnew, hfresh⟩,
    fun con hcon => ?_⟩
  obtain ⟨ret, conns, hclosed, -⟩ := hsound.close hcon
  rw [hclosed]
  rfl

theorem tableSound_closedTwice : ∃ s : TableState, s.Run ∧ s.opened = [1] ∧ s.opened.Nodup ∧
    ∀ (i con : Nat), s.conns.ptr[i]? = some con →
      s.conns.heap[con]? = some (if i < s.conns.used then (i : Int) else -1) := by
  -- the first of two connections is closed twice
  have hrun : (([.accept, .accept, .close 0, .close 0] : List TableEvent).foldlM TableState.step
      ⟨Connections.init, []⟩).map (·.opened) = some [1] := by decide +kernel
  obtain ⟨s, hs, hopened⟩ := Option.map_eq_some_iff.mp hrun
  have hreached : s.Run := Reachable.run (fun _ _ _ => trivial) (Reachable.start rfl) hs
  obtain ⟨-, -, hndx, hnodup, -⟩ := tableSound hreached
  exact ⟨s, hreached, hopened, hnodup, hndx⟩

end Lighttpd
