import Mathlib.Data.List.Nodup

/-!
# `joblist.c`: the connections that are to be run

`joblist_append` looks at `in_joblist` and the main loop clears it, but nothing sets it. So a
connection is in the list as often as it was appended, and the loop runs it as often, also after a
run that has closed it. It is there once exactly if no connection is appended that is already there
(`jobsDistinct_iff`).
-/

namespace Lighttpd

/-- `srv->joblist`, with its `size`, and `in_joblist` of the connections. -/
structure JobServer where
  joblist : List Nat
  size : Nat
  inJoblist : Nat → Bool

def joblistAppend (srv : JobServer) (con : Nat) : JobServer :=
  if srv.inJoblist con then srv
  else
    let size :=
      if srv.size = 0 then 16
      else if srv.joblist.length = srv.size then srv.size + 16
      else srv.size
    { srv with joblist := srv.joblist ++ [con], size := size }

/-- What happens to the list: a handler appends a connection; the loop runs the one at `ndx`, which
appends connections and may be closed; the list is emptied behind the loop. -/
inductive JobEvent where
  | append (con : Nat)
  | run (appends : List Nat) (closed : Bool)
  | emptied
  deriving DecidableEq, Repr

/-- The main loop; `ran` are the connections that were run since the list was emptied, and whether
the run closed them. -/
structure MainLoop where
  srv : JobServer
  ndx : Nat
  ran : List (Nat × Bool)

namespace MainLoop

def start : MainLoop := ⟨⟨[], 0, fun _ => false⟩, 0, []⟩

def step (st : MainLoop) : JobEvent → Option MainLoop
  | .append con => if st.ndx = 0 then some { st with srv := joblistAppend st.srv con } else none
  | .run appends closed =>
    match st.srv.joblist[st.ndx]? with
    | none => none
    | some con =>
      let srv := appends.foldl joblistAppend st.srv
      let inJoblist := fun c => if c = con then false else srv.inJoblist c
      some ⟨{ srv with inJoblist := inJoblist }, st.ndx + 1, st.ran ++ [(con, closed)]⟩
  | .emptied =>
    if st.ndx < st.srv.joblist.length then none
    else some ⟨{ st.srv with joblist := [] }, 0, []⟩

def Always (P : MainLoop → Prop) (st : MainLoop) : List JobEvent → Prop
  | [] => P st
  | event :: events => P st ∧ ∀ st', st.step event = some st' → st'.Always P events

/-- Each connection is in the list at most once, and is not run again after it was closed. -/
structure Distinct (st : MainLoop) : Prop where
  nodup : st.srv.joblist.Nodup
  once : ∀ (i j con : Nat) (again : Bool), i < j → st.ran[i]? = some (con, true) →
    st.ran[j]? ≠ some (con, again)

def Fresh (st : MainLoop) : JobEvent → Prop
  | .append con => con ∉ st.srv.joblist
  | .run appends _ => appends.Nodup ∧ ∀ con ∈ appends, con ∉ st.srv.joblist
  | .emptied => True

def FreshAll (st : MainLoop) : List JobEvent → Prop
  | [] => True
  | event :: events =>
    ∀ st', st.step event = some st' → st.Fresh event ∧ st'.FreshAll events

end MainLoop

/-! ## Appending -/

theorem joblistAppend_room {srv : JobServer} (h : srv.joblist.length ≤ srv.size) (con : Nat) :
    (joblistAppend srv con).joblist.length ≤ (joblistAppend srv con).size := by
  unfold joblistAppend
  split
  · exact h
  · dsimp only
    rw [List.length_append, List.length_singleton]
    split
    · omega
    · split <;> omega

theorem foldl_joblistAppend_room {srv : JobServer} (h : srv.joblist.length ≤ srv.size)
    (cons : List Nat) :
    (cons.foldl joblistAppend srv).joblist.length ≤ (cons.foldl joblistAppend srv).size := by
  induction cons generalizing srv with
  | nil => exact h
  | cons con cons ih => exact ih (joblistAppend_room h con)

theorem foldl_joblistAppend {srv : JobServer} (h : ∀ con, srv.inJoblist con = false)
    (cons : List Nat) : (cons.foldl joblistAppend srv).joblist = srv.joblist ++ cons ∧
      (cons.foldl joblistAppend srv).inJoblist = srv.inJoblist := by
  induction cons generalizing srv with
  | nil => exact ⟨(List.append_nil _).symm, rfl⟩
  | cons con cons ih =>
    have hone : (joblistAppend srv con).joblist = srv.joblist ++ [con] ∧
        (joblistAppend srv con).inJoblist = srv.inJoblist := by
      unfold joblistAppend
      rw [if_neg (by rw [h con]; exact Bool.false_ne_true)]
      exact ⟨rfl, rfl⟩
    obtain ⟨hlist, hflags⟩ := @ih (joblistAppend srv con) (by rw [hone.2]; exact h)
    rw [List.foldl_cons, hlist, hflags, hone.1, hone.2, List.append_assoc]
    exact ⟨rfl, rfl⟩

theorem nodup_append_iff {l : List Nat} (h : l.Nodup) (cons : List Nat) :
    (l ++ cons).Nodup ↔ cons.Nodup ∧ ∀ con ∈ cons, con ∉ l := by
  rw [List.nodup_append]
  constructor
  · rintro ⟨-, hcons, hapart⟩
    exact ⟨hcons, fun con hcon hmem => hapart con hmem con hcon rfl⟩
  · rintro ⟨hcons, hapart⟩
    refine ⟨h, hcons, ?_⟩
    rintro a ha b hb rfl
    exact hapart a hb ha

/-! ## Runs -/

namespace MainLoop

/-- The list is within its block, the flags are clear, and the connections in front of `ndx` have
been run. -/
structure Counted (st : MainLoop) : Prop where
  room : st.srv.joblist.length ≤ st.srv.size
  flags : ∀ con, st.srv.inJoblist con = false
  ran_eq : st.ran.map Prod.fst = st.srv.joblist.take st.ndx

theorem counted_start : start.Counted := ⟨Nat.le_refl 0, fun _ => rfl, rfl⟩

theorem Counted.distinct {st : MainLoop} (h : st.Counted) (hnodup : st.srv.joblist.Nodup) :
    st.Distinct := by
  refine ⟨hnodup, ?_⟩
  intro i j con again hij hi hj
  have hran : (st.ran.map Prod.fst).Nodup := by
    rw [h.ran_eq]
    exact hnodup.sublist (List.take_sublist _ _)
  have hlen : j < (st.ran.map Prod.fst).length := by
    rw [List.length_map]
    exact (List.getElem?_eq_some_iff.mp hj).1
  apply List.nodup_iff_getElem?_ne_getElem?.mp hran i j hij hlen
  rw [List.getElem?_map, List.getElem?_map, hi, hj]
  rfl

theorem Counted.step {st st' : MainLoop} {event : JobEvent} (h : st.Counted)
    (hnodup : st.srv.joblist.Nodup) (hstep : st.step event = some st') :
    st'.Counted ∧ (st'.srv.joblist.Nodup ↔ st.Fresh event) := by
  cases event with
  | append con =>
    rw [MainLoop.step] at hstep
    split at hstep
    · next hndx =>
      obtain ⟨hlist, hflags⟩ := foldl_joblistAppend h.flags [con]
      rw [List.foldl_cons, List.foldl_nil] at hlist hflags
      cases hstep
      refine ⟨⟨joblistAppend_room h.room con, ?_, ?_⟩, ?_⟩
      · intro c
        rw [hflags]
        exact h.flags c
      · rw [h.ran_eq, hndx]
        rfl
      · rw [hlist, nodup_append_iff hnodup]
        simp [Fresh]
    · cases hstep
  | run appends closed =>
    rw [MainLoop.step] at hstep
    cases hcon : st.srv.joblist[st.ndx]? with
    | none =>
      rw [hcon] at hstep
      cases hstep
    | some con =>
      obtain ⟨hlist, hflags⟩ := foldl_joblistAppend h.flags appends
      rw [hcon] at hstep
      cases hstep
      refine ⟨⟨foldl_joblistAppend_room h.room appends, ?_, ?_⟩, ?_⟩
      · intro c
        dsimp only
        rw [hflags]
        split
        · rfl
        · exact h.flags c
      · dsimp only
        obtain ⟨hlt, hget⟩ := List.getElem?_eq_some_iff.mp hcon
        rw [List.map_append, h.ran_eq, hlist, List.take_append_of_le_length hlt,
          List.take_succ_eq_append_getElem hlt, hget]
        rfl
      · dsimp only
        rw [hlist, nodup_append_iff hnodup]
        rfl
  | emptied =>
    rw [MainLoop.step] at hstep
    split at hstep
    · cases hstep
    · cases hstep
      exact ⟨⟨Nat.zero_le _, h.flags, rfl⟩, fun _ => trivial, fun _ => List.nodup_nil⟩

theorem Always.head {P : MainLoop → Prop} {st : MainLoop} {events : List JobEvent}
    (h : st.Always P events) : P st := by
  cases events with
  | nil => exact h
  | cons event events => exact h.1

theorem Counted.always_iff {events : List JobEvent} {st : MainLoop} (h : st.Counted)
    (hnodup : st.srv.joblist.Nodup) : st.Always Distinct events ↔ st.FreshAll events := by
  induction events generalizing st with
  | nil => exact ⟨fun _ => trivial, fun _ => h.distinct hnodup⟩
  | cons event events ih =>
    constructor
    · rintro ⟨-, hrest⟩ st' hstep
      obtain ⟨hcounted, hfresh⟩ := h.step hnodup hstep
      have hnodup' := (hrest st' hstep).head.nodup
      exact ⟨hfresh.mp hnodup', (ih hcounted hnodup').mp (hrest st' hstep)⟩
    · intro hall
      refine ⟨h.distinct hnodup, ?_⟩
      intro st' hstep
      obtain ⟨hcounted, hfresh⟩ := h.step hnodup hstep
      obtain ⟨hone, hrest⟩ := hall st' hstep
      exact (ih hcounted (hfresh.mpr hone)).mpr hrest

end MainLoop

/-- A connection is in the list at most once in each state, and not run again after it was closed,
exactly if along the events none is appended that is in the list. -/
theorem jobsDistinct_iff (events : List JobEvent) :
    MainLoop.start.Always MainLoop.Distinct events ↔ MainLoop.start.FreshAll events :=
  MainLoop.counted_start.always_iff List.nodup_nil

/-- Two events of one connection: the first run closes it, and the second runs it again. -/
theorem not_jobsDistinct :
    ¬ MainLoop.start.Always MainLoop.Distinct
      [.append 1, .append 1, .run [] true, .run [] false] ∧
    (([.append 1, .append 1, .run [] true, .run [] false] : List JobEvent).foldlM
      MainLoop.step MainLoop.start).map (fun st => (st.srv.joblist, st.ran)) =
        some ([1, 1], [(1, true), (1, false)]) := by
  refine ⟨?_, rfl⟩
  rintro ⟨-, h⟩
  obtain ⟨-, h⟩ := h _ rfl
  have hnodup := (h _ rfl).1.nodup
  exact absurd hnodup (by decide)

end Lighttpd
