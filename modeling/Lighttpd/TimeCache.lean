import Lighttpd.Response

/-!
# The cache of formatted times

`strftime_cache_get` looks for a free slot by the time 0, but `server_init` fills the slots with the
time -1 and empty buffers. So only the first slot is ever written, and a query for -1 finds one of
the others, with an empty string, unless the first slot holds 0 (`strftimeTransparent_iff`).
-/

namespace Lighttpd

open CLib

/-! ## Formatting -/

/-- The values of a `time_t`, be it of 32 bits or of 64. -/
def IsTimeT (t : Int) : Prop := -2 ^ 63 ≤ t ∧ t < 2 ^ 63

def dateOf (t : Int) : Bytes := formatTm (gmtime t)

theorem length_dayName (i : Nat) : (ascii (dayNames.getD i "?")).length ≤ 3 := by
  match i with
  | 0 | 1 | 2 | 3 | 4 | 5 | 6 => decide
  | _ + 7 => exact (by decide : (ascii "?").length ≤ 3)

theorem length_monthName (i : Nat) : (ascii (monthNames.getD i "?")).length ≤ 3 := by
  match i with
  | 0 | 1 | 2 | 3 | 4 | 5 | 6 | 7 | 8 | 9 | 10 | 11 => decide
  | _ + 12 => exact (by decide : (ascii "?").length ≤ 3)

theorem year_gmtime {t : Int} (ht : IsTimeT t) : (gmtime t).year.natAbs < 10 ^ 13 := by
  obtain ⟨hlow, hhigh⟩ := ht
  unfold gmtime
  dsimp only
  split <;> omega

theorem length_dateOf {t : Int} (ht : IsTimeT t) : (dateOf t).length < 100 := by
  have hday := length_dayName (gmtime t).wday
  have hmonth := length_monthName ((gmtime t).month - 1)
  have hyear : (decimal (gmtime t).year).length ≤ 14 := by
    have hnat := length_decimalNat_le (year_gmtime ht)
    unfold decimal
    split
    · rw [List.length_cons]
      omega
    · omega
  unfold dateOf formatTm twoDigits
  simp only [List.length_append, List.length_cons, List.length_nil]
  have hcomma : (ascii ", ").length = 2 := by decide
  have hspace : (ascii " ").length = 1 := by decide
  have hcolon : (ascii ":").length = 1 := by decide
  have hzone : (ascii " GMT").length = 4 := by decide
  omega

theorem strftime_fits {ptr : Bytes} {max : Nat} {t : Int} (hmax : (dateOf t).length < max)
    (hlt : (dateOf t).length < ptr.length) :
    strftime ptr max t = some (memcpy ptr 0 (dateOf t ++ [0]), (dateOf t).length) := by
  unfold strftime dateOf at *
  generalize formatTm (gmtime t) = text at *
  have hne : ptr ≠ [] := List.ne_nil_of_length_pos (by omega)
  rw [if_neg (by omega), if_neg hne, if_pos hlt]

section Cache

variable [Malloc]

theorem formatCached_text {t : Int} (ht : IsTimeT t) (str : Buffer) :
    ∃ str', formatCached str t = some str' ∧ str'.Text (dateOf t) := by
  have hlen := length_dateOf ht
  have hsize : 1024 ≤ (bufferPrepareCopy str 1024).ptr.length := le_size_bufferPrepareCopy str 1024
  unfold formatCached
  generalize bufferPrepareCopy str 1024 = b at hsize
  have hmax : (dateOf t).length < b.size - 1 := by
    show _ < b.ptr.length - 1
    omega
  have hfits := @strftime_fits b.ptr _ t hmax (by omega)
  generalize dateOf t = date at *
  simp only [hfits, Option.bind_eq_bind, Option.bind_some]
  refine ⟨_, rfl, ?_, rfl⟩
  show (memcpy b.ptr 0 (date ++ [0])).take (date.length + 1) = date ++ [0]
  have htake := @take_memcpy b.ptr (date ++ [0]) 0 (Nat.zero_le _)
  rw [List.length_append, List.length_singleton, Nat.zero_add] at htake
  exact htake

/-! ## The first slot -/

/-- The queries after one another, and what they return at that moment. -/
def strftimeQueries (cache : List MtimeCache) :
    List Int → Option (List MtimeCache × List Buffer)
  | [] => some (cache, [])
  | t :: ts => do
    let (cache, str) ← strftimeCacheGet cache t
    let (cache, strs) ← strftimeQueries cache ts
    some (cache, str :: strs)

def lastTime (ts : List Int) : Option Int := (ts.filter (· ≠ -1)).getLast?

/-- A slot as `server_init` leaves it. -/
def unusedSlot : MtimeCache := ⟨-1, bufferInit⟩

inductive FirstSlot : Option Int → MtimeCache → Prop
  | unused : FirstSlot none unusedSlot
  | written {t : Int} {str : Buffer} (other : t ≠ -1) (text : str.Text (dateOf t)) :
      FirstSlot (some t) ⟨t, str⟩
  | minus {str : Buffer} (text : str.Text (dateOf (-1))) : FirstSlot (some 0) ⟨-1, str⟩

/-- The cache after some queries: only the first slot has been written. -/
def CacheAfter (ts : List Int) (cache : List MtimeCache) : Prop :=
  ∃ c, FirstSlot (lastTime ts) c ∧ cache = c :: List.replicate 15 unusedSlot

omit [Malloc] in
theorem lastTime_concat (ts : List Int) (t : Int) :
    lastTime (ts ++ [t]) = if t = -1 then lastTime ts else some t := by
  unfold lastTime
  rw [List.filter_append]
  split
  · next h => simp [h]
  · next h => simp [h]

omit [Malloc] in
theorem unusedSlot_text (t : Int) : ¬ unusedSlot.str.Text (dateOf t) := fun h =>
  absurd h.used (by show (0 : Nat) ≠ _; omega)

omit [Malloc] in
theorem cacheSlot_unused {t : Int} (ht : t ≠ -1) (k n : Nat) :
    cacheSlot t (List.replicate n unusedSlot) k = (k + n, false) := by
  induction n generalizing k with
  | zero => rfl
  | succ n ih =>
    rw [List.replicate_succ, cacheSlot, if_neg (fun h => ht h.symm), if_neg (by decide), ih,
      Nat.add_assoc, Nat.add_comm 1]

theorem strftimeCacheGet_write {t : Int} (ht : IsTimeT t) (c : MtimeCache) (hne : c.mtime ≠ t)
    (h : c.mtime = 0 ∨ t ≠ -1) : ∃ str, str.Text (dateOf t) ∧
      strftimeCacheGet (c :: List.replicate 15 unusedSlot) t =
        some (⟨t, str⟩ :: List.replicate 15 unusedSlot, str) := by
  obtain ⟨str, hstr, htext⟩ := formatCached_text ht c.str
  refine ⟨str, htext, ?_⟩
  have hslot : ∃ i, cacheSlot t (c :: List.replicate 15 unusedSlot) 0 = (i, false) ∧
      (if i = FILE_CACHE_MAX then 0 else i) = 0 := by
    rw [cacheSlot, if_neg hne]
    by_cases hzero : c.mtime = 0
    · exact ⟨0, if_pos hzero, rfl⟩
    · rw [if_neg hzero, cacheSlot_unused (h.resolve_left hzero)]
      exact ⟨16, rfl, rfl⟩
  obtain ⟨i, hi, hfirst⟩ := hslot
  unfold strftimeCacheGet
  rw [hi]
  dsimp only
  rw [hfirst]
  simp only [List.getElem?_cons_zero, Option.bind_eq_bind, Option.bind_some, hstr,
    List.set_cons_zero]

/-- **One query.** The string is right unless the time is -1 and the last other one was not 0. -/
theorem strftimeCacheGet_after {ts : List Int} {cache : List MtimeCache} {t : Int}
    (h : CacheAfter ts cache) (ht : IsTimeT t) :
    ∃ cache' str, strftimeCacheGet cache t = some (cache', str) ∧
      CacheAfter (ts ++ [t]) cache' ∧
      (str.Text (dateOf t) ↔ (t = -1 → lastTime ts = some 0)) := by
  obtain ⟨c, hfirst, rfl⟩ := h
  have hsame : t = -1 → lastTime (ts ++ [t]) = lastTime ts := fun h => by
    rw [lastTime_concat, if_pos h]
  have hother : t ≠ -1 → lastTime (ts ++ [t]) = some t := fun h => by
    rw [lastTime_concat, if_neg h]
  by_cases hfound : c.mtime = t
  · -- the first slot has it
    refine ⟨c :: List.replicate 15 unusedSlot, c.str, ?_, ?_⟩
    · unfold strftimeCacheGet
      rw [cacheSlot, if_pos hfound]
      rfl
    generalize hlast : lastTime ts = last at *
    cases hfirst with
    | unused =>
      obtain rfl : -1 = t := hfound
      exact ⟨⟨unusedSlot, by rw [hsame rfl]; exact .unused, rfl⟩,
        iff_of_false (unusedSlot_text _) (fun h => by cases h rfl)⟩
    | written other text =>
      obtain rfl := hfound
      exact ⟨⟨_, by rw [hother other]; exact .written other text, rfl⟩,
        iff_of_true text (fun h => absurd h other)⟩
    | minus text =>
      obtain rfl : -1 = t := hfound
      exact ⟨⟨_, by rw [hsame rfl]; exact .minus text, rfl⟩,
        iff_of_true text (fun _ => rfl)⟩
  by_cases hwrite : c.mtime = 0 ∨ t ≠ -1
  · -- the first slot is written
    obtain ⟨str, htext, hget⟩ := strftimeCacheGet_write ht c hfound hwrite
    refine ⟨_, str, hget, ?_⟩
    by_cases hminus : t = -1
    · have hzero : lastTime ts = some 0 := by
        have hmtime := hwrite.resolve_right (not_not.mpr hminus)
        generalize lastTime ts = last at *
        cases hfirst with
        | unused => exact absurd hmtime (by decide)
        | written other text => exact congrArg some hmtime
        | minus text => rfl
      subst hminus
      exact ⟨⟨_, by rw [hsame rfl, hzero]; exact .minus htext, rfl⟩,
        iff_of_true htext (fun _ => hzero)⟩
    · exact ⟨⟨_, by rw [hother hminus]; exact .written hminus htext, rfl⟩,
        iff_of_true htext (fun h => absurd h hminus)⟩
  · -- one of the other slots is taken for it
    obtain ⟨hzero, hminus⟩ := not_or.mp hwrite
    rw [not_not] at hminus
    subst hminus
    refine ⟨c :: List.replicate 15 unusedSlot, bufferInit, ?_, ⟨c, by rw [hsame rfl]; exact hfirst, rfl⟩, ?_⟩
    · unfold strftimeCacheGet
      rw [cacheSlot, if_neg hfound, if_neg hzero, List.replicate_succ, cacheSlot,
        if_pos (show unusedSlot.mtime = -1 from rfl)]
      rfl
    · refine iff_of_false (unusedSlot_text _) (fun h => ?_)
      have hlast := h rfl
      generalize lastTime ts = last at *
      cases hfirst with
      | unused => cases hlast
      | written other text => exact hzero (Option.some.inj hlast)
      | minus text => exact hfound rfl

theorem strftimeQueries_after {ts before : List Int} {cache : List MtimeCache}
    (h : CacheAfter before cache) (ht : ∀ t ∈ ts, IsTimeT t) :
    ∃ cache' strs, strftimeQueries cache ts = some (cache', strs) ∧
      (List.Forall₂ (fun t str => str.Text (dateOf t)) ts strs ↔
        ∀ front back, ts = front ++ -1 :: back → lastTime (before ++ front) = some 0) := by
  induction ts generalizing before cache with
  | nil =>
    refine ⟨cache, [], rfl, iff_of_true .nil fun front back heq => ?_⟩
    exact absurd heq.symm (List.append_ne_nil_of_right_ne_nil _ (List.cons_ne_nil _ _))
  | cons t ts ih =>
    obtain ⟨cache₁, str, hget, hafter, hright⟩ :=
      strftimeCacheGet_after h (ht t List.mem_cons_self)
    obtain ⟨cache', strs, hrun, hrest⟩ :=
      ih hafter (fun u hu => ht u (List.mem_cons_of_mem _ hu))
    refine ⟨cache', str :: strs, ?_, ?_⟩
    · simp only [strftimeQueries, hget, hrun, Option.bind_eq_bind, Option.bind_some]
    rw [List.forall₂_cons, hright, hrest]
    constructor
    · rintro ⟨hfirst, hothers⟩ front back heq
      cases front with
      | nil =>
        rw [List.append_nil]
        exact hfirst (List.cons.inj heq).1
      | cons u front =>
        obtain ⟨rfl, hts⟩ := List.cons.inj heq
        have hlast := hothers front back hts
        rwa [List.append_assoc] at hlast
    · intro hall
      constructor
      · rintro rfl
        have hlast := hall [] ts rfl
        rwa [List.append_nil] at hlast
      · rintro front back rfl
        rw [List.append_assoc]
        exact hall (t :: front) back rfl

/-- **The cache is transparent** exactly if each query for the time -1 comes behind one for 0, with
no other time in between. -/
theorem strftimeTransparent_iff (loaded : Nat) {ts : List Int} (ht : ∀ t ∈ ts, IsTimeT t) :
    ∃ cache strs, strftimeQueries (serverInit loaded).mtimeCache ts = some (cache, strs) ∧
      (List.Forall₂ (fun t str => str.Text (dateOf t)) ts strs ↔
        ∀ before after, ts = before ++ -1 :: after → lastTime before = some 0) :=
  @strftimeQueries_after _ ts [] _ ⟨unusedSlot, .unused, rfl⟩ ht

end Cache

/-- Two times, and one of them again. -/
theorem strftimeTransparent_iff_again : letI : Malloc := zeroMalloc
    ∃ cache strs, strftimeQueries (serverInit 0).mtimeCache [784111777, 0, 784111777] =
        some (cache, strs) ∧
      List.Forall₂ (fun t str => str.Text (dateOf t)) [784111777, 0, 784111777] strs := by
  let _ : Malloc := zeroMalloc
  obtain ⟨cache, strs, hrun, hiff⟩ := strftimeTransparent_iff 0
    (show ∀ t ∈ [784111777, 0, 784111777], IsTimeT t by unfold IsTimeT; decide)
  refine ⟨cache, strs, hrun, hiff.mpr fun before after heq => ?_⟩
  have hmem : (-1 : Int) ∈ [784111777, 0, 784111777] := by
    rw [heq]
    exact List.mem_append_right _ List.mem_cons_self
  exact absurd hmem (by decide)

/-- The last second of 1969 is answered with an empty string. -/
theorem not_strftimeTransparent_minus : letI : Malloc := zeroMalloc
    ∃ cache str, strftimeCacheGet (serverInit 0).mtimeCache (-1) = some (cache, str) ∧
      str.str = [] ∧ ¬ str.Text (dateOf (-1)) :=
  let _ : Malloc := zeroMalloc
  ⟨(serverInit 0).mtimeCache, bufferInit, rfl, rfl, unusedSlot_text (-1)⟩

end Lighttpd
