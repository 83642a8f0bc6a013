import Lighttpd.PathSimplify

/-!
# What `buffer_path_simplify` reads

Here each read of the source has a limit, the terminator of the source; in place this is a limit for
the reads of the destination too. The two characters that the window starts with are read before
the first of them is looked at. So with a character behind the leading spaces the function stays
before the limit, and the destination is a string with its terminator; with spaces only it reads the
byte behind the terminator, and counts one byte too many (`simplifiesInBounds_iff`).
-/

namespace Lighttpd

open CLib Segments

/-- `*(m + i)`, not behind the limit. -/
def readUpTo (limit : Nat) (m : Bytes) (i : Nat) : Option UInt8 :=
  if i ≤ limit then m[i]? else none

def PathWalk.destLimit (st : PathWalk) (limit : Nat) : Nat :=
  if st.src.isNone then limit else st.dest.length

def backToSlashUpTo (limit : Nat) (dest : Bytes) : Nat → Option Nat
  | 0 => some 0
  | out + 1 => do
    let c ← readUpTo limit dest (out + 1)
    if c = 47 then some (out + 1) else backToSlashUpTo limit dest out

def endSegmentUpTo (limit : Nat) (dest : Bytes) (out slash : Nat) (pre : UInt16) (c : UInt8) :
    Option Nat :=
  if out - slash = 3 ∧ pre = 0x2E2E then do
    let out ← (if slash > 0 then backToSlashUpTo limit dest (slash - 1) else some slash)
    some (if c = 0 then out + 1 else out)
  else if out - slash = 1 ∨ pre = 0x2F2E then some (if c = 0 then slash + 1 else slash)
  else some out

/-- Where `out` stands when the character is stored. -/
def PathWalk.roundOutUpTo (st : PathWalk) (limit : Nat) : Option Nat :=
  if st.c = 47 ∨ st.c = 0 then
    endSegmentUpTo (st.destLimit limit) st.dest st.out st.slash st.pre st.c
  else some st.out

def simplifyLoopUpTo (limit : Nat) : Nat → PathWalk → Option PathWalk
  | 0, _ => none
  | fuel + 1, st => do
    let out ← st.roundOutUpTo limit
    let slash := if st.c = 47 ∨ st.c = 0 then out else st.slash
    if st.c = 0 then some { st with out := out, slash := slash }
    else do
      let c ← readUpTo limit st.source st.walk
      let dest ← storeByte st.dest out st.c
      simplifyLoopUpTo limit fuel
        { st with
          dest := dest, walk := st.walk + 1, out := out + 1, slash := slash, c := c
          pre := slide st.pre st.c }

def rewritePathUpTo (limit : Nat) (dest : Bytes) (src : Option Bytes) : Option (Bytes × Nat) := do
  let m := src.getD dest
  let walk := (m.takeWhile (· == 32)).length
  let pre1 ← readUpTo limit m walk
  let c ← readUpTo limit m (walk + 1)
  let st ← firstChar { dest, src, walk := walk + 2, out := 0, slash := 0, c, pre := 0 } pre1
  if pre1 = 0 then
    return (st.dest, st.out + 1)
  let st ← simplifyLoopUpTo limit st.source.length st
  let dest ← storeByte st.dest st.out 0
  return (dest, st.out + 1)

/-- `buffer_path_simplify`, which has no value when a read goes behind the limit or a store out of
the block. -/
def bufferPathSimplifyUpTo [Malloc] (limit : Nat) (dest : PathDest) (src : Buffer) :
    Option (Int × Buffer) := do
  match dest with
  | .src =>
    if src.size = 0 then return (-1, src)
    let b := bufferPrepareAppend src 1
    let (ptr, used) ← rewritePathUpTo limit b.ptr none
    return (0, { b with ptr := ptr, used := used })
  | .buffer dest =>
    if src.size = 0 then return (-1, dest)
    let b := bufferPrepareCopy dest (src.used + 1)
    let (ptr, used) ← rewritePathUpTo limit b.ptr (some src.ptr)
    return (0, { b with ptr := ptr, used := used })

/-- Of a source that holds `s` nothing is read behind the terminator, nothing is written out of the
block of the destination, and `dest->used` is `strlen(dest->ptr) + 1`. -/
def SimplifiesInBounds [Malloc] (dest : PathDest) (src : Buffer) (s : Bytes) : Prop :=
  ∃ b, bufferPathSimplifyUpTo s.length dest src = some (0, b) ∧ b.used = b.str.length + 1

/-! ## Within the limit -/

theorem readUpTo_of_le {limit i : Nat} (h : i ≤ limit) (m : Bytes) : readUpTo limit m i = m[i]? :=
  if_pos h

theorem backToSlashUpTo_eq {limit : Nat} {dest : Bytes} {n : Nat} (hlimit : n ≤ limit)
    (hlen : n < dest.length) : backToSlashUpTo limit dest n = some (backToSlash dest n) := by
  induction n with
  | zero => rfl
  | succ n ih =>
    have hget : dest[n + 1]? = some dest[n + 1] := List.getElem?_eq_getElem hlen
    unfold backToSlashUpTo backToSlash
    rw [readUpTo_of_le hlimit, hget, Option.bind_eq_bind, Option.bind_some]
    by_cases h47 : dest[n + 1] = 47
    · rw [if_pos h47, if_pos (congrArg some h47)]
    · rw [if_neg h47, if_neg (mt Option.some.inj h47)]
      exact ih (by omega) (by omega)

theorem endSegmentUpTo_eq {limit : Nat} {dest : Bytes} {slash : Nat} (hlimit : slash ≤ limit + 1)
    (hlen : slash ≤ dest.length) (out : Nat) (pre : UInt16) (c : UInt8) :
    endSegmentUpTo limit dest out slash pre c = some (endSegment dest out slash pre c) := by
  have hback : (if slash > 0 then backToSlashUpTo limit dest (slash - 1) else some slash) =
      some (if slash > 0 then backToSlash dest (slash - 1) else slash) := by
    split
    · exact backToSlashUpTo_eq (by omega) (by omega)
    · rfl
  unfold endSegmentUpTo endSegment
  rw [hback]
  split
  · rfl
  · split <;> rfl

namespace Layout

variable {st : PathWalk} {kept : List Bytes} {cur unread : Bytes} {limit : Nat}

theorem roundOutUpTo (h : Layout st kept cur unread) (hwalk : st.walk ≤ limit + 1) :
    st.roundOutUpTo limit = some st.roundOut := by
  have hslash := h.slash_eq
  have hout := h.out_eq
  have hroom := h.room
  have hlimit : st.slash ≤ st.destLimit limit + 1 := by
    unfold PathWalk.destLimit
    split
    · next hsrc =>
      have := h.behind (Option.isNone_iff_eq_none.mp hsrc)
      omega
    · omega
  unfold PathWalk.roundOutUpTo PathWalk.roundOut
  split
  · exact endSegmentUpTo_eq hlimit (by omega) _ _ _
  · rfl

end Layout

theorem simplifyLoopUpTo_eq {limit : Nat} : ∀ (unread : Bytes), IsCStr unread →
    ∀ {fuel : Nat} {st : PathWalk} {kept : List Bytes} {cur : Bytes},
      Layout st kept cur unread → st.walk + unread.length = limit + 1 → unread.length < fuel →
      simplifyLoopUpTo limit fuel st = simplifyLoop fuel st
  | _, _, 0, _, _, _, _, _, hf => absurd hf (Nat.not_lt_zero _)
  | [], _, fuel + 1, st, _, _, h, hwalk, _ => by
    obtain ⟨tail, htail⟩ := h.next
    obtain ⟨hst, -⟩ := List.cons.inj htail
    rw [List.length_nil] at hwalk
    unfold simplifyLoopUpTo simplifyLoop
    rw [h.roundOutUpTo (Nat.le_of_eq hwalk), Option.bind_eq_bind, Option.bind_some, if_pos hst,
      if_pos hst]
    rfl
  | c :: unread, hu, fuel + 1, st, kept, cur, h, hwalk, hf => by
    have hc : c ≠ 0 := fun e => hu (by simp [e])
    have hu' : IsCStr unread := fun hm => hu (List.mem_cons_of_mem _ hm)
    obtain ⟨c', hread, hroom, hlay⟩ := h.step hc
    have hst : st.c ≠ 0 := h.head_eq ▸ hc
    rw [List.length_cons] at hwalk hf
    have hnext : (st.round c').walk + unread.length = limit + 1 := by
      simp only [PathWalk.round]
      omega
    have hround : simplifyLoopUpTo limit (fuel + 1) st =
        simplifyLoopUpTo limit fuel (st.round c') := by
      rw [simplifyLoopUpTo, h.roundOutUpTo (by omega), Option.bind_eq_bind, Option.bind_some,
        if_neg hst, readUpTo_of_le (by omega), hread, Option.bind_eq_bind, Option.bind_some,
        storeByte_eq hroom, Option.bind_eq_bind, Option.bind_some]
      rfl
    rw [simplifyLoop_round hst hread hroom fuel, hround]
    exact simplifyLoopUpTo_eq unread hu' hlay hnext (Nat.lt_of_succ_lt_succ hf)

theorem rewritePathUpTo_eq {dest : Bytes} {src : Option Bytes} {s rest : Bytes} (hs : IsCStr s)
    (hsrc : src.getD dest = s ++ 0 :: rest) (hroom : s.length + 2 ≤ dest.length)
    (hne : s.dropWhile (· == 32) ≠ []) :
    rewritePathUpTo s.length dest src = rewritePath dest src := by
  obtain ⟨sp, x, c, t, cur, st, hsplit, -, ht, hin⟩ := exists_entered hs hsrc hroom hne
  have hlen : s.length = sp.length + (t.length + 1) := by
    rw [hsplit, List.length_append, List.length_cons]
  have hloop := @simplifyLoopUpTo_eq s.length t ht st.source.length st [] cur hin.layout
    (by rw [hin.walk_eq]; omega) hin.source_length
  unfold rewritePathUpTo rewritePath
  simp only [hin.spaces]
  rw [readUpTo_of_le (by omega), readUpTo_of_le (by omega), hin.first, hin.second]
  simp only [Option.bind_eq_bind, Option.bind_some]
  rw [hin.run]
  simp only [Option.bind_some]
  rw [hloop]

theorem takeWhile_spaces {s : Bytes} (hblank : s.dropWhile (· == 32) = []) (rest : Bytes) :
    (s ++ 0 :: rest).takeWhile (· == 32) = s := by
  have hall : ∀ a ∈ s, (a == 32) = true := List.dropWhile_eq_nil_iff.mp hblank
  rw [List.takeWhile_append_of_pos hall, List.takeWhile_cons_of_neg (by decide), List.append_nil]

theorem rewritePathUpTo_spaces {dest : Bytes} {src : Option Bytes} {s rest : Bytes}
    (hsrc : src.getD dest = s ++ 0 :: rest) (hblank : s.dropWhile (· == 32) = []) :
    rewritePathUpTo s.length dest src = none := by
  have hbehind : readUpTo s.length (s ++ 0 :: rest) (s.length + 1) = none :=
    if_neg (by omega)
  unfold rewritePathUpTo
  simp only [hsrc, takeWhile_spaces hblank]
  rw [hbehind]
  cases readUpTo s.length (s ++ 0 :: rest) s.length <;> rfl

/-- Where there is a byte behind the terminator, a `'/'` and two terminators are counted. -/
theorem rewritePath_spaces {dest : Bytes} {src : Option Bytes} {s rest : Bytes} {c : UInt8}
    (hsrc : src.getD dest = s ++ 0 :: c :: rest) (hroom : 2 ≤ dest.length)
    (hblank : s.dropWhile (· == 32) = []) :
    rewritePath dest src = some ((dest.set 0 47).set 1 0, 3) := by
  have hfirst : (s ++ 0 :: c :: rest)[s.length]? = some 0 := by simp
  have hsecond : (s ++ 0 :: c :: rest)[s.length + 1]? = some c := by
    rw [List.getElem?_append_right (by omega), Nat.add_sub_cancel_left]
    rfl
  have hchar : firstChar ⟨dest, src, s.length + 2, 0, 0, c, 0⟩ 0 =
      some ⟨(dest.set 0 47).set 1 0, src, s.length + 2, 2, 0, c, slide 47 0⟩ := by
    have h0 : 0 < dest.length := by omega
    have h1 : 1 < dest.length := by omega
    simp [firstChar, PathWalk.put, storeByte, h0, h1]
  unfold rewritePath
  simp only [hsrc, takeWhile_spaces hblank, hfirst, hsecond, Option.bind_eq_bind, Option.bind_some]
  rw [hchar]
  rfl

section Results

variable [Malloc] (dest : PathDest) {src : Buffer} {s : Bytes}

theorem bufferPathSimplifyUpTo_eq (hsize : src.size ≠ 0) (limit : Nat) :
    bufferPathSimplifyUpTo limit dest src =
      (rewritePathUpTo limit (pathBlocks dest src).1.ptr (pathBlocks dest src).2).bind fun r =>
        some (0, { (pathBlocks dest src).1 with ptr := r.1, used := r.2 }) := by
  cases dest with
  | src => simp [bufferPathSimplifyUpTo, pathBlocks, hsize]
  | buffer d => simp [bufferPathSimplifyUpTo, pathBlocks, hsize]

/-- `buffer_path_simplify` stays within its bounds exactly when there is a character behind the
leading spaces. -/
theorem simplifiesInBounds_iff (h : src.Terminated s) :
    SimplifiesInBounds dest src s ↔ s.dropWhile (· == 32) ≠ [] := by
  obtain ⟨hsize, ⟨rest, hfrom⟩, hroom⟩ := pathBlocks_spec dest h
  unfold SimplifiesInBounds
  rw [bufferPathSimplifyUpTo_eq dest hsize]
  constructor
  · rintro ⟨b, hb, -⟩ hblank
    rw [rewritePathUpTo_spaces hfrom hblank] at hb
    cases hb
  · intro hne
    obtain ⟨b, hb, -, hused, hterm⟩ := bufferPathSimplify_terminated dest h hne
    rw [rewritePathUpTo_eq h.cstr hfrom hroom hne, ← bufferPathSimplify_eq dest hsize]
    exact ⟨b, hb, by rw [hused, hterm.str]⟩

/-- With spaces only: a byte behind the terminator that is not in the block has no value; else
`dest->used` is 3 for the string `"/"`. -/
theorem bufferPathSimplify_spaces (h : src.Terminated s) (hblank : s.dropWhile (· == 32) = []) :
    (bufferPathSimplify dest src = none ∧ dest ≠ .src ∧ src.size = s.length + 1) ∨
      ∃ b, bufferPathSimplify dest src = some (0, b) ∧ b.str = [47] ∧ b.used = 3 := by
  obtain ⟨hsize, ⟨rest, hfrom⟩, hroom⟩ := pathBlocks_spec dest h
  rw [bufferPathSimplify_eq dest hsize]
  cases rest with
  | nil =>
    have hend : dest ≠ .src ∧ src.size = s.length + 1 := by
      cases dest with
      | src =>
        have hlen := congrArg List.length hfrom
        simp only [pathBlocks, Option.getD_none, List.length_append, List.length_singleton]
          at hlen hroom
        omega
      | buffer d =>
        have hlen := congrArg List.length hfrom
        simp only [pathBlocks, Option.getD_some, List.length_append, List.length_singleton] at hlen
        exact ⟨PathDest.noConfusion, hlen⟩
    have hbehind : (s ++ [0])[s.length + 1]? = none := by simp
    refine .inl ⟨?_, hend⟩
    unfold rewritePath
    simp only [hfrom, takeWhile_spaces hblank, hbehind]
    cases (s ++ [0])[s.length]? <;> rfl
  | cons c rest =>
    rw [rewritePath_spaces hfrom (by omega) hblank]
    refine .inr ⟨_, rfl, ?_, rfl⟩
    unfold Buffer.str
    generalize (pathBlocks dest src).1.ptr = ptr at hroom
    cases ptr with
    | nil => exact absurd hroom (by simp)
    | cons a ptr =>
      cases ptr with
      | nil => exact absurd hroom (by simp)
      | cons b ptr => rfl

end Results

/-- A path with a character behind its spaces, in place. -/
theorem simplifiesInBounds_iff_dots :
    @SimplifiesInBounds zeroMalloc .src (textBuffer (ascii " /a/..")) (ascii " /a/..") ↔
      (ascii " /a/..").dropWhile (· == 32) ≠ [] :=
  @simplifiesInBounds_iff zeroMalloc .src _ _ ⟨by decide, by decide, by decide⟩

/-- The empty path: the byte behind its terminator is read, and `dest->used` is 3. -/
theorem not_simplifiesInBounds_empty :
    (textBuffer []).Terminated [] ∧
    ¬ @SimplifiesInBounds zeroMalloc .src (textBuffer []) [] ∧
    ∃ b, @bufferPathSimplify zeroMalloc .src (textBuffer []) = some (0, b) ∧ b.str = [47] ∧
      b.used = 3 := by
  have hterm : (textBuffer []).Terminated [] := ⟨by decide, by decide, by decide⟩
  refine ⟨hterm, ?_, ?_⟩
  · rintro ⟨b, hb, -⟩
    have hnone : @bufferPathSimplifyUpTo zeroMalloc 0 .src (textBuffer []) = none := by
      decide +kernel
    rw [List.length_nil, hnone] at hb
    cases hb
  · exact ⟨_, rfl, by decide +kernel, rfl⟩

end Lighttpd
