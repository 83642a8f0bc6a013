import Lighttpd.Buffer
import Lighttpd.Lib.Segments

/-!
# `buffer.c`: `buffer_path_simplify`

The function rewrites a path in one pass, with `out` behind `walk` and the last two characters in a
16-bit window. Source and destination may be the same block, so the reads go to the memory as the
writes have left it. A read or a store outside its block has no value.
-/

namespace Lighttpd

open CLib Segments

/-- The local variables of `buffer_path_simplify`: the block at `dest->ptr`, the block at
`src->ptr` unless it is the same one, and the pointers as offsets into them. -/
structure PathWalk where
  dest : Bytes
  src : Option Bytes
  walk : Nat
  out : Nat
  slash : Nat
  c : UInt8
  pre : UInt16
  deriving DecidableEq, Repr

/-- `*(m + off) = c` -/
def storeByte (m : Bytes) (off : Nat) (c : UInt8) : Option Bytes :=
  if off < m.length then some (m.set off c) else none

namespace PathWalk

/-- The block `walk` points into. -/
def source (st : PathWalk) : Bytes := st.src.getD st.dest

/-- `*(out++) = c` -/
def put (st : PathWalk) (c : UInt8) : Option PathWalk := do
  let dest ← storeByte st.dest st.out c
  some { st with dest := dest, out := st.out + 1 }

end PathWalk

/-- `(pre << 8) | pre1`; the signed `char` is extended. -/
def slide (pre : UInt16) (pre1 : UInt8) : UInt16 := (pre <<< 8) ||| pre1.toInt8.toInt16.toUInt16

/-- `while (out > start && *out != '/') out--;` -/
def backToSlash (dest : Bytes) : Nat → Nat
  | 0 => 0
  | out + 1 => if dest[out + 1]? = some 47 then out + 1 else backToSlash dest out

/-- Where `out` stands after the end of a segment, at a `'/'` or at the terminator. -/
def endSegment (dest : Bytes) (out slash : Nat) (pre : UInt16) (c : UInt8) : Nat :=
  if out - slash = 3 ∧ pre = 0x2E2E then
    let out := if slash > 0 then backToSlash dest (slash - 1) else slash
    if c = 0 then out + 1 else out
  else if out - slash = 1 ∨ pre = 0x2F2E then
    if c = 0 then slash + 1 else slash
  else out

/-- `while (1)`: `fuel` bounds the number of rounds. -/
def simplifyLoop : Nat → PathWalk → Option PathWalk
  | 0, _ => none
  | fuel + 1, st =>
    let out := if st.c = 47 ∨ st.c = 0 then endSegment st.dest st.out st.slash st.pre st.c else st.out
    let slash := if st.c = 47 ∨ st.c = 0 then out else st.slash
    if st.c = 0 then some { st with out := out, slash := slash }
    else do
      let c ← st.source[st.walk]?
      let dest ← storeByte st.dest out st.c
      simplifyLoop fuel
        { st with dest := dest, walk := st.walk + 1, out := out + 1, slash := slash, c := c
                  pre := slide st.pre st.c }

/-- Where `buffer_path_simplify` writes: to its source, or to another buffer. -/
inductive PathDest where
  | src
  | buffer (b : Buffer)
  deriving DecidableEq, Repr

/-- The first character behind the leading spaces, and a `'/'` in front of it unless it is one. -/
def firstChar (st : PathWalk) (pre1 : UInt8) : Option PathWalk := do
  let st ← if pre1 ≠ 47 then PathWalk.put { st with pre := slide 47 pre1 } 47
    else some { st with pre := slide 0 pre1 }
  st.put pre1

/-- The rewriting proper, once `dest` has room: the block at `dest->ptr` and `dest->used`. -/
def rewritePath (dest : Bytes) (src : Option Bytes) : Option (Bytes × Nat) := do
  let m := src.getD dest
  let walk := (m.takeWhile (· == 32)).length
  let pre1 ← m[walk]?
  let c ← m[walk + 1]?
  let st ← firstChar { dest, src, walk := walk + 2, out := 0, slash := 0, c, pre := 0 } pre1
  if pre1 = 0 then
    return (st.dest, st.out + 1)
  let st ← simplifyLoop st.source.length st
  let dest ← storeByte st.dest st.out 0
  return (dest, st.out + 1)

def bufferPathSimplify [Malloc] (dest : PathDest) (src : Buffer) : Option (Int × Buffer) := do
  match dest with
  | .src =>
    if src.size = 0 then return (-1, src)
    let b := bufferPrepareAppend src 1
    let (ptr, used) ← rewritePath b.ptr none
    return (0, { b with ptr := ptr, used := used })
  | .buffer dest =>
    if src.size = 0 then return (-1, dest)
    let b := bufferPrepareCopy dest (src.used + 1)
    let (ptr, used) ← rewritePath b.ptr (some src.ptr)
    return (0, { b with ptr := ptr, used := used })

/-! ## The window -/

theorem toUInt8_slide (pre : UInt16) (c : UInt8) : (slide pre c).toUInt8 = c := by
  apply UInt8.toBitVec_inj.1
  ext i hi
  have h16 : i < 16 := by omega
  simp [slide, h16, BitVec.getElem_signExtend, hi]

theorem slide_low (pre : UInt16) (c : UInt8) : slide pre c = slide pre.toUInt8.toUInt16 c := by
  apply UInt16.toBitVec_inj.1
  have hlow : pre.toUInt8.toUInt16.toBitVec = (pre.toBitVec.setWidth 8).setWidth 16 := rfl
  ext i hi
  by_cases h8 : i < 8
  · simp [slide, h8]
  · have h : i - 8 < 8 := by omega
    have h16 : i - 8 < 16 := by omega
    simp only [slide, UInt16.toBitVec_or, UInt16.toBitVec_shiftLeft, hlow]
    simp [h8, h, BitVec.getLsbD_eq_getElem h16]

theorem slide_dot (b : UInt8) :
    (slide b.toUInt16 46 = 0x2E2E ↔ b = 46) ∧ (slide b.toUInt16 46 = 0x2F2E ↔ b = 47) := by
  obtain ⟨n, rfl⟩ : ∃ n : Fin 256, b = UInt8.ofNat n := ⟨b.toFin, by simp⟩
  revert n
  decide +kernel

theorem slide_eq_dotdot {pre : UInt16} {c : UInt8} :
    slide pre c = 0x2E2E ↔ pre.toUInt8 = 46 ∧ c = 46 := by
  constructor
  · intro h
    have hc : c = 46 := by
      rw [← toUInt8_slide pre c, h]
      rfl
    subst hc
    rw [slide_low] at h
    exact ⟨(slide_dot _).1.mp h, rfl⟩
  · rintro ⟨h, rfl⟩
    rw [slide_low, h]
    rfl

theorem slide_eq_slashdot {pre : UInt16} {c : UInt8} :
    slide pre c = 0x2F2E ↔ pre.toUInt8 = 47 ∧ c = 46 := by
  constructor
  · intro h
    have hc : c = 46 := by
      rw [← toUInt8_slide pre c, h]
      rfl
    subst hc
    rw [slide_low] at h
    exact ⟨(slide_dot _).2.mp h, rfl⟩
  · rintro ⟨h, rfl⟩
    rw [slide_low, h]
    rfl

/-- The window holds the last two characters of the segment `cur` behind its slash. -/
def WindowOf (cur : Bytes) (pre : UInt16) : Prop :=
  (cur = [] → pre.toUInt8 = 47) ∧
    ∀ xs a, cur = xs ++ [a] → ∃ p, pre = slide p a ∧ p.toUInt8 = xs.getLastD 47

namespace WindowOf

variable {cur : Bytes} {pre : UInt16}

theorem toUInt8 (h : WindowOf cur pre) : pre.toUInt8 = cur.getLastD 47 := by
  rcases List.eq_nil_or_concat' cur with rfl | ⟨xs, a, rfl⟩
  · exact h.1 rfl
  · obtain ⟨p, rfl, -⟩ := h.2 xs a rfl
    rw [toUInt8_slide, List.getLastD_concat]

theorem push (h : WindowOf cur pre) (c : UInt8) : WindowOf (cur ++ [c]) (slide pre c) := by
  refine ⟨by simp, fun xs a hxs => ?_⟩
  obtain ⟨rfl, hc⟩ := List.append_inj' hxs rfl
  cases hc
  exact ⟨pre, rfl, h.toUInt8⟩

theorem slash (pre : UInt16) : WindowOf [] (slide pre 47) :=
  ⟨fun _ => toUInt8_slide _ _, fun xs a h => by simp at h⟩

theorem dotdot_iff (h : WindowOf cur pre) :
    (1 + cur.length = 3 ∧ pre = 0x2E2E) ↔ cur = [46, 46] := by
  constructor
  · rintro ⟨hlen, hpre⟩
    obtain ⟨b, a, rfl⟩ := List.length_eq_two.mp (show cur.length = 2 by omega)
    obtain ⟨p, rfl, hp⟩ := h.2 [b] a rfl
    obtain ⟨hb, rfl⟩ := slide_eq_dotdot.mp hpre
    have hb' : b = 46 := hp.symm.trans hb
    rw [hb']
  · rintro rfl
    obtain ⟨p, rfl, hp⟩ := h.2 [46] 46 rfl
    exact ⟨rfl, slide_eq_dotdot.mpr ⟨hp, rfl⟩⟩

theorem dot_iff (h : WindowOf cur pre) (hcur : 47 ∉ cur) :
    (1 + cur.length = 1 ∨ pre = 0x2F2E) ↔ cur = [] ∨ cur = [46] := by
  constructor
  · rintro (hlen | hpre)
    · exact Or.inl (List.eq_nil_of_length_eq_zero (by omega))
    · rcases List.eq_nil_or_concat' cur with rfl | ⟨xs, a, rfl⟩
      · exact Or.inl rfl
      · obtain ⟨p, rfl, hp⟩ := h.2 xs a rfl
        obtain ⟨h47, rfl⟩ := slide_eq_slashdot.mp hpre
        rcases List.eq_nil_or_concat' xs with rfl | ⟨ys, b, rfl⟩
        · exact Or.inr rfl
        · rw [hp, List.getLastD_concat] at h47
          exact absurd (by simp [h47]) hcur
  · rintro (rfl | rfl)
    · exact Or.inl rfl
    · obtain ⟨p, rfl, hp⟩ := h.2 [] 46 rfl
      exact Or.inr (slide_eq_slashdot.mpr ⟨hp, rfl⟩)

end WindowOf

/-! ## The end of a segment -/

theorem backToSlash_eq {dest : Bytes} {n : Nat} (hn : n = 0 ∨ dest[n]? = some 47) :
    ∀ j, (∀ i, n < i → i ≤ n + j → dest[i]? ≠ some 47) → backToSlash dest (n + j) = n
  | 0, _ => by
    cases n with
    | zero => rfl
    | succ n =>
      have h47 := hn.resolve_left (by omega)
      simp [backToSlash, h47]
  | j + 1, h => by
    have hne := h (n + j + 1) (by omega) (by omega)
    show backToSlash dest (n + j + 1) = n
    rw [backToSlash, if_neg hne]
    exact backToSlash_eq hn j fun i h1 h2 => h i h1 (by omega)

theorem backToSlash_render {k : Bytes} (dest init rest : Bytes)
    (hdest : init ++ 47 :: k ++ rest = dest) (hk : 47 ∉ k) :
    backToSlash dest (init.length + k.length) = init.length := by
  subst hdest
  refine backToSlash_eq (Or.inr (by simp)) _ fun i h1 h2 he => ?_
  obtain ⟨j, rfl⟩ : ∃ j, i = init.length + (j + 1) := ⟨i - init.length - 1, by omega⟩
  have hj : j < k.length := by omega
  rw [List.append_assoc, List.getElem?_append_right (by omega), List.cons_append] at he
  simp only [Nat.add_sub_cancel_left, List.getElem?_cons_succ,
    List.getElem?_append_left hj] at he
  exact hk (List.mem_of_getElem? he)

theorem close_prefix (kept : List Bytes) (special : Bool) (rest : Bytes) :
    close 47 kept special <+: render 47 kept ++ 47 :: rest := by
  unfold close
  cases special
  · exact ⟨47 :: rest, by simp⟩
  · exact ⟨rest, by simp⟩

theorem close_push_prefix (kept : List Bytes) (cur : Bytes) (special : Bool)
    (hsp : special = true → Special 46 cur) :
    close 47 (push 46 kept cur) special <+: render 47 kept ++ 47 :: cur := by
  by_cases hcur : Special 46 cur
  · rcases hcur with rfl | rfl | rfl
    · rw [push_empty]
      exact close_prefix _ _ _
    · exact close_prefix kept special [46]
    · show close 47 kept.dropLast special <+: _
      rcases List.eq_nil_or_concat' kept with rfl | ⟨init, k, rfl⟩
      · exact close_prefix [] special _
      · rw [List.dropLast_concat, render_append, render_singleton, List.append_assoc,
          List.cons_append]
        exact close_prefix init special _
  · have : special = false := by
      cases special
      · rfl
      · exact absurd (hsp rfl) hcur
    subst this
    rw [push_of_not_special hcur]
    exact ⟨[], by simp [close]⟩

/-- At a `'/'`, `out` goes back to the end of the kept segments; at the terminator it also passes
the closing slash of a path that ends in a special segment. -/
theorem endSegment_eq {dest : Bytes} {kept : List Bytes} {cur : Bytes} {pre : UInt16} {c : UInt8}
    (hkept : ∀ k ∈ kept, 47 ∉ k) (hcur : 47 ∉ cur) (hpre : WindowOf cur pre)
    (rest : Bytes) (hdest : render 47 kept ++ 47 :: cur ++ rest = dest) :
    endSegment dest ((render 47 kept).length + 1 + cur.length) (render 47 kept).length pre c =
      (close 47 (push 46 kept cur) (decide (c = 0 ∧ Special 46 cur))).length := by
  have htok : (render 47 kept).length + 1 + cur.length - (render 47 kept).length =
      1 + cur.length := by omega
  have hback : (if (render 47 kept).length > 0
      then backToSlash dest ((render 47 kept).length - 1) else (render 47 kept).length) =
      (render 47 kept.dropLast).length := by
    rcases List.eq_nil_or_concat' kept with rfl | ⟨init, k, rfl⟩
    · rfl
    · have hk := hkept k (by simp)
      have := backToSlash_render dest (render 47 init) (47 :: cur ++ rest)
        (by rw [← hdest]; simp) hk
      simp only [render_append, render_singleton, List.length_append, List.length_cons,
        List.dropLast_concat]
      have hlen : (render 47 init).length + (k.length + 1) - 1 =
          (render 47 init).length + k.length := by omega
      rw [if_pos (by omega), hlen, this]
  unfold endSegment
  rw [htok]
  simp only [hpre.dotdot_iff, hpre.dot_iff hcur, hback]
  by_cases h2 : cur = [46, 46]
  · subst h2
    have hpush : push 46 kept [46, 46] = kept.dropLast := rfl
    by_cases hc : c = 0 <;> simp [hpush, hc, close, Special]
  · by_cases h1 : cur = [] ∨ cur = [46]
    · have hsp : Special 46 cur := h1.elim Or.inl fun h => Or.inr (Or.inl h)
      have hpush : push 46 kept cur = kept := by simp [push, h1]
      by_cases hc : c = 0 <;> simp [h2, h1, hpush, hc, close, hsp]
    · have hsp : ¬ Special 46 cur := by
        unfold Special
        tauto
      simp [h2, h1, push_of_not_special hsp, hsp, close]
      omega

/-! ## The loop -/

theorem storeByte_eq {m : Bytes} {off : Nat} (h : off < m.length) (c : UInt8) :
    storeByte m off c = some (m.set off c) := if_pos h

theorem take_set_succ {m : Bytes} {k : Nat} (h : k < m.length) (c : UInt8) :
    (m.set k c).take (k + 1) = m.take k ++ [c] := by
  rw [List.take_succ_eq_append_getElem (by simpa using h), List.take_set_of_le (Nat.le_refl _)]
  simp

theorem prefix_take {α : Type} {m w p : List α} {n : Nat} (hw : m.take n = w) (hp : p <+: w) :
    m.take p.length = p := by
  obtain ⟨t, rfl⟩ := hp
  have hpre : p <+: m := List.IsPrefix.trans ⟨t, hw.symm⟩ (List.take_prefix n m)
  exact (List.prefix_iff_eq_take.mp hpre).symm

namespace PathWalk

def roundOut (st : PathWalk) : Nat :=
  if st.c = 47 ∨ st.c = 0 then endSegment st.dest st.out st.slash st.pre st.c else st.out

/-- The state after a round that reads `c`. -/
def round (st : PathWalk) (c : UInt8) : PathWalk :=
  { st with
    dest := st.dest.set st.roundOut st.c, walk := st.walk + 1, out := st.roundOut + 1
    slash := if st.c = 47 ∨ st.c = 0 then st.roundOut else st.slash, c := c
    pre := slide st.pre st.c }

end PathWalk

theorem simplifyLoop_round {st : PathWalk} {c : UInt8} (hst : st.c ≠ 0)
    (hread : st.source[st.walk]? = some c) (hroom : st.roundOut < st.dest.length) (fuel : Nat) :
    simplifyLoop (fuel + 1) st = simplifyLoop fuel (st.round c) := by
  rw [simplifyLoop, if_neg hst, hread, Option.bind_eq_bind, Option.bind_some]
  exact (congrArg (Option.bind · _) (storeByte_eq hroom st.c)).trans rfl

/-- Between two rounds: the segments kept so far and the segment being read stand in front of
`out`; `unread` is the text from `c` on, which no store has reached. -/
structure Layout (st : PathWalk) (kept : List Bytes) (cur unread : Bytes) : Prop where
  kept_ok : ∀ k ∈ kept, 47 ∉ k
  cur_ok : 47 ∉ cur
  slash_eq : st.slash = (render 47 kept).length
  out_eq : st.out = (render 47 kept).length + 1 + cur.length
  written : st.dest.take st.out = render 47 kept ++ 47 :: cur
  next : ∃ tail, st.c :: st.source.drop st.walk = unread ++ 0 :: tail
  behind : st.src = none → st.out ≤ st.walk
  room : st.out + unread.length < st.dest.length
  window : WindowOf cur st.pre

namespace Layout

variable {st : PathWalk} {kept : List Bytes} {cur unread : Bytes}

theorem head_eq {c : UInt8} (h : Layout st kept cur (c :: unread)) : st.c = c := by
  obtain ⟨tail, htail⟩ := h.next
  exact (List.cons.inj htail).1

theorem endSegment (h : Layout st kept cur unread) (c : UInt8) :
    ∃ p, p = close 47 (push 46 kept cur) (decide (c = 0 ∧ Special 46 cur)) ∧
      endSegment st.dest st.out st.slash st.pre c = p.length ∧ st.dest.take p.length = p ∧
        p.length ≤ st.out := by
  have hpre := close_push_prefix kept cur (decide (c = 0 ∧ Special 46 cur))
    fun hd => (of_decide_eq_true hd).2
  refine ⟨_, rfl, ?_, prefix_take h.written hpre, ?_⟩
  · rw [h.out_eq, h.slash_eq]
    refine endSegment_eq h.kept_ok h.cur_ok h.window (st.dest.drop st.out) ?_
    rw [← h.written]
    exact List.take_append_drop _ _
  · have := hpre.length_le
    rw [h.out_eq]
    simp only [List.length_append, List.length_cons] at this
    omega

theorem store {c : UInt8} (h : Layout st kept cur (c :: unread)) (out slash : Nat)
    (kept' : List Bytes) (cur' : Bytes) (hkept : ∀ k ∈ kept', 47 ∉ k) (hcur : 47 ∉ cur')
    (hslash : slash = (render 47 kept').length)
    (hout : out = (render 47 kept').length + cur'.length) (hle : out ≤ st.out)
    (hw : st.dest.take out ++ [c] = render 47 kept' ++ 47 :: cur')
    (hwin : WindowOf cur' (slide st.pre c)) :
    ∃ c', st.source[st.walk]? = some c' ∧ Layout { st with
      dest := st.dest.set out c, walk := st.walk + 1, out := out + 1, slash := slash, c := c'
      pre := slide st.pre c } kept' cur' unread := by
  obtain ⟨tail, htail⟩ := h.next
  have hroom := h.room
  rw [List.length_cons] at hroom
  obtain ⟨-, hdrop⟩ := List.cons.inj htail
  obtain ⟨c', more, hmore⟩ : ∃ c' more, unread ++ 0 :: tail = c' :: more := by
    cases unread with
    | nil => exact ⟨0, tail, rfl⟩
    | cons x xs => exact ⟨x, xs ++ 0 :: tail, rfl⟩
  have hwalk : st.source.drop st.walk = c' :: more := hdrop.trans hmore
  have hnext : st.source.drop (st.walk + 1) = more := by
    rw [← List.drop_drop, hwalk, List.drop_one, List.tail_cons]
  refine ⟨c', ?_, ?_⟩
  · rw [← List.head?_drop, hwalk, List.head?_cons]
  · refine
      { kept_ok := hkept, cur_ok := hcur, slash_eq := hslash
        out_eq := by simp only [hout]; omega
        written := by simp only [take_set_succ (show out < st.dest.length by omega), hw]
        next := ⟨tail, ?_⟩
        behind := fun hsrc => ?_
        room := by simp only [List.length_set]; omega
        window := hwin }
    · rw [hmore, ← hnext]
      cases hsrc : st.src with
      | some m => simp [PathWalk.source, hsrc]
      | none =>
        have hbehind := h.behind hsrc
        simp only [PathWalk.source, hsrc, Option.getD_none]
        rw [List.drop_set_of_lt (by omega)]
    · have := h.behind hsrc
      simp only
      omega

/-- **One round of the loop** reads one character the way `scan` does. -/
theorem step {c : UInt8} (h : Layout st kept cur (c :: unread)) (hc : c ≠ 0) :
    ∃ c', st.source[st.walk]? = some c' ∧ st.roundOut < st.dest.length ∧
      Layout (st.round c') (if c = 47 then push 46 kept cur else kept)
        (if c = 47 then [] else cur ++ [c]) unread := by
  have hst := h.head_eq
  have hroom := h.room
  rw [List.length_cons] at hroom
  unfold PathWalk.round PathWalk.roundOut
  by_cases h47 : c = 47
  · obtain ⟨p, hp, hout, htake, hle⟩ := h.endSegment c
    have hp' : p = render 47 (push 46 kept cur) := by simp [hp, hc, close]
    obtain ⟨c', hread, hlay⟩ := h.store p.length p.length (push 46 kept cur) []
      (fun k hk => (mem_push hk).elim (h.kept_ok k) fun e => e ▸ h.cur_ok) (by simp)
      (by rw [hp']) (by simp [hp']) hle (by rw [htake, hp', h47]) (by
        rw [h47]
        exact WindowOf.slash _)
    rw [if_pos h47, if_pos h47]
    simp only [hst, h47, true_or, if_true] at hout hlay ⊢
    rw [hout]
    exact ⟨c', hread, by omega, hlay⟩
  · obtain ⟨c', hread, hlay⟩ := h.store st.out st.slash kept (cur ++ [c]) h.kept_ok
      (by simp [h.cur_ok, Ne.symm h47]) h.slash_eq
      (by rw [h.out_eq, List.length_append, List.length_singleton]; omega) (Nat.le_refl _)
      (by rw [h.written]; simp) (h.window.push c)
    have hplain : ¬ (st.c = 47 ∨ st.c = 0) := by
      rw [hst]
      exact not_or.mpr ⟨h47, hc⟩
    rw [if_neg h47, if_neg h47, if_neg hplain, if_neg hplain, hst]
    exact ⟨c', hread, by omega, hlay⟩

theorem finish (h : Layout st kept cur []) (fuel : Nat) :
    ∃ st', simplifyLoop (fuel + 1) st = some st' ∧ st'.dest.length = st.dest.length ∧
      st'.out < st'.dest.length ∧
      st'.dest.take st'.out = close 47 (push 46 kept cur) (decide (Special 46 cur)) := by
  obtain ⟨tail, htail⟩ := h.next
  obtain ⟨hst, -⟩ := List.cons.inj htail
  obtain ⟨p, hp, hout, htake, hle⟩ := h.endSegment 0
  have hroom := h.room
  simp only [true_and] at hp
  refine ⟨{ st with out := p.length, slash := p.length }, ?_, rfl, ?_, ?_⟩
  · rw [simplifyLoop]
    simp [hst, hout]
  · simp only [List.length_nil] at hroom ⊢
    omega
  · rw [← hp, htake]

end Layout

/-- **The loop computes the scan.** -/
theorem simplifyLoop_eq_scan : ∀ (unread : Bytes), IsCStr unread →
    ∀ {fuel : Nat} {st : PathWalk} {kept : List Bytes} {cur : Bytes},
      Layout st kept cur unread → unread.length < fuel →
      ∃ st', simplifyLoop fuel st = some st' ∧ st'.dest.length = st.dest.length ∧
        st'.out < st'.dest.length ∧ st'.dest.take st'.out = scan 47 46 kept cur unread
  | _, _, 0, _, _, _, _, hf => absurd hf (Nat.not_lt_zero _)
  | [], _, fuel + 1, _, _, _, h, _ => h.finish fuel
  | c :: unread, hu, fuel + 1, st, kept, cur, h, hf => by
    have hc : c ≠ 0 := fun e => hu (by simp [e])
    have hu' : IsCStr unread := fun hm => hu (List.mem_cons_of_mem _ hm)
    obtain ⟨c', hread, hroom, hlay⟩ := h.step hc
    obtain ⟨st2, hrun, hlen2, hout, htake⟩ :=
      simplifyLoop_eq_scan unread hu' hlay (Nat.lt_of_succ_lt_succ hf)
    have hst : st.c ≠ 0 := h.head_eq ▸ hc
    have hlen : (st.round c').dest.length = st.dest.length := List.length_set
    refine ⟨st2, (simplifyLoop_round hst hread hroom fuel).trans hrun, hlen2.trans hlen, hout, ?_⟩
    rw [htake, scan]
    split <;> simp_all

/-! ## The whole function -/

theorem firstChar_layout (dest : Bytes) (src : Option Bytes) (walk : Nat) (c x : UInt8)
    (unread tail : Bytes) (hnext : c :: (src.getD dest).drop walk = unread ++ 0 :: tail)
    (hwalk : 2 ≤ walk) (hroom : unread.length + 3 ≤ dest.length) :
    ∃ st cur, firstChar ⟨dest, src, walk, 0, 0, c, 0⟩ x = some st ∧
      st.walk = walk ∧ st.dest.length = dest.length ∧
      st.source.length = (src.getD dest).length ∧
      Layout st [] cur unread ∧ scan 47 46 [] cur unread = scan 47 46 [] [] (x :: unread) := by
  have hsource : ∀ m : Bytes, m.drop walk = dest.drop walk →
      c :: (src.getD m).drop walk = unread ++ 0 :: tail := by
    intro m hm
    rw [← hnext]
    cases src with
    | some _ => rfl
    | none => simp [hm]
  have hlen : ∀ m : Bytes, m.length = dest.length →
      (src.getD m).length = (src.getD dest).length := by
    intro m hm
    cases src with
    | some _ => rfl
    | none => exact hm
  have h0 : 0 < dest.length := by omega
  have h1 : 1 < dest.length := by omega
  by_cases hx : x = 47
  · subst hx
    refine ⟨⟨dest.set 0 47, src, walk, 1, 0, c, slide 0 47⟩, [], ?_, rfl, by simp,
      hlen _ (by simp), ?_, by simp [scan]⟩
    · simp [firstChar, PathWalk.put, storeByte, h0]
    · refine
        { kept_ok := by simp, cur_ok := by simp, slash_eq := rfl, out_eq := rfl
          written := by simpa using take_set_succ h0 47
          next := ⟨tail, hsource _ (List.drop_set_of_lt (by omega))⟩
          behind := fun _ => by simp only; omega
          room := by simp only [List.length_set]; omega
          window := WindowOf.slash 0 }
  · refine ⟨⟨(dest.set 0 47).set 1 x, src, walk, 2, 0, c, slide 47 x⟩, [x], ?_, rfl, by simp,
      hlen _ (by simp), ?_, by simp [scan, hx]⟩
    · simp [firstChar, PathWalk.put, storeByte, h0, h1, hx]
    · refine
        { kept_ok := by simp, cur_ok := by simpa using Ne.symm hx, slash_eq := rfl, out_eq := rfl
          written := ?_
          next := ⟨tail, hsource _ ?_⟩
          behind := fun _ => hwalk
          room := by simp only [List.length_set]; omega
          window := (show WindowOf [] 47 from ⟨fun _ => rfl, fun xs a h => by simp at h⟩).push x }
      · have hfirst := take_set_succ h0 47
        have hsecond := take_set_succ (m := dest.set 0 47) (k := 1) (by simpa using h1) x
        rw [hsecond, hfirst]
        rfl
      · rw [List.drop_set_of_lt (by omega), List.drop_set_of_lt (by omega)]

/-- In front of the loop: `x` is the first character behind the leading spaces `sp` of a path, and
`t` the text behind it. -/
structure Entered (dest : Bytes) (src : Option Bytes) (sp : Bytes) (x c : UInt8) (t cur : Bytes)
    (st : PathWalk) : Prop where
  spaces : (src.getD dest).takeWhile (· == 32) = sp
  first : (src.getD dest)[sp.length]? = some x
  second : (src.getD dest)[sp.length + 1]? = some c
  ne_zero : x ≠ 0
  run : firstChar ⟨dest, src, sp.length + 2, 0, 0, c, 0⟩ x = some st
  walk_eq : st.walk = sp.length + 2
  dest_length : st.dest.length = dest.length
  source_length : t.length < st.source.length
  layout : Layout st [] cur t
  scan_eq : scan 47 46 [] cur t = scan 47 46 [] [] (x :: t)

theorem exists_entered {dest : Bytes} {src : Option Bytes} {s rest : Bytes} (hs : IsCStr s)
    (hsrc : src.getD dest = s ++ 0 :: rest) (hroom : s.length + 2 ≤ dest.length)
    (hne : s.dropWhile (· == 32) ≠ []) :
    ∃ sp x c t cur st, s = sp ++ x :: t ∧ s.dropWhile (· == 32) = x :: t ∧ IsCStr t ∧
      Entered dest src sp x c t cur st := by
  obtain ⟨x, t, hxt⟩ := List.exists_cons_of_ne_nil hne
  set sp := s.takeWhile (· == 32) with hsp
  have hsplit : s = sp ++ x :: t := by
    rw [← hxt, hsp, List.takeWhile_append_dropWhile]
  have hx32 : (x == 32) = false := by
    have := List.head_dropWhile_not (p := (· == (32 : UInt8))) (l := s) hne
    simpa [hxt] using this
  have hmem : src.getD dest = sp ++ x :: (t ++ 0 :: rest) := by rw [hsrc, hsplit]; simp
  have htake : (src.getD dest).takeWhile (· == 32) = sp := by
    have hall : ∀ a ∈ sp, (a == 32) = true := fun a ha =>
      List.mem_takeWhile_imp (p := (· == (32 : UInt8))) (hsp ▸ ha)
    rw [hmem, List.takeWhile_append_of_pos hall]
    simp [hx32]
  have hxs : x ≠ 0 := fun e => hs (by rw [hsplit]; simp [e])
  have ht : IsCStr t := fun hm => hs (by rw [hsplit]; simp [hm])
  obtain ⟨c, more, hmore⟩ : ∃ c more, t ++ 0 :: rest = c :: more := by
    cases t with
    | nil => exact ⟨0, rest, rfl⟩
    | cons y ys => exact ⟨y, ys ++ 0 :: rest, rfl⟩
  have hread : (src.getD dest)[sp.length]? = some x := by simp [hmem]
  have hread' : (src.getD dest)[sp.length + 1]? = some c := by
    rw [hmem, List.getElem?_append_right (by omega), Nat.add_sub_cancel_left, hmore]
    rfl
  have hlen : s.length = sp.length + (t.length + 1) := by rw [hsplit]; simp
  have hdrop : (src.getD dest).drop (sp.length + 2) = more := by
    rw [hmem, hmore, ← List.drop_drop, List.drop_left' rfl]
    rfl
  obtain ⟨st, cur, hfirst, hwalk, hlen1, hlen0, hlay, hscan⟩ := firstChar_layout dest src
    (sp.length + 2) c x t rest (by rw [hdrop, hmore]) (by omega) (by omega)
  have hfuel : t.length < st.source.length := by
    rw [hlen0, hsrc, List.length_append, List.length_cons]
    omega
  exact ⟨sp, x, c, t, cur, st, hsplit, hxt, ht, htake, hread, hread', hxs, hfirst, hwalk, hlen1,
    hfuel, hlay, hscan⟩

theorem rewritePath_eq {dest : Bytes} {src : Option Bytes} {s rest : Bytes} (hs : IsCStr s)
    (hsrc : src.getD dest = s ++ 0 :: rest) (hroom : s.length + 2 ≤ dest.length)
    (hne : s.dropWhile (· == 32) ≠ []) :
    ∃ m, rewritePath dest src =
        some (m, (normalForm 47 46 (s.dropWhile (· == 32))).length + 1) ∧
      m.length = dest.length ∧
      m.take ((normalForm 47 46 (s.dropWhile (· == 32))).length + 1) =
        normalForm 47 46 (s.dropWhile (· == 32)) ++ [0] := by
  obtain ⟨sp, x, c, t, cur, st, -, hxt, ht, hin⟩ := exists_entered hs hsrc hroom hne
  obtain ⟨st', hloop, hlen, hout, hwritten⟩ := simplifyLoop_eq_scan t ht hin.layout
    hin.source_length
  rw [hin.scan_eq, ← hxt, scan_eq_normalForm] at hwritten
  have hout' : (normalForm 47 46 (s.dropWhile (· == 32))).length = st'.out := by
    rw [← hwritten, List.length_take]
    omega
  refine ⟨st'.dest.set st'.out 0, ?_, ?_, ?_⟩
  · simp [rewritePath, hin.spaces, hin.first, hin.second, hin.run, hin.ne_zero, hloop,
      storeByte_eq hout, hout']
  · rw [List.length_set, hlen, hin.dest_length]
  · rw [hout', take_set_succ hout, hwritten]

theorem isCStr_normalForm {s : Bytes} (hs : IsCStr s) : IsCStr (normalForm 47 46 s) := by
  intro h0
  rcases mem_normalForm h0 with h | h
  · cases h
  · exact hs h

/-- The buffer whose block is written, and the block that is read unless it is the same one. -/
def pathBlocks [Malloc] (dest : PathDest) (src : Buffer) : Buffer × Option Bytes :=
  match dest with
  | .src => (bufferPrepareAppend src 1, none)
  | .buffer dest => (bufferPrepareCopy dest (src.used + 1), some src.ptr)

theorem pathBlocks_spec [Malloc] (dest : PathDest) {src : Buffer} {s : Bytes}
    (h : src.Terminated s) : src.size ≠ 0 ∧
      (∃ rest, (pathBlocks dest src).2.getD (pathBlocks dest src).1.ptr = s ++ 0 :: rest) ∧
      s.length + 2 ≤ (pathBlocks dest src).1.ptr.length := by
  have hlen := h.length_lt
  have hsize : src.size ≠ 0 := by
    have := h.wf
    unfold Buffer.WF at this
    omega
  refine ⟨hsize, ?_⟩
  cases dest with
  | src =>
    obtain ⟨-, hsz, htake⟩ := bufferPrepareAppend_spec h.wf 1
    obtain ⟨rest, hrest⟩ := h.text.trans (htake ▸ List.take_prefix _ _)
    refine ⟨⟨rest, ?_⟩, ?_⟩
    · simp only [pathBlocks, Option.getD_none]
      rw [← hrest]
      simp
    · simp only [pathBlocks, Buffer.size] at hsz ⊢
      omega
  | buffer d =>
    obtain ⟨rest, hrest⟩ := h.text.trans (List.take_prefix _ _)
    have hsz := le_size_bufferPrepareCopy d (src.used + 1)
    refine ⟨⟨rest, ?_⟩, ?_⟩
    · simp only [pathBlocks, Option.getD_some]
      rw [← hrest]
      simp
    · simp only [pathBlocks, Buffer.size] at hsz ⊢
      omega

theorem bufferPathSimplify_eq [Malloc] (dest : PathDest) {src : Buffer} (hsize : src.size ≠ 0) :
    bufferPathSimplify dest src =
      (rewritePath (pathBlocks dest src).1.ptr (pathBlocks dest src).2).bind fun r =>
        some (0, { (pathBlocks dest src).1 with ptr := r.1, used := r.2 }) := by
  cases dest with
  | src => simp [bufferPathSimplify, pathBlocks, hsize]
  | buffer d => simp [bufferPathSimplify, pathBlocks, hsize]

theorem bufferPathSimplify_terminated [Malloc] (dest : PathDest) {src : Buffer} {s : Bytes}
    (h : src.Terminated s) (hne : s.dropWhile (· == 32) ≠ []) :
    ∃ b, bufferPathSimplify dest src = some (0, b) ∧
      b.Holds (normalForm 47 46 (s.dropWhile (· == 32))) ∧
      b.used = (normalForm 47 46 (s.dropWhile (· == 32))).length + 1 ∧
      b.Terminated (normalForm 47 46 (s.dropWhile (· == 32))) := by
  have hdrop : IsCStr (s.dropWhile (· == 32)) := fun hm =>
    h.cstr (List.dropWhile_suffix _ |>.subset hm)
  obtain ⟨hsize, ⟨rest, hfrom⟩, hroom⟩ := pathBlocks_spec dest h
  obtain ⟨ptr, hm, hmlen, hmtake⟩ := rewritePath_eq h.cstr hfrom hroom hne
  refine ⟨{ (pathBlocks dest src).1 with ptr := ptr, used := _ },
    by rw [bufferPathSimplify_eq dest hsize, hm]; rfl, hmtake, rfl,
    ⟨isCStr_normalForm hdrop, ⟨[], by simpa [Buffer.bytes] using hmtake.symm⟩, ?_⟩⟩
  have := congrArg List.length hmtake
  simp only [List.length_take, List.length_append, List.length_singleton] at this
  simp only [Buffer.WF, Buffer.size]
  omega

/-- **`buffer_path_simplify` normalises**: for every string with a character behind its leading
spaces, and in place or not, the destination holds the normal form of the path, which starts with a
slash, has no empty, `.` or `..` segment in its middle and no `.` or `..` segment at its end; and a
second call changes nothing. -/
theorem bufferPathSimplify_normalForm [Malloc] (dest : PathDest) (src : Buffer) (s : Bytes)
    (h : src.Terminated s) (hne : s.dropWhile (· == 32) ≠ []) :
    let path := normalForm 47 46 (s.dropWhile (· == 32))
    ∃ b, bufferPathSimplify dest src = some (0, b) ∧ b.bytes = path ++ [0] ∧ b.str = path ∧
      b.used = path.length + 1 ∧ path.head? = some 47 ∧
      (∀ bad ∈ [ascii "//", ascii "/./", ascii "/../"], ¬ bad <:+: path) ∧
      (∀ bad ∈ [ascii "/.", ascii "/.."], ¬ bad <:+ path) ∧
      ∀ dest', ∃ b', bufferPathSimplify dest' b = some (0, b') ∧ b'.bytes = b.bytes ∧
        b'.used = b.used := by
  intro path
  obtain ⟨b, hb, hholds, hused, hterm⟩ := bufferPathSimplify_terminated dest h hne
  have hnormal : IsNormal 47 46 path := isNormal_normalForm _
  have hhead := hnormal.head
  refine ⟨b, hb, hholds, hterm.str, hused, hhead, ?_, ?_, fun dest' => ?_⟩
  · intro bad hbad
    simp only [List.mem_cons, List.not_mem_nil, or_false] at hbad
    rcases hbad with rfl | rfl | rfl
    · exact hnormal.no_special_infix [] (Or.inl rfl) (by decide)
    · exact hnormal.no_special_infix [46] (Or.inr (Or.inl rfl)) (by decide)
    · exact hnormal.no_special_infix [46, 46] (Or.inr (Or.inr rfl)) (by decide)
  · intro bad hbad
    simp only [List.mem_cons, List.not_mem_nil, or_false] at hbad
    rcases hbad with rfl | rfl
    · exact hnormal.no_special_suffix [46] (Or.inr (Or.inl rfl)) (by decide) (by decide)
    · exact hnormal.no_special_suffix [46, 46] (Or.inr (Or.inr rfl)) (by decide)
        (by decide)
  · obtain ⟨t, ht⟩ : ∃ t, path = 47 :: t := by
      cases hp : path with
      | nil => simp [hp] at hhead
      | cons x t => simp_all
    have hspaces : path.dropWhile (· == 32) = path := by simp [ht]
    obtain ⟨b', hb', hholds', hused', -⟩ := bufferPathSimplify_terminated dest' hterm
      (by rw [hspaces, ht]; simp)
    rw [hspaces, normalForm_idem] at hholds' hused'
    exact ⟨b', hb', hholds'.trans hholds.symm, hused'.trans hused.symm⟩

theorem bufferPathSimplify_normalForm_dots :
    ∃ b, @bufferPathSimplify ⟨fun _ => 165⟩ .src ⟨ascii "  x//../a/./b/.." ++ [0], 17, 1⟩ =
      some (0, b) ∧ b.str = ascii "/a/" := by
  obtain ⟨b, hb, -, hstr, -⟩ := @bufferPathSimplify_normalForm ⟨fun _ => 165⟩ .src
    ⟨ascii "  x//../a/./b/.." ++ [0], 17, 1⟩ (ascii "  x//../a/./b/..")
    ⟨by decide, ⟨[], by decide⟩, by decide⟩ (by decide)
  exact ⟨b, hb, hstr.trans (by decide)⟩

end Lighttpd
