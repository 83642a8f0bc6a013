import Lighttpd.Lib.CString

/-!
# The tokens of a string

A token is a longest run of characters that are no delimiters. `strtok_r` cuts the tokens out of a
string in memory, one with each call; a call that would read behind the memory has no value.
-/

namespace Tokens

variable {α : Type} {p : α → Bool}

def tokens (p : α → Bool) (s : List α) : List (List α) := (s.splitOnP p).filter fun w => !w.isEmpty

@[simp] theorem tokens_nil : tokens p [] = [] := by
  unfold tokens
  rw [List.splitOnP_nil]
  rfl

theorem tokens_delimiter {c : α} (h : p c = true) (s : List α) :
    tokens p (c :: s) = tokens p s := by
  unfold tokens
  rw [List.splitOnP_cons_eq_if_modifyHead, if_pos h]
  rfl

theorem tokens_delimiters {d : List α} (h : ∀ c ∈ d, p c = true) (s : List α) :
    tokens p (d ++ s) = tokens p s := by
  induction d with
  | nil => rfl
  | cons c d ih =>
    rw [List.cons_append, tokens_delimiter (h c List.mem_cons_self)]
    exact ih fun c' hc => h c' (List.mem_cons_of_mem _ hc)

theorem tokens_word {w : List α} (hne : w ≠ []) (h : ∀ c ∈ w, p c = false) : tokens p w = [w] := by
  unfold tokens
  rw [List.splitOnP_eq_singleton h]
  cases w with
  | nil => exact absurd rfl hne
  | cons x w => rfl

theorem tokens_word_delimiter {w : List α} (hne : w ≠ []) (h : ∀ c ∈ w, p c = false) {c : α}
    (hc : p c = true) (s : List α) : tokens p (w ++ c :: s) = w :: tokens p s := by
  unfold tokens
  rw [List.splitOnP_append_cons_of_forall_mem h c hc]
  cases w with
  | nil => exact absurd rfl hne
  | cons x w => rfl

theorem exists_token (p : α → Bool) (s : List α) : ∃ d w rest, s = d ++ w ++ rest ∧
    (∀ c ∈ d, p c = true) ∧ (∀ c ∈ w, p c = false) ∧ (w = [] → rest = []) ∧
      ∀ c ∈ rest.head?, p c = true := by
  have hw := List.takeWhile_append_dropWhile (p := fun c => !p c) (l := s.dropWhile p)
  refine ⟨s.takeWhile p, (s.dropWhile p).takeWhile fun c => !p c,
    (s.dropWhile p).dropWhile fun c => !p c, ?_, fun c hc => List.mem_takeWhile_imp hc,
    fun c hc => by simpa using List.mem_takeWhile_imp hc, fun hnil => ?_, fun c hc => ?_⟩
  · rw [List.append_assoc, hw, List.takeWhile_append_dropWhile]
  · cases hs : s.dropWhile p with
    | nil => rfl
    | cons c rest =>
      have hc : p c = false := by
        have := List.head?_dropWhile_not p s
        rw [hs] at this
        simpa using this
      rw [hs] at hnil
      simp [hc] at hnil
  · have := List.head?_dropWhile_not (fun c => !p c) (s.dropWhile p)
    rw [hc] at this
    simpa using this

end Tokens

namespace CLib

open Tokens

/-- The string at the address `t`. -/
def strAt (m : Bytes) (t : Nat) : Option Bytes :=
  if 0 ∈ m.drop t then some (cstr (m.drop t)) else none

/-- `strtok_r`, with the memory and the saved pointer: the address of the token, the memory, in which
the delimiter behind it is overwritten, and the pointer for the next call. -/
def strtokR (delim m : Bytes) (pos : Nat) : Option (Option Nat × Bytes × Nat) :=
  if 0 ∉ m.drop pos then none
  else
    let start := pos + ((m.drop pos).takeWhile (delim.contains ·)).length
    let stop := start + ((m.drop start).takeWhile fun c => c != 0 && !delim.contains c).length
    if stop = start then some (none, m, start)
    else if m[stop]? = some 0 then some (some start, m, stop)
    else some (some start, m.set stop 0, stop + 1)

/-- The loop that calls `strtok_r` until it returns `NULL`, or the array for `n` tokens is full. -/
def strtokLoop (delim : Bytes) : Nat → Bytes → Nat → Option (List Nat × Bytes)
  | 0, m, pos => do
    let (_, m, _) ← strtokR delim m pos
    some ([], m)
  | n + 1, m, pos => do
    match ← strtokR delim m pos with
    | (none, m, _) => some ([], m)
    | (some token, m, pos) =>
      let (tokens, m) ← strtokLoop delim n m pos
      some (token :: tokens, m)

section Calls

variable {delim front d w : Bytes}

theorem start_strtokR (hd : ∀ c ∈ d, c ∈ delim) {c : UInt8} (hc : c ∉ delim) (s : Bytes) :
    ((front ++ (d ++ c :: s)).drop front.length).takeWhile (delim.contains ·) = d := by
  rw [List.drop_left' rfl, List.takeWhile_append_of_pos (by simpa using hd),
    List.takeWhile_cons_of_neg (by simpa using hc), List.append_nil]

theorem stop_strtokR (hw : ∀ c ∈ w, c ∉ delim) (hcstr : IsCStr w) {c : UInt8}
    (hc : c = 0 ∨ c ∈ delim) (s : Bytes) :
    ((front ++ (d ++ (w ++ c :: s))).drop (front.length + d.length)).takeWhile
      (fun c => c != 0 && !delim.contains c) = w := by
  have hstop : (c != 0 && !delim.contains c) = false := by
    rcases hc with rfl | hc
    · rfl
    · simp [hc]
  rw [← List.append_assoc, List.drop_left' (List.length_append ..), List.takeWhile_append_of_pos,
    List.takeWhile_cons_of_neg (by simpa using hstop), List.append_nil]
  intro x hx
  have hzero : x ≠ 0 := fun h => hcstr (h ▸ hx)
  simp [hzero, hw x hx]

theorem length_parts (front d w : Bytes) :
    front.length + d.length + w.length = (front ++ d ++ w).length := by
  rw [List.length_append, List.length_append]

theorem append_parts (front d w s : Bytes) : front ++ (d ++ (w ++ s)) = front ++ d ++ w ++ s := by
  rw [List.append_assoc, List.append_assoc]

theorem strtokR_none (hdelim : 0 ∉ delim) (hd : ∀ c ∈ d, c ∈ delim) (back : Bytes) :
    strtokR delim (front ++ (d ++ 0 :: back)) front.length =
      some (none, front ++ (d ++ 0 :: back), front.length + d.length) := by
  unfold strtokR
  rw [if_neg (by simp), start_strtokR hd hdelim]
  dsimp only
  rw [← List.append_assoc, List.drop_left' (List.length_append ..), if_pos (by simp)]

theorem strtokR_last (front : Bytes) (hd : ∀ c ∈ d, c ∈ delim) (hw : ∀ c ∈ w, c ∉ delim)
    (hne : w ≠ []) (hcstr : IsCStr w) (back : Bytes) :
    strtokR delim (front ++ (d ++ (w ++ 0 :: back))) front.length =
      some (some (front.length + d.length), front ++ (d ++ (w ++ 0 :: back)),
        front.length + d.length + w.length) := by
  have hend : (front ++ (d ++ (w ++ 0 :: back)))[front.length + d.length + w.length]? = some 0 := by
    rw [length_parts, append_parts, List.getElem?_append_right (Nat.le_refl _), Nat.sub_self]
    rfl
  have hstart : ((front ++ (d ++ (w ++ 0 :: back))).drop front.length).takeWhile
      (delim.contains ·) = d := by
    obtain ⟨x, w', rfl⟩ := List.exists_cons_of_ne_nil hne
    exact start_strtokR hd (hw x List.mem_cons_self) _
  have hpos := List.length_pos_of_ne_nil hne
  unfold strtokR
  rw [if_neg (by simp), hstart]
  dsimp only
  rw [stop_strtokR hw hcstr (Or.inl rfl), if_neg (by omega), if_pos hend]

theorem strtokR_cut (front : Bytes) (hdelim : 0 ∉ delim) (hd : ∀ c ∈ d, c ∈ delim)
    (hw : ∀ c ∈ w, c ∉ delim) (hne : w ≠ []) (hcstr : IsCStr w) {c : UInt8} (hc : c ∈ delim)
    (rest back : Bytes) :
    strtokR delim (front ++ (d ++ (w ++ c :: (rest ++ 0 :: back)))) front.length =
      some (some (front.length + d.length), front ++ (d ++ (w ++ 0 :: (rest ++ 0 :: back))),
        front.length + d.length + w.length + 1) := by
  have hend : (front ++ (d ++ (w ++ c :: (rest ++ 0 :: back))))[front.length + d.length +
      w.length]? = some c := by
    rw [length_parts, append_parts, List.getElem?_append_right (Nat.le_refl _), Nat.sub_self]
    rfl
  have hset : (front ++ (d ++ (w ++ c :: (rest ++ 0 :: back)))).set (front.length + d.length +
      w.length) 0 = front ++ (d ++ (w ++ 0 :: (rest ++ 0 :: back))) := by
    rw [length_parts, append_parts, append_parts, List.set_append_right _ _ (Nat.le_refl _),
      Nat.sub_self, List.set_cons_zero]
  have hstart : ((front ++ (d ++ (w ++ c :: (rest ++ 0 :: back)))).drop front.length).takeWhile
      (delim.contains ·) = d := by
    obtain ⟨x, w', rfl⟩ := List.exists_cons_of_ne_nil hne
    exact start_strtokR hd (hw x List.mem_cons_self) _
  have hzero : c ≠ 0 := fun h => hdelim (h ▸ hc)
  have hpos := List.length_pos_of_ne_nil hne
  unfold strtokR
  rw [if_neg (by simp), hstart]
  dsimp only
  rw [stop_strtokR hw hcstr (Or.inr hc), if_neg (by omega),
    if_neg (by rw [hend]; simpa using hzero), hset]

theorem strAt_token (front d : Bytes) (hcstr : IsCStr w) (back : Bytes) :
    strAt (front ++ (d ++ (w ++ 0 :: back))) (front.length + d.length) = some w := by
  unfold strAt
  rw [← List.append_assoc, List.drop_left' (List.length_append ..), if_pos (by simp),
    cstr_append_zero hcstr]

end Calls

/-- **One call**: there is no token, or the first one, whose string stays while the rest is cut. -/
theorem strtokR_step {delim : Bytes} (hdelim : 0 ∉ delim) (front : Bytes) {s : Bytes}
    (hs : IsCStr s) :
    (tokens (delim.contains ·) s = [] ∧ ∃ pos, strtokR delim (front ++ (s ++ [0])) front.length =
      some (none, front ++ (s ++ [0]), pos)) ∨
    ∃ token w front' rest, tokens (delim.contains ·) s = w :: tokens (delim.contains ·) rest ∧
      strtokR delim (front ++ (s ++ [0])) front.length =
        some (some token, front' ++ (rest ++ [0]), front'.length) ∧
      IsCStr rest ∧ front <+: front' ∧ s ≠ [] ∧
      ∀ m, (rest = [] → m = [0]) → strAt (front' ++ m) token = some w := by
  obtain ⟨d, w, rest, rfl, hd, hw, hnil, hrest⟩ := exists_token (delim.contains ·) s
  have hd' : ∀ c ∈ d, c ∈ delim := fun c hc => List.contains_iff_mem.mp (hd c hc)
  have hw' : ∀ c ∈ w, c ∉ delim := fun c hc h => by
    have := hw c hc
    rw [List.contains_iff_mem.mpr h] at this
    cases this
  have hcstr : IsCStr w := (hs.of_append_left).of_append_right
  by_cases hne : w = []
  · obtain rfl := hne
    obtain rfl := hnil rfl
    have hnone := tokens_delimiters hd []
    rw [List.append_nil, tokens_nil] at hnone
    rw [List.append_nil, List.append_nil]
    exact Or.inl ⟨hnone, _, strtokR_none hdelim hd' []⟩
  · right
    have hnonempty : d ++ w ++ rest ≠ [] := by simp [hne]
    cases rest with
    | nil =>
      refine ⟨front.length + d.length, w, front ++ d ++ w, [], ?_, ?_, List.not_mem_nil,
        ⟨d ++ w, by simp⟩, hnonempty, fun m hm => ?_⟩
      · rw [List.append_nil, tokens_delimiters hd, tokens_word hne hw, tokens_nil]
      · have hcall := strtokR_last front hd' hw' hne hcstr []
        simpa [Nat.add_assoc] using hcall
      · obtain rfl := hm rfl
        have htoken := strAt_token front d hcstr []
        simpa using htoken
    | cons c rest =>
      have hc : c ∈ delim := List.contains_iff_mem.mp (hrest c rfl)
      refine ⟨front.length + d.length, w, front ++ d ++ w ++ [0], rest, ?_, ?_,
        fun h => hs.of_append_right (List.mem_cons_of_mem _ h), ⟨d ++ w ++ [0], by simp⟩, hnonempty,
        fun m _ => ?_⟩
      · rw [List.append_assoc, tokens_delimiters hd, tokens_word_delimiter hne hw (hrest c rfl)]
      · have hcall := strtokR_cut front hdelim hd' hw' hne hcstr hc rest []
        simpa [Nat.add_assoc] using hcall
      · have htoken := strAt_token front d hcstr m
        simpa using htoken

/-- **The loop finds the tokens**, as many as the array takes. By induction on the room that is left;
the memory in front of the pointer stays. -/
theorem strtokLoop_tokens {delim : Bytes} (hdelim : 0 ∉ delim) (n : Nat) : ∀ (front : Bytes)
    {s : Bytes}, IsCStr s → ∃ ts m, strtokLoop delim n (front ++ (s ++ [0])) front.length =
        some (ts, front ++ m) ∧ (s = [] → m = [0]) ∧
      ts.map (strAt (front ++ m)) = ((tokens (delim.contains ·) s).take n).map some := by
  induction n with
  | zero =>
    intro front s hs
    rw [strtokLoop]
    rcases strtokR_step hdelim front hs with ⟨-, pos, hcall⟩ |
      ⟨token, w, front', rest, -, hcall, -, ⟨t, rfl⟩, hne, -⟩
    · rw [hcall]
      exact ⟨[], s ++ [0], rfl, fun h => by rw [h]; rfl, rfl⟩
    · rw [hcall]
      exact ⟨[], t ++ (rest ++ [0]), by simp, fun h => absurd h hne, rfl⟩
  | succ n ih =>
    intro front s hs
    rw [strtokLoop]
    rcases strtokR_step hdelim front hs with ⟨hnone, pos, hcall⟩ |
      ⟨token, w, front', rest, htokens, hcall, hrest, ⟨t, rfl⟩, hne, hstr⟩
    · rw [hcall, hnone]
      exact ⟨[], s ++ [0], rfl, fun h => by rw [h]; rfl, rfl⟩
    · obtain ⟨ts, m, hloop, hend, hmap⟩ := ih (front ++ t) hrest
      rw [hcall, Option.bind_eq_bind, Option.bind_some]
      dsimp only
      rw [hloop, htokens]
      refine ⟨token :: ts, t ++ m, by simp, fun h => absurd h hne, ?_⟩
      rw [← List.append_assoc, List.map_cons, hmap, hstr m hend, List.take_succ_cons, List.map_cons]

end CLib
