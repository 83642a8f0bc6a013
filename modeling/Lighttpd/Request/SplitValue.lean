import Lighttpd.ArrayHistory
import Lighttpd.CaselessOrder
import Lighttpd.Lib.Walk
import Lighttpd.Request.Parse

/-!
# `request.c`: the values of a list

`http_request_split_value` walks through the buffer with an index and a pointer side by side, and
goes back from the end of each value over the blanks. For an empty value that way back begins in
front of the value. The values come out as `splitValues` says, unless the list begins with a comma:
then the byte in front of the buffer is read.
-/

namespace Lighttpd

open CLib Segments Compare

section Machine

variable (b : Buffer)

/-- `*p`, `p` being counted from the beginning of the buffer. -/
def Buffer.load (p : Int) : Option UInt8 := if 0 ≤ p then b.ptr[p.toNat]? else none

/-- `for (; … && i < b->used - 1; i++, s++);` -/
def splitScan (p : UInt8 → Bool) : Nat → Int → Nat → Option (Int × Nat)
  | 0, _, _ => none
  | fuel + 1, s, i => do
    let c ← b.load s
    if p c = true ∧ i < b.used - 1 then splitScan p fuel (s + 1) (i + 1) else some (s, i)

/-- `for (; (*end == ' ' || *end == '\t') && end > start; end--);` -/
def splitTrim (start : Int) : Nat → Int → Option Int
  | 0, _ => none
  | fuel + 1, e => do
    let c ← b.load e
    if isBlank c = true ∧ start < e then splitTrim start fuel (e - 1) else some e

variable [Malloc]

def splitLoop : Nat → Nat → Int → Nat → Arr DataString → Option (Arr DataString)
  | 0, _, _, _, _ => none
  | fuel + 1, state, s, i, vals =>
    if i < b.used - 1 then
      match state with
      | 0 => do
        let (s, i) ← splitScan b isBlank b.used s i
        splitLoop fuel 1 s i vals
      | 1 => do
        let start := s
        let (s, i) ← splitScan b (· != 44) b.used s i
        let e ← splitTrim b start b.used (s - 1)
        let vals ← insertValue vals ((b.ptr.drop start.toNat).take (e - start + 1).toNat)
        if (← b.load s) = 44 then splitLoop fuel 0 (s + 1) (i + 1) vals
        else splitLoop fuel 2 s i vals
      | _ => splitLoop fuel 2 s (i + 1) vals
    else some vals

/-- `http_request_split_value`, with every read of the buffer. -/
def httpRequestSplitValueRead (vals : Arr DataString) : Option (Arr DataString) :=
  if b.used = 0 then some vals else splitLoop b (2 * b.used + 1) 0 0 0 vals

end Machine

/-! ## The walk through the buffer -/

/-- The buffer holds `front` and `rest`. -/
structure SplitPlace (b : Buffer) (front rest : Bytes) : Prop where
  ptr : ∃ junk, b.ptr = front ++ (rest ++ 0 :: junk)
  used : b.used = front.length + rest.length + 1

variable {b : Buffer} {front rest : Bytes} {vals : Arr DataString}

theorem SplitPlace.next {c : UInt8} (h : SplitPlace b front (c :: rest)) :
    SplitPlace b (front ++ [c]) rest := by
  obtain ⟨junk, hptr⟩ := h.ptr
  refine ⟨⟨junk, by simp [hptr]⟩, ?_⟩
  have hused := h.used
  simp only [List.length_append, List.length_cons, List.length_nil] at hused ⊢
  omega

theorem SplitPlace.append {w : Bytes} (h : SplitPlace b front (w ++ rest)) :
    SplitPlace b (front ++ w) rest := by
  obtain ⟨junk, hptr⟩ := h.ptr
  refine ⟨⟨junk, by simp [hptr]⟩, ?_⟩
  have hused := h.used
  simp only [List.length_append] at hused ⊢
  omega

theorem SplitPlace.load_head (h : SplitPlace b front rest) :
    b.load front.length = some (rest.headD 0) := by
  obtain ⟨junk, hptr⟩ := h.ptr
  unfold Buffer.load
  rw [if_pos (Int.natCast_nonneg _), Int.toNat_natCast, hptr,
    List.getElem?_append_right (Nat.le_refl _), Nat.sub_self]
  cases rest <;> rfl

theorem SplitPlace.scan (h : SplitPlace b front rest) (p : UInt8 → Bool) {n : Nat}
    (hn : rest.length < n) :
    splitScan b p n front.length front.length =
      some ((front.length : Int) + (rest.takeWhile p).length,
        front.length + (rest.takeWhile p).length) := by
  induction rest generalizing front n with
  | nil =>
    obtain ⟨n, rfl⟩ : ∃ m, n = m + 1 := ⟨n - 1, by omega⟩
    have hused := h.used
    have hend : ¬ front.length < b.used - 1 := by
      simp only [List.length_nil] at hused
      omega
    unfold splitScan
    rw [h.load_head]
    simp [hend]
  | cons c rest ih =>
    obtain ⟨n, rfl⟩ : ∃ m, n = m + 1 := ⟨n - 1, by omega⟩
    have hused := h.used
    have hin : front.length < b.used - 1 := by
      simp only [List.length_cons] at hused
      omega
    unfold splitScan
    rw [h.load_head]
    simp only [Option.bind_eq_bind, Option.bind_some, List.headD_cons]
    by_cases hc : p c = true
    · have hnext := ih h.next (show rest.length < n by simpa using hn)
      have hlength : (front ++ [c]).length = front.length + 1 := by simp
      have hcast : ((front ++ [c]).length : Int) = front.length + 1 := by simp
      rw [hcast, hlength] at hnext
      rw [if_pos ⟨hc, hin⟩, List.takeWhile_cons, if_pos hc, hnext, List.length_cons]
      refine congrArg some (Prod.ext ?_ ?_)
      · dsimp only
        omega
      · dsimp only
        omega
    · rw [if_neg fun hboth => hc hboth.1, List.takeWhile_cons, if_neg hc]
      simp

theorem SplitPlace.trim {v : Bytes} (h : SplitPlace b front (v ++ rest)) (hne : v ≠ [])
    (hhead : isBlank (v.headD 0) = false) {n : Nat} (hn : v.length ≤ n) :
    splitTrim b front.length n ((front.length : Int) + v.length - 1) =
      some ((front.length : Int) + (v.rdropWhile isBlank).length - 1) := by
  induction v using List.reverseRecOn generalizing rest n with
  | nil => exact absurd rfl hne
  | append_singleton v c ih =>
    obtain ⟨n, rfl⟩ : ∃ m, n = m + 1 := ⟨n - 1, by
      simp only [List.length_append, List.length_cons, List.length_nil] at hn
      omega⟩
    have hplace : SplitPlace b front (v ++ c :: rest) := by simpa using h
    have hlast : (front.length : Int) + (v ++ [c]).length - 1 = ((front ++ v).length : Nat) := by
      simp only [List.length_append, List.length_cons, List.length_nil]
      omega
    unfold splitTrim
    rw [hlast, hplace.append.load_head]
    simp only [Option.bind_eq_bind, Option.bind_some, List.headD_cons]
    by_cases hc : isBlank c = true
    · have hv : v ≠ [] := by
        rintro rfl
        exact absurd (hhead.symm.trans hc) Bool.false_ne_true
      have hpos := List.length_pos_iff.mpr hv
      have hbefore : ((front ++ v).length : Int) - 1 = (front.length : Int) + v.length - 1 := by
        simp only [List.length_append]
        omega
      have hlt : (front.length : Int) < (front ++ v).length := by
        simp only [List.length_append]
        omega
      have hhead' : isBlank (v.headD 0) = false := by
        cases v with
        | nil => exact absurd rfl hv
        | cons d v => exact hhead
      have hle : v.length ≤ n := by
        simp only [List.length_append, List.length_cons, List.length_nil] at hn
        omega
      rw [if_pos ⟨hc, hlt⟩, hbefore, List.rdropWhile_concat_pos _ _ _ hc]
      exact ih hplace hv hhead' hle
    · rw [if_neg fun hboth => hc hboth.1, List.rdropWhile_concat_neg _ _ _ hc]
      simp only [List.length_append, List.length_cons, List.length_nil]
      refine congrArg some ?_
      omega

theorem SplitPlace.copied {v : Bytes} (h : SplitPlace b front (v ++ rest))
    (hhead : isBlank (v.headD 0) = false) (hfront : v ≠ [] ∨ front ≠ []) :
    ∃ e, splitTrim b front.length b.used ((front.length : Int) + v.length - 1) = some e ∧
      (b.ptr.drop front.length).take (e - front.length + 1).toNat = v.rdropWhile isBlank := by
  obtain ⟨junk, hptr⟩ := h.ptr
  have hused := h.used
  have hdrop : b.ptr.drop front.length = v ++ (rest ++ 0 :: junk) := by
    rw [hptr, List.drop_left' rfl, List.append_assoc]
  by_cases hv : v = []
  · subst hv
    have hpos := List.length_pos_iff.mpr (hfront.resolve_left (fun hne => hne rfl))
    refine ⟨(front.length : Int) - 1, ?_, ?_⟩
    · obtain ⟨c, hc⟩ : ∃ c, b.ptr[front.length - 1]? = some c := by
        rw [hptr, List.getElem?_append_left (by omega)]
        exact ⟨_, List.getElem?_eq_getElem (by omega)⟩
      have hload : b.load ((front.length : Int) - 1) = some c := by
        unfold Buffer.load
        rw [if_pos (by omega), ← hc]
        congr 1
        omega
      obtain ⟨n, hn⟩ : ∃ n, b.used = n + 1 := ⟨b.used - 1, by omega⟩
      have hstart : (front.length : Int) + ([] : Bytes).length - 1 = front.length - 1 := by simp
      rw [hn, hstart]
      unfold splitTrim
      rw [hload]
      simp only [Option.bind_eq_bind, Option.bind_some]
      rw [if_neg fun hboth => by omega]
    · have hzero : ((front.length : Int) - 1 - front.length + 1).toNat = 0 := by omega
      rw [hzero]
      rfl
  · refine ⟨_, h.trim hv hhead ?_, ?_⟩
    · simp only [List.length_append] at hused
      omega
    · have hlength : ((front.length : Int) + (v.rdropWhile isBlank).length - 1 - front.length +
          1).toNat = (v.rdropWhile isBlank).length := by omega
      have hprefix : v.rdropWhile isBlank <+: v ++ (rest ++ 0 :: junk) :=
        (List.rdropWhile_prefix isBlank v).trans (List.prefix_append _ _)
      rw [hlength, hdrop]
      exact (List.prefix_iff_eq_take.mp hprefix).symm

section Loop

variable [Malloc]

omit [Malloc] in
theorem exists_cut (c : UInt8) (s : Bytes) : ∃ v r, s = v ++ r ∧ c ∉ v ∧ StopsAt c r ∧
    s.takeWhile (· != c) = v ∧ s.dropWhile (· != c) = r := by
  by_cases hc : c ∈ s
  · obtain ⟨v, r, rfl, hv⟩ := List.eq_append_cons_of_mem hc
    have hall : ∀ x ∈ v, (x != c) = true := fun x hx => by
      simp only [bne_iff_ne, ne_eq]
      exact fun h => hv (h ▸ hx)
    refine ⟨v, c :: r, rfl, hv, Or.inr ⟨r, rfl⟩, ?_, ?_⟩
    · rw [List.takeWhile_append_of_pos hall]
      simp
    · rw [List.dropWhile_append_of_pos hall]
      simp
  · have hall : ∀ x ∈ s, (x != c) = true := fun x hx => by
      simp only [bne_iff_ne, ne_eq]
      exact fun h => hc (h ▸ hx)
    exact ⟨s, [], (List.append_nil s).symm, hc, Or.inl rfl, List.takeWhile_eq_self_iff.mpr hall,
      List.dropWhile_eq_nil_iff.mpr hall⟩

omit [Malloc] in
theorem splitValues_succ (k : Nat) {s : Bytes} (hs : s.dropWhile isBlank ≠ []) :
    splitValues (k + 1) s =
      ((s.dropWhile isBlank).takeWhile (· != 44)).rdropWhile isBlank ::
        match (s.dropWhile isBlank).dropWhile (· != 44) with
        | [] => []
        | _ :: s => splitValues k s := by
  rw [splitValues]
  exact if_neg hs

theorem splitLoop_end {i : Nat} (hi : ¬ i < b.used - 1) (n state : Nat) (s : Int) :
    splitLoop b (n + 1) state s i vals = some vals := by
  unfold splitLoop
  rw [if_neg hi]

theorem SplitPlace.loop_value {v : Bytes} (h : SplitPlace b front (v ++ rest)) (hv : 44 ∉ v)
    (hrest : StopsAt 44 rest) (hne : v ++ rest ≠ []) (hhead : isBlank (v.headD 0) = false)
    (hfront : v ≠ [] ∨ front ≠ []) (n : Nat) :
    splitLoop b (n + 2) 1 front.length front.length vals =
      (insertValue vals (v.rdropWhile isBlank)).bind fun vals =>
        match rest with
        | [] => some vals
        | _ :: _ => splitLoop b (n + 1) 0 ((front ++ v ++ [44]).length : Nat)
            (front ++ v ++ [44]).length vals := by
  have hused := h.used
  have hpos := List.length_pos_iff.mpr hne
  have hscanned : (v ++ rest).takeWhile (· != 44) = v := by
    rw [takeWhile_append_of_notMem hv, hrest.takeWhile, List.append_nil]
  obtain ⟨e, htrim, hcopy⟩ := h.copied hhead hfront
  have hplace : SplitPlace b (front ++ v) rest := h.append
  have hload := hplace.load_head
  have hcast : ((front ++ v).length : Int) = (front.length : Int) + v.length := by simp
  rw [hcast] at hload
  rw [splitLoop, if_pos (by omega)]
  simp only [Option.bind_eq_bind, h.scan (· != 44) (show (v ++ rest).length < b.used by omega),
    Option.bind_some, hscanned, htrim, Int.toNat_natCast, hcopy, hload]
  refine congrArg _ (funext fun vals => ?_)
  rcases hrest with rfl | ⟨r, rfl⟩
  · have hend : ¬ front.length + v.length < b.used - 1 := by
      simp only [List.append_nil] at hused
      omega
    rw [if_neg (by decide), splitLoop_end hend]
  · have hnat : (front ++ v ++ [44]).length = front.length + v.length + 1 := by
      simp only [List.length_append, List.length_cons, List.length_nil]
    have hnext : ((front ++ v ++ [44]).length : Int) = (front.length : Int) + v.length + 1 := by
      rw [hnat]
      omega
    have hcomma : (44 :: r).headD 0 = 44 := rfl
    dsimp only
    rw [if_pos hcomma, hnext, hnat]

theorem SplitPlace.loop {k : Nat} (h : SplitPlace b front rest) (hk : rest.length < k)
    (hfirst : front ≠ [] ∨ rest.head? ≠ some 44) {n : Nat} (hn : 2 * rest.length < n) :
    splitLoop b n 0 front.length front.length vals =
      (splitValues k rest).foldlM insertValue vals := by
  induction k generalizing front rest vals n with
  | zero => omega
  | succ k ih =>
    obtain ⟨n, rfl⟩ : ∃ m, n = m + 1 := ⟨n - 1, by omega⟩
    have hused := h.used
    by_cases hrest : rest = []
    · subst hrest
      have hend : ¬ front.length < b.used - 1 := by
        simp only [List.length_nil] at hused
        omega
      rw [splitLoop_end hend]
      rfl
    have hpos := List.length_pos_iff.mpr hrest
    obtain ⟨n, rfl⟩ : ∃ m, n = m + 1 := ⟨n - 1, by omega⟩
    have hin : front.length < b.used - 1 := by omega
    have hparts : rest.takeWhile isBlank ++ rest.dropWhile isBlank = rest :=
      List.takeWhile_append_dropWhile
    have hplace : SplitPlace b (front ++ rest.takeWhile isBlank) (rest.dropWhile isBlank) :=
      SplitPlace.append (by rwa [hparts])
    have hfront : (front ++ rest.takeWhile isBlank).length =
        front.length + (rest.takeWhile isBlank).length := List.length_append
    have hlengths := congrArg List.length hparts
    rw [List.length_append] at hlengths
    unfold splitLoop
    rw [if_pos hin]
    simp only [Option.bind_eq_bind, h.scan isBlank (show rest.length < b.used by omega),
      Option.bind_some]
    have hcast : (front.length : Int) + (rest.takeWhile isBlank).length =
        ((front ++ rest.takeWhile isBlank).length : Nat) := by
      rw [hfront]
      omega
    rw [hcast, ← hfront]
    generalize hfr : front ++ rest.takeWhile isBlank = front' at hplace hfront
    by_cases hblank : rest.dropWhile isBlank = []
    · have hend : ¬ front'.length < b.used - 1 := by
        rw [hblank, List.length_nil] at hlengths
        omega
      rw [splitLoop_end hend, splitValues, if_pos hblank]
      rfl
    · obtain ⟨n, rfl⟩ : ∃ m, n = m + 1 := ⟨n - 1, by omega⟩
      have hnotblank : ∀ c s, rest.dropWhile isBlank = c :: s → isBlank c = false := by
        intro c s hs
        have hhead := List.head?_dropWhile_not isBlank rest
        rw [hs] at hhead
        simpa using hhead
      have hvalues := splitValues_succ k hblank
      obtain ⟨v, r, hcut, hv, hstop, htake, hdrop⟩ := exists_cut 44 (rest.dropWhile isBlank)
      rw [htake, hdrop] at hvalues
      have hhead : isBlank (v.headD 0) = false := by
        cases v with
        | nil => rfl
        | cons c v => exact hnotblank c _ hcut
      have hfront' : v ≠ [] ∨ front' ≠ [] := by
        by_contra hnone
        simp only [not_or, not_not] at hnone
        obtain ⟨rfl, rfl⟩ := hnone
        obtain ⟨rfl, hnoblanks⟩ := List.append_eq_nil_iff.mp hfr
        rw [hnoblanks, List.nil_append] at hparts
        rcases hstop with rfl | ⟨r, rfl⟩
        · exact hblank hcut
        · rw [← hparts, hcut] at hfirst
          exact hfirst.elim (fun hne => hne rfl) fun hne => hne rfl
      rw [hcut] at hplace hblank hlengths
      rw [hplace.loop_value hv hstop hblank hhead hfront', hvalues, List.foldlM_cons]
      refine congrArg _ (funext fun vals => ?_)
      rcases hstop with rfl | ⟨r, rfl⟩
      · rfl
      · have hnext : SplitPlace b (front' ++ v ++ [44]) r := hplace.append.next
        have hshorter : r.length < rest.length := by
          simp only [List.length_append, List.length_cons] at hlengths
          omega
        exact ih hnext (by omega) (Or.inl (by simp)) (by omega)

theorem SplitPlace.loop_comma (h : SplitPlace b [] (44 :: rest)) (n : Nat) :
    splitLoop b (n + 2) 0 0 0 vals = none := by
  have hused := h.used
  have hin : 0 < b.used - 1 := by
    simp only [List.length_nil, List.length_cons] at hused
    omega
  have hlt : (44 :: rest).length < b.used := by omega
  have hblanks : splitScan b isBlank b.used 0 0 = some (0, 0) := h.scan isBlank hlt
  have hvalue : splitScan b (· != 44) b.used 0 0 = some (0, 0) := h.scan (· != 44) hlt
  have htrim : splitTrim b 0 b.used (-1) = none := by
    obtain ⟨m, hm⟩ : ∃ m, b.used = m + 1 := ⟨b.used - 1, by omega⟩
    rw [hm]
    rfl
  unfold splitLoop
  rw [if_pos hin]
  simp only [Option.bind_eq_bind, hblanks, Option.bind_some]
  unfold splitLoop
  rw [if_pos hin]
  simp only [Option.bind_eq_bind, hvalue, Option.bind_some, Int.zero_sub, htrim, Option.bind_none]

end Loop

/-! ## The list of values -/

/-- The values between the commas, without the blanks around them. -/
def commaParts (t : Bytes) : List Bytes :=
  (t.splitOn 44).map fun v => (v.dropWhile isBlank).rdropWhile isBlank

def commaValues (t : Bytes) : List Bytes :=
  if ∀ c ∈ t, isBlank c = true then [] else commaParts t

def EndsInValue (t : Bytes) : Prop :=
  ∃ c ∈ (t.splitOn 44).getLastD [], isBlank c = false

theorem splitValues_last (k : Nat) {t : Bytes} (ht : 44 ∉ t) : splitValues (k + 1) t =
    if t.dropWhile isBlank = [] then [] else [(t.dropWhile isBlank).rdropWhile isBlank] := by
  have hall : ∀ x ∈ t.dropWhile isBlank, (x != 44) = true := fun x hx => by
    simp only [bne_iff_ne, ne_eq]
    exact fun h => ht (h ▸ (List.dropWhile_sublist isBlank).subset hx)
  by_cases hblank : t.dropWhile isBlank = []
  · rw [splitValues, if_pos hblank, if_pos hblank]
  · rw [splitValues_succ k hblank, if_neg hblank, List.takeWhile_eq_self_iff.mpr hall,
      List.dropWhile_eq_nil_iff.mpr hall]

theorem splitValues_cons (k : Nat) {first : Bytes} (hfirst : 44 ∉ first) (u : Bytes) :
    splitValues (k + 1) (first ++ 44 :: u) =
      (first.dropWhile isBlank).rdropWhile isBlank :: splitValues k u := by
  have hall : ∀ x ∈ first.dropWhile isBlank, (x != 44) = true := fun x hx => by
    simp only [bne_iff_ne, ne_eq]
    exact fun h => hfirst (h ▸ (List.dropWhile_sublist isBlank).subset hx)
  have hblanks : (first ++ 44 :: u).dropWhile isBlank = first.dropWhile isBlank ++ 44 :: u := by
    rw [List.dropWhile_append]
    split
    · next hempty =>
      rw [List.isEmpty_iff.mp hempty]
      rfl
    · rfl
  rw [splitValues_succ k (by rw [hblanks]; simp), hblanks, List.takeWhile_append_of_pos hall,
    List.dropWhile_append_of_pos hall]
  simp

theorem splitValues_commaParts {k : Nat} {t : Bytes} (hk : t.length < k) :
    (EndsInValue t → splitValues k t = commaParts t) ∧
      (¬ EndsInValue t → (splitValues k t).length < (commaParts t).length) := by
  induction k generalizing t with
  | zero => omega
  | succ k ih =>
    rcases splitOn_cases 44 t with ⟨hcomma, hsplit⟩ | ⟨first, u, rfl, hfirst, hsplit⟩
    · have hends : EndsInValue t ↔ t.dropWhile isBlank ≠ [] := by
        unfold EndsInValue
        rw [hsplit, ne_eq, List.dropWhile_eq_nil_iff]
        simp
      unfold commaParts
      rw [hends, splitValues_last k hcomma, hsplit]
      constructor
      · intro hne
        rw [if_neg hne]
        rfl
      · intro hempty
        rw [if_pos (not_not.mp hempty)]
        exact Nat.zero_lt_one
    · have hends : EndsInValue (first ++ 44 :: u) ↔ EndsInValue u := by
        unfold EndsInValue
        rw [hsplit]
        cases hu : u.splitOn 44 with
        | nil => exact absurd hu (List.splitOn_ne_nil 44 u)
        | cons s ss => rfl
      have hvalues : commaParts (first ++ 44 :: u) =
          (first.dropWhile isBlank).rdropWhile isBlank :: commaParts u := by
        unfold commaParts
        rw [hsplit]
        rfl
      have hshorter : u.length < k := by
        simp only [List.length_append, List.length_cons] at hk
        omega
      obtain ⟨hsame, hmissing⟩ := ih hshorter
      rw [hends, hvalues, splitValues_cons k hfirst]
      refine ⟨fun h => by rw [hsame h], fun h => ?_⟩
      exact Nat.succ_lt_succ (hmissing h)

theorem httpRequestSplitValueRead_text [Malloc] {t : Bytes} (h : b.Text t) :
    httpRequestSplitValueRead b vals =
      if t.head? = some 44 then none else httpRequestSplitValue vals b := by
  have hused := h.used
  have htake : b.ptr.take b.used = t ++ [0] := h.holds
  have hplace : SplitPlace b [] t := by
    refine ⟨⟨b.ptr.drop b.used, ?_⟩, by simpa using hused⟩
    have hparts := (List.take_append_drop b.used b.ptr).symm
    rw [htake] at hparts
    simpa using hparts
  have htext : b.ptr.take (b.used - 1) = t := take_of_holds h.holds h.used
  unfold httpRequestSplitValueRead
  rw [if_neg (by omega)]
  split
  · next hcomma =>
    obtain ⟨u, rfl⟩ : ∃ u, t = 44 :: u := by
      cases t with
      | nil => nomatch hcomma
      | cons c u =>
        obtain rfl : c = 44 := Option.some.inj hcomma
        exact ⟨u, rfl⟩
    obtain ⟨n, hn⟩ : ∃ n, 2 * b.used + 1 = n + 2 := ⟨2 * b.used - 1, by omega⟩
    rw [hn]
    exact hplace.loop_comma n
  · next hcomma =>
    unfold httpRequestSplitValue
    rw [htext]
    exact hplace.loop (Nat.lt_succ_self _) (Or.inr hcomma) (by omega)

/-! ## The array of the values -/

def NumberKey (key : Bytes) : Prop := ∃ n, key = decimalNat n ++ [0]

theorem toNat_lt_of_numberKey {key : Bytes} (h : NumberKey key) {c : UInt8} (hc : c ∈ key) :
    c.toNat < 65 := by
  obtain ⟨n, rfl⟩ := h
  rcases List.mem_append.mp hc with hc | hc
  · have hdigit := isDigit_of_mem_decimalNat hc
    unfold isDigit at hdigit
    rw [Bool.and_eq_true, decide_eq_true_eq, decide_eq_true_eq] at hdigit
    have hle : c.toNat ≤ 57 := UInt8.le_iff_toNat_le.mp hdigit.2
    omega
  · obtain rfl := List.mem_singleton.mp hc
    decide

theorem preorderOn_numberKey : PreorderOn bufferCaselessCompare NumberKey := by
  apply preorderOn_notBetween.mono
  intro key hkey c hc hbetween
  have hlt := toNat_lt_of_numberKey hkey hc
  have hle := hbetween.1
  omega

theorem numberKey_compare {m n : Nat} : bufferCaselessCompare (decimalNat m ++ [0])
    (decimalNat n ++ [0]) = 0 ↔ m = n := by
  have hfold : ∀ k : Nat, (decimalNat k ++ [0]).map tolower = decimalNat k ++ [0] := by
    intro k
    have hid : ∀ c ∈ decimalNat k ++ [0], tolower c = c := by
      intro c hc
      have hlt := toNat_lt_of_numberKey ⟨k, rfl⟩ hc
      refine if_neg fun h => ?_
      have hle : 65 ≤ c.toNat := UInt8.le_iff_toNat_le.mp h.1
      omega
    rw [List.map_congr_left hid, List.map_id']
  rw [bufferCaselessCompare_eq_zero, hfold, hfold, List.append_left_inj]
  exact ⟨fun h => decimalNat_injective h, fun h => h ▸ rfl⟩

section SplitVals

variable [Malloc]

/-- What `srv->split_vals` is between two lists: the elements have got their keys from a counter. -/
structure NumberedVals (vals : Arr DataString) : Prop where
  ordered : vals.Ordered NumberKey
  generated : ∀ {i ds}, vals.Slot i ds → ds.isIndexKey = true
  below : ∀ {i ds}, vals.Live i ds → ∃ n < vals.uniqueNdx, keyBytes ds = decimalNat n ++ [0]

theorem numberedVals_init : NumberedVals arrayInit where
  ordered := .used_zero rfl ⟨0, rfl⟩
  generated h := by simp [Arr.Slot, arrayInit] at h
  below h := absurd h.1 (Nat.not_lt_zero _)

theorem NumberedVals.reset {vals : Arr DataString} (h : NumberedVals vals) :
    NumberedVals (arrayReset vals) ∧ (arrayReset vals).elements = [] := by
  have hused : (arrayReset vals).used = 0 := by
    unfold arrayReset
    split <;> rfl
  have hpow : (arrayReset vals).nextPowerOf2 = vals.nextPowerOf2 := by
    unfold arrayReset
    split <;> rfl
  refine ⟨⟨.used_zero hused (hpow ▸ h.ordered.pow), ?_, ?_⟩, by simp [Arr.elements, hused]⟩
  · intro i ds hds
    unfold arrayReset at hds
    split at hds
    · exact h.generated (i := i) hds
    · unfold Arr.Slot at hds
      dsimp only at hds
      rcases List.mem_append.mp (List.mem_of_getElem? hds) with hmem | hmem
      · obtain ⟨o, ho, heq⟩ := List.mem_map.mp hmem
        obtain ⟨old, rfl, rfl⟩ := Option.map_eq_some_iff.mp heq
        obtain ⟨j, hj⟩ := List.mem_iff_getElem?.mp (List.mem_of_mem_take ho)
        have hkept : (DataUnset.reset old : DataString).isIndexKey = old.isIndexKey := rfl
        rw [hkept]
        exact h.generated (i := j) hj
      · obtain ⟨j, hj⟩ := List.mem_iff_getElem?.mp (List.mem_of_mem_drop hmem)
        exact h.generated (i := j) hj
  · intro i ds hds
    rw [Arr.Live, hused] at hds
    exact absurd hds.1 (Nat.not_lt_zero _)

theorem NumberedVals.unused {vals : Arr DataString} (h : NumberedVals vals) :
    NumberedVals (arrayGetUnusedElement vals .string).2 ∧
      (arrayGetUnusedElement vals .string).2.elements = vals.elements ∧
      (((arrayGetUnusedElement vals .string).1.getD (dataStringInit 0)).key.used = 0 ∨
        ((arrayGetUnusedElement vals .string).1.getD (dataStringInit 0)).isIndexKey = true) := by
  have hnext : (arrayGetUnusedElement vals .string).2.uniqueNdx = vals.uniqueNdx := by
    unfold arrayGetUnusedElement
    split <;> rfl
  obtain ⟨hnone, hsome⟩ := arrayGetUnusedElement_spec .string (a := vals) rfl
  cases hel : (arrayGetUnusedElement vals .string).1 with
  | none =>
    rw [hnone hel]
    exact ⟨h, rfl, Or.inl rfl⟩
  | some ds =>
    have htaken := hsome ds hel
    obtain ⟨j, -, hslot, -⟩ := htaken.slots
    refine ⟨⟨h.ordered.taken preorderOn_numberKey htaken, ?_, ?_⟩,
      htaken.elements h.ordered.wf, Or.inr (h.generated hslot)⟩
    · intro i ds' hds'
      obtain ⟨k, hk, -⟩ := htaken.slot hds'
      exact h.generated hk
    · intro i ds' hds'
      rw [hnext]
      exact h.below (htaken.live_iff.mp hds')

theorem NumberedVals.insertValue {vals : Arr DataString} (h : NumberedVals vals) (value : Bytes) :
    ∃ vals' ds, Lighttpd.insertValue vals value = some vals' ∧ NumberedVals vals' ∧
      vals'.elements = vals.elements ++ [ds] ∧ ds.value.Text value := by
  obtain ⟨hunused, helements, hkey⟩ := h.unused
  unfold Lighttpd.insertValue
  generalize arrayGetUnusedElement vals .string = r at hunused helements hkey ⊢
  obtain ⟨el, a⟩ := r
  dsimp only at hunused helements hkey ⊢
  generalize el.getD (dataStringInit 0) = x at hkey ⊢
  let y : DataString := { x with value := bufferCopyStringLen x.value (some value) }
  let y' : DataString := { y with key := bufferCopyLong y.key a.uniqueNdx, isIndexKey := true }
  let a' : Arr DataString := { a with uniqueNdx := a.uniqueNdx + 1 }
  have hensure : ensureKey a y = (a', y') := if_pos hkey
  have hbytes : keyBytes y' = decimalNat a.uniqueNdx ++ [0] := by
    have htext := text_bufferAppendLong_shows (b := { y.key with used := 0 }) (Or.inr ⟨rfl, rfl⟩)
      a.uniqueNdx
    rw [decimal_natCast] at htext
    exact htext.holds
  have hordered : a'.Ordered NumberKey := by
    have hsame := hunused.ordered.ensureKey preorderOn_numberKey (x := y)
    rwa [hensure] at hsame
  obtain ⟨found, pos, hsearch, hfound, hmiss⟩ :=
    arrayGetIndex_ordered preorderOn_numberKey hordered ⟨a.uniqueNdx, hbytes⟩
  have hnone : found = none := by
    -- the counter is larger than the number of every element
    cases found with
    | none => rfl
    | some ndx =>
      obtain ⟨z, hz, hzero⟩ := (hfound ndx).mp rfl
      obtain ⟨n, hn, hkeyz⟩ := hunused.below hz
      have hequal : bufferCaselessCompare (keyBytes y') (keyBytes z) = 0 := hzero
      rw [hbytes, hkeyz, numberKey_compare] at hequal
      omega
  obtain ⟨vals', hinsert, hordered'⟩ := hmiss hnone y' rfl
  obtain ⟨hused, hslots, hwf⟩ := insertNew_spec hordered.wf hinsert
  have hnext := uniqueNdx_insertNew hinsert
  refine ⟨vals', y', ?_, ⟨hordered', ?_, ?_⟩, ?_, text_bufferCopyStringLen _ _⟩
  · have hsearch' : arrayGetIndex a' (DataUnset.key y').bytes = some (none, pos) := hnone ▸ hsearch
    unfold arrayInsertUnique
    rw [hensure]
    dsimp only
    rw [hsearch']
    exact hinsert
  · intro i ds hds
    rcases hslots.mp hds with ⟨-, rfl⟩ | ⟨-, hold⟩
    · rfl
    · exact hunused.generated (i := i) hold
  · intro i ds hds
    have hnumber : a'.uniqueNdx = a.uniqueNdx + 1 := rfl
    rw [hnext, hnumber]
    rcases hslots.mp hds.2 with ⟨-, rfl⟩ | ⟨hne, hold⟩
    · exact ⟨a.uniqueNdx, Nat.lt_succ_self _, hbytes⟩
    · have hlive : a.Live i ds := by
        refine ⟨?_, hold⟩
        have hlt := hds.1
        have hbefore : a'.used = a.used := rfl
        omega
      obtain ⟨n, hn, hkeyn⟩ := hunused.below hlive
      exact ⟨n, by omega, hkeyn⟩
  · rw [elements_appended hordered.wf hused hslots hwf, ← helements]
    rfl

theorem NumberedVals.insertValues (values : List Bytes) {vals : Arr DataString}
    (h : NumberedVals vals) : ∃ vals' xs, values.foldlM Lighttpd.insertValue vals = some vals' ∧
      NumberedVals vals' ∧ vals'.elements = vals.elements ++ xs ∧
      List.Forall₂ (fun (ds : DataString) v => ds.value.Text v) xs values := by
  induction values generalizing vals with
  | nil => exact ⟨vals, [], rfl, h, (List.append_nil _).symm, .nil⟩
  | cons v values ih =>
    obtain ⟨vals₁, ds, hfirst, h₁, helements₁, htext⟩ := h.insertValue v
    obtain ⟨vals', xs, hrest, h', helements, htexts⟩ := ih h₁
    refine ⟨vals', ds :: xs, ?_, h', ?_, .cons htext htexts⟩
    · rw [List.foldlM_cons, hfirst]
      exact hrest
    · rw [helements, helements₁, List.append_assoc, List.singleton_append]

theorem NumberedVals.splitLoop {b : Buffer} {n state i : Nat} {s : Int}
    {vals vals' : Arr DataString}
    (h : NumberedVals vals) (hrun : Lighttpd.splitLoop b n state s i vals = some vals') :
    NumberedVals vals' := by
  induction n generalizing state s i vals with
  | zero => nomatch hrun
  | succ n ih =>
    unfold Lighttpd.splitLoop at hrun
    split at hrun
    · split at hrun
      · obtain ⟨⟨s', i'⟩, -, hrun⟩ := Option.bind_eq_some_iff.mp hrun
        exact ih h hrun
      · obtain ⟨⟨s', i'⟩, -, hrun⟩ := Option.bind_eq_some_iff.mp hrun
        obtain ⟨e, -, hrun⟩ := Option.bind_eq_some_iff.mp hrun
        obtain ⟨vals₁, hinsert, hrun⟩ := Option.bind_eq_some_iff.mp hrun
        obtain ⟨c, -, hrun⟩ := Option.bind_eq_some_iff.mp hrun
        obtain ⟨vals₂, -, hinsert₂, h₂, -, -⟩ := h.insertValue
          ((b.ptr.drop s.toNat).take (e - s + 1).toNat)
        obtain rfl := Option.some.inj (hinsert.symm.trans hinsert₂)
        split at hrun
        · exact ih h₂ hrun
        · exact ih h₂ hrun
      · exact ih h hrun
    · obtain rfl := Option.some.inj hrun
      exact h

inductive SplitVals : Arr DataString → Prop
  | init : SplitVals arrayInit
  | step {vals vals' : Arr DataString} {b : Buffer} (before : SplitVals vals)
      (run : httpRequestSplitValueRead b (arrayReset vals) = some vals') : SplitVals vals'

theorem SplitVals.numbered {vals : Arr DataString} (h : SplitVals vals) : NumberedVals vals := by
  induction h with
  | init => exact numberedVals_init
  | step before run ih =>
    unfold httpRequestSplitValueRead at run
    split at run
    · obtain rfl := Option.some.inj run
      exact ih.reset.1
    · exact ih.reset.1.splitLoop run

/-- The list is read without a fault, and its values are the elements of the array. -/
def SplitsValues (vals : Arr DataString) (b : Buffer) (t : Bytes) : Prop :=
  ∃ vals', httpRequestSplitValueRead b (arrayReset vals) = some vals' ∧
    List.Forall₂ (fun (ds : DataString) v => ds.value.Text v) vals'.elements (commaValues t)

theorem NumberedVals.read {vals : Arr DataString} (h : NumberedVals vals) {b : Buffer} {t : Bytes}
    (hb : b.Text t) (hcomma : t.head? ≠ some 44) : ∃ vals',
      httpRequestSplitValueRead b (arrayReset vals) = some vals' ∧
      List.Forall₂ (fun (ds : DataString) v => ds.value.Text v) vals'.elements
        (splitValues (t.length + 1) t) := by
  obtain ⟨hreset, hempty⟩ := h.reset
  obtain ⟨vals', xs, hrun, -, helements, htexts⟩ :=
    hreset.insertValues (splitValues (t.length + 1) t)
  have htext : b.ptr.take (b.used - 1) = t := take_of_holds hb.holds hb.used
  refine ⟨vals', ?_, ?_⟩
  · rw [httpRequestSplitValueRead_text hb, if_neg hcomma, httpRequestSplitValue, htext]
    exact hrun
  · rw [helements, hempty, List.nil_append]
    exact htexts

/-- A list is split into its values if and only if it does not begin with a comma and, unless it is
blank, its last value is not empty. -/
theorem splitsValues_iff {vals : Arr DataString} {b : Buffer} {t : Bytes} (hvals : SplitVals vals)
    (hb : b.Shows t) : SplitsValues vals b t ↔
      t.head? ≠ some 44 ∧ ((∀ c ∈ t, isBlank c = true) ∨ EndsInValue t) := by
  have hnumbered := hvals.numbered
  unfold SplitsValues
  rcases hb with hb | ⟨hused, rfl⟩
  · obtain ⟨hwhole, hmissing⟩ := splitValues_commaParts (show t.length < t.length + 1 by omega)
    by_cases hcomma : t.head? = some 44
    · rw [httpRequestSplitValueRead_text hb, if_pos hcomma]
      simp [hcomma]
    obtain ⟨vals', hrun, htexts⟩ := hnumbered.read hb hcomma
    have honly : SplitsValues vals b t ↔ List.Forall₂ (fun (ds : DataString) v => ds.value.Text v)
        vals'.elements (commaValues t) := by
      unfold SplitsValues
      rw [hrun]
      simp
    refine honly.trans ?_
    by_cases hblank : ∀ c ∈ t, isBlank c = true
    · have hnothing : splitValues (t.length + 1) t = [] := by
        rw [splitValues, if_pos (List.dropWhile_eq_nil_iff.mpr hblank)]
      rw [hnothing] at htexts
      rw [commaValues, if_pos hblank]
      exact ⟨fun _ => ⟨hcomma, Or.inl hblank⟩, fun _ => htexts⟩
    · rw [commaValues, if_neg hblank]
      constructor
      · intro hsame
        refine ⟨hcomma, Or.inr ?_⟩
        by_contra hends
        have hlt := hmissing hends
        have hlength := hsame.length_eq.symm.trans htexts.length_eq
        omega
      · rintro ⟨-, hends⟩
        rw [← hwhole (hends.resolve_left hblank)]
        exact htexts
  · have hrun : httpRequestSplitValueRead b (arrayReset vals) = some (arrayReset vals) := by
      unfold httpRequestSplitValueRead
      rw [if_pos hused]
    rw [hrun]
    refine ⟨fun _ => ⟨by simp, Or.inl (by simp)⟩, fun _ => ⟨_, rfl, ?_⟩⟩
    rw [hnumbered.reset.2]
    exact .nil

end SplitVals

/-- A list with an empty value in it. -/
theorem splitsValues_keepAlive :
    @SplitsValues zeroMalloc arrayInit (textBuffer (ascii "close, ,keep-alive"))
      (ascii "close, ,keep-alive") := by
  let _ : Malloc := zeroMalloc
  have htext : (textBuffer (ascii "close, ,keep-alive")).Shows (ascii "close, ,keep-alive") :=
    Or.inl (text_textBuffer _)
  refine (splitsValues_iff SplitVals.init htext).mpr ⟨by decide, Or.inr ⟨101, ?_, by decide⟩⟩
  decide +kernel

/-- In front of the value of `,close` there is nothing to read, and the last value of `close,` is
missing. -/
theorem not_splitsValues :
    ¬ @SplitsValues zeroMalloc arrayInit (textBuffer (ascii ",close")) (ascii ",close") ∧
      ¬ @SplitsValues zeroMalloc arrayInit (textBuffer (ascii "close,")) (ascii "close,") := by
  let _ : Malloc := zeroMalloc
  constructor
  · rintro ⟨vals, hrun, -⟩
    rw [httpRequestSplitValueRead_text (text_textBuffer _), if_pos (by decide)] at hrun
    nomatch hrun
  · rintro ⟨vals, hrun, htexts⟩
    obtain ⟨vals', hrun', htexts'⟩ :=
      numberedVals_init.read (text_textBuffer (ascii "close,")) (by decide)
    obtain rfl := Option.some.inj (hrun.symm.trans hrun')
    have hlength := htexts.length_eq.symm.trans htexts'.length_eq
    exact absurd hlength (by decide +kernel)

end Lighttpd
