import Mathlib.Algebra.Order.Ring.Int
import Mathlib.Data.List.Basic
import Mathlib.Data.List.TakeWhile

/-!
# C strings and array objects

Bytes, NUL-terminated strings, and array objects of a fixed size, as the C standard library sees
them. A string in memory is the bytes before the first NUL (`cstr`). An array object is a `Block n`
that carries its size; a store outside it has no value (`Block.store`), so a function that returns
`some` has kept all its writes inside its objects. `atoi` and `strtol` are those of a platform with
a 32-bit `long`.
-/

namespace CLib

abbrev Bytes := List UInt8

-- a quantifier over the bytes of a string is decided by walking the string, not all 256 bytes
instance (p : UInt8 → Prop) [DecidablePred p] (s : Bytes) : Decidable (∀ c ∈ s, p c) :=
  List.decidableBAll p s

def ascii (s : String) : Bytes := s.toList.map Char.toUInt8

/-! ## Strings in memory -/

/-- The string that starts a piece of memory: the bytes before its first NUL. -/
def cstr (m : Bytes) : Bytes := m.takeWhile (· != 0)

/-- A string holds no NUL. -/
def IsCStr (s : Bytes) : Prop := (0 : UInt8) ∉ s

instance (s : Bytes) : Decidable (IsCStr s) := inferInstanceAs (Decidable (_ ∉ _))

theorem cstr_append_nul (s m : Bytes) : cstr (s ++ 0 :: m) = cstr s := by
  induction s with
  | nil => simp [cstr]
  | cons x xs ih =>
    unfold cstr at ih ⊢
    simp only [List.cons_append, List.takeWhile_cons]
    split
    · rw [ih]
    · rfl

/-- The bytes before the first `c` go on behind a text without `c`. -/
theorem takeWhile_append_of_notMem {c : UInt8} {s : Bytes} (hs : c ∉ s) (m : Bytes) :
    (s ++ m).takeWhile (· != c) = s ++ m.takeWhile (· != c) := by
  rw [List.takeWhile_append_of_pos]
  intro x hx
  have hne : x ≠ c := fun h => hs (h ▸ hx)
  simpa using hne

theorem takeWhile_eq_of_notMem {c : UInt8} {s : Bytes} (hs : c ∉ s) :
    s.takeWhile (· != c) = s := by
  simpa using takeWhile_append_of_notMem hs []

theorem cstr_append {s : Bytes} (hs : IsCStr s) (m : Bytes) : cstr (s ++ m) = s ++ cstr m :=
  takeWhile_append_of_notMem hs m

@[simp] theorem cstr_zeros (k : Nat) : cstr (List.replicate k 0) = [] := by
  cases k <;> simp [cstr, List.replicate_succ]

theorem isCStr_cstr (m : Bytes) : IsCStr (cstr m) := by
  intro h
  have := List.mem_takeWhile_imp h
  simp at this

theorem length_cstr_le {m : Bytes} {i : Nat} (h : m[i]? = some 0) : (cstr m).length ≤ i := by
  by_contra hlong
  have hget : (cstr m)[i]? = some 0 := by
    obtain ⟨t, ht⟩ : cstr m <+: m := List.takeWhile_prefix _
    rw [← ht, List.getElem?_append_left (by omega)] at h
    exact h
  exact isCStr_cstr m (List.mem_of_getElem? hget)

theorem cstr_eq_self {s : Bytes} (hs : IsCStr s) : cstr s = s :=
  takeWhile_eq_of_notMem hs

theorem cstr_append_zero {s : Bytes} (hs : IsCStr s) (m : Bytes) : cstr (s ++ 0 :: m) = s :=
  (cstr_append_nul s m).trans (cstr_eq_self hs)

theorem IsCStr.append {s t : Bytes} (hs : IsCStr s) (ht : IsCStr t) : IsCStr (s ++ t) := by
  unfold IsCStr at *
  simp [hs, ht]

theorem IsCStr.of_append_left {s t : Bytes} (h : IsCStr (s ++ t)) : IsCStr s :=
  fun hm => h (List.mem_append_left _ hm)

theorem IsCStr.of_append_right {s t : Bytes} (h : IsCStr (s ++ t)) : IsCStr t :=
  fun hm => h (List.mem_append_right _ hm)

/-! ## Searching -/

theorem drop_append_cons {α : Type} (a : List α) (c : α) (b : List α) :
    (a ++ c :: b).drop (a.length + 1) = b := by
  rw [← List.drop_drop, List.drop_left' rfl]
  rfl

/-- The index of the first `c` in a string. -/
def strchr : Bytes → UInt8 → Option Nat
  | [], _ => none
  | x :: xs, c => if x = c then some 0 else (strchr xs c).map (· + 1)

/-- The index of the last `c` in a string. -/
def strrchr : Bytes → UInt8 → Option Nat
  | [], _ => none
  | x :: xs, c =>
    match strrchr xs c with
    | some i => some (i + 1)
    | none => if x = c then some 0 else none

/-- `tolower` -/
def tolower (c : UInt8) : UInt8 := if 65 ≤ c ∧ c ≤ 90 then c + 32 else c

/-- `strncasecmp(a, b, n) == 0`; a text that ends before its NUL is not equal. -/
def strncaseeq : Nat → Bytes → Bytes → Bool
  | 0, _, _ => true
  | n + 1, x :: a, y :: b => tolower x == tolower y && (x == 0 || strncaseeq n a b)
  | _, _, _ => false

/-- `strncmp(a, b, n) == 0`; a text that ends before its NUL is not equal. -/
def strneq : Nat → Bytes → Bytes → Bool
  | 0, _, _ => true
  | n + 1, x :: a, y :: b => x == y && (x == 0 || strneq n a b)
  | _, _, _ => false

/-- `strcmp` of two strings without their terminators; the bytes count as unsigned. -/
def strcmp : Bytes → Bytes → Int
  | [], [] => 0
  | [], y :: _ => -(y.toNat : Int)
  | x :: _, [] => x.toNat
  | x :: a, y :: b => if x = y then strcmp a b else (x.toNat : Int) - y.toNat

theorem strncaseeq_append_of_le : ∀ {n : Nat} {a : Bytes} (b t : Bytes), n ≤ a.length →
    strncaseeq n (a ++ b) t = strncaseeq n a t
  | 0, _, _, _, _ => by simp [strncaseeq]
  | n + 1, [], _, _, h => by simp at h
  | n + 1, _ :: _, _, [], _ => rfl
  | n + 1, x :: a, b, y :: t, h => by
    simp only [List.cons_append, strncaseeq]
    rw [strncaseeq_append_of_le b t (by simpa using h)]

theorem strncaseeq_of_strneq : ∀ {n : Nat} {a b : Bytes}, strneq n a b = true →
    strncaseeq n a b = true
  | 0, _, _, _ => by simp [strncaseeq]
  | _ + 1, [], _, h => by simp [strneq] at h
  | _ + 1, _ :: _, [], h => by simp [strneq] at h
  | n + 1, x :: a, y :: b, h => by
    simp only [strneq, Bool.and_eq_true, beq_iff_eq, Bool.or_eq_true] at h
    obtain ⟨rfl, h⟩ := h
    simp only [strncaseeq, Bool.and_eq_true, beq_self_eq_true, true_and, Bool.or_eq_true,
      beq_iff_eq]
    exact h.imp id strncaseeq_of_strneq

theorem strneq_length {a : Bytes} (ha : IsCStr a) (s : Bytes) {t : Bytes} :
    strneq a.length (a ++ s) t = true ↔ a <+: t := by
  induction a generalizing t with
  | nil => simp [strneq]
  | cons x a ih =>
    obtain ⟨hx, hrest⟩ : x ≠ 0 ∧ IsCStr a := by simpa [IsCStr, eq_comm] using ha
    cases t with
    | nil => simp [strneq]
    | cons y t => simp [strneq, List.cons_prefix_cons, hx, ih hrest]

theorem strneq_comm (n : Nat) (a b : Bytes) : strneq n a b = strneq n b a := by
  induction n generalizing a b with
  | zero => simp [strneq]
  | succ n ih =>
    cases a with
    | nil => cases b <;> rfl
    | cons x a =>
      cases b with
      | nil => rfl
      | cons y b =>
        by_cases hxy : x = y
        · simp [strneq, hxy, ih a b]
        · have hyx : ¬ y = x := fun h => hxy h.symm
          have hleft : (x == y) = false := beq_eq_false_iff_ne.mpr hxy
          have hright : (y == x) = false := beq_eq_false_iff_ne.mpr hyx
          simp [strneq, hleft, hright]

theorem strneq_front {key : Bytes} (hkey : IsCStr key) (s m : Bytes) :
    strneq key.length (s ++ 0 :: m) key = true ↔ key <+: s := by
  have hlong := @strneq_length key hkey [] (s ++ 0 :: m)
  rw [List.append_nil] at hlong
  rw [strneq_comm, hlong]
  refine ⟨fun hprefix => ?_, fun hprefix => hprefix.trans (List.prefix_append _ _)⟩
  rcases List.prefix_or_prefix_of_prefix hprefix (List.prefix_append s (0 :: m)) with h | h
  · exact h
  · obtain ⟨t, rfl⟩ := h
    have htail : t <+: 0 :: m := (List.prefix_append_right_inj s).mp hprefix
    cases t with
    | nil => simp
    | cons x t =>
      obtain ⟨rfl, -⟩ := List.cons_prefix_cons.mp htail
      exact absurd (List.mem_append_right _ List.mem_cons_self) hkey

theorem strchr_eq_none {s : Bytes} {c : UInt8} : strchr s c = none ↔ c ∉ s := by
  induction s with
  | nil => simp [strchr]
  | cons x xs ih =>
    by_cases hx : x = c
    · simp [strchr, hx]
    · simp [strchr, hx, ih, Ne.symm hx]

theorem strchr_append_cons {a : Bytes} {c : UInt8} (ha : c ∉ a) (b : Bytes) :
    strchr (a ++ c :: b) c = some a.length := by
  induction a with
  | nil => simp [strchr]
  | cons x xs ih =>
    have hx : x ≠ c := fun h => ha (by simp [h])
    have hxs : c ∉ xs := fun h => ha (List.mem_cons_of_mem _ h)
    simp [strchr, hx, ih hxs]

theorem strchr_eq_some {s : Bytes} {c : UInt8} {n : Nat} (h : strchr s c = some n) :
    ∃ a b, s = a ++ c :: b ∧ c ∉ a ∧ a.length = n := by
  have hmem : c ∈ s := by
    by_contra hmem
    rw [strchr_eq_none.mpr hmem] at h
    cases h
  obtain ⟨a, b, rfl, ha⟩ := List.eq_append_cons_of_mem hmem
  rw [strchr_append_cons ha] at h
  exact ⟨a, b, rfl, ha, Option.some.inj h⟩

theorem strchr_lt {s : Bytes} {c : UInt8} {n : Nat} (h : strchr s c = some n) : n < s.length := by
  obtain ⟨a, b, rfl, -, rfl⟩ := strchr_eq_some h
  simp

theorem strrchr_eq_none {s : Bytes} {c : UInt8} : strrchr s c = none ↔ c ∉ s := by
  induction s with
  | nil => simp [strrchr]
  | cons x xs ih =>
    unfold strrchr
    cases hr : strrchr xs c with
    | some i =>
      have : c ∈ xs := by
        by_contra hn
        rw [ih.mpr hn] at hr
        cases hr
      simp [this]
    | none =>
      have hn : c ∉ xs := ih.mp hr
      by_cases hx : x = c
      · simp [hx]
      · simp [hx, hn, Ne.symm hx]

theorem strrchr_append_cons (a : Bytes) {c : UInt8} {b : Bytes} (hb : c ∉ b) :
    strrchr (a ++ c :: b) c = some a.length := by
  induction a with
  | nil => simp [strrchr, strrchr_eq_none.mpr hb]
  | cons x xs ih => simp [strrchr, ih]

/-- A string that holds `c` splits at its last `c`. -/
theorem exists_split_last {s : Bytes} {c : UInt8} (h : c ∈ s) :
    ∃ a b, s = a ++ c :: b ∧ c ∉ b := by
  induction s with
  | nil => cases h
  | cons x xs ih =>
    by_cases hxs : c ∈ xs
    · obtain ⟨a, b, hs, hb⟩ := ih hxs
      exact ⟨x :: a, b, by simp [hs], hb⟩
    · have hx : x = c := by
        rcases List.mem_cons.mp h with h1 | h1
        · exact h1.symm
        · exact absurd h1 hxs
      exact ⟨[], xs, by simp [hx], hxs⟩

/-! ## Array objects -/

/-- An array object of `n` bytes. -/
structure Block (n : Nat) where
  bytes : Bytes
  size : bytes.length = n
  deriving DecidableEq

namespace Block

variable {n : Nat}

/-- A cleared object (`calloc`). -/
def zero (n : Nat) : Block n := ⟨List.replicate n 0, by simp⟩

/-- Store the bytes `s` from offset `off` on; a byte outside the object makes the store fault. -/
def store (b : Block n) (off : Nat) (s : Bytes) : Option (Block n) :=
  if h : off + s.length ≤ n then
    some ⟨b.bytes.take off ++ s ++ b.bytes.drop (off + s.length), by
      simp [b.size]; omega⟩
  else none

/-- `strcpy(b, s)`: the string and its terminator. -/
def strcpy (b : Block n) (s : Bytes) : Option (Block n) := b.store 0 (s ++ [0])

/-- `strncpy(b, s, k)`: exactly `k` bytes, padded with NULs when `s` is shorter. -/
def strncpy (b : Block n) (s : Bytes) (k : Nat) : Option (Block n) :=
  b.store 0 (s.take k ++ List.replicate (k - s.length) 0)

/-- The string that starts the object, when `past` is the memory behind it. -/
def str (b : Block n) (past : Bytes) : Bytes := cstr (b.bytes ++ past)

theorem exists_store (off : Nat) {s : Bytes} (h : off + s.length ≤ n) (b : Block n) :
    ∃ c, b.store off s = some c := ⟨_, dif_pos h⟩

theorem store_le {b c : Block n} {off : Nat} {s : Bytes} (h : b.store off s = some c) :
    off + s.length ≤ n := by
  unfold store at h
  split at h
  · assumption
  · cases h

theorem store_bytes {b c : Block n} {off : Nat} {s : Bytes} (h : b.store off s = some c) :
    c.bytes = b.bytes.take off ++ s ++ b.bytes.drop (off + s.length) := by
  unfold store at h
  split at h
  · cases h
    rfl
  · cases h

theorem exists_strcpy {s : Bytes} (h : s.length < n) (b : Block n) :
    ∃ c, b.strcpy s = some c :=
  exists_store 0 (by rw [List.length_append, List.length_singleton]; omega) b

theorem strcpy_lt {b c : Block n} {s : Bytes} (h : b.strcpy s = some c) : s.length < n := by
  have := store_le h
  rw [List.length_append, List.length_singleton] at this
  omega

theorem str_strcpy {b c : Block n} {s : Bytes} (h : b.strcpy s = some c) (hs : IsCStr s)
    (past : Bytes) : c.str past = s := by
  rw [str, store_bytes h]
  simpa using cstr_append_zero hs _

theorem length_strncpy (s : Bytes) (k : Nat) :
    (s.take k ++ List.replicate (k - s.length) 0).length = k := by
  simp only [List.length_append, List.length_take, List.length_replicate]
  omega

theorem str_store_zero {b c : Block n} {off : Nat} (h : b.store off [0] = some c)
    (hoff : off ≤ (b.str []).length) (past : Bytes) : c.str past = (b.str []).take off := by
  have hprefix : b.str [] <+: b.bytes := by
    rw [str, List.append_nil]
    exact List.takeWhile_prefix _
  have htake : b.bytes.take off = (b.str []).take off := by
    obtain ⟨rest, hrest⟩ := hprefix
    rw [← hrest, List.take_append_of_le_length hoff]
  have hcstr : IsCStr ((b.str []).take off) :=
    fun hm => isCStr_cstr _ (List.mem_of_mem_take hm)
  rw [str, store_bytes h, htake, List.append_assoc, List.append_assoc]
  exact cstr_append_zero hcstr _

theorem str_eq_of_lt {b : Block n} (h : (b.str []).length < n) (past : Bytes) :
    b.str past = b.str [] := by
  have hmem : ¬ IsCStr b.bytes := by
    intro hc
    rw [str, List.append_nil, cstr_eq_self hc, b.size] at h
    omega
  obtain ⟨s, rest, hsplit, -⟩ := List.eq_append_cons_of_mem (not_not.mp hmem)
  simp only [str, hsplit, List.append_assoc, List.cons_append, cstr_append_nul]

theorem exists_strncpy {k : Nat} (h : k ≤ n) (b : Block n) (s : Bytes) :
    ∃ c, b.strncpy s k = some c :=
  exists_store 0 (by rw [length_strncpy]; omega) b

theorem strncpy_le {b c : Block n} {s : Bytes} {k : Nat} (h : b.strncpy s k = some c) :
    k ≤ n := by
  have := store_le h
  rw [length_strncpy] at this
  omega

theorem strncpy_bytes {b c : Block n} {s : Bytes} {k : Nat} (h : b.strncpy s k = some c) :
    c.bytes = s.take k ++ List.replicate (k - s.length) 0 ++ b.bytes.drop k := by
  rw [store_bytes h, length_strncpy]
  simp

theorem str_strncpy_short {b c : Block n} {s : Bytes} {k : Nat} (h : b.strncpy s k = some c)
    (hs : IsCStr s) (hk : s.length < k) (past : Bytes) : c.str past = s := by
  obtain ⟨j, hj⟩ : ∃ j, k - s.length = j + 1 := ⟨k - s.length - 1, by omega⟩
  rw [str, strncpy_bytes h, List.take_of_length_le (Nat.le_of_lt hk), hj, List.replicate_succ]
  simpa using cstr_append_zero hs _

theorem str_strncpy_full {b c : Block n} {s : Bytes} {k : Nat} (h : b.strncpy s k = some c)
    (hs : IsCStr s) (hk : k ≤ s.length) (past : Bytes) :
    c.str past = s.take k ++ cstr (b.bytes.drop k ++ past) := by
  have htake : IsCStr (s.take k) := fun hm => hs (List.mem_of_mem_take hm)
  rw [str, strncpy_bytes h, Nat.sub_eq_zero_of_le hk, List.replicate_zero, List.append_nil,
    List.append_assoc, cstr_append htake]

theorem str_strncpy_zero {c : Block n} {s : Bytes} {k : Nat}
    (h : (zero n).strncpy s k = some c) (hs : IsCStr s) (hk : k ≤ s.length) (hn : k < n)
    (past : Bytes) : c.str past = s.take k := by
  obtain ⟨j, hj⟩ : ∃ j, n - k = j + 1 := ⟨n - k - 1, by omega⟩
  rw [str_strncpy_full h hs hk]
  simp [zero, hj, List.replicate_succ, cstr]

@[simp] theorem str_zero_nil : (zero n).str [] = [] := by simp [str, zero]

end Block

/-! ## Cutting a text at a character -/

/-- Nothing, or a text that starts with `c`. -/
def StopsAt (c : UInt8) (t : Bytes) : Prop := t = [] ∨ ∃ r, t = c :: r

theorem StopsAt.takeWhile {c : UInt8} {t : Bytes} (h : StopsAt c t) :
    t.takeWhile (· != c) = [] := by
  rcases h with rfl | ⟨r, rfl⟩ <;> simp

/-- A text without `c` ends where the rest begins. -/
theorem append_inj_of_stopsAt {c : UInt8} {a b t u : Bytes} (ha : c ∉ a) (hb : c ∉ b)
    (ht : StopsAt c t) (hu : StopsAt c u) (h : a ++ t = b ++ u) : a = b ∧ t = u := by
  have cut : ∀ {x y : Bytes}, c ∉ x → StopsAt c y → (x ++ y).takeWhile (· != c) = x := by
    intro x y hx hy
    rw [takeWhile_append_of_notMem hx, hy.takeWhile, List.append_nil]
  have hab : a = b := by
    have := congrArg (List.takeWhile (· != c)) h
    rwa [cut ha ht, cut hb hu] at this
  subst hab
  exact ⟨rfl, List.append_cancel_left h⟩

/-- A text splits at its last `c` in one way. -/
theorem split_last_unique {c : UInt8} {a b a' b' : Bytes} (hb : c ∉ b) (hb' : c ∉ b')
    (h : a ++ c :: b = a' ++ c :: b') : a = a' ∧ b = b' := by
  have hlen : a.length = a'.length := by
    have := congrArg (strrchr · c) h
    simpa [strrchr_append_cons, hb, hb'] using this
  obtain ⟨haa, hbb⟩ := List.append_inj h hlen
  exact ⟨haa, (List.cons.inj hbb).2⟩

end CLib
