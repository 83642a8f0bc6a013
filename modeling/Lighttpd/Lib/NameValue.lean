import Lighttpd.Lib.CString

/-!
# Name-value pairs

A pair of byte strings is written as the length of the name, the length of the value, the name and
the value. A length up to 127 is one byte; a longer one is four, of which the first has its highest
bit set. Lengths below `2 ^ 31` can be read back, and so can a sequence of pairs.
-/

namespace CLib

def lengthField (n : Nat) : Bytes :=
  if n < 128 then [UInt8.ofNat n]
  else [UInt8.ofNat (n / 2 ^ 24 + 128), UInt8.ofNat (n / 2 ^ 16), UInt8.ofNat (n / 2 ^ 8),
    UInt8.ofNat n]

def readLower (n : Nat) : Bytes → Option (Nat × Bytes)
  | b :: c :: d :: s => some (n * 2 ^ 24 + b.toNat * 2 ^ 16 + c.toNat * 2 ^ 8 + d.toNat, s)
  | _ => none

def readLength : Bytes → Option (Nat × Bytes)
  | [] => none
  | a :: s => if a.toNat < 128 then some (a.toNat, s) else readLower (a.toNat - 128) s

theorem readLength_lengthField {n : Nat} (hn : n < 2 ^ 31) (s : Bytes) :
    readLength (lengthField n ++ s) = some (n, s) := by
  unfold lengthField
  split
  · next hshort =>
    have ha : (UInt8.ofNat n).toNat = n := UInt8.toNat_ofNat_of_lt' (by simp [UInt8.size]; omega)
    rw [List.cons_append, List.nil_append, readLength, ha, if_pos hshort]
  · next hlong =>
    have ha : (UInt8.ofNat (n / 2 ^ 24 + 128)).toNat = n / 2 ^ 24 + 128 :=
      UInt8.toNat_ofNat_of_lt' (by simp [UInt8.size]; omega)
    have hvalue : (n / 2 ^ 24 + 128 - 128) * 2 ^ 24 + n / 2 ^ 16 % 2 ^ 8 * 2 ^ 16 +
        n / 2 ^ 8 % 2 ^ 8 * 2 ^ 8 + n % 2 ^ 8 = n := by omega
    rw [List.cons_append, readLength, ha, if_neg (by omega)]
    simp only [List.cons_append, List.nil_append, readLower, UInt8.toNat_ofNat', hvalue]

theorem readLength_shorter {s rest : Bytes} {n : Nat} (h : readLength s = some (n, rest)) :
    rest.length < s.length := by
  unfold readLength at h
  split at h
  · nomatch h
  · split at h
    · obtain ⟨-, rfl⟩ := Prod.mk.inj (Option.some.inj h)
      simp
    · unfold readLower at h
      split at h
      · obtain ⟨-, rfl⟩ := Prod.mk.inj (Option.some.inj h)
        simp only [List.length_cons]
        omega
      · nomatch h

/-! ## Pairs -/

def pairField (p : Bytes × Bytes) : Bytes :=
  lengthField p.1.length ++ lengthField p.2.length ++ p.1 ++ p.2

def readBytes (n : Nat) (s : Bytes) : Option (Bytes × Bytes) :=
  if n ≤ s.length then some (s.take n, s.drop n) else none

def readPair (s : Bytes) : Option ((Bytes × Bytes) × Bytes) := do
  let (n, s) ← readLength s
  let (m, s) ← readLength s
  let (name, s) ← readBytes n s
  let (value, s) ← readBytes m s
  some ((name, value), s)

/-- Both lengths are small enough. -/
def PairFits (p : Bytes × Bytes) : Prop := p.1.length < 2 ^ 31 ∧ p.2.length < 2 ^ 31

theorem readBytes_append (t s : Bytes) : readBytes t.length (t ++ s) = some (t, s) := by
  unfold readBytes
  rw [if_pos (by rw [List.length_append]; omega), List.take_left, List.drop_left]

theorem readPair_pairField {p : Bytes × Bytes} (hp : PairFits p) (s : Bytes) :
    readPair (pairField p ++ s) = some (p, s) := by
  unfold readPair pairField
  rw [List.append_assoc, List.append_assoc, List.append_assoc, readLength_lengthField hp.1]
  dsimp only [Option.bind_eq_bind, Option.bind_some]
  rw [readLength_lengthField hp.2]
  dsimp only [Option.bind_some]
  rw [readBytes_append]
  dsimp only [Option.bind_some]
  rw [readBytes_append]
  rfl

theorem readBytes_le {n : Nat} {s t rest : Bytes} (h : readBytes n s = some (t, rest)) :
    rest.length ≤ s.length := by
  unfold readBytes at h
  split at h
  · obtain ⟨-, rfl⟩ := Prod.mk.inj (Option.some.inj h)
    rw [List.length_drop]
    omega
  · nomatch h

theorem readPair_shorter {s rest : Bytes} {p : Bytes × Bytes} (h : readPair s = some (p, rest)) :
    rest.length < s.length := by
  unfold readPair at h
  obtain ⟨⟨n, s1⟩, hname, h⟩ := Option.bind_eq_some_iff.mp h
  obtain ⟨⟨m, s2⟩, hvalue, h⟩ := Option.bind_eq_some_iff.mp h
  obtain ⟨⟨name, s3⟩, htake, h⟩ := Option.bind_eq_some_iff.mp h
  obtain ⟨⟨value, s4⟩, htake', h⟩ := Option.bind_eq_some_iff.mp h
  obtain ⟨-, rfl⟩ := Prod.mk.inj (Option.some.inj h)
  have h1 := readLength_shorter hname
  have h2 := readLength_shorter hvalue
  have h3 := readBytes_le htake
  have h4 := readBytes_le htake'
  omega

/-- All pairs in `s`; `none` if it ends inside one. -/
def readPairs (s : Bytes) : Option (List (Bytes × Bytes)) :=
  if s = [] then some []
  else
    match _h : readPair s with
    | none => none
    | some (p, rest) => (readPairs rest).map (p :: ·)
  termination_by s.length
  decreasing_by exact readPair_shorter _h

theorem pairField_ne_nil (p : Bytes × Bytes) : pairField p ≠ [] := by
  unfold pairField lengthField
  split
  · simp
  · simp

/-- **Pairs that are written can be read back.** -/
theorem readPairs_flatMap {ps : List (Bytes × Bytes)} (h : ∀ p ∈ ps, PairFits p) :
    readPairs (ps.flatMap pairField) = some ps := by
  induction ps with
  | nil =>
    rw [List.flatMap_nil, readPairs, if_pos rfl]
  | cons p ps ih =>
    obtain ⟨hp, hps⟩ := List.forall_mem_cons.mp h
    have hread := readPair_pairField hp (ps.flatMap pairField)
    rw [List.flatMap_cons, readPairs, if_neg fun h0 =>
      pairField_ne_nil p (List.append_eq_nil_iff.mp h0).1]
    split
    · next hnone =>
      rw [hread] at hnone
      nomatch hnone
    · next hsome =>
      rw [hread] at hsome
      obtain ⟨rfl, rfl⟩ := Prod.mk.inj (Option.some.inj hsome)
      rw [ih hps]
      rfl

end CLib
