import Lighttpd.Lib.CString

/-!
# Records with a header of eight bytes

A record is a version, a type, a request id, the lengths of content and padding, a reserved byte,
and then content and padding. A number of two bytes has the high one first. `parse` takes the first
record off a stream, if it is complete, and `parseAll` all of them.
-/

namespace CLib

structure Record where
  type : Nat
  requestId : Nat
  content : Bytes
  padding : Nat
  deriving DecidableEq, Repr

namespace Record

def headerLength : Nat := 8

def word (high low : UInt8) : Nat := high.toNat * 256 + low.toNat

def parse : Bytes → Option (Record × Bytes)
  | _ :: type :: id1 :: id0 :: len1 :: len0 :: padding :: _ :: rest =>
    let len := word len1 len0
    if rest.length < len + padding.toNat then none
    else some (⟨type.toNat, word id1 id0, rest.take len, padding.toNat⟩,
      rest.drop (len + padding.toNat))
  | _ => none

theorem parse_eq_some {s rest : Bytes} {r : Record} (h : parse s = some (r, rest)) :
    s.length = headerLength + r.content.length + r.padding + rest.length ∧
      rest = s.drop (headerLength + r.content.length + r.padding) := by
  unfold parse at h
  split at h
  · next s version type id1 id0 len1 len0 padding reserved body =>
    dsimp only at h
    split at h
    · cases h
    · next hle =>
      obtain ⟨rfl, rfl⟩ := Prod.mk.inj (Option.some.inj h)
      have hlen : (body.take (word len1 len0)).length = word len1 len0 := by
        rw [List.length_take]
        omega
      refine ⟨?_, ?_⟩
      · simp only [List.length_cons, hlen, List.length_drop, headerLength]
        omega
      · have hdrop : headerLength + (body.take (word len1 len0)).length + padding.toNat =
            (word len1 len0 + padding.toNat) + 8 := by
          rw [hlen, headerLength]
          omega
        rw [hdrop]
        simp
  · cases h

theorem parse_eq_none_of_length {s : Bytes} (h : s.length < headerLength) : parse s = none := by
  cases hp : parse s with
  | none => rfl
  | some p =>
    have := (parse_eq_some hp).1
    omega

def parseAll (s : Bytes) : List Record × Bytes :=
  match _h : parse s with
  | none => ([], s)
  | some (r, rest) => (r :: (parseAll rest).1, (parseAll rest).2)
termination_by s.length
decreasing_by
  all_goals
    have := (parse_eq_some _h).1
    simp only [headerLength] at this
    omega

theorem parseAll_of_none {s : Bytes} (h : parse s = none) : parseAll s = ([], s) := by
  rw [parseAll]
  split
  · rfl
  · next hp =>
    rw [h] at hp
    cases hp

theorem parseAll_of_some {s rest : Bytes} {r : Record} (h : parse s = some (r, rest)) :
    parseAll s = (r :: (parseAll rest).1, (parseAll rest).2) := by
  rw [parseAll]
  split
  · next hp =>
    rw [h] at hp
    cases hp
  · next hp =>
    rw [h] at hp
    obtain ⟨rfl, rfl⟩ := Prod.mk.inj (Option.some.inj hp)
    rfl

/-! ## Writing records -/

def wordBytes (n : Nat) : Bytes := [UInt8.ofNat (n / 256), UInt8.ofNat n]

def encode (r : Record) : Bytes :=
  1 :: UInt8.ofNat r.type :: (wordBytes r.requestId ++ wordBytes r.content.length ++
    [UInt8.ofNat r.padding, 0] ++ r.content ++ List.replicate r.padding 0)

/-- The numbers fit their fields. -/
structure Fits (r : Record) : Prop where
  type : r.type < 256
  requestId : r.requestId < 65536
  content : r.content.length < 65536
  padding : r.padding < 256

theorem word_wordBytes {n : Nat} (h : n < 65536) :
    word (UInt8.ofNat (n / 256)) (UInt8.ofNat n) = n := by
  simp only [word, UInt8.toNat_ofNat']
  omega

theorem parse_encode {r : Record} (h : r.Fits) (rest : Bytes) :
    parse (r.encode ++ rest) = some (r, rest) := by
  have hid := word_wordBytes h.requestId
  have hlen := word_wordBytes h.content
  have htype : (UInt8.ofNat r.type).toNat = r.type := by
    rw [UInt8.toNat_ofNat', Nat.mod_eq_of_lt h.type]
  have hpad : (UInt8.ofNat r.padding).toNat = r.padding := by
    rw [UInt8.toNat_ofNat', Nat.mod_eq_of_lt h.padding]
  have hbody : (r.content ++ List.replicate r.padding 0 ++ rest).length =
      r.content.length + r.padding + rest.length := by
    simp only [List.length_append, List.length_replicate]
  have hskip : (r.content ++ List.replicate r.padding (0 : UInt8)).length =
      r.content.length + r.padding := by
    simp only [List.length_append, List.length_replicate]
  simp only [encode, wordBytes, List.cons_append, List.nil_append, parse, hid, hlen, htype, hpad]
  rw [if_neg (by rw [hbody]; omega), List.append_assoc, List.take_left]
  rw [← List.append_assoc, ← hskip, List.drop_left]

theorem parseAll_encode : ∀ (rs : List Record), (∀ r ∈ rs, r.Fits) →
    parseAll (rs.map encode).flatten = (rs, [])
  | [], _ => parseAll_of_none rfl
  | r :: rs, h => by
    have hone := parse_encode (h r (by simp)) (rs.map encode).flatten
    have ih := parseAll_encode rs fun q hq => h q (List.mem_cons_of_mem _ hq)
    rw [List.map_cons, List.flatten_cons, parseAll_of_some hone, ih]

end Record

end CLib
