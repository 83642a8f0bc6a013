import Lighttpd.Lib.Lines
import Lighttpd.Lib.Numeral

/-!
# The chunked transfer coding

The grammar of RFC 2616, 3.6.1: chunks with their sizes in hexadecimal, a chunk of size zero, and
fields behind it. A text has at most one reading, chunk by chunk (`chunkedBody_chunk`).
-/

namespace CLib

/-! ## Hexadecimal numbers -/

def isHexDigit (c : UInt8) : Bool := isDigit c || (65 ≤ c && c ≤ 70) || (97 ≤ c && c ≤ 102)

def hexVal (c : UInt8) : Nat :=
  if c ≤ 57 then c.toNat - 48 else if c ≤ 70 then c.toNat - 55 else c.toNat - 87

def hexValue (ds : Bytes) : Nat := ds.foldl (fun v d => 16 * v + hexVal d) 0

theorem hexValue_append_singleton (ds : Bytes) (d : UInt8) :
    hexValue (ds ++ [d]) = 16 * hexValue ds + hexVal d := by
  simp [hexValue]

theorem hexValue_zeros {ds : Bytes} (h : ∀ c ∈ ds, c = 48) : hexValue ds = 0 := by
  induction ds using List.reverseRecOn with
  | nil => rfl
  | append_singleton ds d ih =>
    have hd : d = 48 := h d (by simp)
    rw [hexValue_append_singleton, ih fun c hc => h c (by simp [hc]), hd]
    rfl

/-! ## The grammar -/

/-- Nothing, or a text behind a semicolon. -/
def Extension (e : Bytes) : Prop := e = [] ∨ ∃ t, e = 59 :: t ∧ 13 ∉ t ∧ 10 ∉ t

/-- Lines with a colon. -/
inductive Trailer : Bytes → Prop
  | nil : Trailer []
  | field {line rest : Bytes} : 58 ∈ line → 13 ∉ line → 10 ∉ line → Trailer rest →
      Trailer (line ++ crlf ++ rest)

/-- The text is the chunked form of the data. -/
inductive ChunkedBody : Bytes → Bytes → Prop
  | last {zeros ext trailer : Bytes} : zeros ≠ [] → (∀ c ∈ zeros, c = 48) → Extension ext →
      Trailer trailer → ChunkedBody (zeros ++ ext ++ crlf ++ trailer ++ crlf) []
  | chunk {size ext data rest tail : Bytes} : size ≠ [] → (∀ c ∈ size, isHexDigit c = true) →
      Extension ext → data ≠ [] → hexValue size = data.length → ChunkedBody rest tail →
      ChunkedBody (size ++ ext ++ crlf ++ data ++ crlf ++ rest) (data ++ tail)

/-! ## Reading -/

theorem size_unique {size ext x h y : Bytes} (hsize : ∀ c ∈ size, isHexDigit c = true)
    (hh : ∀ c ∈ h, isHexDigit c = true) (hext : Extension ext)
    (heq : size ++ ext ++ crlf ++ x = h ++ crlf ++ y) : size = h ∧ ext = [] ∧ x = y := by
  have hcr : isHexDigit 13 = false := by decide
  have hright : (h ++ crlf ++ y).takeWhile isHexDigit = h := by
    rw [List.append_assoc, List.takeWhile_append_of_pos hh]
    simp [crlf, hcr]
  have hleft : (size ++ ext ++ crlf ++ x).takeWhile isHexDigit = size := by
    rw [List.append_assoc, List.append_assoc, List.takeWhile_append_of_pos hsize]
    rcases hext with rfl | ⟨t, rfl, -⟩
    · simp [crlf, hcr]
    · have hsemi : isHexDigit 59 = false := by decide
      simp [hsemi]
  have hs : size = h := by rw [← hleft, heq, hright]
  subst hs
  simp only [List.append_assoc, List.append_cancel_left_eq] at heq
  rcases hext with rfl | ⟨t, rfl, -⟩
  · exact ⟨rfl, rfl, List.append_cancel_left heq⟩
  · cases heq

theorem ChunkedBody.cases_size {h y d : Bytes} (hh : ∀ c ∈ h, isHexDigit c = true)
    (hb : ChunkedBody (h ++ crlf ++ y) d) :
    ((∀ c ∈ h, c = 48) ∧ d = [] ∧ ∃ trailer, Trailer trailer ∧ y = trailer ++ crlf) ∨
    ∃ data rest tail, data ≠ [] ∧ hexValue h = data.length ∧ y = data ++ crlf ++ rest ∧
      d = data ++ tail ∧ ChunkedBody rest tail := by
  generalize ht : h ++ crlf ++ y = t at hb
  cases hb with
  | @last zeros ext trailer hne hz hext htr =>
    have hhex : ∀ c ∈ zeros, isHexDigit c = true := by
      intro c hc
      rw [hz c hc]
      decide
    rw [List.append_assoc (zeros ++ ext ++ crlf)] at ht
    obtain ⟨rfl, -, rfl⟩ := size_unique hhex hh hext ht.symm
    exact Or.inl ⟨hz, rfl, trailer, htr, rfl⟩
  | @chunk size ext data rest tail hne hhex hext hdata hval hrest =>
    rw [List.append_assoc (size ++ ext ++ crlf ++ data), List.append_assoc (size ++ ext ++ crlf)]
      at ht
    obtain ⟨rfl, -, rfl⟩ := size_unique hhex hh hext ht.symm
    exact Or.inr ⟨data, rest, tail, hdata, hval, (List.append_assoc _ _ _).symm, rfl, hrest⟩

/-- **A chunk has one reading.** -/
theorem chunkedBody_chunk {h p rest d : Bytes} (hne : h ≠ [])
    (hh : ∀ c ∈ h, isHexDigit c = true) (hp : p ≠ []) (hval : hexValue h = p.length) :
    ChunkedBody (h ++ crlf ++ p ++ crlf ++ rest) d ↔
      ∃ tail, d = p ++ tail ∧ ChunkedBody rest tail := by
  constructor
  · intro hb
    rw [List.append_assoc (h ++ crlf ++ p), List.append_assoc (h ++ crlf)] at hb
    rcases hb.cases_size hh with ⟨hz, -⟩ | ⟨data, rest', tail, -, hval', hy, rfl, hrest⟩
    · rw [hexValue_zeros hz] at hval
      exact absurd (List.length_eq_zero_iff.mp hval.symm) hp
    · rw [List.append_assoc data] at hy
      obtain ⟨rfl, he⟩ := List.append_inj hy (by omega)
      obtain rfl := List.append_cancel_left he
      exact ⟨tail, rfl, hrest⟩
  · rintro ⟨tail, rfl, hrest⟩
    have hb := ChunkedBody.chunk hne hh (Or.inl rfl) hp hval hrest
    rwa [List.append_nil] at hb

theorem chunkedBody_end : ChunkedBody ([48] ++ crlf ++ crlf) [] := by
  have hb := @ChunkedBody.last [48] [] [] (by simp) (by simp) (Or.inl rfl) Trailer.nil
  simpa using hb

theorem ChunkedBody.length_le {t d : Bytes} (h : ChunkedBody t d) :
    d.length + 5 ≤ t.length ∧ (d ≠ [] → d.length + 10 ≤ t.length) := by
  induction h with
  | @last zeros ext trailer hne _ _ _ =>
    have hpos := List.length_pos_of_ne_nil hne
    simp only [List.length_append, List.length_nil, crlf, List.length_cons]
    exact ⟨by omega, fun h => absurd rfl h⟩
  | @chunk size ext data rest tail hne _ _ _ _ _ ih =>
    have hpos := List.length_pos_of_ne_nil hne
    simp only [List.length_append, crlf, List.length_cons, List.length_nil]
    exact ⟨by omega, fun _ => by omega⟩

theorem not_trailer_zero {t y : Bytes} (ht : Trailer t) (he : t = y ++ [48] ++ crlf)
    (hy : y = [] ∨ ∃ z, y = z ++ [10]) : False := by
  induction ht generalizing y with
  | nil => simp [crlf] at he
  | @field line rest hcolon hcr hlf hrest ih =>
    cases hrest with
    | nil =>
      rw [List.append_nil] at he
      have hline : line = y ++ [48] := (List.append_inj' he rfl).1
      rcases hy with rfl | ⟨z, rfl⟩
      · rw [hline] at hcolon
        simp at hcolon
      · exact hlf (by simp [hline])
    | @field line' rest' hcolon' hcr' hlf' hrest' =>
      have hlen : 1 ≤ line'.length := List.length_pos_of_mem hcolon'
      -- the end of the text is in the lines behind
      have hpre : line ++ crlf <+: y := by
        refine @List.prefix_of_prefix_length_le _ _ _ (y ++ [48] ++ crlf) ?_ ?_ ?_
        · rw [← he]
          exact List.prefix_append _ _
        · rw [List.append_assoc]
          exact List.prefix_append _ _
        · have hl := congrArg List.length he
          simp only [List.length_append, crlf, List.length_cons, List.length_nil] at hl ⊢
          omega
      obtain ⟨y', rfl⟩ := hpre
      refine ih (y := y') (by simpa using he) ?_
      rcases hy with hnil | ⟨z, hz⟩
      · simp [crlf] at hnil
      · by_cases hn : y' = []
        · exact Or.inl hn
        · have hlast := congrArg List.getLast? hz
          rw [List.getLast?_append_of_ne_nil _ hn, List.getLast?_concat] at hlast
          exact Or.inr (List.getLast?_eq_some_iff.mp hlast)

end CLib
