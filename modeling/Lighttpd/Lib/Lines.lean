import Lighttpd.Lib.CString

/-!
# Lines that end with CR LF

A line is the text in front of the first CR LF, so it may hold CRs and LFs of its own.
-/

namespace CLib

def crlf : Bytes := [13, 10]

/-- `line` is the first line of `text`, and `rest` what follows its end. -/
structure FirstLine (text line rest : Bytes) : Prop where
  text : text = line ++ crlf ++ rest
  line : ¬ crlf <:+: line

theorem crlf_prefix_cons {c : UInt8} {s : Bytes} :
    crlf <+: c :: s ↔ c = 13 ∧ s.head? = some 10 := by
  cases s with
  | nil => simp [crlf, List.cons_prefix_cons]
  | cons d s => simp [crlf, List.cons_prefix_cons, eq_comm]

theorem not_crlf_cons {c : UInt8} {s : Bytes} :
    ¬ crlf <:+: c :: s ↔ ¬ (c = 13 ∧ s.head? = some 10) ∧ ¬ crlf <:+: s := by
  rw [List.infix_cons_iff, crlf_prefix_cons, not_or]

theorem FirstLine.nil (rest : Bytes) : FirstLine (crlf ++ rest) [] rest :=
  ⟨by simp, by simp [crlf]⟩

theorem FirstLine.cons {text line rest : Bytes} {c : UInt8} (h : FirstLine text line rest)
    (hc : ¬ (c = 13 ∧ text.head? = some 10)) : FirstLine (c :: text) (c :: line) rest := by
  refine ⟨by simp [h.text], not_crlf_cons.mpr ⟨?_, h.line⟩⟩
  rintro ⟨h13, h10⟩
  refine hc ⟨h13, ?_⟩
  rw [h.text]
  cases line with
  | nil => cases h10
  | cons d line => simpa using h10

theorem exists_firstLine (text : Bytes) :
    (∃ line rest, FirstLine text line rest) ∨ ¬ crlf <:+: text := by
  induction text with
  | nil => exact Or.inr (by simp [crlf])
  | cons c text ih =>
    by_cases hc : c = 13 ∧ text.head? = some 10
    · obtain ⟨t, rfl⟩ : ∃ t, text = 10 :: t := by
        cases text with
        | nil => cases hc.2
        | cons d t => exact ⟨t, by simpa using hc.2⟩
      exact Or.inl ⟨[], t, hc.1 ▸ FirstLine.nil t⟩
    · rcases ih with ⟨line, rest, h⟩ | h
      · exact Or.inl ⟨c :: line, rest, h.cons hc⟩
      · exact Or.inr (not_crlf_cons.mpr ⟨hc, h⟩)

theorem firstLine_append_nul {text line rest : Bytes} :
    FirstLine (text ++ [0]) line rest ↔ ∃ rest', rest = rest' ++ [0] ∧ FirstLine text line rest' := by
  constructor
  · rintro ⟨htext, hline⟩
    rcases List.eq_nil_or_concat rest with rfl | ⟨rest', x, rfl⟩
    · have hlast := congrArg List.getLast? htext
      simp [crlf] at hlast
    · rw [List.concat_eq_append, ← List.append_assoc] at htext
      obtain ⟨h1, h2⟩ := List.append_inj' htext rfl
      exact ⟨rest', by rw [List.concat_eq_append, h2], h1, hline⟩
  · rintro ⟨rest', rfl, htext, hline⟩
    exact ⟨by rw [htext, List.append_assoc], hline⟩

end CLib
