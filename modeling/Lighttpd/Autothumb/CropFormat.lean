import Lighttpd.Autothumb.Thumbnail

/-!
# What `get_Crop_width_height` accepts

Every text of two to four tokens, where a token is a longest run of characters other than `x`, `+`
and the blank. The documented formats `WxH`, `WxH+X` and `WxH+X+Y` are among them.
-/

namespace Lighttpd

open CLib Tokens

def cropTokens (s : Bytes) : List Bytes := tokens (cropDelim.contains ·) s

def cropValue (t : Bytes) : UInt32 := UInt32.ofInt (atol t)

/-! ## The tokens of a text -/

theorem strtokLoop_crop {s : Bytes} (hs : IsCStr s) : ∃ ts m,
    strtokLoop cropDelim CROP_ITEM_COUNT (s ++ [0]) 0 = some (ts, m) ∧
      ts.map (strAt m) = ((cropTokens s).take CROP_ITEM_COUNT).map some := by
  obtain ⟨ts, m, hloop, -, hmap⟩ :=
    strtokLoop_tokens (show 0 ∉ cropDelim by decide) CROP_ITEM_COUNT [] hs
  exact ⟨ts, m, hloop, hmap⟩

theorem cropNumber_of_strAt {m t : Bytes} {token : Nat} (h : strAt m token = some t) :
    cropNumber m token = some (cropValue t) := by
  unfold cropNumber
  rw [h]
  rfl

/-- The numbers in their order, and zero for those that are missing. -/
def cropFormatOf : List Bytes → CropFormat
  | w :: h :: offsets => ⟨cropValue w, cropValue h, (offsets[0]?.map cropValue).getD 0,
      (offsets[1]?.map cropValue).getD 0⟩
  | _ => ⟨0, 0, 0, 0⟩

def CropCount (ts : List Bytes) : Prop := 2 ≤ ts.length ∧ ts.length ≤ 4

instance (ts : List Bytes) : Decidable (CropCount ts) := inferInstanceAs (Decidable (_ ∧ _))

theorem getCropWidthHeight_tokens {s : Bytes} (hs : IsCStr s) :
    getCropWidthHeight s = some (if CropCount (cropTokens s)
      then (true, cropFormatOf (cropTokens s)) else (false, ⟨0, 0, 0, 0⟩)) := by
  obtain ⟨ts, m, hloop, hmap⟩ := strtokLoop_crop hs
  unfold getCropWidthHeight
  rw [hloop]
  dsimp only [Option.bind_eq_bind, Option.bind_some]
  rcases hall : cropTokens s with _ | ⟨w, _ | ⟨h, _ | ⟨x, _ | ⟨y, _ | ⟨e, rest⟩⟩⟩⟩⟩ <;>
    rw [hall] at hmap <;>
    simp only [CROP_ITEM_COUNT, List.take_nil, List.take_zero, List.take_succ_cons, List.map_nil,
      List.map_cons, List.map_eq_nil_iff, List.map_eq_cons_iff] at hmap
  · subst hmap
    rfl
  · obtain ⟨t0, _, rfl, -, rfl⟩ := hmap
    rfl
  · obtain ⟨t0, _, rfl, h0, t1, _, rfl, h1, rfl⟩ := hmap
    rw [if_pos ⟨by simp, by simp⟩]
    dsimp only
    rw [cropNumber_of_strAt h0, cropNumber_of_strAt h1]
    rfl
  · obtain ⟨t0, _, rfl, h0, t1, _, rfl, h1, t2, _, rfl, h2, rfl⟩ := hmap
    rw [if_pos ⟨by simp, by simp⟩]
    dsimp only
    rw [cropNumber_of_strAt h0, cropNumber_of_strAt h1, cropNumber_of_strAt h2]
    rfl
  · obtain ⟨t0, _, rfl, h0, t1, _, rfl, h1, t2, _, rfl, h2, t3, _, rfl, h3, rfl⟩ := hmap
    rw [if_pos ⟨by simp, by simp⟩]
    dsimp only
    rw [cropNumber_of_strAt h0, cropNumber_of_strAt h1, cropNumber_of_strAt h2,
      cropNumber_of_strAt h3]
    rfl
  · -- the array for the tokens is full
    obtain ⟨t0, _, rfl, -, t1, _, rfl, -, t2, _, rfl, -, t3, _, rfl, -, t4, _, rfl, -, rfl⟩ := hmap
    rw [if_neg fun h => absurd h.2 (by simp)]

/-! ## The documented formats -/

/-- `WxH`, `WxH+X` or `WxH+X+Y`. -/
def cropText (w h : Bytes) (offsets : List Bytes) : Bytes :=
  w ++ 120 :: (h ++ offsets.flatMap (43 :: ·))

/-- The numbers are in decimal and fit into `long`, and there are at most two offsets. -/
structure CropNumbers (w h : Bytes) (offsets : List Bytes) : Prop where
  digits : ∀ t ∈ w :: h :: offsets, Digits t
  fits : ∀ t ∈ w :: h :: offsets, digitsValue t ≤ 2147483647
  count : offsets.length ≤ 2

theorem cropDelim_of_isDigit {c : UInt8} (h : isDigit c = true) : cropDelim.contains c = false := by
  cases hc : cropDelim.contains c with
  | false => rfl
  | true =>
    have hmem : c ∈ cropDelim := by simpa using hc
    have hno : ∀ d ∈ cropDelim, isDigit d = false := by decide
    rw [hno c hmem] at h
    cases h

theorem cropTokens_offsets {offsets : List Bytes} (hoffs : ∀ t ∈ offsets, Digits t) :
    ∀ {t : Bytes}, Digits t → cropTokens (t ++ offsets.flatMap (43 :: ·)) = t :: offsets := by
  induction offsets with
  | nil =>
    intro t ht
    rw [List.flatMap_nil, List.append_nil]
    exact tokens_word ht.1 fun c hc => cropDelim_of_isDigit (ht.2 c hc)
  | cons o offsets ih =>
    intro t ht
    rw [List.flatMap_cons, List.cons_append]
    unfold cropTokens
    rw [tokens_word_delimiter ht.1 (fun c hc => cropDelim_of_isDigit (ht.2 c hc)) (by decide)]
    have htail := ih (fun t h => hoffs t (List.mem_cons_of_mem _ h)) (hoffs o List.mem_cons_self)
    unfold cropTokens at htail
    rw [htail]

theorem cropTokens_text {w h : Bytes} {offsets : List Bytes} (hnum : CropNumbers w h offsets) :
    cropTokens (cropText w h offsets) = w :: h :: offsets := by
  have hw := hnum.digits w List.mem_cons_self
  have htail := cropTokens_offsets (t := h)
    (fun t ht => hnum.digits t (List.mem_cons_of_mem _ (List.mem_cons_of_mem _ ht)))
    (hnum.digits h (List.mem_cons_of_mem _ List.mem_cons_self))
  unfold cropTokens at htail
  unfold cropTokens cropText
  rw [tokens_word_delimiter hw.1 (fun c hc => cropDelim_of_isDigit (hw.2 c hc)) (by decide), htail]

theorem cropValue_digits {t : Bytes} (ht : Digits t) (hfits : digitsValue t ≤ 2147483647) :
    (cropValue t).toNat = digitsValue t := by
  have hval : atol t = digitsValue t := by
    unfold atol
    rw [strtol_digits ht]
    dsimp only
    unfold saturate
    omega
  unfold cropValue UInt32.ofInt
  rw [hval, UInt32.toNat_ofNat']
  omega

/-- What the function does with any text: it never reads behind the end, it accepts two to four
tokens and gives their numbers, and it gives the numbers of a text in one of the documented
formats. -/
theorem getCropWidthHeight_accepts {s : Bytes} (hs : IsCStr s) :
    (∃ f, getCropWidthHeight s = some (decide (CropCount (cropTokens s)), f) ∧
      (CropCount (cropTokens s) → f = cropFormatOf (cropTokens s))) ∧
    ∀ w h offsets, s = cropText w h offsets → CropNumbers w h offsets →
      ∃ f, getCropWidthHeight s = some (true, f) ∧ f.cw.toNat = digitsValue w ∧
        f.ch.toNat = digitsValue h ∧ f.xOffset.toNat = (offsets[0]?.map digitsValue).getD 0 ∧
        f.yOffset.toNat = (offsets[1]?.map digitsValue).getD 0 := by
  rw [getCropWidthHeight_tokens hs]
  constructor
  · by_cases hcount : CropCount (cropTokens s)
    · rw [if_pos hcount, decide_eq_true hcount]
      exact ⟨_, rfl, fun _ => rfl⟩
    · rw [if_neg hcount, decide_eq_false hcount]
      exact ⟨_, rfl, fun h => absurd h hcount⟩
  · rintro w h offsets rfl hnum
    have hcount : CropCount (w :: h :: offsets) := by
      refine ⟨by simp, ?_⟩
      have := hnum.count
      rw [List.length_cons, List.length_cons]
      omega
    rw [cropTokens_text hnum, if_pos hcount]
    have hval : ∀ t ∈ w :: h :: offsets, (cropValue t).toNat = digitsValue t := fun t ht =>
      cropValue_digits (hnum.digits t ht) (hnum.fits t ht)
    refine ⟨_, rfl, hval w List.mem_cons_self, hval h (by simp), ?_, ?_⟩
    · cases hget : offsets[0]? with
      | none => simp [cropFormatOf, hget]
      | some t => simpa [cropFormatOf, hget] using hval t (by simp [List.mem_of_getElem? hget])
    · cases hget : offsets[1]? with
      | none => simp [cropFormatOf, hget]
      | some t => simpa [cropFormatOf, hget] using hval t (by simp [List.mem_of_getElem? hget])

theorem getCropWidthHeight_accepts_part :
    ∃ f, getCropWidthHeight (cropText [51] [49] [[53]]) = some (true, f) ∧ f.cw.toNat = 3 ∧
      f.ch.toNat = 1 ∧ f.xOffset.toNat = 5 ∧ f.yOffset.toNat = 0 :=
  (getCropWidthHeight_accepts (s := cropText [51] [49] [[53]]) (by decide)).2 _ _ _ rfl
    ⟨by unfold Digits; decide, by decide, by decide⟩

/-- A text without the `x` is accepted as well. -/
theorem getCropWidthHeight_without_x :
    getCropWidthHeight (ascii "1+2") = some (true, ⟨1, 2, 0, 0⟩) ∧
      ∀ w h offsets, ascii "1+2" ≠ cropText w h offsets := by
  refine ⟨by decide +kernel, fun w h offsets he => ?_⟩
  have hx : (120 : UInt8) ∈ cropText w h offsets := by simp [cropText]
  rw [← he] at hx
  revert hx
  decide

end Lighttpd
