import Lighttpd.Lib.Numeral
import Lighttpd.Lib.Tokens
import Mathlib.Algebra.Order.Floor.Div

/-!
# `autothumb/thumbnail.c`: the part that is cut out of a picture

A format like `C200x100+30+10` names the size of a part and where it lies. The picture is made as
small as the part allows, and the part is moved along the other side. `size_t` and `unsigned long`
have 32 bits.
-/

namespace Lighttpd

open CLib

/-! ## The format -/

def CROP_ITEM_COUNT : Nat := 5

/-- What the pointers of `get_Crop_width_height` point to. -/
structure CropFormat where
  cw : UInt32
  ch : UInt32
  xOffset : UInt32
  yOffset : UInt32
  deriving DecidableEq

def cropDelim : Bytes := ascii "x+ "

/-- `(size_t)atol(token)`, for a token in the memory of the copy. -/
def cropNumber (str : Bytes) (token : Nat) : Option UInt32 :=
  (strAt str token).map fun s => UInt32.ofInt (atol s)

/-- `get_Crop_width_height`, for a pointer to a string. -/
def getCropWidthHeight (innerFormat : Bytes) : Option (Bool × CropFormat) := do
  let (tokens, str) ← strtokLoop cropDelim CROP_ITEM_COUNT (innerFormat ++ [0]) 0
  match tokens with
  | [t0, t1] => do
    some (true, ⟨← cropNumber str t0, ← cropNumber str t1, 0, 0⟩)
  | [t0, t1, t2] => do
    some (true, ⟨← cropNumber str t0, ← cropNumber str t1, ← cropNumber str t2, 0⟩)
  | [t0, t1, t2, t3] => do
    some (true, ⟨← cropNumber str t0, ← cropNumber str t1, ← cropNumber str t2,
      ← cropNumber str t3⟩)
  | _ => some (false, ⟨0, 0, 0, 0⟩)

/-! ## The size and the place -/

def getPixelsByRate (a b c : UInt32) : UInt32 :=
  if c = 0 then 0 else if a * b % c ≠ 0 then a * b / c + 1 else a * b / c

/-- `IMAGE_FOR_MIN` -/
def imageForMin (x y : UInt32) : UInt32 := if x < y then x else y

structure CropBox where
  width : UInt32
  height : UInt32
  xOffset : UInt32
  yOffset : UInt32
  deriving DecidableEq

/-- The place along the side that is longer than the part, `size` for `crop`. A division by zero has
no value. -/
def cropOffset (size crop x y : UInt32) : Option UInt32 :=
  if x = 0 ∧ y = 0 then some 0
  else if x = 0 then
    let offset := size * (100 - y) / 100
    some (offset - imageForMin offset crop)
  else if y = 0 then some (imageForMin (size * x / 100) (size - crop))
  else if x + y = 0 then none
  else some ((size - crop) * x / (x + y))

def getCropOffsetAndWh (cw ch : UInt32) (b : CropBox) : Option CropBox :=
  if cw * b.height ≥ ch * b.width then do
    let height := getPixelsByRate cw b.height b.width
    some ⟨cw, height, 0, ← cropOffset height ch b.xOffset b.yOffset⟩
  else do
    let width := getPixelsByRate ch b.width b.height
    some ⟨width, ch, ← cropOffset width cw b.xOffset b.yOffset, 0⟩

section Size

variable {a b c cw ch : UInt32}

theorem toNat_mul_of_lt (h : a.toNat * b.toNat < 2 ^ 32) : (a * b).toNat = a.toNat * b.toNat := by
  rw [UInt32.toNat_mul, Nat.mod_eq_of_lt h]

theorem ne_zero_of_toNat_pos (h : 0 < c.toNat) : c ≠ 0 := by
  rintro rfl
  cases h

theorem ceilDiv_split (m : Nat) {d : Nat} (hd : 0 < d) :
    m ⌈/⌉ d = m / d + (m % d + d - 1) / d := by
  have hsum : m + d - 1 = m % d + d - 1 + d * (m / d) := by
    have := Nat.div_add_mod m d
    omega
  rw [Nat.ceilDiv_eq_add_pred_div, hsum, Nat.add_mul_div_left _ _ hd, Nat.add_comm]

theorem getPixelsByRate_ceil (hc : 0 < c.toNat) (hab : a.toNat * b.toNat < 2 ^ 32) :
    (getPixelsByRate a b c).toNat = (a.toNat * b.toNat) ⌈/⌉ c.toNat := by
  have hmul := toNat_mul_of_lt hab
  have hmod : a * b % c = 0 ↔ a.toNat * b.toNat % c.toNat = 0 := by
    rw [← UInt32.toNat_inj, UInt32.toNat_mod, hmul]
    rfl
  rw [ceilDiv_split _ hc]
  unfold getPixelsByRate
  rw [if_neg (ne_zero_of_toNat_pos hc)]
  generalize hm : a.toNat * b.toNat = m at *
  have hlt := Nat.mod_lt m hc
  by_cases hzero : a * b % c = 0
  · have hnone : (m % c.toNat + c.toNat - 1) / c.toNat = 0 := by
      rw [hmod.mp hzero, Nat.zero_add]
      exact Nat.div_eq_of_lt (by omega)
    rw [if_neg (not_not.mpr hzero), UInt32.toNat_div, hmul, hnone, Nat.add_zero]
  · -- a rest, so the divisor is at least two and the quotient small
    rw [if_pos hzero, UInt32.toNat_add, UInt32.toNat_div, hmul]
    rw [hmod] at hzero
    have hsmall : m / c.toNat ≤ m / 2 := Nat.div_le_div_left (by omega) (by decide)
    have hone : (m % c.toNat + c.toNat - 1) / c.toNat = 1 :=
      Nat.div_eq_of_lt_le (by omega) (by omega)
    rw [hone, show (1 : UInt32).toNat = 1 from rfl, Nat.mod_eq_of_lt (by omega)]

theorem isLeast_ceilDiv (m : Nat) {d : Nat} (hd : 0 < d) : IsLeast {n | m ≤ n * d} (m ⌈/⌉ d) := by
  have hiff : ∀ n, m ⌈/⌉ d ≤ n ↔ m ≤ n * d := fun n => by
    rw [Nat.mul_comm n]
    exact ceilDiv_le_iff_le_mul hd
  exact ⟨(hiff _).mp (Nat.le_refl _), fun n hn => (hiff n).mpr hn⟩

theorem le_ceilDiv_of_le {m d k : Nat} (hd : 0 < d) (h : k * d ≤ m) : k ≤ m ⌈/⌉ d :=
  Nat.le_of_mul_le_mul_right (Nat.le_trans h (isLeast_ceilDiv m hd).1) hd

end Size

section Crop

variable {cw ch : UInt32} {b b' : CropBox}

/-- Sizes of at least one, and products of two sizes that fit into 32 bits. -/
structure CropSizes (cw ch : UInt32) (b : CropBox) : Prop where
  width : 1 ≤ b.width.toNat
  height : 1 ≤ b.height.toNat
  cropWidth : 1 ≤ cw.toNat
  cropHeight : 1 ≤ ch.toNat
  widthFits : cw.toNat * b.height.toNat < 2 ^ 32
  heightFits : ch.toNat * b.width.toNat < 2 ^ 32

/-- The picture covers the part: one side is as long as the part's, and the other one is the least
number that is not below the size in proportion. -/
structure CoversTightly (cw ch : UInt32) (b b' : CropBox) : Prop where
  width : cw.toNat ≤ b'.width.toNat
  height : ch.toNat ≤ b'.height.toNat
  tight :
    (b'.width = cw ∧
      IsLeast {n | b.height.toNat * cw.toNat ≤ n * b.width.toNat} b'.height.toNat) ∨
    (b'.height = ch ∧
      IsLeast {n | b.width.toNat * ch.toNat ≤ n * b.height.toNat} b'.width.toNat)

/-- The side along which the part can be moved is the picture's height. -/
def Upright (cw ch : UInt32) (b : CropBox) : Prop :=
  ch.toNat * b.width.toNat ≤ cw.toNat * b.height.toNat

instance (cw ch : UInt32) (b : CropBox) : Decidable (Upright cw ch b) :=
  inferInstanceAs (Decidable (_ ≤ _))

theorem CropSizes.upright (h : CropSizes cw ch b) :
    cw * b.height ≥ ch * b.width ↔ Upright cw ch b := by
  rw [ge_iff_le, UInt32.le_iff_toNat_le, toNat_mul_of_lt h.widthFits, toNat_mul_of_lt h.heightFits]
  rfl

theorem getCropOffsetAndWh_upright (h : CropSizes cw ch b) (hup : Upright cw ch b) :
    getCropOffsetAndWh cw ch b = (cropOffset (getPixelsByRate cw b.height b.width) ch b.xOffset
      b.yOffset).map fun offset => ⟨cw, getPixelsByRate cw b.height b.width, 0, offset⟩ := by
  unfold getCropOffsetAndWh
  rw [if_pos (h.upright.mpr hup)]
  dsimp only
  cases cropOffset (getPixelsByRate cw b.height b.width) ch b.xOffset b.yOffset <;> rfl

theorem getCropOffsetAndWh_lying (h : CropSizes cw ch b) (hup : ¬ Upright cw ch b) :
    getCropOffsetAndWh cw ch b = (cropOffset (getPixelsByRate ch b.width b.height) cw b.xOffset
      b.yOffset).map fun offset => ⟨getPixelsByRate ch b.width b.height, ch, offset, 0⟩ := by
  unfold getCropOffsetAndWh
  rw [if_neg (mt h.upright.mp hup)]
  dsimp only
  cases cropOffset (getPixelsByRate ch b.width b.height) cw b.xOffset b.yOffset <;> rfl

/-- The resize size covers the part tightly. -/
theorem getCropOffsetAndWh_covers (h : CropSizes cw ch b)
    (hrun : getCropOffsetAndWh cw ch b = some b') : CoversTightly cw ch b b' := by
  by_cases hup : Upright cw ch b
  · have hheight := getPixelsByRate_ceil h.width h.widthFits
    rw [getCropOffsetAndWh_upright h hup] at hrun
    obtain ⟨offset, -, rfl⟩ := Option.map_eq_some_iff.mp hrun
    refine ⟨Nat.le_refl _, ?_, Or.inl ⟨rfl, ?_⟩⟩
    · rw [hheight]
      exact le_ceilDiv_of_le h.width hup
    · rw [hheight, Nat.mul_comm cw.toNat]
      exact isLeast_ceilDiv _ h.width
  · have hwidth := getPixelsByRate_ceil h.height h.heightFits
    rw [getCropOffsetAndWh_lying h hup] at hrun
    obtain ⟨offset, -, rfl⟩ := Option.map_eq_some_iff.mp hrun
    refine ⟨?_, Nat.le_refl _, Or.inr ⟨rfl, ?_⟩⟩
    · rw [hwidth]
      exact le_ceilDiv_of_le h.height (Nat.le_of_lt (Nat.lt_of_not_le hup))
    · rw [hwidth, Nat.mul_comm ch.toNat]
      exact isLeast_ceilDiv _ h.height

/-- A picture of 400 by 300 points for a part of 200 by 100. -/
theorem getCropOffsetAndWh_covers_photo :
    CoversTightly 200 100 ⟨400, 300, 30, 10⟩ ⟨200, 150, 0, 37⟩ :=
  getCropOffsetAndWh_covers
    ⟨by decide +kernel, by decide +kernel, by decide +kernel, by decide +kernel, by decide +kernel,
      by decide +kernel⟩ (by decide +kernel)

end Crop

section Place

variable {size crop x y : UInt32}

/-- When the place computed for `crop` points lies inside `size` points, with all numbers below
`2 ^ 32`. The first case is an offset that is `y` percent from the end, where `100 - y` must not
wrap around to a larger offset, and the second one a place at `x : y`, where `x + y` must not wrap around
to zero or to a divisor that is too small. -/
def OffsetFits (size crop x y : Nat) : Prop :=
  if x = 0 then y ≤ 100 ∨ size * (2 ^ 32 + 100 - y) % 2 ^ 32 < 100 * (size + 1)
  else y = 0 ∨ x + y < 2 ^ 32 ∨ 2 ^ 32 < x + y ∧
    (size - crop) * x % 2 ^ 32 < (size - crop + 1) * (x + y - 2 ^ 32)

def OffsetInside (size crop x y : UInt32) : Prop :=
  ∃ offset, cropOffset size crop x y = some offset ∧ offset.toNat + crop.toNat ≤ size.toNat

theorem offsetInside_some {offset : UInt32} (h : cropOffset size crop x y = some offset) :
    OffsetInside size crop x y ↔ offset.toNat + crop.toNat ≤ size.toNat := by
  refine ⟨?_, fun hle => ⟨offset, h, hle⟩⟩
  rintro ⟨offset', hsome, hle⟩
  obtain rfl := Option.some.inj (h.symm.trans hsome)
  exact hle

theorem toNat_imageForMin (x y : UInt32) : (imageForMin x y).toNat = min x.toNat y.toNat := by
  unfold imageForMin
  split
  · next h => exact (Nat.min_eq_left (Nat.le_of_lt (UInt32.lt_iff_toNat_lt.mp h))).symm
  · next h => exact (Nat.min_eq_right (Nat.le_of_not_lt (mt UInt32.lt_iff_toNat_lt.mpr h))).symm

theorem offsetInside_fromEnd (hcrop : crop.toNat ≤ size.toNat) (hy : y ≠ 0) :
    OffsetInside size crop 0 y ↔ OffsetFits size.toNat crop.toNat 0 y.toNat := by
  have hsome : cropOffset size crop 0 y = some (size * (100 - y) / 100 -
      imageForMin (size * (100 - y) / 100) crop) := by
    unfold cropOffset
    rw [if_neg fun h => hy h.2, if_pos rfl]
  have hval : (size * (100 - y) / 100 - imageForMin (size * (100 - y) / 100) crop).toNat =
      size.toNat * (100 - y).toNat % 2 ^ 32 / 100 - crop.toNat := by
    rw [UInt32.toNat_sub_of_le, toNat_imageForMin, UInt32.toNat_div, UInt32.toNat_mul]
    · show _ / 100 - min (_ / 100) _ = _
      omega
    · rw [UInt32.le_iff_toNat_le, toNat_imageForMin]
      exact Nat.min_le_left ..
  have hfrom : (100 - y).toNat = (2 ^ 32 + 100 - y.toNat) % 2 ^ 32 := by
    have := y.toNat_lt
    rw [UInt32.toNat_sub]
    show (2 ^ 32 - y.toNat + 100) % 2 ^ 32 = _
    congr 1
    omega
  rw [offsetInside_some hsome, hval]
  unfold OffsetFits
  rw [if_pos rfl, hfrom, Nat.mul_mod_mod]
  have hsmall : y.toNat ≤ 100 →
      size.toNat * (2 ^ 32 + 100 - y.toNat) % 2 ^ 32 ≤ 100 * size.toNat := fun hle => by
    rw [Nat.add_sub_assoc hle, Nat.mul_add, Nat.mul_add_mod_self_right, Nat.mul_comm 100]
    exact Nat.le_trans (Nat.mod_le ..) (Nat.mul_le_mul_left _ (by omega))
  generalize size.toNat * (2 ^ 32 + 100 - y.toNat) % 2 ^ 32 = m at *
  omega

theorem offsetInside_fromStart (hcrop : crop.toNat ≤ size.toNat) (hx : x ≠ 0) :
    OffsetInside size crop x 0 := by
  refine ⟨imageForMin (size * x / 100) (size - crop), ?_, ?_⟩
  · unfold cropOffset
    rw [if_neg fun h => hx h.1, if_neg hx, if_pos rfl]
  · rw [toNat_imageForMin, UInt32.toNat_sub_of_le _ _ (UInt32.le_iff_toNat_le.mpr hcrop)]
    omega

theorem offsetInside_ratio (hcrop : crop.toNat ≤ size.toNat) (hx : x ≠ 0) (hy : y ≠ 0) :
    OffsetInside size crop x y ↔ OffsetFits size.toNat crop.toNat x.toNat y.toNat := by
  have hx0 : x.toNat ≠ 0 := fun h => hx (UInt32.toNat_inj.mp h)
  have hy0 : y.toNat ≠ 0 := fun h => hy (UInt32.toNat_inj.mp h)
  have hxlt := x.toNat_lt
  have hylt := y.toNat_lt
  have hsum : (x + y).toNat = (x.toNat + y.toNat) % 2 ^ 32 := UInt32.toNat_add x y
  unfold OffsetFits
  rw [if_neg hx0]
  by_cases hzero : x + y = 0
  · have hnone : cropOffset size crop x y = none := by
      unfold cropOffset
      rw [if_neg fun h => hx h.1, if_neg hx, if_neg hy, if_pos hzero]
    have hwrap : x.toNat + y.toNat = 2 ^ 32 := by
      rw [hzero] at hsum
      have : (0 : UInt32).toNat = 0 := rfl
      omega
    constructor
    · rintro ⟨offset, hsome, -⟩
      rw [hnone] at hsome
      cases hsome
    · omega
  · have hsome : cropOffset size crop x y = some ((size - crop) * x / (x + y)) := by
      unfold cropOffset
      rw [if_neg fun h => hx h.1, if_neg hx, if_neg hy, if_neg hzero]
    have hpos : 0 < (x + y).toNat := Nat.pos_of_ne_zero fun h => hzero (UInt32.toNat_inj.mp h)
    rw [offsetInside_some hsome, UInt32.toNat_div, UInt32.toNat_mul,
      UInt32.toNat_sub_of_le _ _ (UInt32.le_iff_toNat_le.mpr hcrop)]
    have hle : ∀ d, (size.toNat - crop.toNat) * x.toNat % 2 ^ 32 / d + crop.toNat ≤ size.toNat ↔
        (size.toNat - crop.toNat) * x.toNat % 2 ^ 32 / d < size.toNat - crop.toNat + 1 := by omega
    rw [hle, Nat.div_lt_iff_lt_mul hpos]
    by_cases hlt : x.toNat + y.toNat < 2 ^ 32
    · -- nothing wraps around in the divisor, and the quotient is at most the free length
      rw [hsum, Nat.mod_eq_of_lt hlt]
      refine iff_of_true ?_ (Or.inr (Or.inl hlt))
      calc (size.toNat - crop.toNat) * x.toNat % 2 ^ 32
          ≤ (size.toNat - crop.toNat) * x.toNat := Nat.mod_le ..
        _ ≤ (size.toNat - crop.toNat) * (x.toNat + y.toNat) := Nat.mul_le_mul_left _ (by omega)
        _ < (size.toNat - crop.toNat + 1) * (x.toNat + y.toNat) :=
          Nat.mul_lt_mul_of_pos_right (by omega) (by omega)
    · have hwrap : (x + y).toNat = x.toNat + y.toNat - 2 ^ 32 := by omega
      rw [hwrap] at hpos ⊢
      constructor
      · exact fun h => Or.inr (Or.inr ⟨by omega, h⟩)
      · rintro (h | h | ⟨-, h⟩)
        · exact absurd h hy0
        · exact absurd h hlt
        · exact h

theorem offsetInside_iff (hcrop : crop.toNat ≤ size.toNat) :
    OffsetInside size crop x y ↔ OffsetFits size.toNat crop.toNat x.toNat y.toNat := by
  by_cases hx : x = 0
  · subst hx
    by_cases hy : y = 0
    · subst hy
      exact iff_of_true ⟨0, rfl, by rwa [show (0 : UInt32).toNat = 0 from rfl, Nat.zero_add]⟩
        (Or.inl (Nat.zero_le _))
    · exact offsetInside_fromEnd hcrop hy
  · by_cases hy : y = 0
    · subst hy
      refine iff_of_true (offsetInside_fromStart hcrop hx) ?_
      have hx0 : x.toNat ≠ 0 := fun h => hx (UInt32.toNat_inj.mp h)
      unfold OffsetFits
      rw [if_neg hx0]
      exact Or.inl rfl
    · exact offsetInside_ratio hcrop hx hy

/-- There is no division by zero, and the part lies inside the picture. -/
def PartInside (cw ch : UInt32) (b : CropBox) : Prop :=
  ∃ b', getCropOffsetAndWh cw ch b = some b' ∧ b'.xOffset.toNat + cw.toNat ≤ b'.width.toNat ∧
    b'.yOffset.toNat + ch.toNat ≤ b'.height.toNat

/-- The condition on the side along which the part is moved. -/
def PartFits (cw ch : UInt32) (b : CropBox) : Prop :=
  if Upright cw ch b then
    OffsetFits ((cw.toNat * b.height.toNat) ⌈/⌉ b.width.toNat) ch.toNat b.xOffset.toNat
      b.yOffset.toNat
  else
    OffsetFits ((ch.toNat * b.width.toNat) ⌈/⌉ b.height.toNat) cw.toNat b.xOffset.toNat
      b.yOffset.toNat

theorem partInside_iff {cw ch : UInt32} {b : CropBox} (h : CropSizes cw ch b) :
    PartInside cw ch b ↔ PartFits cw ch b := by
  unfold PartInside PartFits
  by_cases hup : Upright cw ch b
  · have hheight := getPixelsByRate_ceil h.width h.widthFits
    have hcover : ch.toNat ≤ (getPixelsByRate cw b.height b.width).toNat := by
      rw [hheight]
      exact le_ceilDiv_of_le h.width hup
    rw [getCropOffsetAndWh_upright h hup, if_pos hup, ← hheight, ← offsetInside_iff hcover]
    constructor
    · rintro ⟨b', hrun, -, hin⟩
      obtain ⟨offset, hsome, rfl⟩ := Option.map_eq_some_iff.mp hrun
      exact ⟨offset, hsome, hin⟩
    · rintro ⟨offset, hsome, hin⟩
      exact ⟨_, by rw [hsome]; rfl, by simp, hin⟩
  · have hwidth := getPixelsByRate_ceil h.height h.heightFits
    have hcover : cw.toNat ≤ (getPixelsByRate ch b.width b.height).toNat := by
      rw [hwidth]
      exact le_ceilDiv_of_le h.height (Nat.le_of_lt (Nat.lt_of_not_le hup))
    rw [getCropOffsetAndWh_lying h hup, if_neg hup, ← hwidth, ← offsetInside_iff hcover]
    constructor
    · rintro ⟨b', hrun, hin, -⟩
      obtain ⟨offset, hsome, rfl⟩ := Option.map_eq_some_iff.mp hrun
      exact ⟨offset, hsome, hin⟩
    · rintro ⟨offset, hsome, hin⟩
      exact ⟨_, by rw [hsome]; rfl, hin, by simp⟩

theorem partInside_iff_photo :
    PartInside 200 100 ⟨400, 300, 30, 10⟩ ↔ PartFits 200 100 ⟨400, 300, 30, 10⟩ :=
  partInside_iff ⟨by decide +kernel, by decide +kernel, by decide +kernel, by decide +kernel,
    by decide +kernel, by decide +kernel⟩

/-- With 150 percent from the end the part begins far behind the picture, and at `1 : -1` the
offsets' sum is zero. -/
theorem not_partInside_wrapped :
    (getCropWidthHeight (ascii "100x100+0+150") = some (true, ⟨100, 100, 0, 150⟩) ∧
      CropSizes 100 100 ⟨400, 300, 0, 150⟩ ∧ ¬ PartInside 100 100 ⟨400, 300, 0, 150⟩) ∧
    (getCropWidthHeight (ascii "1x1+1+-1") = some (true, ⟨1, 1, 1, 4294967295⟩) ∧
      CropSizes 1 1 ⟨1, 1, 1, 4294967295⟩ ∧
      getCropOffsetAndWh 1 1 ⟨1, 1, 1, 4294967295⟩ = none) := by
  refine ⟨⟨by decide +kernel, ⟨?_, ?_, ?_, ?_, ?_, ?_⟩, ?_⟩, by decide +kernel,
    ⟨?_, ?_, ?_, ?_, ?_, ?_⟩, ?_⟩
  case refine_7 =>
    have hval : getCropOffsetAndWh 100 100 ⟨400, 300, 0, 150⟩ = some ⟨134, 100, 42949505, 0⟩ := by
      decide +kernel
    rintro ⟨b', hrun, hin, -⟩
    obtain rfl := Option.some.inj (hval.symm.trans hrun)
    revert hin
    decide +kernel
  all_goals decide +kernel

end Place

end Lighttpd
