import Lighttpd.Lib.CString

/-!
# Base64

The text of some bytes: every three of them are four digits of six bits each, and the last one or two
are padded. What a reader needs to put a byte together again is `joinBits`.
-/

namespace Base64

open CLib

def alphabet : Bytes := ascii "ABCDEFGHIJKLMNOPQRSTUVWXYZabcdefghijklmnopqrstuvwxyz0123456789+/"

def digit (v : Nat) : UInt8 := alphabet.getD v 0

/-- The padding, `=`. -/
def pad : UInt8 := 61

def encode : Bytes → Bytes
  | [] => []
  | [a] => [digit (a.toNat / 4), digit (a.toNat % 4 * 16), pad, pad]
  | [a, b] =>
    [digit (a.toNat / 4), digit (a.toNat % 4 * 16 + b.toNat / 16), digit (b.toNat % 16 * 4), pad]
  | a :: b :: c :: s =>
    digit (a.toNat / 4) :: digit (a.toNat % 4 * 16 + b.toNat / 16) ::
      digit (b.toNat % 16 * 4 + c.toNat / 64) :: digit (c.toNat % 64) :: encode s

theorem length_encode (s : Bytes) : (encode s).length = 4 * ((s.length + 2) / 3) := by
  induction s using encode.induct with
  | case1 => rfl
  | case2 a => simp [encode]
  | case3 a b => simp [encode]
  | case4 a b c s ih =>
    simp only [encode, List.length_cons, ih]
    omega

theorem joinBits {x k y : Nat} (hy : y < 2 ^ k) :
    UInt8.ofNat (x <<< k) ||| UInt8.ofNat y = UInt8.ofNat (x * 2 ^ k + y) := by
  rw [← UInt8.ofNat_or, ← Nat.shiftLeft_add_eq_or_of_lt hy, Nat.shiftLeft_eq]

theorem join_first (a b : UInt8) : UInt8.ofNat ((a.toNat / 4) <<< 2) |||
    UInt8.ofNat ((a.toNat % 4 * 16 + b.toNat / 16) >>> 4) = a := by
  have hb := b.toNat_lt
  have hlow : (a.toNat % 4 * 16 + b.toNat / 16) >>> 4 = a.toNat % 4 := by
    rw [Nat.shiftRight_eq_div_pow]
    omega
  have hwhole : a.toNat / 4 * 2 ^ 2 + a.toNat % 4 = a.toNat := by omega
  rw [hlow, joinBits (by omega), hwhole, UInt8.ofNat_toNat]

theorem join_second (a b c : UInt8) :
    UInt8.ofNat (((a.toNat % 4 * 16 + b.toNat / 16) &&& 15) <<< 4) |||
      UInt8.ofNat ((b.toNat % 16 * 4 + c.toNat / 64) >>> 2) = b := by
  have hb := b.toNat_lt
  have hc := c.toNat_lt
  have hhigh : (a.toNat % 4 * 16 + b.toNat / 16) &&& 15 = b.toNat / 16 := by
    rw [Nat.and_two_pow_sub_one_eq_mod _ 4]
    omega
  have hlow : (b.toNat % 16 * 4 + c.toNat / 64) >>> 2 = b.toNat % 16 := by
    rw [Nat.shiftRight_eq_div_pow]
    omega
  have hwhole : b.toNat / 16 * 2 ^ 4 + b.toNat % 16 = b.toNat := by omega
  rw [hhigh, hlow, joinBits (by omega), hwhole, UInt8.ofNat_toNat]

theorem join_third (b c : UInt8) :
    UInt8.ofNat (((b.toNat % 16 * 4 + c.toNat / 64) &&& 3) <<< 6) |||
      UInt8.ofNat (c.toNat % 64) = c := by
  have hc := c.toNat_lt
  have hhigh : (b.toNat % 16 * 4 + c.toNat / 64) &&& 3 = c.toNat / 64 := by
    rw [Nat.and_two_pow_sub_one_eq_mod _ 2]
    omega
  have hwhole : c.toNat / 64 * 2 ^ 6 + c.toNat % 64 = c.toNat := by omega
  rw [hhigh, joinBits (by omega), hwhole, UInt8.ofNat_toNat]

end Base64
