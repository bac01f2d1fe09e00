import Mathlib.Algebra.Group.Nat.Defs
import Mathlib.Data.Nat.Bitwise

/-!
# The bytes of a word

Bytes shifted out of a 32-bit word, and a word put together from four bytes,
as numbers.
-/

namespace Library.WordBytes

set_option autoImplicit false

theorem low_byte (value : UInt32) : (value &&& 0xFF).toUInt8.toNat = value.toNat % 256 := by
  have masked : value.toNat &&& 255 = value.toNat % 256 :=
    Nat.and_two_pow_sub_one_eq_mod value.toNat 8
  rw [UInt32.toNat_toUInt8, UInt32.toNat_and]
  change (value.toNat &&& 255) % 2 ^ 8 = _
  rw [masked]
  omega

theorem shifted_byte (value shift : UInt32) (small : shift.toNat < 32) :
    ((value >>> shift) &&& 0xFF).toUInt8.toNat = value.toNat / 2 ^ shift.toNat % 256 := by
  rw [low_byte, UInt32.toNat_shiftRight, Nat.shiftRight_eq_div_pow, Nat.mod_eq_of_lt small]

theorem single_bit (value place : UInt32) (small : place.toNat < 32) :
    value &&& (1 <<< place) ≠ 0 ↔ value.toNat.testBit place.toNat = true := by
  have power : 2 ^ place.toNat < 2 ^ 32 := Nat.pow_lt_pow_right (by decide) small
  have bit : (1 <<< place : UInt32).toNat = 2 ^ place.toNat := by
    rw [UInt32.toNat_shiftLeft, UInt32.toNat_one, Nat.mod_eq_of_lt small, Nat.shiftLeft_eq,
      Nat.one_mul, Nat.mod_eq_of_lt power]
  rw [ne_eq, ← UInt32.toNat_inj, UInt32.toNat_and, bit, Nat.and_two_pow]
  cases value.toNat.testBit place.toNat with
  | false => simp
  | true => simp

theorem pack_bytes {first second third fourth : Nat} (secondByte : second < 2 ^ 8)
    (thirdByte : third < 2 ^ 8) (fourthByte : fourth < 2 ^ 8) :
    (first <<< 24) ||| (second <<< 16) ||| (third <<< 8) ||| fourth =
      first * 2 ^ 24 + (second * 2 ^ 16 + (third * 2 ^ 8 + fourth)) := by
  have low : third <<< 8 ||| fourth = third * 2 ^ 8 + fourth := by
    rw [← Nat.shiftLeft_add_eq_or_of_lt fourthByte, Nat.shiftLeft_eq]
  have middle : second <<< 16 ||| (third * 2 ^ 8 + fourth) =
      second * 2 ^ 16 + (third * 2 ^ 8 + fourth) := by
    rw [← Nat.shiftLeft_add_eq_or_of_lt (by omega), Nat.shiftLeft_eq]
  rw [Nat.or_assoc, Nat.or_assoc, low, middle, ← Nat.shiftLeft_add_eq_or_of_lt (by omega),
    Nat.shiftLeft_eq]

theorem shifted_word_value (byte : UInt8) (shift : UInt32) (fits : shift.toNat ≤ 24) :
    (byte.toUInt32 <<< shift).toNat = byte.toNat <<< shift.toNat := by
  have bound := byte.toNat_lt
  have power : 2 ^ shift.toNat ≤ 2 ^ 24 := Nat.pow_le_pow_right (by decide) fits
  have product : byte.toNat * 2 ^ shift.toNat < 2 ^ 8 * 2 ^ 24 :=
    Nat.mul_lt_mul_of_lt_of_le bound power (by decide)
  rw [UInt32.toNat_shiftLeft, UInt8.toNat_toUInt32, Nat.mod_eq_of_lt (by omega : shift.toNat < 32),
    Nat.shiftLeft_eq]
  exact Nat.mod_eq_of_lt product

theorem packed_word_value (first second third fourth : UInt8) :
    ((first.toUInt32 <<< 24) ||| (second.toUInt32 <<< 16) ||| (third.toUInt32 <<< 8) |||
        fourth.toUInt32).toNat =
      first.toNat * 2 ^ 24 + (second.toNat * 2 ^ 16 + (third.toNat * 2 ^ 8 + fourth.toNat)) := by
  rw [UInt32.toNat_or, UInt32.toNat_or, UInt32.toNat_or, shifted_word_value _ _ (by decide),
    shifted_word_value _ _ (by decide), shifted_word_value _ _ (by decide), UInt8.toNat_toUInt32]
  exact pack_bytes second.toNat_lt third.toNat_lt fourth.toNat_lt

theorem high_bits {width low : Nat} (within : low ≤ width) (bit : Nat) :
    (2 ^ width - 2 ^ low).testBit bit = (decide (low ≤ bit) && decide (bit < width)) := by
  have shifted : 2 ^ width - 2 ^ low = (2 ^ (width - low) - 1) <<< low := by
    rw [Nat.shiftLeft_eq, Nat.sub_mul, ← Nat.pow_add, Nat.sub_add_cancel within, Nat.one_mul]
  rw [shifted, Nat.testBit_shiftLeft, Nat.testBit_two_pow_sub_one]
  by_cases above : low ≤ bit
  · have same : (bit - low < width - low) = (bit < width) := by
      apply propext
      omega
    simp only [above, same]
  · simp [above]

theorem and_high_bits {value width low : Nat} (small : value < 2 ^ width) (within : low ≤ width) :
    value &&& (2 ^ width - 2 ^ low) = value / 2 ^ low * 2 ^ low := by
  have shifted : value / 2 ^ low * 2 ^ low = (value >>> low) <<< low := by
    rw [Nat.shiftRight_eq_div_pow, Nat.shiftLeft_eq]
  rw [shifted]
  apply Nat.eq_of_testBit_eq
  intro bit
  rw [Nat.testBit_and, high_bits within, Nat.testBit_shiftLeft, Nat.testBit_shiftRight]
  by_cases above : low ≤ bit
  · rw [Nat.add_sub_cancel' above]
    by_cases below : bit < width
    · simp [above, below]
    · have zero : value.testBit bit = false := by
        apply Nat.testBit_lt_two_pow
        exact Nat.lt_of_lt_of_le small (Nat.pow_le_pow_right (by decide) (Nat.le_of_not_lt below))
      simp [zero]
  · simp [above]

end Library.WordBytes
