import LSystem.Number.Conversion
import Mathlib

/-!
# Rounding what needs no rounding

A finite float is a mantissa and an exponent, and a format fixes which of the many pairs with one
value it uses. Whatever pair is given to a rounding function, if the value has a pair of the format
then this pair is the result: bits are only shifted, and none that is set gets lost. No more than
this is needed to see that numbers survive a change of the format or a text.
-/

namespace LSystem.Number

open Float.Model (Format UnpackedFloat totalExponent)
open Float.Model.UnpackedFloat

/-- Whether a mantissa and an exponent are the pair that a format uses for their value. -/
def Canonical (format : Format) (mantissa : Nat) (exponent : Int) : Prop :=
  format.targetExponent (totalExponent mantissa exponent) = exponent

variable {format : Format} {sign : Sign} {mantissa : Nat} {exponent : Int}

theorem log2_mul_two_pow (hpos : 0 < mantissa) (count : Nat) :
    (mantissa * 2 ^ count).log2 = mantissa.log2 + count := by
  induction count with
  | zero => simp
  | succ count ih =>
    have hne : mantissa * 2 ^ count ≠ 0 := Nat.ne_of_gt (Nat.mul_pos hpos (Nat.two_pow_pos count))
    rw [Nat.pow_succ', ← Nat.mul_assoc, Nat.mul_comm mantissa, Nat.mul_assoc,
      Nat.log2_two_mul hne, ih, Nat.add_assoc]

/-- The logarithm of a product is the sum of the logarithms or one more. -/
theorem le_log2_mul {left right : Nat} (hleft : 0 < left) (hright : 0 < right) :
    left.log2 + right.log2 ≤ (left * right).log2 := by
  rw [Nat.le_log2 (Nat.ne_of_gt (Nat.mul_pos hleft hright)), Nat.pow_add]
  exact Nat.mul_le_mul (Nat.log2_self_le (Nat.ne_of_gt hleft))
    (Nat.log2_self_le (Nat.ne_of_gt hright))

theorem log2_mul_le (left right : Nat) : (left * right).log2 ≤ left.log2 + right.log2 + 1 := by
  by_cases hzero : left * right = 0
  · simp [hzero]
  · have hlt : left * right < 2 ^ (left.log2 + 1) * 2 ^ (right.log2 + 1) :=
      Nat.mul_lt_mul'' Nat.lt_log2_self Nat.lt_log2_self
    rw [← Nat.pow_add] at hlt
    have hlog := (Nat.log2_lt hzero).2 hlt
    omega

/-- Shifting a mantissa to the left and lowering the exponent keeps the leading digit in place. -/
theorem totalExponent_shift (hpos : 0 < mantissa) (exponent : Int) (count : Nat) :
    totalExponent (mantissa * 2 ^ count) (exponent - count) = totalExponent mantissa exponent := by
  rw [totalExponent, totalExponent, log2_mul_two_pow hpos]
  omega

/-- With enough bits, a pair of the format is reached by shifting to the left. -/
theorem canonical_shift (hpos : 0 < mantissa) {count : Nat}
    (htarget : format.targetExponent (totalExponent mantissa exponent) = exponent - count) :
    Canonical format (mantissa * 2 ^ count) (exponent - count) := by
  rw [Canonical, totalExponent_shift hpos, htarget]

/-- Shifting zeros out leaves no trace. -/
theorem shiftRight_exact (mantissa count : Nat) :
    ExtendedMantissa.ofMantissaAndAccuracy (mantissa * 2 ^ count) .exact >>> count =
      ⟨mantissa, false, false⟩ := by
  change count.repeat ExtendedMantissa.shiftRightOne ⟨mantissa * 2 ^ count, false, false⟩ = _
  induction count generalizing mantissa with
  | zero => simp [Nat.repeat]
  | succ count ih =>
    rw [Nat.repeat, Nat.pow_succ', ← Nat.mul_assoc, ih]
    simp [ExtendedMantissa.shiftRightOne]

theorem shiftToTargetExponent_exact (hpos : 0 < mantissa)
    (hcanonical : Canonical format mantissa exponent) (count : Nat) :
    shiftToTargetExponent format (mantissa * 2 ^ count) (exponent - count) .exact =
      (⟨mantissa, false, false⟩, exponent) := by
  have hamount : (exponent - (exponent - count)).toNat = count := by omega
  rw [shiftToTargetExponent, totalExponent_shift hpos, hcanonical, shiftToExponent, hamount,
    shiftRight_exact]
  simp

theorem roundWithAccuracy_exact (hpos : 0 < mantissa)
    (hcanonical : Canonical format mantissa exponent) (count : Nat) :
    roundWithAccuracy format sign (mantissa * 2 ^ count) (exponent - count) .exact =
      .finite sign mantissa exponent hpos := by
  have hfirst := shiftToTargetExponent_exact hpos hcanonical count
  have hagain := shiftToTargetExponent_exact hpos hcanonical 0
  simp only [Nat.pow_zero, Nat.mul_one, Int.natCast_zero, Int.sub_zero] at hagain
  have hround : (⟨mantissa, false, false⟩ : ExtendedMantissa).roundedMantissa = mantissa := rfl
  simp only [roundWithAccuracy, hfirst, hround, hagain, Nat.ne_of_gt hpos, dite_false]

/-- Rounding gives the pair of the format when more bits are given than it has. -/
theorem round_exact (hpos : 0 < mantissa) (hcanonical : Canonical format mantissa exponent)
    (count : Nat) :
    UnpackedFloat.round format sign (mantissa * 2 ^ count) (exponent - count) =
      .finite sign mantissa exponent hpos := by
  have hamount : (exponent - count - exponent).toNat = 0 := by omega
  rw [UnpackedFloat.round, totalExponent_shift hpos, hcanonical, decreaseExponent, hamount]
  simpa using roundWithAccuracy_exact hpos hcanonical count

/-- Rounding gives the pair of the format when fewer bits are given than it has. -/
theorem round_extend (hpos : 0 < mantissa) {count : Nat}
    (htarget : format.targetExponent (totalExponent mantissa exponent) = exponent - count) :
    UnpackedFloat.round format sign mantissa exponent =
      .finite sign (mantissa * 2 ^ count) (exponent - count)
        (Nat.mul_pos hpos (Nat.two_pow_pos count)) := by
  have hamount : (exponent - (exponent - count)).toNat = count := by omega
  rw [UnpackedFloat.round, htarget, decreaseExponent, hamount, Nat.shiftLeft_eq]
  have hpos' := Nat.mul_pos hpos (Nat.two_pow_pos count)
  simpa using @roundWithAccuracy_exact format sign _ _ hpos' (canonical_shift hpos htarget) 0

end LSystem.Number
