import LSystem.Number.Decimal
import LSystem.Proofs.Number.Packing

/-!
# Exact decimals

A binary float has a decimal of its own value, and reading this decimal gives the float back
(`nearest_ofBinary`). Reading multiplies by a power of ten or divides by one. For a decimal with the
value of a float no bit is lost in the product, and the quotient has no remainder as soon as it has
all the bits of the float.
-/

namespace LSystem.Number

open Float.Model (Format UnpackedFloat totalExponent)
open Float.Model.UnpackedFloat

namespace Decimal

/-! ### Trailing zeros -/

theorem reduce_mul_ten (coefficient : Nat) (exponent : Int) :
    reduce (coefficient * 10) exponent = reduce coefficient (exponent + 1) := by
  by_cases hzero : coefficient = 0
  · subst hzero
    rw [Nat.zero_mul, reduce, reduce, dif_pos rfl, dif_pos rfl]
  · have hne : coefficient * 10 ≠ 0 := by omega
    rw [reduce, dif_neg hne, if_pos (Nat.mul_mod_left coefficient 10),
      Nat.mul_div_cancel coefficient (by decide)]

theorem reduce_mul_pow (coefficient count : Nat) (exponent : Int) :
    reduce (coefficient * 10 ^ count) exponent = reduce coefficient (exponent + count) := by
  induction count generalizing exponent with
  | zero => simp
  | succ count ih =>
    rw [Nat.pow_succ, ← Nat.mul_assoc, reduce_mul_ten, ih]
    congr 1
    omega

theorem exists_reduce {coefficient : Nat} (hpos : 0 < coefficient) (exponent : Int) :
    ∃ count : Nat, coefficient = (reduce coefficient exponent).coefficient * 10 ^ count ∧
      (reduce coefficient exponent).exponent = exponent + count := by
  fun_induction reduce coefficient exponent with
  | case1 exponent => omega
  | case2 coefficient exponent hne hmod ih =>
    obtain ⟨count, hvalue, hexponent⟩ := ih (by omega)
    refine ⟨count + 1, ?_, by omega⟩
    rw [Nat.pow_succ, ← Nat.mul_assoc, ← hvalue]
    omega
  | case3 coefficient exponent hne hmod => exact ⟨0, by simp⟩

/-- Whether all trailing zeros are in the exponent. -/
def Reduced (d : Decimal) : Prop := reduce d.coefficient d.exponent = d

theorem reduced_reduce (coefficient : Nat) (exponent : Int) :
    (reduce coefficient exponent).Reduced := by
  fun_induction reduce coefficient exponent with
  | case1 exponent => rw [Reduced, reduce, dif_pos rfl]
  | case2 coefficient exponent hne hmod ih => exact ih
  | case3 coefficient exponent hne hmod =>
    rw [Reduced, reduce, dif_neg hne, if_neg hmod]

theorem reduced_ofBinary (mantissa : Nat) (exponent : Int) :
    (ofBinary mantissa exponent).Reduced := by
  rw [ofBinary]
  split
  · exact reduced_reduce _ _
  · exact reduced_reduce _ _

theorem Reduced.exponent_eq_zero {d : Decimal} (hd : d.Reduced) (hzero : d.coefficient = 0) :
    d.exponent = 0 := by
  rw [Reduced, hzero, reduce, dif_pos rfl] at hd
  rw [← hd]

/-! ### Reading exact values -/

section Exact

variable {format : Format} {mantissa : Nat} {exponent : Int} {d : Decimal}

theorem nearest_of_product (hpos : 0 < mantissa) (hcanonical : Canonical format mantissa exponent)
    {zeros count : Nat} (hzeros : d.exponent = zeros) (hsmall : zeros ≤ 2 ^ format.exponentBits)
    (hcount : exponent - count = -format.mantissaBits)
    (hvalue : d.coefficient * 2 ^ format.mantissaBits * 10 ^ zeros = mantissa * 2 ^ count) :
    d.nearest format = .finite .positive mantissa exponent hpos := by
  have hne : d.coefficient ≠ 0 := by
    intro hzero
    have hproduct := Nat.mul_pos hpos (Nat.two_pow_pos count)
    rw [← hvalue, hzero] at hproduct
    simp at hproduct
  have hnotLarge : ¬d.exponent > 2 ^ format.exponentBits := by
    rw [hzeros]
    exact_mod_cast Nat.not_lt.2 hsmall
  have hnotSmall : ¬d.exponent < -((2 ^ format.exponentBits : Int) + d.coefficient.log2) := by
    have hpow : (0 : Int) < 2 ^ format.exponentBits := Int.pow_pos (by decide)
    omega
  have hround := @roundWithAccuracy_exact format .positive mantissa exponent hpos hcanonical count
  rw [← hvalue, hcount, ← Nat.shiftLeft_eq] at hround
  rw [nearest, ofScientific, dif_neg hne, if_neg hnotLarge, if_neg hnotSmall, if_pos (by omega)]
  simp only [mul, hzeros, Int.toNat_natCast, Int.add_zero]
  exact hround

/-- The exponent at which the division starts is low enough for all bits of the float. -/
theorem exists_quotient_exponent
    (hcanonical : Canonical format mantissa exponent) {coefficient divisor count : Nat}
    (hcount : exponent = -count) (hvalue : coefficient * 2 ^ count = mantissa * divisor)
    (hcoefficient : 0 < coefficient) :
    ∃ extra : Nat,
      min (0 - 0) (format.targetExponent (totalExponent coefficient 0 - totalExponent divisor 0)) =
        exponent - extra := by
  have hlog := log2_mul_two_pow hcoefficient count
  have hbound := log2_mul_le mantissa divisor
  rw [hvalue] at hlog
  rw [Canonical, Format.targetExponent, totalExponent] at hcanonical
  rw [Format.targetExponent, totalExponent, totalExponent]
  refine ⟨(exponent - min (0 - 0) (max ((coefficient.log2 : Int) + 1 + 0 -
    (divisor.log2 + 1 + 0) - format.mantissaBits) format.minExponent)).toNat, ?_⟩
  omega

theorem nearest_of_quotient (hpos : 0 < mantissa) (hcanonical : Canonical format mantissa exponent)
    {places count : Nat} (hplaces : d.exponent = -places) (hsome : 0 < places)
    (hsmall : places ≤ 2 ^ format.exponentBits + d.coefficient.log2) (hcount : exponent = -count)
    (hvalue : d.coefficient * 2 ^ count = mantissa * 10 ^ places) :
    d.nearest format = .finite .positive mantissa exponent hpos := by
  have hne : d.coefficient ≠ 0 := by
    intro hzero
    have hproduct := Nat.mul_pos hpos (Nat.pow_pos (show 0 < 10 by decide) : 0 < 10 ^ places)
    rw [← hvalue, hzero] at hproduct
    simp at hproduct
  have hpow : (0 : Int) < 2 ^ format.exponentBits := Int.pow_pos (by decide)
  have hnotSmall : ¬d.exponent < -((2 ^ format.exponentBits : Int) + d.coefficient.log2) := by
    have hcast : (places : Int) ≤ 2 ^ format.exponentBits + d.coefficient.log2 := by
      exact_mod_cast hsmall
    omega
  obtain ⟨extra, hextra⟩ := exists_quotient_exponent hcanonical hcount hvalue
    (Nat.pos_of_ne_zero hne)
  have hshift : (0 - 0 - (exponent - extra)).toNat = count + extra := by omega
  have hdividend : d.coefficient <<< (count + extra) = mantissa * 2 ^ extra * 10 ^ places := by
    rw [Nat.shiftLeft_eq, Nat.pow_add, ← Nat.mul_assoc, hvalue, Nat.mul_right_comm]
  have hsome' : 0 < 10 ^ places := Nat.pow_pos (by decide)
  rw [nearest, ofScientific, dif_neg hne, if_neg (by omega), if_neg hnotSmall, if_neg (by omega)]
  simp only [div, divCore, hplaces, Int.neg_neg, Int.toNat_natCast, hextra, hshift, hdividend,
    Nat.mul_div_cancel _ hsome', Nat.mul_mod_left, accuracyOfFraction, if_true]
  exact roundWithAccuracy_exact hpos hcanonical extra

/-- The zeros of a whole number are fewer than its binary digits. -/
theorem zeros_le_log2 {value zeros factor : Nat} (hpos : 0 < value)
    (hvalue : value = factor * 10 ^ zeros) : zeros ≤ value.log2 := by
  have hfactor : 0 < factor := by
    apply Nat.pos_of_ne_zero
    rintro rfl
    omega
  rw [Nat.le_log2 (Nat.ne_of_gt hpos), hvalue]
  calc 2 ^ zeros ≤ 10 ^ zeros := Nat.pow_le_pow_left (by decide) zeros
    _ ≤ factor * 10 ^ zeros := Nat.le_mul_of_pos_left _ hfactor

theorem nearest_ofBinary_whole (hbits : 1 < format.exponentBits) {hpos : 0 < mantissa}
    (hx : Representable format (.finite .positive mantissa exponent hpos))
    (hwhole : 0 ≤ exponent) :
    (ofBinary mantissa exponent).nearest format = .finite .positive mantissa exponent hpos := by
  obtain ⟨hcanonical, hfits⟩ := hx
  obtain ⟨half, htwo, hdouble, hbias, hmin⟩ := exists_half_exponents hbits
  obtain ⟨n, rfl⟩ := Int.eq_ofNat_of_zero_le hwhole
  have hshape : ofBinary mantissa n = reduce (mantissa * 2 ^ n) 0 := by
    rw [ofBinary, if_neg (by omega)]
    rfl
  have hpos' : 0 < mantissa * 2 ^ n := Nat.mul_pos hpos (Nat.two_pow_pos n)
  obtain ⟨zeros, hvalue, hzeros⟩ := exists_reduce hpos' 0
  rw [← hshape] at hvalue hzeros
  have hlog := zeros_le_log2 hpos' hvalue
  have hmantissa : mantissa.log2 ≤ format.mantissaBitsWithoutImplicit := by
    rw [Canonical, Format.targetExponent, totalExponent, Format.mantissaBits] at hcanonical
    omega
  rw [log2_mul_two_pow hpos] at hlog
  rw [Int.zero_add] at hzeros
  refine nearest_of_product hpos hcanonical hzeros (by omega)
    (show (n : Int) - (n + format.mantissaBits : Nat) = -format.mantissaBits by omega) ?_
  rw [Nat.mul_right_comm, ← hvalue, Nat.pow_add, Nat.mul_assoc]

/-- Reading when a fraction is left: the float is a quotient. -/
theorem nearest_of_zeros_lt (hrange : -format.minExponent ≤ (2 ^ format.exponentBits : Nat))
    (hpos : 0 < mantissa) {count zeros : Nat} (hcanonical : Canonical format mantissa (-count))
    (hzeros : d.exponent = -count + zeros)
    (hvalue : d.coefficient * 10 ^ zeros * 2 ^ count = mantissa * 10 ^ count)
    (hmore : zeros < count) : d.nearest format = .finite .positive mantissa (-count) hpos := by
  obtain ⟨places, hplaces⟩ := Nat.exists_eq_add_of_lt hmore
  have hleast : format.minExponent ≤ -count := by
    rw [Canonical, Format.targetExponent] at hcanonical
    omega
  have hcancelled : d.coefficient * 2 ^ count = mantissa * 10 ^ (places + 1) := by
    apply Nat.eq_of_mul_eq_mul_right (Nat.pow_pos (by decide) : 0 < 10 ^ zeros)
    rw [Nat.mul_right_comm, hvalue, Nat.mul_assoc, ← Nat.pow_add]
    congr 2
    omega
  exact nearest_of_quotient hpos hcanonical (show d.exponent = -(places + 1 : Nat) by omega)
    (Nat.succ_pos places) (by omega) rfl hcancelled

/-- Reading when all powers of ten cancel: the float is whole, although its exponent is negative. -/
theorem nearest_of_le_zeros (hpos : 0 < mantissa) {count zeros : Nat}
    (hx : Representable format (.finite .positive mantissa (-count) hpos))
    (hzeros : d.exponent = -count + zeros)
    (hvalue : d.coefficient * 10 ^ zeros * 2 ^ count = mantissa * 10 ^ count)
    (hall : count ≤ zeros) : d.nearest format = .finite .positive mantissa (-count) hpos := by
  obtain ⟨hcanonical, hfits⟩ := hx
  obtain ⟨rest, hrest⟩ := Nat.exists_eq_add_of_le hall
  have hcancelled : d.coefficient * 10 ^ rest * 2 ^ count = mantissa := by
    apply Nat.eq_of_mul_eq_mul_right (Nat.pow_pos (by decide) : 0 < 10 ^ count)
    rw [← hvalue, hrest]
    ring
  have hwhole : 0 < d.coefficient * 10 ^ rest := by
    apply Nat.pos_of_ne_zero
    intro hzero
    rw [hzero, Nat.zero_mul] at hcancelled
    omega
  have hlog := log2_mul_two_pow hwhole count
  rw [hcancelled] at hlog
  have hrest' := zeros_le_log2 hwhole rfl
  have hmantissa : mantissa.log2 ≤ format.mantissaBitsWithoutImplicit := by
    rw [Canonical, Format.targetExponent, totalExponent, Format.mantissaBits] at hcanonical
    omega
  have hwidth : format.mantissaBits = count + (format.mantissaBits - count) := by
    rw [Format.mantissaBits]
    omega
  refine nearest_of_product hpos hcanonical (show d.exponent = rest by omega) (by omega)
    (show (-count : Int) - (format.mantissaBits - count : Nat) = -format.mantissaBits by omega) ?_
  calc d.coefficient * 2 ^ format.mantissaBits * 10 ^ rest
      = d.coefficient * 10 ^ rest * 2 ^ count * 2 ^ (format.mantissaBits - count) := by
        rw [Nat.mul_right_comm, Nat.mul_assoc _ (2 ^ count), ← Nat.pow_add, ← hwidth]
    _ = mantissa * 2 ^ (format.mantissaBits - count) := by rw [hcancelled]

theorem nearest_ofBinary_fraction
    (hrange : -format.minExponent ≤ (2 ^ format.exponentBits : Nat)) {hpos : 0 < mantissa}
    (hx : Representable format (.finite .positive mantissa exponent hpos))
    (hfraction : exponent < 0) :
    (ofBinary mantissa exponent).nearest format = .finite .positive mantissa exponent hpos := by
  obtain ⟨count, rfl⟩ := Int.exists_eq_neg_ofNat (Int.le_of_lt hfraction)
  have hshape : ofBinary mantissa (-count) = reduce (mantissa * 5 ^ count) (-count) := by
    rw [ofBinary, if_pos hfraction, Int.natAbs_neg, Int.natAbs_natCast]
    rfl
  have hpos' : 0 < mantissa * 5 ^ count := Nat.mul_pos hpos (Nat.pow_pos (by decide))
  obtain ⟨zeros, hvalue, hzeros⟩ := exists_reduce hpos' (-count)
  rw [← hshape] at hvalue hzeros
  have hten : (10 : Nat) ^ count = 5 ^ count * 2 ^ count := by rw [← Nat.mul_pow]
  have hexact : (ofBinary mantissa (-count)).coefficient * 10 ^ zeros * 2 ^ count =
      mantissa * 10 ^ count := by
    rw [← hvalue, hten, Nat.mul_assoc]
  rcases Nat.lt_or_ge zeros count with hmore | hall
  · exact nearest_of_zeros_lt hrange hpos hx.1 hzeros hexact hmore
  · exact nearest_of_le_zeros hpos hx hzeros hexact hall

theorem nearest_ofBinary (hbits : 1 < format.exponentBits)
    (hrange : -format.minExponent ≤ (2 ^ format.exponentBits : Nat)) {hpos : 0 < mantissa}
    (hx : Representable format (.finite .positive mantissa exponent hpos)) :
    (ofBinary mantissa exponent).nearest format = .finite .positive mantissa exponent hpos := by
  rcases Int.lt_or_le exponent 0 with hfraction | hwhole
  · exact nearest_ofBinary_fraction hrange hx hfraction
  · exact nearest_ofBinary_whole hbits hx hwhole

end Exact

end Decimal

end LSystem.Number
