import LSystem.Proofs.Number.Packing

/-!
# Rounding and the leading digit

Rounding changes a value by less than its last place, so it hardly moves the leading digit. The
digit stays where it is or, if the digits carry, moves up by one place. Below the least place of the
format there is only zero and the smallest float.

The place of the leading digit is `totalExponent`: a mantissa and an exponent with the total
exponent `k` stand for a value from `2 ^ (k - 1)` to below `2 ^ k`. Everything here is said in terms
of it, so that bounds on floats become bounds on integers. The main statements are
`roundWithAccuracy_cases`, with `roundWithAccuracy_of_lt` for what vanishes, and `unpack_pack_cases`
for what becomes of a rounded value that is too large.
-/

namespace LSystem.Number

open Float.Model (Format UnpackedFloat totalExponent)
open Float.Model.UnpackedFloat

variable {format : Format} {mantissa : Nat} {exponent : Int}

/-! ### Shifting to the right -/

theorem log2_div_two_pow (value count : Nat) :
    (value / 2 ^ count).log2 = value.log2 - count := by
  rw [Nat.log2_eq_log_two, Nat.log2_eq_log_two, Nat.log_div_base_pow]

theorem shiftRight_succ (extended : ExtendedMantissa) (count : Nat) :
    extended >>> (count + 1) = (extended >>> count).shiftRightOne := rfl

theorem mantissa_shiftRight (extended : ExtendedMantissa) (count : Nat) :
    (extended >>> count).mantissa = extended.mantissa / 2 ^ count := by
  induction count with
  | zero => exact (Nat.div_one _).symm
  | succ count ih =>
    rw [shiftRight_succ, ExtendedMantissa.shiftRightOne, ih, Nat.div_div_eq_div_mul,
      ← Nat.pow_succ]

theorem mantissa_ofMantissaAndAccuracy (accuracy : Accuracy) :
    (ExtendedMantissa.ofMantissaAndAccuracy mantissa accuracy).mantissa = mantissa := by
  rcases accuracy with _ | (_ | _ | _) <;> rfl

theorem roundedMantissa_bounds (extended : ExtendedMantissa) :
    extended.mantissa ≤ extended.roundedMantissa ∧
      extended.roundedMantissa ≤ extended.mantissa + 1 := by
  obtain ⟨mantissa, roundBit, stickyBit⟩ := extended
  cases roundBit <;> cases stickyBit <;>
    simp only [ExtendedMantissa.roundedMantissa, ExtendedMantissa.accuracy,
      Accuracy.roundToNearestEven] <;>
    omega

/-- A value below half of the last place is rounded down to nothing. -/
theorem roundedMantissa_eq_zero {count : Nat} (hlt : mantissa < 2 ^ count) :
    (ExtendedMantissa.ofMantissaAndAccuracy mantissa .exact >>> (count + 1)).roundedMantissa
      = 0 := by
  have hnone : (ExtendedMantissa.ofMantissaAndAccuracy mantissa .exact >>> count).mantissa = 0 := by
    rw [mantissa_shiftRight, mantissa_ofMantissaAndAccuracy, Nat.div_eq_of_lt hlt]
  rw [shiftRight_succ, ExtendedMantissa.shiftRightOne, hnone]
  cases (ExtendedMantissa.ofMantissaAndAccuracy mantissa .exact >>> count).roundBit <;>
    cases (ExtendedMantissa.ofMantissaAndAccuracy mantissa .exact >>> count).stickyBit <;> rfl

/-! ### Shifting to the exponent of the format -/

theorem targetExponent_mono {low high : Int} (hle : low ≤ high) :
    format.targetExponent low ≤ format.targetExponent high := by
  rw [Format.targetExponent, Format.targetExponent]
  omega

theorem two_le_mantissaBits (format : Format) : 2 ≤ format.mantissaBits := by
  have hsome := format.hm
  rw [Format.mantissaBits]
  omega

theorem shiftToTargetExponent_fst (accuracy : Accuracy) :
    (shiftToTargetExponent format mantissa exponent accuracy).1.mantissa =
      mantissa / 2 ^ (format.targetExponent (totalExponent mantissa exponent) - exponent).toNat := by
  rw [shiftToTargetExponent, shiftToExponent, mantissa_shiftRight, mantissa_ofMantissaAndAccuracy]

theorem shiftToTargetExponent_snd (accuracy : Accuracy)
    (hlow : exponent ≤ format.targetExponent (totalExponent mantissa exponent)) :
    (shiftToTargetExponent format mantissa exponent accuracy).2 =
      format.targetExponent (totalExponent mantissa exponent) := by
  rw [shiftToTargetExponent, shiftToExponent]
  omega

/-- Above the least place of the format, shifting keeps the leading digit. -/
theorem totalExponent_shiftToTargetExponent (accuracy : Accuracy) (hpos : 0 < mantissa)
    (hplace : format.minExponent < totalExponent mantissa exponent)
    (hlow : exponent ≤ format.targetExponent (totalExponent mantissa exponent)) :
    let shifted := shiftToTargetExponent format mantissa exponent accuracy
    0 < shifted.1.mantissa ∧
      totalExponent shifted.1.mantissa shifted.2 = totalExponent mantissa exponent := by
  intro shifted
  have hwidth := two_le_mantissaBits format
  have hplaces : totalExponent mantissa exponent = mantissa.log2 + 1 + exponent := rfl
  have htarget : format.targetExponent (totalExponent mantissa exponent) <
      totalExponent mantissa exponent := by
    rw [Format.targetExponent]
    omega
  have hcount : (format.targetExponent (totalExponent mantissa exponent) - exponent).toNat ≤
      mantissa.log2 := by omega
  have hle : 2 ^ (format.targetExponent (totalExponent mantissa exponent) - exponent).toNat ≤
      mantissa := (Nat.le_log2 (Nat.ne_of_gt hpos)).1 hcount
  have hmantissa : shifted.1.mantissa = _ := shiftToTargetExponent_fst accuracy
  have hexponent : shifted.2 = _ := shiftToTargetExponent_snd accuracy hlow
  rw [hmantissa, hexponent]
  refine ⟨Nat.div_pos hle (Nat.two_pow_pos _), ?_⟩
  rw [totalExponent, log2_div_two_pow]
  omega

/-! ### Rounding -/

/-- What rounding gives in terms of the two shifts that it consists of. -/
theorem roundWithAccuracy_eq (sign : Sign) {accuracy : Accuracy} {first second : ExtendedMantissa × Int}
    (hfirst : shiftToTargetExponent format mantissa exponent accuracy = first)
    (hsecond : shiftToTargetExponent format first.1.roundedMantissa first.2 .exact = second) :
    (second.1.mantissa = 0 ∧
        roundWithAccuracy format sign mantissa exponent accuracy = .zero sign) ∨
      ∃ hpos, roundWithAccuracy format sign mantissa exponent accuracy =
        .finite sign second.1.mantissa second.2 hpos := by
  simp only [roundWithAccuracy, hfirst, hsecond]
  split
  · next hzero => exact .inl ⟨hzero, rfl⟩
  · next hne => exact .inr ⟨Nat.pos_of_ne_zero hne, rfl⟩

/-- Rounding above the least place of the format: the leading digit stays or moves up by one. -/
theorem roundWithAccuracy_above (sign : Sign) (accuracy : Accuracy) (hpos : 0 < mantissa)
    (hplace : format.minExponent < totalExponent mantissa exponent)
    (hlow : exponent ≤ format.targetExponent (totalExponent mantissa exponent)) :
    ∃ (rounded : Nat) (place : Int) (hrounded : 0 < rounded),
      roundWithAccuracy format sign mantissa exponent accuracy =
          .finite sign rounded place hrounded ∧
        Canonical format rounded place ∧
        totalExponent mantissa exponent ≤ totalExponent rounded place ∧
        totalExponent rounded place ≤ totalExponent mantissa exponent + 1 := by
  generalize hfirst : shiftToTargetExponent format mantissa exponent accuracy = first
  generalize hsecond :
    shiftToTargetExponent format first.1.roundedMantissa first.2 .exact = second
  obtain ⟨hkept, hsame⟩ := totalExponent_shiftToTargetExponent accuracy hpos hplace hlow
  have hexponent := shiftToTargetExponent_snd accuracy hlow
  rw [hfirst] at hkept hsame hexponent
  obtain ⟨hleast, hmost⟩ := roundedMantissa_bounds first.1
  have hcarried : 0 < first.1.roundedMantissa := by omega
  have hlog : first.1.mantissa.log2 ≤ first.1.roundedMantissa.log2 := by
    rw [Nat.le_log2 (Nat.ne_of_gt hcarried)]
    exact Nat.le_trans (Nat.log2_self_le (Nat.ne_of_gt hkept)) hleast
  have hlog' : first.1.roundedMantissa.log2 ≤ first.1.mantissa.log2 + 1 := by
    rw [← Nat.log2_two_mul (Nat.ne_of_gt hkept), Nat.le_log2 (by omega)]
    exact Nat.le_trans (Nat.log2_self_le (Nat.ne_of_gt hcarried)) (by omega)
  have hbetween : totalExponent mantissa exponent ≤
        totalExponent first.1.roundedMantissa first.2 ∧
      totalExponent first.1.roundedMantissa first.2 ≤ totalExponent mantissa exponent + 1 := by
    rw [totalExponent] at hsame
    rw [totalExponent, totalExponent] at *
    omega
  have hlow' : first.2 ≤
      format.targetExponent (totalExponent first.1.roundedMantissa first.2) := by
    rw [hexponent]
    exact targetExponent_mono (by rw [← hexponent]; exact hbetween.1)
  obtain ⟨hsome, hplace'⟩ := totalExponent_shiftToTargetExponent .exact hcarried (by omega) hlow'
  have hexponent' := shiftToTargetExponent_snd .exact hlow'
  rw [hsecond] at hsome hplace' hexponent'
  rcases roundWithAccuracy_eq sign hfirst hsecond with ⟨hzero, -⟩ | ⟨hfinal, hround⟩
  · omega
  · refine ⟨_, _, hfinal, hround, ?_, ?_⟩
    · rw [Canonical, hplace', ← hexponent']
    · rw [hplace']
      exact hbetween

/-- Below the least place of the format, shifting leaves nothing in front of the round bit. -/
theorem shiftToTargetExponent_below (accuracy : Accuracy)
    (hplace : mantissa = 0 ∨ totalExponent mantissa exponent ≤ format.minExponent)
    (hlow : exponent ≤ format.targetExponent (totalExponent mantissa exponent)) :
    format.targetExponent (totalExponent mantissa exponent) = format.minExponent ∧
      (shiftToTargetExponent format mantissa exponent accuracy).1.mantissa = 0 := by
  have hwidth := two_le_mantissaBits format
  have hplaces : totalExponent mantissa exponent = mantissa.log2 + 1 + exponent := rfl
  rcases hplace with rfl | hplace
  · rw [Format.targetExponent] at hlow ⊢
    refine ⟨?_, by rw [shiftToTargetExponent_fst, Nat.zero_div]⟩
    rw [Nat.log2_zero] at hplaces
    omega
  · have htarget : format.targetExponent (totalExponent mantissa exponent) =
        format.minExponent := by
      rw [Format.targetExponent]
      omega
    refine ⟨htarget, ?_⟩
    rw [shiftToTargetExponent_fst, htarget, Nat.div_eq_of_lt]
    calc mantissa < 2 ^ (mantissa.log2 + 1) := Nat.lt_log2_self
      _ ≤ _ := Nat.pow_le_pow_right (by decide) (by omega)

/-- Rounding below the least place of the format: there is nothing or one unit of this place. -/
theorem roundWithAccuracy_below (sign : Sign) (accuracy : Accuracy)
    (hplace : mantissa = 0 ∨ totalExponent mantissa exponent ≤ format.minExponent)
    (hlow : exponent ≤ format.targetExponent (totalExponent mantissa exponent)) :
    let unit := (shiftToTargetExponent format mantissa exponent accuracy).1.roundedMantissa
    (unit = 0 ∧ roundWithAccuracy format sign mantissa exponent accuracy = .zero sign) ∨
      (unit = 1 ∧ roundWithAccuracy format sign mantissa exponent accuracy =
        .finite sign 1 format.minExponent Nat.one_pos) := by
  intro unit
  have hwidth := two_le_mantissaBits format
  obtain ⟨htarget, hnone⟩ := shiftToTargetExponent_below accuracy hplace hlow
  have hexponent := shiftToTargetExponent_snd accuracy hlow
  rw [htarget] at hexponent
  have hmost : unit ≤ 1 := by
    have hbounds := roundedMantissa_bounds
      (shiftToTargetExponent format mantissa exponent accuracy).1
    omega
  have hlog : unit.log2 = 0 := by
    rcases Nat.le_one_iff_eq_zero_or_eq_one.1 hmost with hunit | hunit <;> rw [hunit] <;> rfl
  have hstays : format.targetExponent (totalExponent unit format.minExponent) =
      format.minExponent := by
    rw [Format.targetExponent, totalExponent, hlog]
    omega
  have hsecond : shiftToTargetExponent format unit format.minExponent .exact =
      (⟨unit, false, false⟩, format.minExponent) := by
    rw [shiftToTargetExponent, hstays, shiftToExponent, Int.sub_self]
    simp only [Int.toNat_zero, Int.natCast_zero, Int.add_zero]
    rfl
  have hfirst : shiftToTargetExponent format mantissa exponent accuracy =
      ((shiftToTargetExponent format mantissa exponent accuracy).1, format.minExponent) :=
    Prod.ext rfl hexponent
  rcases roundWithAccuracy_eq sign hfirst hsecond with ⟨hzero, hround⟩ | ⟨hpos, hround⟩
  · exact .inl ⟨hzero, hround⟩
  · have hunit : unit = 1 := Nat.le_antisymm hmost hpos
    refine .inr ⟨hunit, ?_⟩
    rw [hround]
    congr

/-- Rounding in terms of the leading digit: a value vanishes only below the least place, and else
the leading digit stays, moves up by one, or moves up to the least place. -/
theorem roundWithAccuracy_cases (sign : Sign) (accuracy : Accuracy)
    (hlow : exponent ≤ format.targetExponent (totalExponent mantissa exponent)) :
    ((mantissa = 0 ∨ totalExponent mantissa exponent ≤ format.minExponent) ∧
        roundWithAccuracy format sign mantissa exponent accuracy = .zero sign) ∨
      ∃ (rounded : Nat) (place : Int) (hrounded : 0 < rounded),
        roundWithAccuracy format sign mantissa exponent accuracy =
            .finite sign rounded place hrounded ∧
          Canonical format rounded place ∧
          totalExponent mantissa exponent ≤ totalExponent rounded place ∧
          totalExponent rounded place ≤
            max (totalExponent mantissa exponent) format.minExponent + 1 := by
  by_cases hplace : mantissa = 0 ∨ totalExponent mantissa exponent ≤ format.minExponent
  · rcases roundWithAccuracy_below sign accuracy hplace hlow with
      ⟨-, hround⟩ | ⟨-, hround⟩
    · exact .inl ⟨hplace, hround⟩
    · obtain ⟨htarget, -⟩ := shiftToTargetExponent_below accuracy hplace hlow
      have hwidth := two_le_mantissaBits format
      have hunit : totalExponent 1 format.minExponent = 1 + format.minExponent := rfl
      refine .inr ⟨1, format.minExponent, Nat.one_pos, hround, ?_, ?_, by omega⟩
      · rw [Canonical, Format.targetExponent]
        omega
      · rcases hplace with rfl | hplace
        · rw [htarget] at hlow
          have hnone : totalExponent 0 exponent = 1 + exponent := rfl
          omega
        · omega
  · obtain ⟨hne, habove⟩ := not_or.1 hplace
    obtain ⟨rounded, place, hrounded, hround, hcanonical, hleast, hmost⟩ :=
      roundWithAccuracy_above sign accuracy (Nat.pos_of_ne_zero hne)
        (Int.not_le.1 habove) hlow
    exact .inr ⟨rounded, place, hrounded, hround, hcanonical, hleast, by omega⟩

/-- What is smaller than half of the least place vanishes. -/
theorem roundWithAccuracy_of_lt (sign : Sign)
    (hplace : totalExponent mantissa exponent < format.minExponent) :
    roundWithAccuracy format sign mantissa exponent .exact = .zero sign := by
  have hplaces : totalExponent mantissa exponent = mantissa.log2 + 1 + exponent := rfl
  have hwidth := two_le_mantissaBits format
  have htarget : format.targetExponent (totalExponent mantissa exponent) = format.minExponent := by
    rw [Format.targetExponent]
    omega
  have hround := roundWithAccuracy_below sign .exact (.inr (Int.le_of_lt hplace)) (by omega)
  obtain ⟨count, hcount⟩ : ∃ count, (format.minExponent - exponent).toNat = count + 1 :=
    Nat.exists_eq_succ_of_ne_zero (by omega)
  have hhalf : mantissa < 2 ^ count := by
    calc mantissa < 2 ^ (mantissa.log2 + 1) := Nat.lt_log2_self
      _ ≤ 2 ^ count := Nat.pow_le_pow_right (by decide) (by omega)
  rw [shiftToTargetExponent, shiftToExponent, htarget, hcount] at hround
  rcases hround with ⟨-, hround⟩ | ⟨hunit, -⟩
  · exact hround
  · rw [roundedMantissa_eq_zero hhalf] at hunit
    exact absurd hunit Nat.zero_ne_one

/-- Rounding a value whose exponent may be too high for the format. -/
theorem round_cases (sign : Sign) (hpos : 0 < mantissa)
    (hplace : format.minExponent < totalExponent mantissa exponent) :
    ∃ (rounded : Nat) (place : Int) (hrounded : 0 < rounded),
      UnpackedFloat.round format sign mantissa exponent = .finite sign rounded place hrounded ∧
        Canonical format rounded place ∧
        totalExponent mantissa exponent ≤ totalExponent rounded place ∧
        totalExponent rounded place ≤ totalExponent mantissa exponent + 1 := by
  obtain ⟨count, hcount⟩ : ∃ count : Nat,
      (exponent - format.targetExponent (totalExponent mantissa exponent)).toNat = count :=
    ⟨_, rfl⟩
  have hsame := totalExponent_shift hpos exponent count
  rw [UnpackedFloat.round, decreaseExponent, hcount, Nat.shiftLeft_eq, ← hsame]
  rw [← hsame] at hcount hplace
  exact roundWithAccuracy_above sign .exact (Nat.mul_pos hpos (Nat.two_pow_pos count)) hplace (by omega)

/-! ### Too large values -/

/-! ### Single precision -/

theorem minExponent_single : Format.binary32.minExponent = -149 := by decide

theorem targetExponent_single (place : Int) :
    Format.binary32.targetExponent place = max (place - 24) (-149) := by
  have hwidth : Format.binary32.mantissaBits = 24 := by decide
  rw [Format.targetExponent, minExponent_single, hwidth]
  rfl

/-- The values of single precision are those with its digits and a leading digit that is not too
high. -/
theorem representable_iff_totalExponent_le {sign : Sign} {hpos : 0 < mantissa} :
    Representable .binary32 (.finite sign mantissa exponent hpos) ↔
      Canonical .binary32 mantissa exponent ∧ totalExponent mantissa exponent ≤ 128 := by
  have hbias : Format.binary32.exponentBias = 127 := by decide
  have hbits : Format.binary32.mantissaBitsWithoutImplicit = 23 := rfl
  have hlimit : 2 ^ Format.binary32.exponentBits = 256 := by decide
  have hplaces : totalExponent mantissa exponent = mantissa.log2 + 1 + exponent := rfl
  rw [Representable, hbias, hbits, hlimit]
  refine and_congr_right fun hcanonical => ?_
  rw [Canonical, targetExponent_single] at hcanonical
  omega

/-- A value with the digits of the format is kept by its bits, or it is too large and becomes an
infinity. -/
theorem unpack_pack_cases (sign : Sign) (hpos : 0 < mantissa)
    (hcanonical : Canonical .binary32 mantissa exponent) :
    (totalExponent mantissa exponent ≤ 128 ∧
        unpack .binary32 (pack .binary32 (.finite sign mantissa exponent hpos)) =
          .finite sign mantissa exponent hpos) ∨
      (128 < totalExponent mantissa exponent ∧
        unpack .binary32 (pack .binary32 (.finite sign mantissa exponent hpos)) =
          .infinity sign) := by
  by_cases hfits : totalExponent mantissa exponent ≤ 128
  · have hrange : Representable .binary32 (.finite sign mantissa exponent hpos) :=
      representable_iff_totalExponent_le.2 ⟨hcanonical, hfits⟩
    exact .inl ⟨hfits, unpack_pack (by decide) hrange⟩
  · have hlarge : ¬Representable .binary32 (.finite sign mantissa exponent hpos) :=
      fun hrange => hfits (representable_iff_totalExponent_le.1 hrange).2
    have hpacked : pack .binary32 (.finite sign mantissa exponent hpos) =
        pack .binary32 (.infinity sign) := by
      rw [Representable, and_iff_right hcanonical, Int.not_lt] at hlarge
      rw [pack, pack, if_pos (by omega)]
    rw [hpacked]
    exact .inr ⟨Int.not_le.1 hfits, unpack_pack (by decide) (x := .infinity sign) trivial⟩

end LSystem.Number
