import LSystem.Proofs.Number.Rounding

/-!
# Floats and their bits

The library has that valid bits are found again from the value that they tell
(`pack_unpack_of_valid`). Here is the other direction: a format has the values that bits can tell
(`representable_unpack`), and each of them is found again from its bits (`unpack_pack`). A format
packs a full mantissa without its leading bit and a shorter one as it is, so finite values are two
cases.
-/

namespace LSystem.Number

open Float.Model (Format UnpackedFloat totalExponent)
open Float.Model.UnpackedFloat

/-- Whether a value is one of a format: its pair is that of the format, and its exponent is below
those of infinities. -/
def Representable (format : Format) : UnpackedFloat → Prop
  | .finite _ mantissa exponent _ =>
    Canonical format mantissa exponent ∧
      exponent + format.exponentBias + format.mantissaBitsWithoutImplicit + 1 <
        (2 ^ format.exponentBits : Nat)
  | _ => True

/-! ### Arithmetic of a format -/

/-- Half the number of exponents decides all bounds of a format. -/
theorem exists_half_exponents {format : Format} (hbits : 1 < format.exponentBits) :
    ∃ half : Nat, 2 ≤ half ∧ 2 ^ format.exponentBits = 2 * half ∧
      (format.exponentBias : Int) = half - 1 ∧
      format.minExponent = 2 - half - format.mantissaBitsWithoutImplicit := by
  have hhalf : 2 ^ 1 ≤ 2 ^ (format.exponentBits - 1) := Nat.pow_le_pow_right (by decide) (by omega)
  have hdouble : 2 ^ format.exponentBits = 2 * 2 ^ (format.exponentBits - 1) := by
    rw [← Nat.pow_succ']
    congr 1
    omega
  have hcast : (2 : Int) ^ (format.exponentBits - 1) =
      ((2 ^ (format.exponentBits - 1) : Nat) : Int) := by simp
  refine ⟨2 ^ (format.exponentBits - 1), hhalf, hdouble, ?_, ?_⟩
  · rw [Format.exponentBias]
    omega
  · rw [Format.minExponent, Format.mantissaBits, hcast]
    omega

/-- The pairs of a format: a full mantissa, or a shorter one with the least exponent. -/
theorem canonical_iff {format : Format} {mantissa : Nat} {exponent : Int} (hpos : 0 < mantissa) :
    Canonical format mantissa exponent ↔
      (2 ^ format.mantissaBitsWithoutImplicit ≤ mantissa ∧
        mantissa < 2 ^ (format.mantissaBitsWithoutImplicit + 1) ∧ format.minExponent ≤ exponent) ∨
      (mantissa < 2 ^ format.mantissaBitsWithoutImplicit ∧ exponent = format.minExponent) := by
  have hne : mantissa ≠ 0 := Nat.ne_of_gt hpos
  rw [← Nat.le_log2 hne, ← Nat.log2_lt hne, ← Nat.log2_lt hne, Canonical, Format.targetExponent,
    totalExponent, Format.mantissaBits]
  omega

section Bits

variable {format : Format} {sign : Sign} {mantissa : Nat} {exponent : Int}

theorem ofNat_exponent_ne_allOnes {biased : Nat} (hbiased : biased + 1 < 2 ^ format.exponentBits) :
    BitVec.ofNat format.exponentBits biased ≠ -1#_ := by
  intro heq
  have hnat := congrArg BitVec.toNat heq
  rw [BitVec.neg_one_eq_allOnes, BitVec.toNat_allOnes, BitVec.toNat_ofNat,
    Nat.mod_eq_of_lt (by omega)] at hnat
  omega

theorem ofNat_ne_zero {width value : Nat} (hpos : 0 < value) (hlt : value < 2 ^ width) :
    BitVec.ofNat width value ≠ 0#_ := by
  intro heq
  have hnat := congrArg BitVec.toNat heq
  rw [BitVec.toNat_ofNat, Nat.mod_eq_of_lt hlt, BitVec.toNat_zero] at hnat
  omega

/-- The mantissa with its implicit leading bit. -/
theorem toNat_implicit {width : Nat} (bits : BitVec width) :
    (1#1 ++ bits).toNat = 2 ^ width + bits.toNat := by
  rw [BitVec.toNat_append, ← Nat.shiftLeft_add_eq_or_of_lt bits.isLt, Nat.shiftLeft_eq]
  simp

/-! ### Values and bits -/

/-- A full mantissa is packed without its leading bit. -/
theorem unpack_pack_normal (hbits : 1 < format.exponentBits) (hpos : 0 < mantissa)
    (hlow : 2 ^ format.mantissaBitsWithoutImplicit ≤ mantissa)
    (hhigh : mantissa < 2 ^ (format.mantissaBitsWithoutImplicit + 1))
    (hexponent : format.minExponent ≤ exponent)
    (hfits : exponent + format.exponentBias + format.mantissaBitsWithoutImplicit + 1 <
      (2 ^ format.exponentBits : Nat)) :
    unpack format (pack format (.finite sign mantissa exponent hpos)) =
      .finite sign mantissa exponent hpos := by
  obtain ⟨half, htwo, hdouble, hbias, hmin⟩ := exists_half_exponents hbits
  have hne : mantissa ≠ 0 := Nat.ne_of_gt hpos
  have hlog : mantissa.log2 + 1 = format.mantissaBits := by
    rw [← Nat.le_log2 hne] at hlow
    rw [← Nat.log2_lt hne] at hhigh
    rw [Format.mantissaBits]
    omega
  obtain ⟨biased, hbiased⟩ : ∃ biased : Nat,
      exponent + format.exponentBias + format.mantissaBitsWithoutImplicit = biased :=
    Int.eq_ofNat_of_zero_le (by omega)
  have hnot : ¬2 ^ format.exponentBits ≤ biased + 1 := by omega
  have hnotOnes := @ofNat_exponent_ne_allOnes format biased (by omega)
  have hnotZero := @ofNat_ne_zero format.exponentBits biased (by omega) (by omega)
  have hmod : mantissa % 2 ^ format.mantissaBitsWithoutImplicit =
      mantissa - 2 ^ format.mantissaBitsWithoutImplicit := by
    rw [Nat.mod_eq_sub_mod hlow, Nat.mod_eq_of_lt]
    rw [Nat.pow_succ] at hhigh
    omega
  simp only [pack, hbiased, Int.toNat_natCast, hnot, if_false, hlog, if_true, unpack,
    unpackExponent_packComponents, unpackMantissa_packComponents, unpackSign_packComponents,
    Sign.ofBitVec_toBitVec, hnotOnes, hnotZero, UnpackedFloat.finite.injEq, true_and,
    toNat_implicit, BitVec.toNat_ofNat, hmod]
  rw [Nat.mod_eq_of_lt (by omega)]
  omega

/-- A shorter mantissa is packed as it is. -/
theorem unpack_pack_subnormal (hbits : 1 < format.exponentBits) (hpos : 0 < mantissa)
    (hhigh : mantissa < 2 ^ format.mantissaBitsWithoutImplicit) :
    unpack format (pack format (.finite sign mantissa format.minExponent hpos)) =
      .finite sign mantissa format.minExponent hpos := by
  obtain ⟨half, htwo, hdouble, hbias, hmin⟩ := exists_half_exponents hbits
  have hlog : ¬mantissa.log2 + 1 = format.mantissaBits := by
    rw [← Nat.log2_lt (Nat.ne_of_gt hpos)] at hhigh
    rw [Format.mantissaBits]
    omega
  have hnot : ¬2 ^ format.exponentBits ≤ (format.minExponent + format.exponentBias +
      format.mantissaBitsWithoutImplicit).toNat + 1 := by omega
  have hmantissa := ofNat_ne_zero hpos hhigh
  simp only [pack, hnot, if_false, hlog, unpack, unpackExponent_packComponents,
    unpackMantissa_packComponents, unpackSign_packComponents, Sign.ofBitVec_toBitVec,
    BitVec.zero_eq_neg_one_iff, Nat.ne_of_gt format.he, hmantissa, dite_false, if_true,
    UnpackedFloat.finite.injEq, true_and, BitVec.toNat_ofNat, Nat.mod_eq_of_lt hhigh, Nat.zero_mod]
  omega

/-- The bits of a value of the format tell the value. -/
theorem unpack_pack (hbits : 1 < format.exponentBits) {x : UnpackedFloat}
    (hx : Representable format x) : unpack format (pack format x) = x := by
  cases x with
  | infinity sign => simp [unpack, pack, packedInfinity]
  | zero sign => exact unpack_packedZero
  | notANumber => exact unpack_packedNaN
  | finite sign mantissa exponent hpos =>
    obtain ⟨hcanonical, hfits⟩ := hx
    rcases (canonical_iff hpos).1 hcanonical with ⟨hlow, hhigh, hexponent⟩ | ⟨hhigh, rfl⟩
    · exact unpack_pack_normal hbits hpos hlow hhigh hexponent hfits
    · exact unpack_pack_subnormal hbits hpos hhigh

theorem toNat_lt_of_ne_allOnes {width : Nat} {bits : BitVec width} (hne : bits ≠ -1#_) :
    bits.toNat + 1 < 2 ^ width := by
  rw [BitVec.neg_one_eq_allOnes, ← BitVec.lt_allOnes_iff, BitVec.lt_def,
    BitVec.toNat_allOnes] at hne
  omega

/-- Whatever bits tell is a value of the format. -/
theorem representable_unpack (hbits : 1 < format.exponentBits) (bits : BitVec format.numBits) :
    Representable format (unpack format bits) := by
  obtain ⟨half, htwo, hdouble, hbias, hmin⟩ := exists_half_exponents hbits
  have hmantissa := (unpackMantissa bits).isLt
  dsimp only [unpack]
  split
  · split <;> trivial
  · next hones =>
    have hbelow := toNat_lt_of_ne_allOnes hones
    split
    · next hzero =>
      split
      · trivial
      · next hne =>
        have hpos := BitVec.toNat_pos_of_ne_zero hne
        rw [hzero, BitVec.toNat_zero]
        exact ⟨(canonical_iff hpos).2 (.inr ⟨hmantissa, by omega⟩), by omega⟩
    · next hzero =>
      have habove := BitVec.toNat_pos_of_ne_zero hzero
      refine ⟨(canonical_iff (by rw [toNat_implicit]; omega)).2 (.inl ?_), by omega⟩
      rw [toNat_implicit, Nat.pow_succ]
      omega

end Bits

end LSystem.Number
