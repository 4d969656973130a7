import LSystem.Proofs.Number.Packing

/-!
# Widening loses nothing

A single precision float is made wider before it is written and narrower after it is read. The main
statement is `narrow_widen`: both steps together give the same bits again, for every float, be it
subnormal, infinite or not a number.
-/

namespace LSystem.Number

open Float.Model (Format UnpackedFloat totalExponent)
open Float.Model.UnpackedFloat

/-! ### Floats and their values -/

@[simp]
theorem single_pack_unpack (x : Float32) : Float32.ofModel (.pack x.toModel.unpack) = x := by
  have hbits := pack_unpack_of_valid x.toModel.valid
  rcases x with ⟨⟨bits, hvalid⟩⟩
  simp only [Float32.Model.pack, Float32.Model.unpack] at hbits ⊢
  simp [hbits]

@[simp]
theorem double_pack_unpack (x : Float) : Float.ofModel (.pack x.toModel.unpack) = x := by
  have hbits := pack_unpack_of_valid x.toModel.valid
  rcases x with ⟨⟨bits, hvalid⟩⟩
  simp only [Float.Model.pack, Float.Model.unpack] at hbits ⊢
  simp [hbits]

theorem double_unpack_pack {x : UnpackedFloat} (hx : Representable .binary64 x) :
    (Float.Model.pack x).unpack = x := by
  have hvalue := unpack_pack (by decide) hx
  simpa [Float.Model.pack, Float.Model.unpack] using hvalue

theorem representable_single (x : Float32) : Representable .binary32 x.toModel.unpack :=
  representable_unpack (by decide) _

theorem representable_double (x : Float) : Representable .binary64 x.toModel.unpack :=
  representable_unpack (by decide) _

/-! ### From the narrow format to the wide one and back -/

theorem convert_widens {sign : Sign} {mantissa : Nat} {exponent : Int} {hpos : 0 < mantissa}
    (hx : Representable .binary32 (.finite sign mantissa exponent hpos)) :
    ∃ count : Nat,
      convert .binary64 (.finite sign mantissa exponent hpos) =
        .finite sign (mantissa * 2 ^ count) (exponent - count)
          (Nat.mul_pos hpos (Nat.two_pow_pos count)) ∧
      Representable .binary64 (.finite sign (mantissa * 2 ^ count) (exponent - count)
        (Nat.mul_pos hpos (Nat.two_pow_pos count))) := by
  obtain ⟨hcanonical, hfits⟩ := hx
  have hmin : Format.binary32.minExponent = -149 := by decide
  have hmin' : Format.binary64.minExponent = -1074 := by decide
  have hbias : Format.binary32.exponentBias = 127 := by decide
  have hbias' : Format.binary64.exponentBias = 1023 := by decide
  have hwidth : Format.binary32.mantissaBits = 24 := by decide
  have hwidth' : Format.binary64.mantissaBits = 53 := by decide
  simp only [Canonical, Format.targetExponent, hmin, hwidth, hbias] at hcanonical hfits
  obtain ⟨count, hcount⟩ : ∃ count : Nat,
      exponent - Format.binary64.targetExponent (totalExponent mantissa exponent) = count := by
    apply Int.eq_ofNat_of_zero_le
    simp only [Format.targetExponent, hmin', hwidth']
    omega
  have htarget : Format.binary64.targetExponent (totalExponent mantissa exponent) =
      exponent - count := by omega
  refine ⟨count, round_extend hpos htarget, canonical_shift hpos htarget, ?_⟩
  simp only [hbias']
  omega

theorem convert_narrows {x : UnpackedFloat} (hx : Representable .binary32 x) :
    Representable .binary64 (convert .binary64 x) ∧
      convert .binary32 (convert .binary64 x) = x := by
  cases x with
  | finite sign mantissa exponent hpos =>
    obtain ⟨count, hwide, hrepresentable⟩ := convert_widens hx
    rw [hwide]
    exact ⟨hrepresentable, round_exact hpos hx.1 count⟩
  | infinity sign => exact ⟨trivial, rfl⟩
  | zero sign => exact ⟨trivial, rfl⟩
  | notANumber => exact ⟨trivial, rfl⟩

theorem narrow_widen (x : Float32) : narrow (widen x) = x := by
  obtain ⟨hwide, hback⟩ := convert_narrows (representable_single x)
  rw [narrow, widen, double_unpack_pack hwide, hback, single_pack_unpack]

end LSystem.Number
