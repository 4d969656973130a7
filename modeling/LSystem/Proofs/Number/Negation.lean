import LSystem.Number.Sine
import LSystem.Proofs.Number.Magnitude

/-!
# Signs

A float keeps its sign beside its digits, and rounding looks at the digits only. So a minus sign can
be moved out of a product or a quotient without a change of any bit, and a difference is a sum with
the negated float. It can be moved out of a sum as well, except that two numbers which cancel give
the positive zero whatever their signs are (`value_neg_add_neg`). Sine and cosine are odd and even to
the last bit.
-/

namespace LSystem.Number

open Float.Model (Format UnpackedFloat)
open Float.Model.UnpackedFloat

variable {format : Format} {u v : UnpackedFloat}

/-- Floats that stand for the same thing are the same. -/
theorem eq_of_value_eq {x y : Float32} (hvalue : value x = value y) : x = y := by
  rw [← single_pack_unpack x, ← single_pack_unpack y]
  exact congrArg (fun u => Float32.ofModel (.pack u)) hvalue

/-! ### Signs of values -/

section Sign

variable (sign sign' : Sign)

@[simp]
theorem sign_neg_neg : - -sign = sign := by
  cases sign <;> rfl

theorem neg_sign_mul : -sign * sign' = -(sign * sign') := by
  cases sign <;> cases sign' <;> rfl

theorem neg_sign_div : -sign / sign' = -(sign / sign') := by
  cases sign <;> cases sign' <;> rfl

theorem neg_sign_beq : (-sign == -sign') = (sign == sign') := by
  cases sign <;> cases sign' <;> rfl

theorem neg_sign_apply (n : Int) : (-sign).apply n = -sign.apply n := by
  cases sign
  · exact (Int.neg_neg n).symm
  · rfl

end Sign

@[simp]
theorem neg_neg_unpacked (u : UnpackedFloat) : u.neg.neg = u := by
  cases u <;> simp only [UnpackedFloat.neg, sign_neg_neg]

theorem IsZero.neg (hu : IsZero u) : IsZero u.neg := by
  cases hu with
  | zero sign => exact .zero (-sign)

theorem IsZero.settle (hu : IsZero u) : IsZero (settle u) := by
  cases hu with
  | zero sign =>
    rw [settle_zero]
    exact .zero sign

/-! ### Rounding -/

theorem roundWithAccuracy_neg (sign : Sign) (mantissa : Nat) (exponent : Int)
    (accuracy : Accuracy) :
    roundWithAccuracy format (-sign) mantissa exponent accuracy =
      (roundWithAccuracy format sign mantissa exponent accuracy).neg := by
  simp only [roundWithAccuracy]
  split <;> rfl

theorem round_neg (sign : Sign) (mantissa : Nat) (exponent : Int) :
    UnpackedFloat.round format (-sign) mantissa exponent =
      (UnpackedFloat.round format sign mantissa exponent).neg :=
  roundWithAccuracy_neg sign _ _ _

/-- Rounding commutes with negation where there is something to be rounded. -/
theorem normalize_neg {n : Int} (hn : n ≠ 0) (exponent : Int) (zeroSign : Sign) :
    UnpackedFloat.normalize format (-n) exponent zeroSign =
      (UnpackedFloat.normalize format n exponent zeroSign).neg := by
  rcases Int.lt_or_gt_of_ne hn with hneg | hpos
  · have hbefore : compare n 0 = .lt := Int.compare_eq_lt.2 hneg
    have hafter : compare (-n) 0 = .gt := Int.compare_eq_gt.2 (by omega)
    simp only [UnpackedFloat.normalize, hbefore, hafter]
    exact round_neg .negative _ _
  · have hbefore : compare n 0 = .gt := Int.compare_eq_gt.2 hpos
    have hafter : compare (-n) 0 = .lt := Int.compare_eq_lt.2 (by omega)
    simp only [UnpackedFloat.normalize, hbefore, hafter, Int.neg_neg]
    exact round_neg .positive _ _

/-- The sign is kept in a bit of its own. -/
theorem unpack_packComponents_neg (sign : Sign) (exponentBits : BitVec format.exponentBits)
    (mantissaBits : BitVec format.mantissaBitsWithoutImplicit) :
    unpack format (packComponents format (-sign) exponentBits mantissaBits) =
      (unpack format (packComponents format sign exponentBits mantissaBits)).neg := by
  simp only [unpack, unpackExponent_packComponents, unpackMantissa_packComponents,
    unpackSign_packComponents, Sign.ofBitVec_toBitVec]
  split
  · split <;> rfl
  · split
    · split <;> rfl
    · rfl

@[simp]
theorem settle_notANumber : settle .notANumber = .notANumber := unpack_packedNaN

theorem settle_neg (u : UnpackedFloat) : settle u.neg = (settle u).neg := by
  cases u with
  | notANumber => rw [UnpackedFloat.neg, settle_notANumber, UnpackedFloat.neg]
  | infinity sign => exact unpack_packComponents_neg sign _ _
  | zero sign => exact unpack_packComponents_neg sign _ _
  | finite sign mantissa exponent hpos =>
    simp only [settle, pack, UnpackedFloat.neg]
    split
    · exact unpack_packComponents_neg sign _ _
    · split <;> exact unpack_packComponents_neg sign _ _

/-! ### Operations on values -/

theorem mul_neg_left (u v : UnpackedFloat) : mul format u.neg v = (mul format u v).neg := by
  cases u <;> cases v <;>
    simp only [mul, UnpackedFloat.neg, neg_sign_mul, roundWithAccuracy_neg]

theorem div_neg_left (u v : UnpackedFloat) : div format u.neg v = (div format u v).neg := by
  cases u <;> cases v <;>
    simp only [UnpackedFloat.div, UnpackedFloat.neg, neg_sign_div, roundWithAccuracy_neg]

theorem mul_comm_unpacked (u v : UnpackedFloat) : mul format u v = mul format v u := by
  have hsign (sign sign' : Sign) : sign * sign' = sign' * sign := by
    cases sign <;> cases sign' <;> rfl
  cases u <;> cases v <;> simp only [mul, hsign, Nat.mul_comm, Int.add_comm]

theorem add_comm_unpacked (u v : UnpackedFloat) : add format u v = add format v u := by
  cases u with
  | infinity sign | zero sign =>
    cases v with
    | infinity sign' | zero sign' => cases sign <;> cases sign' <;> rfl
    | finite _ _ _ _ | notANumber => rfl
  | notANumber => cases v <;> rfl
  | finite sign mantissa exponent hpos =>
    cases v with
    | finite sign' mantissa' exponent' hpos' =>
      simp only [add, Int.add_comm, Int.min_comm]
    | zero _ | infinity _ | notANumber => rfl

theorem sub_eq_add_neg_unpacked (u v : UnpackedFloat) :
    UnpackedFloat.sub format u v = add format u v.neg := by
  cases v with
  | finite sign' mantissa' exponent' hpos' =>
    cases u with
    | finite sign mantissa exponent hpos =>
      simp only [UnpackedFloat.sub, add, UnpackedFloat.neg, neg_sign_apply, Int.sub_eq_add_neg]
    | zero _ | infinity _ | notANumber => rfl
  | zero _ | infinity _ | notANumber => cases u <;> rfl

/-- Negating both summands negates the sum, unless it is a zero. -/
theorem add_neg_neg (u v : UnpackedFloat) :
    add format u.neg v.neg = (add format u v).neg ∨
      IsZero (add format u.neg v.neg) ∧ IsZero (add format u v) := by
  cases u with
  | notANumber => cases v <;> exact .inl rfl
  | infinity sign =>
    cases v with
    | infinity sign' =>
      simp only [add, UnpackedFloat.neg, neg_sign_beq]
      split <;> exact .inl rfl
    | zero _ | finite _ _ _ _ | notANumber => exact .inl rfl
  | zero sign =>
    cases v with
    | zero sign' =>
      simp only [add, UnpackedFloat.neg, neg_sign_beq]
      split <;> exact .inr ⟨.zero _, .zero _⟩
    | infinity _ | finite _ _ _ _ | notANumber => exact .inl rfl
  | finite sign mantissa exponent hpos =>
    cases v with
    | finite sign' mantissa' exponent' hpos' =>
      simp only [add, UnpackedFloat.neg, neg_sign_apply, ← Int.neg_add]
      generalize sign.apply _ + sign'.apply _ = n
      -- Numbers that cancel give a zero, and its sign does not come from theirs.
      by_cases hn : n = 0
      · subst hn
        exact .inr ⟨.zero _, .zero _⟩
      · exact .inl (normalize_neg hn _ _)
    | zero _ | infinity _ | notANumber => exact .inl rfl

/-! ### Operations on floats -/

section Float

variable (x y : Float32)

theorem value_neg : value (-x) = (value x).neg := by
  calc value (-x) = settle (value x).neg := rfl
    _ = (value x).neg := by rw [settle_neg, settle_value]

@[simp]
protected theorem neg_neg : - -x = x := by
  apply eq_of_value_eq
  rw [value_neg, value_neg, neg_neg_unpacked]

protected theorem mul_comm : x * y = y * x := by
  apply eq_of_value_eq
  rw [value_mul, value_mul, mul_comm_unpacked]

protected theorem add_comm : x + y = y + x := by
  apply eq_of_value_eq
  rw [value_add, value_add, add_comm_unpacked]

protected theorem sub_eq_add_neg : x - y = x + -y := by
  apply eq_of_value_eq
  rw [value_add, value_neg, ← sub_eq_add_neg_unpacked]
  rfl

protected theorem neg_mul : -x * y = -(x * y) := by
  apply eq_of_value_eq
  rw [value_neg, value_mul, value_mul, value_neg, mul_neg_left, settle_neg]

protected theorem mul_neg : x * -y = -(x * y) := by
  rw [Number.mul_comm, Number.neg_mul, Number.mul_comm]

protected theorem neg_mul_neg : -x * -y = x * y := by
  rw [Number.neg_mul, Number.mul_neg, Number.neg_neg]

protected theorem neg_div : -x / y = -(x / y) := by
  apply eq_of_value_eq
  rw [value_neg, value_div, value_div, value_neg, div_neg_left, settle_neg]

theorem value_neg_add_neg :
    value (-x + -y) = (value (x + y)).neg ∨
      IsZero (value (-x + -y)) ∧ IsZero (value (x + y)) := by
  rw [value_add, value_add, value_neg, value_neg, ← settle_neg]
  rcases add_neg_neg (value x) (value y) with hneg | ⟨hzero, hzero'⟩
  · exact .inl (congrArg settle hneg)
  · exact .inr ⟨hzero.settle, hzero'.settle⟩

theorem isFinite_iff : x.isFinite = (value x).isFinite := rfl

@[simp]
theorem isFinite_neg : (-x).isFinite = x.isFinite := by
  rw [isFinite_iff, isFinite_iff, value_neg]
  cases value x <;> rfl

@[simp]
theorem isNaN_neg : (-x).isNaN = x.isNaN := by
  change (value (-x)).isNaN = (value x).isNaN
  rw [value_neg]
  cases value x <;> rfl

end Float

/-! ### Sine and cosine -/

theorem neg_notANumber : -notANumber = notANumber := by
  have hvalue : value notANumber = .notANumber := settle_notANumber
  apply eq_of_value_eq
  rw [value_neg, hvalue, UnpackedFloat.neg]

theorem sine_neg (angle : Float32) : sine (-angle) = -sine angle := by
  have hvalue : (-angle).toModel.unpack = angle.toModel.unpack.neg := value_neg angle
  rw [sine, sine, hvalue]
  cases angle.toModel.unpack with
  | finite sign mantissa exponent hpos =>
    cases sign
    · exact (Number.neg_neg _).symm
    · rfl
  | zero sign => rfl
  | infinity _ | notANumber => exact neg_notANumber.symm

theorem cosine_neg (angle : Float32) : cosine (-angle) = cosine angle := by
  have hvalue : (-angle).toModel.unpack = angle.toModel.unpack.neg := value_neg angle
  rw [cosine, cosine, hvalue]
  cases angle.toModel.unpack <;> rfl

end LSystem.Number
