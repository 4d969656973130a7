import LSystem.Proofs.Number.Negation

/-!
# Zeros that stay zeros

A product with a zero is a zero, and so is a sum of zeros. The one exception is a zero times an
infinity or times what is not a number: this is not a number. So a float that is made from zeros
alone is a zero, or not a number, and the latter only if something else has left the range of numbers
before (`Vanishes`). Rounding does not come into it.

What has left the range of numbers never comes back: a sum, a difference or a product is finite only
if its parts are (`isFinite_of_add` and the like).
-/

namespace LSystem.Number

open Float.Model (Format UnpackedFloat)
open Float.Model.UnpackedFloat

variable {x y : Float32}

/-! ### Finite results -/

/-- What has left the range of numbers is not brought back by the bits in which it is kept. -/
theorem isFinite_of_settle {u : UnpackedFloat} (hfinite : (settle u).isFinite = true) :
    u.isFinite = true := by
  cases u with
  | infinity sign =>
    rw [settle_infinity] at hfinite
    exact nomatch hfinite
  | notANumber =>
    rw [settle_notANumber] at hfinite
    exact nomatch hfinite
  | zero _ | finite _ _ _ _ => rfl

theorem isFinite_of_add (hfinite : (x + y).isFinite = true) :
    x.isFinite = true ∧ y.isFinite = true := by
  have hsum : (add .binary32 (value x) (value y)).isFinite = true := isFinite_of_settle hfinite
  rw [isFinite_iff, isFinite_iff]
  generalize value x = u at hsum ⊢
  generalize value y = v at hsum ⊢
  cases u with
  | infinity sign =>
    cases v with
    | infinity sign' =>
      rw [add] at hsum
      split at hsum <;> exact absurd hsum Bool.false_ne_true
    | zero _ | finite _ _ _ _ | notANumber => exact absurd hsum Bool.false_ne_true
  | notANumber => exact absurd hsum Bool.false_ne_true
  | zero _ | finite _ _ _ _ =>
    cases v with
    | infinity _ | notANumber => exact absurd hsum Bool.false_ne_true
    | zero _ | finite _ _ _ _ => exact ⟨rfl, rfl⟩

theorem isFinite_of_sub (hfinite : (x - y).isFinite = true) :
    x.isFinite = true ∧ y.isFinite = true := by
  rw [Number.sub_eq_add_neg] at hfinite
  have hparts := isFinite_of_add hfinite
  rwa [isFinite_neg] at hparts

theorem isFinite_of_mul (hfinite : (x * y).isFinite = true) :
    x.isFinite = true ∧ y.isFinite = true := by
  have hproduct : (mul .binary32 (value x) (value y)).isFinite = true := isFinite_of_settle hfinite
  rw [isFinite_iff, isFinite_iff]
  generalize value x = u at hproduct ⊢
  generalize value y = v at hproduct ⊢
  cases u with
  | infinity _ | notANumber => cases v <;> exact nomatch hproduct
  | zero _ | finite _ _ _ _ =>
    cases v with
    | infinity _ | notANumber => exact nomatch hproduct
    | zero _ | finite _ _ _ _ => exact ⟨rfl, rfl⟩

/-! ### Zeros -/

theorem isZero_div {place : Int} (hx : IsZero (value x)) (hy : Reaches place (value y)) :
    IsZero (value (x / y)) := by
  rw [value_div]
  generalize value x = u at hx
  generalize value y = v at hy
  cases hx with
  | zero sign => cases hy <;> simpa only [UnpackedFloat.div, settle_zero] using .zero _

/-- A zero of either sign, or not a number, and the latter only if something is no longer intact. -/
def Vanishes (intact : Prop) (x : Float32) : Prop := (x == 0) = true ∨ x.isNaN = true ∧ ¬intact

variable {intact intact' : Prop}

theorem vanishes_iff :
    Vanishes intact x ↔ (∃ sign, value x = .zero sign) ∨ value x = .notANumber ∧ ¬intact := by
  rw [Vanishes, beq_zero_iff]
  change _ ∨ (value x).isNaN = true ∧ ¬intact ↔ _
  generalize value x = u
  constructor
  · rintro (hzero | ⟨hnan, hlost⟩)
    · cases hzero with
      | zero sign => exact .inl ⟨sign, rfl⟩
    · cases u with
      | notANumber => exact .inr ⟨rfl, hlost⟩
      | infinity _ | zero _ | finite _ _ _ _ => exact nomatch hnan
  · rintro (⟨sign, rfl⟩ | ⟨rfl, hlost⟩)
    · exact .inl (.zero sign)
    · exact .inr ⟨rfl, hlost⟩

namespace Vanishes

theorem of_isZero (hx : IsZero (value x)) : Vanishes intact x := .inl ((beq_zero_iff x).2 hx)

theorem zero : Vanishes intact 0 := .inl rfl

theorem mono (hx : Vanishes intact x) (hmono : intact' → intact) : Vanishes intact' x :=
  hx.imp_right fun hnan => ⟨hnan.1, mt hmono hnan.2⟩

theorem neg (hx : Vanishes intact x) : Vanishes intact (-x) := by
  rw [vanishes_iff] at hx ⊢
  rw [value_neg]
  rcases hx with ⟨sign, hx⟩ | ⟨hx, hlost⟩
  · exact .inl ⟨-sign, by rw [hx, UnpackedFloat.neg]⟩
  · exact .inr ⟨by rw [hx, UnpackedFloat.neg], hlost⟩

theorem add (hx : Vanishes intact x) (hy : Vanishes intact y) : Vanishes intact (x + y) := by
  rw [vanishes_iff] at hx hy ⊢
  rw [value_add]
  rcases hx with ⟨sign, hx⟩ | ⟨hx, hlost⟩
  · rcases hy with ⟨sign', hy⟩ | ⟨hy, hlost⟩
    · left
      rw [hx, hy, UnpackedFloat.add]
      split <;> exact ⟨_, settle_zero⟩
    · exact .inr ⟨by rw [hx, hy]; exact settle_notANumber, hlost⟩
  · exact .inr ⟨by rw [hx, UnpackedFloat.add, settle_notANumber], hlost⟩

theorem sub (hx : Vanishes intact x) (hy : Vanishes intact y) : Vanishes intact (x - y) := by
  rw [Number.sub_eq_add_neg]
  exact hx.add hy.neg

/-- A zero times a float is a zero, as long as the float is finite. -/
theorem mul_right (hx : Vanishes intact x) (hy : intact → y.isFinite = true) :
    Vanishes intact (x * y) := by
  rw [isFinite_iff] at hy
  rw [vanishes_iff] at hx ⊢
  rw [value_mul]
  generalize value y = v at hy
  rcases hx with ⟨sign, hx⟩ | ⟨hx, hlost⟩ <;> rw [hx]
  · cases v with
    | infinity _ | notANumber => exact .inr ⟨settle_notANumber, fun h => nomatch hy h⟩
    | zero _ | finite _ _ _ _ => exact .inl ⟨_, settle_zero⟩
  · exact .inr ⟨by rw [UnpackedFloat.mul, settle_notANumber], hlost⟩

theorem mul_left (hy : Vanishes intact y) (hx : intact → x.isFinite = true) :
    Vanishes intact (x * y) := by
  rw [Number.mul_comm]
  exact hy.mul_right hx

end Vanishes

end LSystem.Number
