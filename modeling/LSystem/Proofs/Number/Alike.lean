import LSystem.Proofs.Number.Vanishing

/-!
# Equal and opposite numbers

Two floats are alike if they are equal as numbers, where the two zeros are the same, or if neither is
a number. Sums, differences and products of floats that are alike are alike again. Quotients are not
among them, since the sign of a zero decides between the two infinities.

Two floats are opposite if the one is like the negated other. The rules of signs hold for all
floats: opposite summands have opposite sums, and a product changes its sign with each factor.
-/

namespace LSystem.Number

open Float.Model (UnpackedFloat)
open Float.Model.UnpackedFloat

/-- Equal as numbers, or both not a number. -/
def Alike (x y : Float32) : Prop := (x == y) = true ∨ x.isNaN = true ∧ y.isNaN = true

def Opposite (x y : Float32) : Prop := Alike (-x) y

variable {x x' y y' z : Float32}

theorem isNaN_iff : x.isNaN = true ↔ value x = .notANumber := by
  change (value x).isNaN = true ↔ _
  exact UnpackedFloat.isNaN_iff

/-- Floats that are alike are the same, except for the two zeros. -/
theorem alike_iff : Alike x y ↔ x = y ∨ IsZero (value x) ∧ IsZero (value y) := by
  have hbeq : (x == y) = true ↔ _ := beq_iff (u := value x) (v := value y)
  rw [Alike, hbeq, isNaN_iff, isNaN_iff]
  constructor
  · rintro ((⟨hvalue, -⟩ | hzero) | ⟨hx, hy⟩)
    · exact .inl (eq_of_value_eq hvalue)
    · exact .inr hzero
    · exact .inl (eq_of_value_eq (hx.trans hy.symm))
  · rintro (rfl | hzero)
    · by_cases hnan : value x = .notANumber
      · exact .inr ⟨hnan, hnan⟩
      · exact .inl (.inl ⟨rfl, hnan⟩)
    · exact .inl (.inr hzero)

namespace Alike

theorem refl (x : Float32) : Alike x x := alike_iff.2 (.inl rfl)

theorem of_isZero (hx : IsZero (value x)) (hy : IsZero (value y)) : Alike x y :=
  alike_iff.2 (.inr ⟨hx, hy⟩)

theorem symm (h : Alike x y) : Alike y x := by
  rcases alike_iff.1 h with rfl | ⟨hx, hy⟩
  · exact refl x
  · exact of_isZero hy hx

theorem trans (hxy : Alike x y) (hyz : Alike y z) : Alike x z := by
  rcases alike_iff.1 hxy with rfl | ⟨hx, -⟩
  · exact hyz
  · rcases alike_iff.1 hyz with rfl | ⟨-, hz⟩
    · exact hxy
    · exact of_isZero hx hz

theorem neg (h : Alike x y) : Alike (-x) (-y) := by
  rcases alike_iff.1 h with rfl | ⟨hx, hy⟩
  · exact refl _
  · apply of_isZero
    · rw [value_neg]
      exact hx.neg
    · rw [value_neg]
      exact hy.neg

/-- A zero adds nothing. -/
theorem add_isZero (x : Float32) (hy : IsZero (value y)) : Alike (x + y) x := by
  have hkept := settle_value x
  rw [alike_iff]
  have hsum : value (x + y) = value x ∨ IsZero (value (x + y)) ∧ IsZero (value x) := by
    rw [value_add]
    generalize value x = u at hkept
    generalize value y = v at hy
    cases hy with
    | zero sign =>
      cases u with
      | zero sign' =>
        right
        rw [UnpackedFloat.add]
        split <;> exact ⟨(IsZero.zero _).settle, .zero _⟩
      | infinity _ | finite _ _ _ _ | notANumber => exact .inl hkept
  exact hsum.imp_left eq_of_value_eq

theorem add_left (x : Float32) (h : Alike y y') : Alike (x + y) (x + y') := by
  rcases alike_iff.1 h with rfl | ⟨hy, hy'⟩
  · exact refl _
  · exact (add_isZero x hy).trans (add_isZero x hy').symm

theorem add (hx : Alike x x') (hy : Alike y y') : Alike (x + y) (x' + y') := by
  have hleft := add_left y hx
  rw [Number.add_comm y, Number.add_comm y] at hleft
  exact hleft.trans (add_left x' hy)

theorem sub (hx : Alike x x') (hy : Alike y y') : Alike (x - y) (x' - y') := by
  rw [Number.sub_eq_add_neg, Number.sub_eq_add_neg]
  exact hx.add hy.neg

/-- A float times a zero is a zero if the float is finite, and else not a number. -/
theorem mul_left (x : Float32) (h : Alike y y') : Alike (x * y) (x * y') := by
  rcases alike_iff.1 h with rfl | ⟨hy, hy'⟩
  · exact refl _
  · by_cases hx : x.isFinite = true
    · have hzero {z : Float32} (hz : IsZero (value z)) : IsZero (value (x * z)) := by
        have hproduct : Vanishes True (x * z) := (Vanishes.of_isZero hz).mul_left fun _ => hx
        exact (beq_zero_iff _).1 (hproduct.resolve_right fun h => h.2 trivial)
      exact of_isZero (hzero hy) (hzero hy')
    · have hnan {z : Float32} (hz : IsZero (value z)) : (x * z).isNaN = true := by
        have hproduct : Vanishes False (x * z) := (Vanishes.of_isZero hz).mul_left False.elim
        refine (hproduct.resolve_left fun h => hx ?_).1
        exact (isFinite_of_mul ((beq_zero_iff _).1 h).isFinite).1
      exact .inr ⟨hnan hy, hnan hy'⟩

theorem mul (hx : Alike x x') (hy : Alike y y') : Alike (x * y) (x' * y') := by
  have hleft := mul_left y hx
  rw [Number.mul_comm y, Number.mul_comm y] at hleft
  exact hleft.trans (mul_left x' hy)

end Alike

/-! ### Opposite numbers -/

theorem Vanishes.opposite {intact : Prop} (hx : Vanishes intact x) : Opposite x x := by
  rcases hx with hzero | ⟨hnan, -⟩
  · have hzero' := (beq_zero_iff x).1 hzero
    refine Alike.of_isZero ?_ hzero'
    rw [value_neg]
    exact hzero'.neg
  · exact .inr ⟨by rwa [isNaN_neg], hnan⟩

/-- Opposite summands that cancel have a positive zero as their sum on both sides. -/
theorem alike_neg_add (x y : Float32) : Alike (-(x + y)) (-x + -y) := by
  rw [alike_iff, value_neg]
  rcases value_neg_add_neg x y with hneg | ⟨hzero, hzero'⟩
  · exact .inl (eq_of_value_eq (by rw [value_neg, hneg]))
  · exact .inr ⟨hzero'.neg, hzero⟩

namespace Opposite

theorem of_neg (x : Float32) : Opposite x (-x) := .refl (-x)

theorem alike (h : Opposite x y) (hself : Opposite x x) : Alike x y := hself.symm.trans h

theorem neg (h : Opposite x x') : Opposite (-x) (-x') := Alike.neg h

theorem add (hx : Opposite x x') (hy : Opposite y y') : Opposite (x + y) (x' + y') :=
  (alike_neg_add x y).trans (Alike.add hx hy)

theorem sub (hx : Opposite x x') (hy : Opposite y y') : Opposite (x - y) (x' - y') := by
  rw [Number.sub_eq_add_neg, Number.sub_eq_add_neg]
  exact hx.add hy.neg

theorem mul_alike (hx : Opposite x x') (hy : Alike y y') : Opposite (x * y) (x' * y') := by
  rw [Opposite, ← Number.neg_mul]
  exact Alike.mul hx hy

theorem mul (hx : Opposite x x') (hy : Opposite y y') : Alike (x * y) (x' * y') := by
  rw [← Number.neg_mul_neg]
  exact Alike.mul hx hy

end Opposite

theorem Alike.mul_opposite (hx : Alike x x') (hy : Opposite y y') : Opposite (x * y) (x' * y') := by
  rw [Opposite, ← Number.mul_neg]
  exact hx.mul hy

end LSystem.Number
