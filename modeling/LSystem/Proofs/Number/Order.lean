import LSystem.Proofs.Number.Alike
import Mathlib.Algebra.Order.Group.Int
import Mathlib.Data.Prod.Lex
import Mathlib.Order.Bounds.Basic

/-!
# The order of floats

Floats are compared by sign and kind, then by exponent and mantissa. So each of them has a place in
a linear order, its rank: the infinities are outermost, the two zeros share a place, and below zero
exponents and mantissas count backwards. A comparison of two floats compares their ranks, and it
fails if one of them is not a number (`le_iff_rank`, `lt_iff_rank`, `beq_iff_rank`).

The numbers are thus in a line, up to the sign of zero, and the least and the greatest of some
numbers can be found by looking at one after the other (`isLeast_insert`, `isGreatest_insert`).
-/

namespace LSystem.Number

open Float.Model (UnpackedFloat)
open Float.Model.UnpackedFloat

/-- The place of a number in the order of all numbers. -/
def rank : UnpackedFloat → ℤ ×ₗ ℤ ×ₗ ℤ
  | .infinity .negative => toLex (-2, toLex (0, 0))
  | .finite .negative mantissa exponent _ => toLex (-1, toLex (-exponent, -mantissa))
  | .zero _ | .notANumber => toLex (0, toLex (0, 0))
  | .finite .positive mantissa exponent _ => toLex (1, toLex (exponent, mantissa))
  | .infinity .positive => toLex (2, toLex (0, 0))

/-! ### Comparing is comparing ranks -/

theorem compare_natCast (m n : Nat) : compare (m : ℤ) (n : ℤ) = compare m n := by
  rw [← cmp_eq_compare, ← cmp_eq_compare]
  exact Nat.strictMono_cast.cmp_map_eq m n

theorem compare_neg (a b : ℤ) : compare (-a) (-b) = (compare a b).swap := by
  rw [← cmp_eq_compare, ← cmp_eq_compare, cmp_swap]
  exact StrictAnti.cmp_map_eq (fun _ _ => neg_lt_neg) a b

theorem compare_eq_rank {u v : UnpackedFloat} (hu : u ≠ .notANumber) (hv : v ≠ .notANumber) :
    u.compare v = some (compare (rank u) (rank v)) := by
  cases u with
  | notANumber => exact absurd rfl hu
  | infinity s | zero s =>
    cases v with
    | notANumber => exact absurd rfl hv
    | infinity t | zero t | finite t _ _ _ => cases s <;> cases t <;> rfl
  | finite s m e hm =>
    cases v with
    | notANumber => exact absurd rfl hv
    | infinity t | zero t => cases s <;> cases t <;> rfl
    | finite t m' e' hm' =>
      cases s with
      | negative =>
        cases t with
        | negative =>
          change some ((compare e e').then (compare m m')).swap =
            some ((compare (-e) (-e')).then (compare (-(m : ℤ)) (-(m' : ℤ))))
          rw [compare_neg, compare_neg, compare_natCast, Ordering.swap_then]
        | positive => rfl
      | positive =>
        cases t with
        | negative => rfl
        | positive =>
          change some ((compare e e').then (compare m m')) =
            some ((compare e e').then (compare (m : ℤ) (m' : ℤ)))
          rw [compare_natCast]

theorem compare_eq_none {u v : UnpackedFloat} (h : u = .notANumber ∨ v = .notANumber) :
    u.compare v = none := by
  rcases h with rfl | rfl
  · rfl
  · cases u with
    | notANumber | zero _ => rfl
    | infinity s => cases s <;> rfl
    | finite s _ _ _ => cases s <;> rfl

variable {x y z : Float32} {numbers : Set Float32}

theorem isNaN_eq_false_iff : x.isNaN = false ↔ value x ≠ .notANumber := by
  rw [ne_eq, ← isNaN_iff, Bool.not_eq_true]

/-- A comparison holds if both sides are numbers and their ranks compare in that way. -/
theorem any_compare_iff (test : Ordering → Bool) :
    ((value x).compare (value y)).any test = true ↔
      x.isNaN = false ∧ y.isNaN = false ∧
        test (compare (rank (value x)) (rank (value y))) = true := by
  rw [isNaN_eq_false_iff, isNaN_eq_false_iff]
  by_cases hnan : value x = .notANumber ∨ value y = .notANumber
  · rw [compare_eq_none hnan]
    rcases hnan with hx | hy
    · simp [hx]
    · simp [hy]
  · obtain ⟨hx, hy⟩ := not_or.1 hnan
    rw [compare_eq_rank hx hy]
    simp [hx, hy]

theorem le_iff_rank :
    x ≤ y ↔ x.isNaN = false ∧ y.isNaN = false ∧ rank (value x) ≤ rank (value y) := by
  have hle : x ≤ y ↔ ((value x).compare (value y)).any Ordering.isLE = true := decide_eq_true_iff
  rw [hle, any_compare_iff, Ordering.isLE_iff_ne_gt, ← ne_eq, compare_le_iff_le]

/-- Asking for one result is a test of the result. -/
theorem beq_some_eq_any (result : Option Ordering) (expected : Ordering) :
    (result == some expected) = result.any (· == expected) := by
  cases result <;> rfl

theorem lt_iff_rank :
    x < y ↔ x.isNaN = false ∧ y.isNaN = false ∧ rank (value x) < rank (value y) := by
  have hlt : x < y ↔ ((value x).compare (value y) == some .lt) = true := decide_eq_true_iff
  rw [hlt, beq_some_eq_any, any_compare_iff, beq_iff_eq, compare_lt_iff_lt]

theorem beq_iff_rank :
    (x == y) = true ↔ x.isNaN = false ∧ y.isNaN = false ∧ rank (value x) = rank (value y) := by
  have heq : (x == y) = ((value x).compare (value y) == some .eq) := rfl
  rw [heq, beq_some_eq_any, any_compare_iff, beq_iff_eq, compare_eq_iff_eq]

/-! ### Least and greatest numbers -/

theorem le_refl (hx : x.isNaN = false) : x ≤ x := le_iff_rank.2 ⟨hx, hx, le_rfl⟩

theorem le_trans (hxy : x ≤ y) (hyz : y ≤ z) : x ≤ z := by
  obtain ⟨hx, -, hxy⟩ := le_iff_rank.1 hxy
  obtain ⟨-, hz, hyz⟩ := le_iff_rank.1 hyz
  exact le_iff_rank.2 ⟨hx, hz, hxy.trans hyz⟩

theorem le_of_lt (h : x < y) : x ≤ y := by
  obtain ⟨hx, hy, hrank⟩ := lt_iff_rank.1 h
  exact le_iff_rank.2 ⟨hx, hy, hrank.le⟩

theorem le_of_not_lt (hx : x.isNaN = false) (hy : y.isNaN = false) (h : ¬x < y) : y ≤ x := by
  refine le_iff_rank.2 ⟨hy, hx, not_lt.1 fun hrank => h ?_⟩
  exact lt_iff_rank.2 ⟨hx, hy, hrank⟩

theorem beq_of_le_of_le (hxy : x ≤ y) (hyx : y ≤ x) : (x == y) = true := by
  obtain ⟨hx, hy, hxy⟩ := le_iff_rank.1 hxy
  exact beq_iff_rank.2 ⟨hx, hy, hxy.antisymm (le_iff_rank.1 hyx).2.2⟩

theorem beq_of_isLeast (hx : IsLeast numbers x) (hy : IsLeast numbers y) : (x == y) = true :=
  beq_of_le_of_le (hx.2 hy.1) (hy.2 hx.1)

theorem beq_of_isGreatest (hx : IsGreatest numbers x) (hy : IsGreatest numbers y) :
    (x == y) = true :=
  beq_of_le_of_le (hy.2 hx.1) (hx.2 hy.1)

/-- The smaller of the least number so far and a new one is the least of all. -/
theorem isLeast_insert (hx : IsLeast numbers x) (hy : y.isNaN = false) :
    IsLeast (insert y numbers) (if x < y then x else y) := by
  obtain ⟨hmem, hleast⟩ := hx
  have hnumber : x.isNaN = false := (le_iff_rank.1 (hleast hmem)).1
  split
  · next hlt =>
    refine ⟨.inr hmem, ?_⟩
    rintro z (rfl | hz)
    · exact le_of_lt hlt
    · exact hleast hz
  · next hnot =>
    refine ⟨.inl rfl, ?_⟩
    rintro z (rfl | hz)
    · exact le_refl hy
    · exact le_trans (le_of_not_lt hnumber hy hnot) (hleast hz)

/-- The larger of the greatest number so far and a new one is the greatest of all. -/
theorem isGreatest_insert (hx : IsGreatest numbers x) (hy : y.isNaN = false) :
    IsGreatest (insert y numbers) (if x > y then x else y) := by
  obtain ⟨hmem, hgreatest⟩ := hx
  have hnumber : x.isNaN = false := (le_iff_rank.1 (hgreatest hmem)).1
  split
  · next hlt =>
    refine ⟨.inr hmem, ?_⟩
    rintro z (rfl | hz)
    · exact le_of_lt hlt
    · exact hgreatest hz
  · next hnot =>
    refine ⟨.inl rfl, ?_⟩
    rintro z (rfl | hz)
    · exact le_refl hy
    · exact le_trans (hgreatest hz) (le_of_not_lt hy hnumber hnot)

end LSystem.Number
