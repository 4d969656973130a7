import LSystem.Proofs.Number.Conversion
import LSystem.Proofs.Number.LeadingDigit

/-!
# How large results are

Bounds by powers of two on the results of single precision arithmetic, overflow and underflow
included. `Below k` says of a value that it is finite and smaller than `2 ^ k`, and `Reaches k` that
it is at least as large as `2 ^ k` or an infinity, both up to the sign. For products, quotients and
roots the bounds add, subtract and halve, as long as they stay at or above the least place, which is
`2 ^ (-149)`. Where a result is rounded upwards a bound from above loses one place.

Sums are bounded for floats that are not negative (`Nonneg`), where nothing cancels.
-/

namespace LSystem.Number

open Float.Model (Format UnpackedFloat totalExponent)
open Float.Model.UnpackedFloat

/-- What a float stands for. -/
def value (x : Float32) : UnpackedFloat := x.toModel.unpack

/-- What is left of a result by the bits in which it is kept. -/
def settle (x : UnpackedFloat) : UnpackedFloat := unpack .binary32 (pack .binary32 x)

inductive IsZero : UnpackedFloat → Prop
  | zero (sign : Sign) : IsZero (.zero sign)

/-- Finite, and smaller than `2 ^ place` up to the sign. -/
inductive Below (place : Int) : UnpackedFloat → Prop
  | zero (sign : Sign) : Below place (.zero sign)
  | finite {sign : Sign} {mantissa : Nat} {exponent : Int} {hpos : 0 < mantissa}
      (hplace : totalExponent mantissa exponent ≤ place) :
      Below place (.finite sign mantissa exponent hpos)

/-- At least as large as `2 ^ place` up to the sign, or an infinity. -/
inductive Reaches (place : Int) : UnpackedFloat → Prop
  | infinity (sign : Sign) : Reaches place (.infinity sign)
  | finite {sign : Sign} {mantissa : Nat} {exponent : Int} {hpos : 0 < mantissa}
      (hplace : place < totalExponent mantissa exponent) :
      Reaches place (.finite sign mantissa exponent hpos)

/-- A number, and without a minus sign. -/
inductive Nonneg : UnpackedFloat → Prop
  | zero : Nonneg (.zero .positive)
  | finite {mantissa : Nat} {exponent : Int} {hpos : 0 < mantissa} :
      Nonneg (.finite .positive mantissa exponent hpos)
  | infinity : Nonneg (.infinity .positive)

variable {sign : Sign} {mantissa : Nat} {exponent : Int} {accuracy : Accuracy}
variable {x y : Float32} {place left right : Int}

/-! ### Operations and what they stand for -/

theorem value_add (x y : Float32) :
    value (x + y) = settle (add .binary32 (value x) (value y)) := rfl

theorem value_mul (x y : Float32) :
    value (x * y) = settle (mul .binary32 (value x) (value y)) := rfl

theorem value_div (x y : Float32) :
    value (x / y) = settle (div .binary32 (value x) (value y)) := rfl

theorem value_sqrt (x : Float32) : value x.sqrt = settle (sqrt .binary32 (value x)) := rfl

theorem representable_value (x : Float32) : Representable .binary32 (value x) :=
  representable_single x

theorem settle_value (x : Float32) : settle (value x) = value x :=
  unpack_pack (by decide) (representable_value x)

@[simp]
theorem settle_zero : settle (.zero sign) = .zero sign := unpack_packedZero

@[simp]
theorem settle_infinity : settle (.infinity sign) = .infinity sign :=
  unpack_pack (by decide) trivial

/-- The leading digit of a finite float is in the range of single precision. -/
theorem totalExponent_bounds {hpos : 0 < mantissa}
    (hx : Representable .binary32 (.finite sign mantissa exponent hpos)) :
    -149 < totalExponent mantissa exponent ∧ totalExponent mantissa exponent ≤ 128 := by
  obtain ⟨hcanonical, hfits⟩ := representable_iff_totalExponent_le.1 hx
  have hplaces : totalExponent mantissa exponent = mantissa.log2 + 1 + exponent := rfl
  rw [Canonical, targetExponent_single] at hcanonical
  omega

/-- A finite float is a zero or has a leading digit. -/
theorem value_of_isFinite (hx : x.isFinite = true) :
    (∃ sign, value x = .zero sign) ∨ ∃ sign mantissa exponent hpos,
      value x = .finite sign mantissa exponent hpos ∧ totalExponent mantissa exponent ≤ 128 := by
  have hrange := representable_value x
  change (value x).isFinite = true at hx
  cases hvalue : value x with
  | zero sign => exact .inl ⟨sign, rfl⟩
  | finite sign mantissa exponent hpos =>
    rw [hvalue] at hrange
    exact .inr ⟨sign, mantissa, exponent, hpos, rfl, (totalExponent_bounds hrange).2⟩
  | infinity sign => rw [hvalue] at hx; exact nomatch hx
  | notANumber => rw [hvalue] at hx; exact nomatch hx

theorem below_of_isFinite (hx : x.isFinite = true) : Below 128 (value x) := by
  rcases value_of_isFinite hx with ⟨sign, hvalue⟩ | ⟨sign, mantissa, exponent, hpos, hvalue, hplace⟩
  · rw [hvalue]
    exact .zero sign
  · rw [hvalue]
    exact .finite hplace

theorem IsZero.isFinite {u : UnpackedFloat} (hu : IsZero u) : u.isFinite = true := by
  cases hu
  rfl

theorem Below.isFinite {u : UnpackedFloat} (hu : Below place u) : u.isFinite = true := by
  cases hu <;> rfl

/-- A finite float is on one side of a power of two or on the other. -/
theorem below_or_reaches (hx : x.isFinite = true) (place : Int) :
    Below place (value x) ∨ Reaches place (value x) := by
  rcases value_of_isFinite hx with ⟨sign, hvalue⟩ | ⟨sign, mantissa, exponent, hpos, hvalue, -⟩
  · rw [hvalue]
    exact .inl (.zero sign)
  · rw [hvalue]
    exact (le_or_gt (totalExponent mantissa exponent) place).imp .finite .finite

theorem Reaches.not_isZero {u : UnpackedFloat} (hu : Reaches place u) : ¬IsZero u := by
  cases hu <;> exact nofun

theorem Reaches.mono {u : UnpackedFloat} (hu : Reaches place u) (hle : left ≤ place) :
    Reaches left u := by
  cases hu with
  | infinity sign => exact .infinity sign
  | finite hplace => exact .finite (Int.lt_of_le_of_lt hle hplace)

/-- Values compare as equal if they are the same number, or both a zero. -/
theorem beq_iff {u v : UnpackedFloat} :
    u.beq v = true ↔ u = v ∧ u ≠ .notANumber ∨ IsZero u ∧ IsZero v := by
  rw [beq_iff_ne_notANumber_and_eq]
  constructor
  · rintro ⟨hu, -, rfl | ⟨rfl, rfl⟩ | ⟨rfl, rfl⟩⟩
    · exact .inl ⟨rfl, hu⟩
    · exact .inr ⟨.zero _, .zero _⟩
    · exact .inr ⟨.zero _, .zero _⟩
  · rintro (⟨rfl, hu⟩ | ⟨⟨sign⟩, ⟨sign'⟩⟩)
    · exact ⟨hu, hu, .inl rfl⟩
    · cases sign <;> cases sign' <;> simp

/-- Both zeros compare equal to zero, and nothing else does. -/
theorem beq_zero_iff (x : Float32) : (x == 0) = true ↔ IsZero (value x) := by
  have hzero : value 0 = .zero .positive := by rfl
  change (value x).beq (value 0) = true ↔ _
  rw [hzero, beq_iff]
  constructor
  · rintro (⟨hsame, -⟩ | ⟨hx, -⟩)
    · exact hsame ▸ .zero .positive
    · exact hx
  · exact fun hx => .inr ⟨hx, .zero .positive⟩

/-! ### Rounding -/

theorem reaches_rounded (hpos : 0 < mantissa)
    (hlow : exponent ≤ Format.binary32.targetExponent (totalExponent mantissa exponent))
    (hplace : place < totalExponent mantissa exponent) (hleast : -149 ≤ place) :
    Reaches place (settle (roundWithAccuracy .binary32 sign mantissa exponent accuracy)) := by
  have hmin := minExponent_single
  obtain ⟨rounded, exponent', hrounded, hround, hcanonical, hkept, -⟩ :=
    roundWithAccuracy_above sign accuracy hpos (by omega) hlow
  rw [hround, settle]
  rcases unpack_pack_cases sign hrounded hcanonical with ⟨-, hfits⟩ | ⟨-, hlarge⟩
  · rw [hfits]
    exact .finite (Int.lt_of_lt_of_le hplace hkept)
  · rw [hlarge]
    exact .infinity sign

theorem below_rounded
    (hlow : exponent ≤ Format.binary32.targetExponent (totalExponent mantissa exponent))
    (hplace : totalExponent mantissa exponent ≤ place) (hleast : -149 ≤ place)
    (hmost : place < 128) :
    Below (place + 1)
      (settle (roundWithAccuracy .binary32 sign mantissa exponent accuracy)) := by
  have hmin := minExponent_single
  rcases roundWithAccuracy_cases sign accuracy hlow with
    ⟨-, hround⟩ | ⟨rounded, exponent', hrounded, hround, hcanonical, -, hgrown⟩
  · rw [hround, settle_zero]
    exact .zero sign
  · rw [hround, settle]
    rcases unpack_pack_cases sign hrounded hcanonical with ⟨-, hfits⟩ | ⟨hlarge, -⟩
    · rw [hfits]
      exact .finite (by omega)
    · omega

/-! ### Products -/

/-- The product of two floats has enough digits to be rounded. -/
theorem product_low {first second : Nat} {low high : Int} (hfirst : 0 < first)
    (hsecond : 0 < second) (hcanonical : Canonical .binary32 first low)
    (hcanonical' : Canonical .binary32 second high) :
    low + high ≤ Format.binary32.targetExponent (totalExponent (first * second) (low + high)) := by
  have hlog := le_log2_mul hfirst hsecond
  simp only [Canonical, targetExponent_single, totalExponent] at *
  omega

theorem reaches_mul (hx : Reaches left (value x)) (hy : Reaches right (value y))
    (hleast : -149 ≤ left + right) : Reaches (left + right) (value (x * y)) := by
  have hleft := representable_value x
  have hright := representable_value y
  rw [value_mul]
  generalize value x = u at hx hleft
  generalize value y = v at hy hright
  cases hx with
  | infinity sign =>
    cases hy with
    | infinity sign' => simpa only [mul, settle_infinity] using .infinity _
    | finite hplace => simpa only [mul, settle_infinity] using .infinity _
  | @finite _ mantissa exponent hpos hplace =>
    cases hy with
    | infinity sign' => simpa only [mul, settle_infinity] using .infinity _
    | @finite _ mantissa' exponent' hpos' hplace' =>
      have hlog := le_log2_mul hpos hpos'
      refine reaches_rounded (Nat.mul_pos hpos hpos') (product_low hpos hpos' hleft.1 hright.1) ?_
        hleast
      simp only [totalExponent] at *
      omega

/-- A product below half of the least place vanishes. -/
theorem isZero_mul (hx : Below left (value x)) (hy : Below right (value y))
    (hvanish : left + right < -149) : IsZero (value (x * y)) := by
  rw [value_mul]
  generalize value x = u at hx
  generalize value y = v at hy
  cases hx with
  | zero sign =>
    cases hy with
    | zero sign' => simpa only [mul, settle_zero] using .zero _
    | finite hplace => simpa only [mul, settle_zero] using .zero _
  | @finite _ mantissa exponent hpos hplace =>
    cases hy with
    | zero sign' => simpa only [mul, settle_zero] using .zero _
    | @finite _ mantissa' exponent' hpos' hplace' =>
      have hmin := minExponent_single
      have hlog := log2_mul_le mantissa mantissa'
      have hsmall : totalExponent (mantissa * mantissa') (exponent + exponent') <
          Format.binary32.minExponent := by
        simp only [totalExponent] at *
        omega
      simpa only [mul, roundWithAccuracy_of_lt _ hsmall, settle_zero] using .zero _

/-! ### Sums without cancellation -/

/-- The exact sum of two positive numbers, at the smaller of their exponents. -/
theorem add_positive {first second : Nat} (low high : Int) (hfirst : 0 < first)
    (hsecond : 0 < second) :
    ∃ total : Nat, 0 < total ∧
      add .binary32 (.finite .positive first low hfirst) (.finite .positive second high hsecond) =
        UnpackedFloat.round .binary32 .positive total (min low high) ∧
      totalExponent first low ≤ totalExponent total (min low high) ∧
      totalExponent second high ≤ totalExponent total (min low high) := by
  obtain ⟨count, hcount⟩ : ∃ count : Nat, (low - min low high).toNat = count := ⟨_, rfl⟩
  obtain ⟨count', hcount'⟩ : ∃ count' : Nat, (high - min low high).toNat = count' := ⟨_, rfl⟩
  have hleft : 0 < first * 2 ^ count := Nat.mul_pos hfirst (Nat.two_pow_pos count)
  have hright : 0 < second * 2 ^ count' := Nat.mul_pos hsecond (Nat.two_pow_pos count')
  have hlog : (first * 2 ^ count).log2 ≤ (first * 2 ^ count + second * 2 ^ count').log2 := by
    rw [Nat.le_log2 (by omega)]
    exact Nat.le_trans (Nat.log2_self_le (by omega)) (Nat.le_add_right _ _)
  have hlog' : (second * 2 ^ count').log2 ≤ (first * 2 ^ count + second * 2 ^ count').log2 := by
    rw [Nat.le_log2 (by omega)]
    exact Nat.le_trans (Nat.log2_self_le (by omega)) (Nat.le_add_left _ _)
  rw [log2_mul_two_pow hfirst] at hlog
  rw [log2_mul_two_pow hsecond] at hlog'
  refine ⟨first * 2 ^ count + second * 2 ^ count', by omega, ?_, ?_, ?_⟩
  · have hsum : ((first * 2 ^ count : Nat) : Int) + (second * 2 ^ count' : Nat) =
        (first * 2 ^ count + second * 2 ^ count' : Nat) := by omega
    have hpos : compare ((first * 2 ^ count + second * 2 ^ count' : Nat) : Int) 0 = .gt :=
      Int.compare_eq_gt.2 (by omega)
    simp only [add, decreaseExponent, Sign.apply, Nat.shiftLeft_eq, hcount, hcount',
      UnpackedFloat.normalize, hsum, hpos, Int.toNat_natCast]
  · simp only [totalExponent]
    omega
  · simp only [totalExponent]
    omega

/-- A sum of floats without minus signs has none either, and it is at least as large as each. -/
theorem Nonneg.add (hx : Nonneg (value x)) (hy : Nonneg (value y)) :
    Nonneg (value (x + y)) ∧ ∀ place, Reaches place (value x) ∨ Reaches place (value y) →
      Reaches place (value (x + y)) := by
  have hleft := representable_value x
  have hkept := settle_value x
  have hkept' := settle_value y
  rw [value_add]
  generalize value x = u at hx hleft hkept
  generalize value y = v at hy hkept'
  cases hx with
  | infinity =>
    have hsum : UnpackedFloat.add .binary32 (.infinity .positive) v = .infinity .positive := by
      cases hy <;> rfl
    rw [hsum, settle_infinity]
    exact ⟨.infinity, fun _ _ => .infinity _⟩
  | zero =>
    have hsum : UnpackedFloat.add .binary32 (.zero .positive) v = v := by
      cases hy <;> rfl
    rw [hsum, hkept']
    exact ⟨hy, fun place hsome => hsome.resolve_left nofun⟩
  | @finite mantissa exponent hpos =>
    cases hy with
    | infinity =>
      simp only [UnpackedFloat.add, settle_infinity]
      exact ⟨.infinity, fun _ _ => .infinity _⟩
    | zero =>
      simp only [UnpackedFloat.add, hkept]
      exact ⟨.finite, fun place hsome => hsome.resolve_right nofun⟩
    | @finite mantissa' exponent' hpos' =>
      have hmin := minExponent_single
      have hplace := (totalExponent_bounds hleft).1
      obtain ⟨total, htotal, hsum, hfirst, hsecond⟩ := add_positive exponent exponent' hpos hpos'
      obtain ⟨rounded, exponent'', hrounded, hround, hcanonical, hgrown, -⟩ :=
        @round_cases .binary32 total (min exponent exponent') .positive htotal (by omega)
      rw [hsum, hround, settle]
      rcases unpack_pack_cases .positive hrounded hcanonical with
        ⟨-, hfits⟩ | ⟨-, hlarge⟩
      · rw [hfits]
        refine ⟨.finite, fun place hsome => .finite ?_⟩
        rcases hsome with hsome | hsome <;> cases hsome <;> omega
      · rw [hlarge]
        exact ⟨.infinity, fun _ _ => .infinity _⟩

theorem Nonneg.isZero_add (hx : Nonneg (value x)) (hy : Nonneg (value y)) (hzero : IsZero (value x))
    (hzero' : IsZero (value y)) : IsZero (value (x + y)) := by
  rw [value_add]
  generalize value x = u at hx hzero
  generalize value y = v at hy hzero'
  cases hzero
  cases hzero'
  cases hx
  cases hy
  exact settle_zero ▸ .zero .positive

/-- A square has no minus sign. -/
theorem nonneg_mul_self (hx : x.isFinite = true) : Nonneg (value (x * x)) := by
  have hrange := representable_value x
  rw [value_mul]
  rcases value_of_isFinite hx with ⟨sign, hvalue⟩ | ⟨sign, mantissa, exponent, hpos, hvalue, -⟩
  · rw [hvalue]
    cases sign <;> simpa only [mul, settle_zero] using .zero
  · rw [hvalue] at hrange ⊢
    have hsign : sign * sign = .positive := by cases sign <;> rfl
    have hround := roundWithAccuracy_cases .positive .exact
      (product_low hpos hpos hrange.1 hrange.1)
    simp only [mul, hsign]
    rcases hround with ⟨-, hround⟩ | ⟨rounded, exponent', hrounded, hround, hcanonical, -⟩
    · rw [hround, settle_zero]
      exact .zero
    · rw [hround, settle]
      rcases unpack_pack_cases .positive hrounded hcanonical with
        ⟨-, hfits⟩ | ⟨-, hlarge⟩
      · rw [hfits]
        exact .finite
      · rw [hlarge]
        exact .infinity

/-- A float without a minus sign is zero or at least the smallest float. -/
theorem Nonneg.isZero_or_reaches (hx : Nonneg (value x)) :
    IsZero (value x) ∨ Reaches (-149) (value x) := by
  have hrange := representable_value x
  generalize value x = u at hx hrange
  cases hx with
  | zero => exact .inl (.zero _)
  | infinity => exact .inr (.infinity _)
  | finite => exact .inr (.finite (totalExponent_bounds hrange).1)

/-! ### Square roots -/

/-- The leading digit of a root stands at half the place. -/
theorem log2_sqrt (radicand : Nat) : radicand.sqrt.log2 = radicand.log2 / 2 := by
  by_cases hzero : radicand = 0
  · subst hzero
    rfl
  · have hroot : radicand.sqrt ≠ 0 := Nat.ne_of_gt (Nat.sqrt_pos.2 (Nat.pos_of_ne_zero hzero))
    rw [Nat.log2_eq_iff hroot]
    constructor
    · rw [Nat.le_sqrt, ← Nat.pow_add]
      exact Nat.le_trans (Nat.pow_le_pow_right (by decide) (by omega)) (Nat.log2_self_le hzero)
    · rw [Nat.sqrt_lt, ← Nat.pow_add]
      exact Nat.lt_of_lt_of_le Nat.lt_log2_self (Nat.pow_le_pow_right (by decide) (by omega))

/-- A root is rounded from a mantissa and an exponent with half of the total exponent. -/
theorem sqrtCore_place (exponent : Int) (hpos : 0 < mantissa) :
    let core := sqrtCore .binary32 mantissa exponent
    0 < core.1 ∧ core.2.1 ≤ Format.binary32.targetExponent (totalExponent core.1 core.2.1) ∧
      totalExponent core.1 core.2.1 = (totalExponent mantissa exponent + 1) / 2 := by
  intro core
  obtain ⟨half, hhalf⟩ : ∃ half, min (exponent.ediv 2) (Format.binary32.targetExponent
      ((totalExponent mantissa exponent + 1).ediv 2)) = half := ⟨_, rfl⟩
  obtain ⟨count, hcount⟩ : ∃ count : Nat, (exponent - 2 * half).toNat = count := ⟨_, rfl⟩
  have hroom : half ≤ exponent / 2 := by
    rw [← hhalf]
    exact Int.min_le_left _ _
  have hlow : half ≤
      Format.binary32.targetExponent ((totalExponent mantissa exponent + 1) / 2) := by
    rw [← hhalf]
    exact Int.min_le_right _ _
  have hroot : core.1 = (mantissa * 2 ^ count).sqrt := by
    simp only [core, sqrtCore, hhalf, hcount, Nat.shiftLeft_eq]
  have hexponent : core.2.1 = half := hhalf
  have hplace : totalExponent (mantissa * 2 ^ count).sqrt half =
      (totalExponent mantissa exponent + 1) / 2 := by
    rw [totalExponent, totalExponent, log2_sqrt, log2_mul_two_pow hpos]
    omega
  rw [hroot, hexponent, hplace]
  exact ⟨Nat.sqrt_pos.2 (Nat.mul_pos hpos (Nat.two_pow_pos count)), hlow, rfl⟩

theorem reaches_sqrt (hsign : Nonneg (value x)) (hx : Reaches (2 * place) (value x))
    (hleast : -149 ≤ place) : Reaches place (value x.sqrt) := by
  rw [value_sqrt]
  generalize value x = u at hsign hx
  cases hsign with
  | zero => exact nomatch hx
  | infinity =>
    rw [UnpackedFloat.sqrt, settle_infinity]
    exact .infinity _
  | @finite mantissa exponent hpos =>
    cases hx with
    | finite hplace =>
      obtain ⟨hroot, hlow, htotal⟩ := sqrtCore_place exponent hpos
      exact reaches_rounded hroot hlow (lt_of_lt_of_eq (by omega) htotal.symm) hleast

theorem below_sqrt (hsign : Nonneg (value x)) (hx : Below (2 * place) (value x))
    (hleast : -149 ≤ place) (hmost : place < 128) : Below (place + 1) (value x.sqrt) := by
  rw [value_sqrt]
  generalize value x = u at hsign hx
  cases hsign with
  | infinity => exact nomatch hx
  | zero =>
    rw [UnpackedFloat.sqrt, settle_zero]
    exact .zero _
  | @finite mantissa exponent hpos =>
    cases hx with
    | finite hplace =>
      obtain ⟨-, hlow, htotal⟩ := sqrtCore_place exponent hpos
      exact below_rounded hlow (le_of_eq_of_le htotal (by omega)) hleast hmost

/-! ### Quotients -/

/-- Infinities divide every finite float away. -/
theorem isZero_div_infinity (hx : x.isFinite = true) (hy : value y = .infinity sign) :
    IsZero (value (x / y)) := by
  rw [value_div, hy]
  rcases value_of_isFinite hx with ⟨sign', hvalue⟩ | ⟨sign', mantissa, exponent, hpos, hvalue, -⟩
  · simpa only [hvalue, UnpackedFloat.div, settle_zero] using .zero _
  · simpa only [hvalue, UnpackedFloat.div, settle_zero] using .zero _

/-- The logarithm of a quotient is the difference of the logarithms or one less. -/
theorem log2_div_bounds {dividend divisor : Nat} (hdivisor : 0 < divisor)
    (hquotient : 0 < dividend / divisor) :
    (dividend / divisor).log2 + divisor.log2 ≤ dividend.log2 ∧
      dividend.log2 ≤ (dividend / divisor).log2 + divisor.log2 + 1 := by
  have hproduct := Nat.div_mul_le_self dividend divisor
  have hpos : 0 < dividend / divisor * divisor := Nat.mul_pos hquotient hdivisor
  constructor
  · refine Nat.le_trans (le_log2_mul hquotient hdivisor) ?_
    rw [Nat.le_log2 (by omega)]
    exact Nat.le_trans (Nat.log2_self_le (Nat.ne_of_gt hpos)) hproduct
  · apply Nat.le_of_lt_succ
    rw [Nat.log2_lt (by omega)]
    calc dividend < divisor * (dividend / divisor + 1) := Nat.lt_mul_div_succ dividend hdivisor
      _ ≤ 2 ^ (divisor.log2 + 1) * 2 ^ ((dividend / divisor).log2 + 1) :=
          Nat.mul_le_mul (Nat.le_of_lt Nat.lt_log2_self) Nat.lt_log2_self
      _ = 2 ^ ((dividend / divisor).log2 + divisor.log2 + 1).succ := by
          rw [← Nat.pow_add]
          congr 1
          omega

theorem div_pos_of_log2_lt {dividend divisor : Nat} (hdivisor : 0 < divisor)
    (hlog : divisor.log2 < dividend.log2) : 0 < dividend / divisor := by
  have hdividend : dividend ≠ 0 := by
    rintro rfl
    exact nomatch hlog
  refine Nat.div_pos ?_ hdivisor
  calc divisor ≤ 2 ^ (divisor.log2 + 1) := Nat.le_of_lt Nat.lt_log2_self
    _ ≤ 2 ^ dividend.log2 := Nat.pow_le_pow_right (by decide) hlog
    _ ≤ dividend := Nat.log2_self_le hdividend

/-- A quotient is rounded from a mantissa and an exponent with the difference of the total
exponents, or one more, unless it is too small. -/
theorem divCore_place {mantissa' : Nat} (exponent exponent' : Int) (hpos : 0 < mantissa)
    (hpos' : 0 < mantissa') :
    let core := divCore .binary32 mantissa exponent mantissa' exponent'
    let difference := totalExponent mantissa exponent - totalExponent mantissa' exponent'
    core.2.1 ≤ Format.binary32.targetExponent (totalExponent core.1 core.2.1) ∧
      totalExponent core.1 core.2.1 ≤ max difference (-149) + 1 ∧
      (-149 < difference → 0 < core.1 ∧ difference ≤ totalExponent core.1 core.2.1) := by
  intro core difference
  have hdifference : difference = mantissa.log2 + exponent - (mantissa'.log2 + exponent') := by
    simp only [difference, totalExponent]
    omega
  obtain ⟨low, hlow⟩ : ∃ low, min (exponent - exponent')
      (Format.binary32.targetExponent difference) = low := ⟨_, rfl⟩
  obtain ⟨count, hcount⟩ : ∃ count : Nat, (exponent - exponent' - low).toNat = count := ⟨_, rfl⟩
  have hquotient : core.1 = mantissa * 2 ^ count / mantissa' := by
    simp only [core, divCore, ← hcount, ← hlow, Nat.shiftLeft_eq]
    rfl
  have hexponent : core.2.1 = low := hlow
  have hlog := log2_mul_two_pow hpos count
  rw [hquotient, hexponent, totalExponent]
  rw [targetExponent_single] at hlow ⊢
  rcases Nat.eq_zero_or_pos (mantissa * 2 ^ count / mantissa') with hnone | hsome
  · have hsmall : ¬mantissa'.log2 < (mantissa * 2 ^ count).log2 := fun hlarger =>
      Nat.ne_of_gt (div_pos_of_log2_lt hpos' hlarger) hnone
    rw [hnone, Nat.log2_zero]
    omega
  · obtain ⟨hleast, hmost⟩ := log2_div_bounds hpos' hsome
    omega

theorem reaches_div (hx : Reaches left (value x)) (hy : Below right (value y))
    (hleast : -149 ≤ left - right) : Reaches (left - right) (value (x / y)) := by
  rw [value_div]
  generalize value x = u at hx
  generalize value y = v at hy
  cases hx with
  | infinity sign =>
    cases hy with
    | zero sign' => simpa only [UnpackedFloat.div, settle_infinity] using .infinity _
    | finite hplace => simpa only [UnpackedFloat.div, settle_infinity] using .infinity _
  | @finite sign mantissa exponent hpos hplace =>
    cases hy with
    | zero sign' => simpa only [UnpackedFloat.div, settle_infinity] using .infinity _
    | @finite sign' mantissa' exponent' hpos' hplace' =>
      obtain ⟨hlow, -, hlarge⟩ := divCore_place exponent exponent' hpos hpos'
      obtain ⟨hquotient, htotal⟩ := hlarge (by omega)
      exact reaches_rounded hquotient hlow (lt_of_lt_of_le (by omega) htotal) hleast

theorem below_div (hx : Below left (value x)) (hy : Reaches right (value y))
    (hleast : -149 < left - right) (hmost : left - right < 128) :
    Below (left - right + 1) (value (x / y)) := by
  rw [value_div]
  generalize value x = u at hx
  generalize value y = v at hy
  cases hx with
  | zero sign =>
    cases hy with
    | infinity sign' => simpa only [UnpackedFloat.div, settle_zero] using .zero _
    | finite hplace => simpa only [UnpackedFloat.div, settle_zero] using .zero _
  | @finite sign mantissa exponent hpos hplace =>
    cases hy with
    | infinity sign' => simpa only [UnpackedFloat.div, settle_zero] using .zero _
    | @finite sign' mantissa' exponent' hpos' hplace' =>
      obtain ⟨hlow, hsmall, -⟩ := divCore_place exponent exponent' hpos hpos'
      exact below_rounded hlow (le_trans hsmall (by omega)) (by omega) hmost

end LSystem.Number
