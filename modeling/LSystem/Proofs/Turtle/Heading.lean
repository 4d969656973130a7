import LSystem.Proofs.Number.Magnitude
import LSystem.Turtle.Config

/-!
# The heading at the start

The turtle starts with the orientation of its parameters divided by its length. Accepted parameters
have a finite orientation whose squared length is not zero, and dividing by the root of it always
gives finite components: where a component is large the length is as large, and a small component is
divided by no less than the root of the smallest float.

The quotients are not all zero either, with one exception. The squared length of a finite orientation
can overflow, and then every component is divided by an infinity. Such parameters are accepted all
the same, and the turtle starts without a heading (`not_forall_heading`). The main statement,
`start_rotation`, says that there is no other way to lose it.
-/

namespace LSystem

open Number
open Float.Model (UnpackedFloat)

namespace Quaternion

variable {q : Quaternion}

/-- The quaternion of length zero, which is no rotation. -/
def zero : Quaternion := ⟨0, 0, 0, 0⟩

def components (q : Quaternion) : List Float32 := [q.x, q.y, q.z, q.w]

theorem forall_components {P : Float32 → Prop} :
    (∀ c ∈ q.components, P c) ↔ P q.x ∧ P q.y ∧ P q.z ∧ P q.w := by
  simp [components]

theorem isFinite_iff : q.isFinite = true ↔ ∀ c ∈ q.components, c.isFinite = true := by
  simp [forall_components, isFinite, and_assoc]

theorem beq_zero_iff : (q == zero) = true ↔ ∀ c ∈ q.components, IsZero (value c) := by
  have hbeq : (q == zero) = (q.x == 0 && (q.y == 0 && (q.z == 0 && q.w == 0))) := rfl
  simp [hbeq, forall_components, Number.beq_zero_iff]

theorem components_normalize :
    q.normalize.components = q.components.map (· / q.lengthSquared.sqrt) := rfl

/-- The squared length is at least as large as the square of each component, and zero if they all
are. -/
theorem lengthSquared_spec (hq : q.isFinite = true) :
    Nonneg (value q.lengthSquared) ∧
      (∀ c ∈ q.components, ∀ place, Reaches place (value (c * c)) →
        Reaches place (value q.lengthSquared)) ∧
      ((∀ c ∈ q.components, IsZero (value (c * c))) → IsZero (value q.lengthSquared)) := by
  have hsquare : ∀ c ∈ q.components, Nonneg (value (c * c)) := fun c hc =>
    nonneg_mul_self (isFinite_iff.1 hq c hc)
  rw [forall_components] at hsquare ⊢
  rw [forall_components]
  obtain ⟨hx, hy, hz, hw⟩ := hsquare
  obtain ⟨hleft, hreach⟩ := hx.add hz
  obtain ⟨hright, hreach'⟩ := hy.add hw
  obtain ⟨hsum, hreach''⟩ := hleft.add hright
  refine ⟨hsum, ⟨fun place h => ?_, fun place h => ?_, fun place h => ?_, fun place h => ?_⟩, ?_⟩
  · exact hreach'' place (.inl (hreach place (.inl h)))
  · exact hreach'' place (.inr (hreach' place (.inl h)))
  · exact hreach'' place (.inl (hreach place (.inr h)))
  · exact hreach'' place (.inr (hreach' place (.inr h)))
  · rintro ⟨hxzero, hyzero, hzzero, hwzero⟩
    exact hleft.isZero_add hright (hx.isZero_add hz hxzero hzzero) (hy.isZero_add hw hyzero hwzero)

/-- A squared length that overflowed divides all components away. -/
theorem isZero_of_isInf (hq : q.isFinite = true) (hlength : q.lengthSquared.isInf = true) :
    ∀ c ∈ q.components, IsZero (value (c / q.lengthSquared.sqrt)) := by
  intro c hc
  obtain ⟨hsign, -, -⟩ := lengthSquared_spec hq
  have hroot : value q.lengthSquared.sqrt = .infinity .positive := by
    rw [value_sqrt]
    change (value q.lengthSquared).isInf = true at hlength
    generalize value q.lengthSquared = u at hsign hlength
    cases hsign with
    | zero => exact nomatch hlength
    | finite => exact nomatch hlength
    | infinity => exact settle_infinity
  exact isZero_div_infinity (isFinite_iff.1 hq c hc) hroot

/-- What each component is divided by, if the squared length is a positive number. -/
theorem length_bounds (hq : q.isFinite = true) (hzero : ¬IsZero (value q.lengthSquared))
    (hlength : q.lengthSquared.isInf = false) :
    Reaches (-75) (value q.lengthSquared.sqrt) ∧ Below 65 (value q.lengthSquared.sqrt) := by
  obtain ⟨hsign, -, -⟩ := lengthSquared_spec hq
  have hleast := hsign.isZero_or_reaches.resolve_left hzero
  have hmost : Below 128 (value q.lengthSquared) := by
    apply below_of_isFinite
    change (value q.lengthSquared).isInf = false at hlength
    change (value q.lengthSquared).isFinite = true
    generalize value q.lengthSquared = u at hsign hlength
    cases hsign with
    | zero => rfl
    | finite => rfl
    | infinity => exact nomatch hlength
  exact ⟨reaches_sqrt hsign (hleast.mono (by decide)) (by decide),
    @below_sqrt _ 64 hsign hmost (by decide) (by decide)⟩

/-- A component from `4` up has a square that makes the length as large, and a smaller one is divided
by no less than `2 ^ (-75)`. -/
theorem isFinite_quotient (hq : q.isFinite = true) (hzero : ¬IsZero (value q.lengthSquared))
    (hlength : q.lengthSquared.isInf = false) {c : Float32} (hc : c ∈ q.components) :
    (c / q.lengthSquared.sqrt).isFinite = true := by
  obtain ⟨hsign, hreach, -⟩ := lengthSquared_spec hq
  have hfinite := isFinite_iff.1 hq c hc
  rcases below_or_reaches hfinite 2 with hsmall | hlarge
  · have hleast := (length_bounds hq hzero hlength).1
    exact (below_div hsmall hleast (by decide) (by decide)).isFinite
  · have hsquare : Reaches (2 * 2) (value q.lengthSquared) :=
      hreach c hc 4 (reaches_mul hlarge hlarge (by decide))
    have hroot := reaches_sqrt hsign hsquare (by decide)
    exact (below_div (below_of_isFinite hfinite) hroot (by decide) (by decide)).isFinite

/-- A component whose square does not vanish is at least `2 ^ (-75)`, and dividing it by a length
below `2 ^ 65` leaves something. -/
theorem exists_quotient_ne_zero (hq : q.isFinite = true)
    (hzero : ¬IsZero (value q.lengthSquared)) (hlength : q.lengthSquared.isInf = false) :
    ∃ c ∈ q.components, ¬IsZero (value (c / q.lengthSquared.sqrt)) := by
  obtain ⟨hsign, -, hvanish⟩ := lengthSquared_spec hq
  obtain ⟨c, hc, hsquare⟩ : ∃ c ∈ q.components, ¬IsZero (value (c * c)) := by
    by_contra hnone
    exact hzero (hvanish fun c hc => not_not.1 fun hsquare => hnone ⟨c, hc, hsquare⟩)
  have hsome : Reaches (-75) (value c) := by
    refine (below_or_reaches (isFinite_iff.1 hq c hc) (-75)).resolve_left fun hsmall => ?_
    exact hsquare (isZero_mul hsmall hsmall (by decide))
  have hmost := (length_bounds hq hzero hlength).2
  exact ⟨c, hc, (reaches_div hsome hmost (by decide)).not_isZero⟩

end Quaternion

namespace Turtle.Config

/-- What `validate` makes sure of about the orientation. -/
theorem orientation_of_validate {config : Config} (hvalid : config.validate = .ok ()) :
    config.orientation.isFinite = true ∧ ¬IsZero (value config.orientation.lengthSquared) := by
  obtain ⟨-, -, -, hfinite, hsome⟩ := validate_eq_ok_iff.1 hvalid
  rw [← Number.beq_zero_iff, hsome]
  exact ⟨hfinite, Bool.false_ne_true⟩

/-- With accepted parameters the rotation at the start has finite components. It is zero, and leaves
the turtle without a heading, exactly if the squared length of the orientation overflows. -/
theorem start_rotation {config : Config} (hvalid : config.validate = .ok ()) :
    config.start.rotation.isFinite = true ∧
      ((config.start.rotation == Quaternion.zero) = true ↔
        config.orientation.lengthSquared.isInf = true) := by
  obtain ⟨hfinite, hsome⟩ := orientation_of_validate hvalid
  have hrotation : config.start.rotation = config.orientation.normalize := rfl
  rw [hrotation, Quaternion.isFinite_iff, Quaternion.beq_zero_iff,
    Quaternion.components_normalize, List.forall_mem_map, List.forall_mem_map]
  cases hlength : config.orientation.lengthSquared.isInf with
  | true =>
    have hgone := Quaternion.isZero_of_isInf hfinite hlength
    exact ⟨fun c hc => (hgone c hc).isFinite, iff_of_true hgone rfl⟩
  | false =>
    refine ⟨fun c hc => Quaternion.isFinite_quotient hfinite hsome hlength hc, iff_of_false ?_ ?_⟩
    · obtain ⟨c, hc, hkept⟩ := Quaternion.exists_quotient_ne_zero hfinite hsome hlength
      exact fun hgone => hkept (hgone c hc)
    · exact Bool.false_ne_true

/-- Parameters with an orientation that turns nothing and has a length of `10 ^ 20`. -/
def long : Config := { (default : Config) with orientation := ⟨0, 0, 0, .ofBits 0x60ad78ec⟩ }

theorem start_rotation_long :
    long.validate = .ok () ∧ long.orientation.lengthSquared.isInf = true ∧
      long.start.rotation.isFinite = true ∧ (long.start.rotation == Quaternion.zero) = true := by
  have hvalid : long.validate = .ok () := by decide +kernel
  have hlength : long.orientation.lengthSquared.isInf = true := by decide +kernel
  obtain ⟨hfinite, hzero⟩ := start_rotation hvalid
  exact ⟨hvalid, hlength, hfinite, hzero.2 hlength⟩

/-- Accepted parameters do not guarantee a heading. -/
theorem not_forall_heading :
    ¬∀ config : Config, config.validate = .ok () →
      config.start.rotation.isFinite = true ∧
        (config.start.rotation == Quaternion.zero) = false := by
  intro hheading
  have hvalid : long.validate = .ok () := by decide +kernel
  have hzero : (long.start.rotation == Quaternion.zero) = true := by decide +kernel
  rw [(hheading long hvalid).2] at hzero
  exact nomatch hzero

end Turtle.Config

end LSystem
