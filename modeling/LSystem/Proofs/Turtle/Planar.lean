import LSystem.Proofs.Number.Vanishing
import LSystem.Proofs.Turtle.Heading
import LSystem.Proofs.Turtle.Outcome
import LSystem.Proofs.Turtle.SideBySide

/-!
# Drawings in a plane

A turtle that starts in the plane of the first two axes, turned about the third axis only, never
leaves this plane. Not by a little either: the third coordinate of its place and the first two
components of its rotation are made from zeros alone, however often they are multiplied and added,
and so they stay zeros while the numbers that they are multiplied with are finite.

With infinities a zero becomes what is not a number, and that is the only way out. The rotation keeps
a witness of it: its third component is made from everything that the first two are multiplied with,
so it is not finite any more either (`Quaternion.KeepsPlane`). For a place the first coordinate is
such a witness (`Vec3.InPlane`). Both properties hold of a turtle at the start and are kept by every
operation, and branches only bring back states that had them before.

The main statement is `planar_of_interpret`.
-/

namespace LSystem

open Number

/-! ### Points and rotations -/

/-- The third coordinate is a zero. It may also be not a number, if the first coordinate has left the
range of numbers too. -/
def Vec3.InPlane (v : Vec3) : Prop := Vanishes (v.x.isFinite = true) v.z

/-- The first and the second component are zeros, as for a rotation about the third axis. They may
also be not numbers, if the third component has left the range of numbers too. -/
structure Quaternion.KeepsPlane (q : Quaternion) : Prop where
  x : Vanishes (q.z.isFinite = true) q.x
  y : Vanishes (q.z.isFinite = true) q.y

namespace Vec3

variable {v w : Vec3}

theorem InPlane.add (hv : v.InPlane) (hw : w.InPlane) : (v + w).InPlane := by
  have hparts : (v + w).x.isFinite = true → v.x.isFinite = true ∧ w.x.isFinite = true :=
    isFinite_of_add
  exact Vanishes.add (hv.mono fun h => (hparts h).1) (hw.mono fun h => (hparts h).2)

theorem InPlane.scale (hv : v.InPlane) (factor : Float32) : (v * factor).InPlane := by
  have hparts : (v * factor).x.isFinite = true → v.x.isFinite = true ∧ factor.isFinite = true :=
    isFinite_of_mul
  exact Vanishes.mul_right (hv.mono fun h => (hparts h).1) fun h => (hparts h).2

end Vec3

namespace Quaternion

variable {q l r : Quaternion}

/-- Every component of both factors has a part in the third component of a product. -/
theorem isFinite_of_mul_z (hfinite : (l * r).z.isFinite = true) :
    l.isFinite = true ∧ r.isFinite = true := by
  obtain ⟨hleft, hright⟩ := isFinite_of_add hfinite
  obtain ⟨hwz, hxy⟩ := isFinite_of_add hleft
  obtain ⟨hyx, hzw⟩ := isFinite_of_add hright
  rw [isFinite_neg] at hyx
  simp [isFinite, isFinite_of_mul hwz, isFinite_of_mul hxy, isFinite_of_mul hyx,
    isFinite_of_mul hzw]

theorem KeepsPlane.mul (hl : l.KeepsPlane) (hr : r.KeepsPlane) : (l * r).KeepsPlane := by
  have hleft (h : (l * r).z.isFinite = true) :=
    forall_components.1 (isFinite_iff.1 (isFinite_of_mul_z h).1)
  have hright (h : (l * r).z.isFinite = true) :=
    forall_components.1 (isFinite_iff.1 (isFinite_of_mul_z h).2)
  -- While the third component of the product is finite, zeros meet nothing but finite factors.
  have hlz h := (hleft h).2.2.1
  have hlw h := (hleft h).2.2.2
  have hrz h := (hright h).2.2.1
  have hrw h := (hright h).2.2.2
  have hlx := hl.x.mono hlz
  have hly := hl.y.mono hlz
  have hrx := hr.x.mono hrz
  have hry := hr.y.mono hrz
  constructor
  · exact ((hrx.mul_left hlw).add (hlx.mul_right hrw)).add
      ((hly.mul_right hrz).sub (hry.mul_left hlz))
  · exact ((hry.mul_left hlw).sub (hlx.mul_right hrz)).add
      ((hly.mul_right hrw).add (hrx.mul_left hlz))

theorem keepsPlane_aboutZ (angle : Float32) : (aboutZ angle).KeepsPlane := by
  have hzero : Vanishes ((aboutZ angle).z.isFinite = true) (0 * Number.sine (angle * 0.5)) :=
    Vanishes.zero.mul_right fun h => (isFinite_of_mul h).2
  exact ⟨hzero, hzero⟩

/-- A rotation that keeps the plane has its heading in the plane. -/
theorem KeepsPlane.inPlane_heading (hq : q.KeepsPlane) : (q * Vec3.unitY).InPlane := by
  let heading := q * Vec3.unitY
  let along := q.w * q.w - q.axis.dot q.axis
  let onto := Vec3.unitY.dot q.axis * 2
  have hx : heading.x = 0 * along + q.x * onto + (q.y * 0 - 1 * q.z) * (q.w * 2) := rfl
  have hz : heading.z = 0 * along + q.z * onto + (q.x * 1 - 0 * q.y) * (q.w * 2) := rfl
  -- The first coordinate uses each number that a zero in the third one is multiplied with.
  have hparts (h : heading.x.isFinite = true) :
      along.isFinite = true ∧ q.x.isFinite = true ∧ q.y.isFinite = true ∧ q.z.isFinite = true ∧
        (q.w * 2).isFinite = true := by
    rw [hx] at h
    obtain ⟨hleft, hright⟩ := isFinite_of_add h
    obtain ⟨halong, hxonto⟩ := isFinite_of_add hleft
    obtain ⟨hyz, hw⟩ := isFinite_of_mul hright
    obtain ⟨hy, hzz⟩ := isFinite_of_sub hyz
    exact ⟨(isFinite_of_mul halong).2, (isFinite_of_mul hxonto).1, (isFinite_of_mul hy).1,
      (isFinite_of_mul hzz).2, hw⟩
  have halong h := (hparts h).1
  have hxfinite h := (hparts h).2.1
  have hyfinite h := (hparts h).2.2.1
  have hzfinite h := (hparts h).2.2.2.1
  have hwfinite h := (hparts h).2.2.2.2
  have hqx := hq.x.mono hzfinite
  have hqy := hq.y.mono hzfinite
  have hzero : Vanishes (heading.x.isFinite = true) 0 := .zero
  have hdot : Vanishes (heading.x.isFinite = true) (Vec3.unitY.dot q.axis) :=
    ((hzero.mul_right hxfinite).add (hqy.mul_left fun _ => rfl)).add (hzero.mul_right hzfinite)
  have honto : Vanishes (heading.x.isFinite = true) onto := hdot.mul_right fun _ => rfl
  have hcross : Vanishes (heading.x.isFinite = true) (q.x * 1 - 0 * q.y) :=
    (hqx.mul_right fun _ => rfl).sub (hzero.mul_right hyfinite)
  change Vanishes (heading.x.isFinite = true) heading.z
  rw [hz]
  exact ((hzero.mul_right halong).add (honto.mul_left hzfinite)).add (hcross.mul_right hwfinite)

/-- A zero stays a zero if it is divided by the length. -/
theorem isZero_quotient (hq : q.isFinite = true) (hsome : ¬IsZero (value q.lengthSquared))
    {c : Float32} (hc : c ∈ q.components) (hzero : (c == 0) = true) :
    IsZero (value (c / q.lengthSquared.sqrt)) := by
  cases hlength : q.lengthSquared.isInf with
  | true => exact isZero_of_isInf hq hlength c hc
  | false =>
    exact isZero_div ((Number.beq_zero_iff c).1 hzero) (length_bounds hq hsome hlength).1

end Quaternion

/-! ### Turtles and drawings -/

/-- A segment in the plane, or a marker in the plane that is turned about the third axis. -/
inductive Primitive.Planar : Primitive → Prop
  | segment {start finish : Vec3} (hstart : start.InPlane) (hfinish : finish.InPlane) :
      Planar (.segment start finish)
  | marker {point : Vec3} {orientation : Quaternion} (hpoint : point.InPlane)
      (horientation : orientation.KeepsPlane) : Planar (.marker point orientation)

namespace Turtle

structure State.Planar (s : State) : Prop where
  position : s.position.InPlane
  rotation : s.rotation.KeepsPlane

namespace State.Planar

variable {s : State}

theorem advance (hs : s.Planar) (distance : Float32) : (s.advance distance).Planar :=
  ⟨hs.position.add (hs.rotation.inPlane_heading.scale distance), hs.rotation⟩

theorem turn (hs : s.Planar) (angle : Float32) : (s.turn angle).Planar :=
  ⟨hs.position, hs.rotation.mul (Quaternion.keepsPlane_aboutZ angle)⟩

theorem follow (hs : s.Planar) (config : Config) (op : Op) : (config.follow s op).Planar := by
  cases op with
  | draw | move => exact hs.advance config.stepLength
  | turn factor => exact hs.turn (config.turnRadians * factor)
  | leaf | push | pop | ignore => exact hs

theorem emission (hs : s.Planar) (config : Config) {op : Op} {p : Primitive}
    (hp : config.emission? s op = some p) : p.Planar := by
  cases op with
  | draw =>
    cases hp
    exact .segment hs.position (hs.advance config.stepLength).position
  | leaf =>
    cases hp
    exact .marker hs.position hs.rotation
  | move | turn _ | push | pop | ignore => exact nomatch hp

end State.Planar

theorem Config.keepsPlane_start {config : Config} (hvalid : config.validate = .ok ())
    (hx : (config.orientation.x == 0) = true) (hy : (config.orientation.y == 0) = true) :
    config.start.rotation.KeepsPlane := by
  obtain ⟨hfinite, hsome⟩ := orientation_of_validate hvalid
  have hquotient {c : Float32} (hc : c ∈ config.orientation.components) (hzero : (c == 0) = true) :=
    Quaternion.isZero_quotient hfinite hsome hc hzero
  exact ⟨.of_isZero (hquotient (by simp [Quaternion.components]) hx),
    .of_isZero (hquotient (by simp [Quaternion.components]) hy)⟩

theorem validate_of_interpret {i : Interpreter} {word : String} {d : Drawing}
    (hdrawing : i.interpret word = .ok d) : i.config.validate = .ok () := by
  rw [Interpreter.interpret] at hdrawing
  split at hdrawing
  · cases hdrawing
  · next hvalid => exact hvalid

/-- A property of the turtle at the start that every operation keeps is one of all turtles that draw.
For this an interpretation is put beside itself. -/
theorem forall_of_interpret {P : State → Prop} {Q : Primitive → Prop} {i : Interpreter}
    {word : String} {d : Drawing} (hstart : P i.config.start)
    (hfollow : ∀ {s}, P s → ∀ op, P (i.config.follow s op))
    (hemission : ∀ {s op p}, P s → i.config.emission? s op = some p → Q p)
    (hdrawing : i.interpret word = .ok d) : ∀ p ∈ d.toList, Q p := by
  have hvalid := validate_of_interpret hdrawing
  have hparallel : ∀ symbol ∈ word.toList, i.Parallel (fun s _ => P s) i symbol :=
    fun symbol _ => ⟨.rfl, .rfl, fun h => hfollow h (i.op symbol)⟩
  have halike := endAlike_interpret hvalid hvalid hstart hparallel
  rw [hdrawing] at halike
  cases halike with
  | drawn _ hrelated hleft _ =>
    intro p hp
    rw [hleft, Interpreter.drawn, List.mem_filterMap] at hp
    obtain ⟨v, hv, hemit⟩ := hp
    exact hemission (hrelated v hv) hemit

/-- A turtle that starts in the plane of the first two axes, with an orientation about the third one,
draws everything in this plane and turns all markers about this axis. Coordinates across the plane
are zeros, and not numbers only where a coordinate in the plane is not finite any more. -/
theorem planar_of_interpret {i : Interpreter} {word : String} {d : Drawing}
    (horigin : (i.config.origin.z == 0) = true) (hx : (i.config.orientation.x == 0) = true)
    (hy : (i.config.orientation.y == 0) = true) (hdrawing : i.interpret word = .ok d) :
    ∀ p ∈ d.toList, p.Planar := by
  have hstart : i.config.start.Planar :=
    ⟨.inl horigin, Config.keepsPlane_start (validate_of_interpret hdrawing) hx hy⟩
  exact forall_of_interpret hstart (fun hs op => hs.follow i.config op)
    (fun hs => hs.emission i.config) hdrawing

/-- Branches with turns by ordinary, infinite and undefined amounts, drawn from a place with a
negative zero and with an orientation that is not of length one. -/
theorem planar_of_interpret_lost :
    let config : Config :=
      { (default : Config) with
        origin := ⟨3, 0, .ofBits 0x80000000⟩, orientation := ⟨0, .ofBits 0x80000000, 5, 0.5⟩ }
    let i := ((Interpreter.standard config).setOp '∞' (.turn (.ofBits 0x7f800000))).setOp '?'
      (.turn (.ofBits 0x7fc00000))
    (i.config.origin.z == 0) = true ∧ (i.config.orientation.x == 0) = true ∧
      (i.config.orientation.y == 0) = true ∧
      ∃ d, i.interpret "F[+FL][∞F[-?FL]]FL" = .ok d ∧ ∀ p ∈ d.toList, p.Planar := by
  intro config i
  have hvalid : i.config.validate = .ok () := by decide +kernel
  have hnests : i.brackets.Nests "F[+FL][∞F[-?FL]]FL".toList := by decide +kernel
  obtain ⟨d, hd, -⟩ := interpret_of_nests hvalid hnests
  have horigin : (i.config.origin.z == 0) = true := by decide +kernel
  have hx : (i.config.orientation.x == 0) = true := by decide +kernel
  have hy : (i.config.orientation.y == 0) = true := by decide +kernel
  exact ⟨horigin, hx, hy, d, hd, planar_of_interpret horigin hx hy hd⟩

end Turtle

end LSystem
