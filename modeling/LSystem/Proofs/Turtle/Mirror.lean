import LSystem.Proofs.Number.Alike
import LSystem.Proofs.Turtle.Planar

/-!
# Turning the other way

A reflection at the plane of the second and the third axis changes the sign of first coordinates. It
also reflects rotations: about the first axis a rotation goes on as before, and about the two others
it goes the other way round. Products of rotations, and the vectors that rotations make of vectors,
are reflected with their parts (`Quaternion.Mirrored.mul`, `Quaternion.Mirrored.apply`). Each of the
products in these formulas changes its sign or does not, and all that are added up do the same. So
rounding makes no difference to it, nor does an overflow, and only the signs of zeros get lost.

Hence a turtle that starts from a reflected state and turns to the left where another one turns to
the right follows the reflected path. If the other one starts with an orientation about the third
axis, then the second components of rotations vanish and need not be negated.

The main statement is `interpret_mirror`.
-/

namespace LSystem

open Number

/-! ### Reflected vectors and rotations -/

/-- A vector and its reflection: the first coordinates are opposite, the others are alike. -/
structure Vec3.Mirrored (v w : Vec3) : Prop where
  x : Opposite v.x w.x
  y : Alike v.y w.y
  z : Alike v.z w.z

/-- A rotation and its reflection: about the second and the third axis it goes the other way. -/
structure Quaternion.Mirrored (q r : Quaternion) : Prop where
  x : Alike q.x r.x
  y : Opposite q.y r.y
  z : Opposite q.z r.z
  w : Alike q.w r.w

namespace Vec3.Mirrored

variable {v w v' w' : Vec3}

theorem add (hv : v.Mirrored v') (hw : w.Mirrored w') : (v + w).Mirrored (v' + w') :=
  ⟨hv.x.add hw.x, hv.y.add hw.y, hv.z.add hw.z⟩

theorem scale (hv : v.Mirrored v') {factor factor' : Float32} (hfactor : Alike factor factor') :
    (v * factor).Mirrored (v' * factor') :=
  ⟨hv.x.mul_alike hfactor, hv.y.mul hfactor, hv.z.mul hfactor⟩

theorem unitY : Vec3.unitY.Mirrored Vec3.unitY :=
  ⟨(Vanishes.zero : Vanishes True 0).opposite, .refl 1, .refl 0⟩

end Vec3.Mirrored

namespace Quaternion

variable {q q' l l' r r' : Quaternion}

theorem Mirrored.mul (hl : l.Mirrored l') (hr : r.Mirrored r') : (l * r).Mirrored (l' * r') where
  x := ((hl.w.mul hr.x).add (hl.x.mul hr.w)).add ((hl.y.mul hr.z).sub (hl.z.mul hr.y))
  y := ((hl.w.mul_opposite hr.y).sub (hl.x.mul_opposite hr.z)).add
    ((hl.y.mul_alike hr.w).add (hl.z.mul_alike hr.x))
  z := ((hl.w.mul_opposite hr.z).add (hl.x.mul_opposite hr.y)).add
    ((hl.y.mul_alike hr.x).neg.add (hl.z.mul_alike hr.w))
  w := ((hl.w.mul hr.w).sub (hl.x.mul hr.x)).add ((hl.y.mul hr.y).neg.add (hl.z.mul hr.z).neg)

/-- The reflected rotation makes the reflected vector of a reflected vector. -/
theorem Mirrored.apply (hq : q.Mirrored q') {v v' : Vec3} (hv : v.Mirrored v') :
    (q * v).Mirrored (q' * v') := by
  have haxis : Alike (q.axis.dot q.axis) (q'.axis.dot q'.axis) :=
    ((hq.x.mul hq.x).add (hq.y.mul hq.y)).add (hq.z.mul hq.z)
  have halong := (hq.w.mul hq.w).sub haxis
  have hdot : Opposite (v.dot q.axis) (v'.dot q'.axis) :=
    ((hv.x.mul_alike hq.x).add (hv.y.mul_opposite hq.y)).add (hv.z.mul_opposite hq.z)
  have honto := hdot.mul_alike (.refl 2)
  have hcross : (q.axis.cross v).Mirrored (q'.axis.cross v') :=
    ⟨(hq.y.mul_alike hv.z).sub (hv.y.mul_opposite hq.z), (hq.z.mul hv.x).sub (hv.z.mul hq.x),
      (hq.x.mul hv.y).sub (hv.x.mul hq.y)⟩
  have hscaled : (q.axis * (v.dot q.axis * 2)).Mirrored (q'.axis * (v'.dot q'.axis * 2)) :=
    ⟨hq.x.mul_opposite honto, hq.y.mul honto, hq.z.mul honto⟩
  exact ((hv.scale halong).add hscaled).add (hcross.scale (hq.w.mul (.refl 2)))

/-- Turning by the opposite angle is the reflected turn. -/
theorem mirrored_aboutZ (angle : Float32) : (aboutZ angle).Mirrored (aboutZ (-angle)) := by
  have hsine : Number.sine (-angle * 0.5) = -Number.sine (angle * 0.5) := by
    rw [Number.neg_mul, sine_neg]
  have hcosine : Number.cosine (-angle * 0.5) = Number.cosine (angle * 0.5) := by
    rw [Number.neg_mul, cosine_neg]
  have hopposite (c : Float32) :
      Opposite (c * Number.sine (angle * 0.5)) (c * Number.sine (-angle * 0.5)) := by
    rw [hsine]
    exact (Alike.refl c).mul_opposite (.of_neg _)
  have hzero : Vanishes False (0 * Number.sine (angle * 0.5)) := Vanishes.zero.mul_right nofun
  refine ⟨(hopposite 0).alike hzero.opposite, hopposite 0, hopposite 1, ?_⟩
  change Alike (Number.cosine (angle * 0.5)) (Number.cosine (-angle * 0.5))
  rw [hcosine]
  exact .refl _

end Quaternion

/-! ### Reflected turtles -/

/-- Two primitives of one kind at reflected points. Markers are turned by opposite amounts about the
third axis, and otherwise alike. -/
inductive Primitive.Mirrored : Primitive → Primitive → Prop
  | segment {start finish start' finish' : Vec3} (hstart : start.Mirrored start')
      (hfinish : finish.Mirrored finish') :
      Mirrored (.segment start finish) (.segment start' finish')
  | marker {point point' : Vec3} {orientation orientation' : Quaternion}
      (hpoint : point.Mirrored point') (hx : Alike orientation.x orientation'.x)
      (hy : Alike orientation.y orientation'.y) (hz : Opposite orientation.z orientation'.z)
      (hw : Alike orientation.w orientation'.w) :
      Mirrored (.marker point orientation) (.marker point' orientation')

namespace Turtle

/-- The parameters with the start reflected, for orientations about the third axis. -/
def Config.mirror (config : Config) : Config :=
  { config with
    origin := { config.origin with x := -config.origin.x }
    orientation := { config.orientation with z := -config.orientation.z } }

/-- Only the start is reflected. -/
theorem Config.follow_mirror (config : Config) (s : State) (op : Op) :
    config.mirror.follow s op = config.follow s op := by
  cases op <;> rfl

theorem Config.emission_mirror (config : Config) (s : State) (op : Op) :
    config.mirror.emission? s op = config.emission? s op := by
  cases op <;> rfl

/-- The interpreter that starts from the reflected state and makes all turns the other way. -/
def Interpreter.mirror (i : Interpreter) : Interpreter :=
  ⟨i.ops.map fun factor => -factor, i.config.mirror⟩

/-- Two turtles of which one is the reflection of the other, with rotations that keep the plane. -/
structure State.Mirrored (s t : State) : Prop where
  position : s.position.Mirrored t.position
  rotation : s.rotation.Mirrored t.rotation
  keepsPlane : s.rotation.KeepsPlane

namespace State.Mirrored

variable {s t : State}

theorem advance (h : s.Mirrored t) (distance : Float32) :
    (s.advance distance).Mirrored (t.advance distance) where
  position := h.position.add ((h.rotation.apply .unitY).scale (.refl distance))
  rotation := h.rotation
  keepsPlane := h.keepsPlane

theorem turn (h : s.Mirrored t) (angle : Float32) : (s.turn angle).Mirrored (t.turn (-angle)) where
  position := h.position
  rotation := h.rotation.mul (Quaternion.mirrored_aboutZ angle)
  keepsPlane := h.keepsPlane.mul (Quaternion.keepsPlane_aboutZ angle)

theorem follow (h : s.Mirrored t) (config : Config) (op : Op) :
    (config.follow s op).Mirrored (config.mirror.follow t (op.map fun factor => -factor)) := by
  rw [Config.follow_mirror]
  cases op with
  | draw | move => exact h.advance config.stepLength
  | turn factor =>
    rw [Motion.map, Config.follow, Config.follow, Number.mul_neg]
    exact h.turn (config.turnRadians * factor)
  | leaf | push | pop | ignore => exact h

theorem marker (h : s.Mirrored t) :
    (Primitive.marker s.position s.rotation).Mirrored (.marker t.position t.rotation) :=
  .marker h.position h.rotation.x (h.rotation.y.alike h.keepsPlane.y.opposite) h.rotation.z
    h.rotation.w

theorem emission (h : s.Mirrored t) (config : Config) (op : Op) :
    Option.Rel Primitive.Mirrored (config.emission? s op)
      (config.mirror.emission? t (op.map fun factor => -factor)) := by
  rw [Config.emission_mirror]
  cases op with
  | draw => exact .some (.segment h.position (h.advance config.stepLength).position)
  | leaf => exact .some h.marker
  | move | turn _ | push | pop | ignore => exact .none

end State.Mirrored

namespace Config

variable {config : Config}

theorem lengthSquared_mirror :
    config.mirror.orientation.lengthSquared = config.orientation.lengthSquared := by
  simp only [Quaternion.lengthSquared, mirror, Number.neg_mul_neg]

theorem validate_mirror (hvalid : config.validate = .ok ()) :
    config.mirror.validate = .ok () := by
  obtain ⟨hstep, hangle, horigin, horientation, hlength⟩ := validate_eq_ok_iff.1 hvalid
  refine validate_eq_ok_iff.2 ⟨hstep, hangle, ?_, ?_, ?_⟩
  · simpa only [Vec3.isFinite, mirror, isFinite_neg] using horigin
  · simpa only [Quaternion.isFinite, mirror, isFinite_neg] using horientation
  · rw [lengthSquared_mirror]
    exact hlength

theorem normalize_mirror :
    config.mirror.orientation.normalize =
      { config.orientation.normalize with z := -config.orientation.normalize.z } := by
  rw [Quaternion.normalize, lengthSquared_mirror]
  simp only [Quaternion.normalize, mirror, Number.neg_div]

theorem mirrored_start (hvalid : config.validate = .ok ())
    (hx : (config.orientation.x == 0) = true) (hy : (config.orientation.y == 0) = true) :
    config.start.Mirrored config.mirror.start := by
  have hkeeps := keepsPlane_start hvalid hx hy
  refine ⟨⟨.of_neg _, .refl _, .refl _⟩, ?_, hkeeps⟩
  change config.start.rotation.Mirrored config.mirror.orientation.normalize
  rw [normalize_mirror]
  exact ⟨.refl _, hkeeps.y.opposite, .of_neg _, .refl _⟩

end Config

theorem op_mirror (i : Interpreter) (symbol : Char) :
    i.mirror.op symbol = (i.op symbol).map fun factor => -factor :=
  MotionTable.motion_map _ i.ops symbol

theorem config_mirror (i : Interpreter) : i.mirror.config = i.config.mirror := rfl

theorem parallel_mirror (i : Interpreter) (symbol : Char) :
    i.Parallel State.Mirrored i.mirror symbol := by
  constructor
  · rw [op_mirror]
    cases i.op symbol <;> simp [Motion.map]
  · rw [op_mirror]
    cases i.op symbol <;> simp [Motion.map]
  · intro s t h
    rw [op_mirror, config_mirror]
    exact h.follow i.config (i.op symbol)

theorem emission_mirror (i : Interpreter) (symbol : Char) {s t : State} (h : s.Mirrored t) :
    Option.Rel Primitive.Mirrored (i.emission? symbol s) (i.mirror.emission? symbol t) := by
  rw [Interpreter.emission?, Interpreter.emission?, op_mirror, config_mirror]
  exact h.emission i.config (i.op symbol)

/-- For the usual table, to make all turns the other way is to exchange `+` and `-`. -/
theorem op_mirror_of_standard {i : Interpreter} (hops : i.ops = (Interpreter.standard i.config).ops)
    (symbol : Char) : i.mirror.op symbol = i.op (Equiv.swap '+' '-' symbol) := by
  have hop (symbol : Char) : i.op symbol = (Interpreter.standard i.config).op symbol := by
    rw [Interpreter.op, hops, Interpreter.op]
  rw [op_mirror, hop, hop]
  by_cases hplus : symbol = '+'
  · subst hplus
    rw [Equiv.swap_apply_left, Interpreter.op_standard, Interpreter.op_standard]
    decide +kernel
  by_cases hminus : symbol = '-'
  · subst hminus
    rw [Equiv.swap_apply_right, Interpreter.op_standard, Interpreter.op_standard]
    decide +kernel
  · -- No other symbol has a turn, and the other operations stay as they are.
    rw [Equiv.swap_apply_of_ne_of_ne hplus hminus, Interpreter.op_standard, if_neg hminus,
      if_neg hplus]
    split_ifs <;> rfl

/-- An orientation about the third axis is given. If the start is reflected and all turns go the
other way, then the interpretation fails at the same symbol as before, after the same number of
primitives, or the drawing is the reflection of what it was. This is so for all numbers, and for the
usual table all turns go the other way if `+` and `-` are exchanged. -/
theorem interpret_mirror {i : Interpreter} (word : String) (hvalid : i.config.validate = .ok ())
    (hx : (i.config.orientation.x == 0) = true) (hy : (i.config.orientation.y == 0) = true) :
    ((∃ index emitted, i.interpret word = .error (.unmatchedPop index emitted) ∧
        i.mirror.interpret word = .error (.unmatchedPop index emitted)) ∨
      ∃ d e, i.interpret word = .ok d ∧ i.mirror.interpret word = .ok e ∧
        List.Forall₂ Primitive.Mirrored d.toList e.toList) ∧
      (i.ops = (Interpreter.standard i.config).ops →
        ∀ symbol, i.mirror.op symbol = i.op (Equiv.swap '+' '-' symbol)) := by
  refine ⟨?_, op_mirror_of_standard⟩
  have hvalid' : i.mirror.config.validate = .ok () := Config.validate_mirror hvalid
  have hstart : State.Mirrored i.config.start i.mirror.config.start :=
    Config.mirrored_start hvalid hx hy
  have hparallel : ∀ symbol ∈ word.toList, i.Parallel State.Mirrored i.mirror symbol :=
    fun symbol _ => parallel_mirror i symbol
  exact (endAlike_interpret hvalid hvalid' hstart hparallel).forall₂ (emission_mirror i)

/-- Branches on both sides, drawn with an orientation that is not of length one and has a negative
zero among its components. -/
theorem interpret_mirror_branches :
    let i := Interpreter.standard { (default : Config) with
      origin := ⟨1, 2, 3⟩, orientation := ⟨0, .ofBits 0x80000000, 5, 0.5⟩ }
    i.config.validate = .ok () ∧ (i.config.orientation.x == 0) = true ∧
      (i.config.orientation.y == 0) = true ∧ i.ops = (Interpreter.standard i.config).ops ∧
      (∃ d e, i.interpret "F[+FL][-F+FL]" = .ok d ∧ i.mirror.interpret "F[+FL][-F+FL]" = .ok e ∧
        List.Forall₂ Primitive.Mirrored d.toList e.toList) ∧
      ∀ symbol, i.mirror.op symbol = i.op (Equiv.swap '+' '-' symbol) := by
  intro i
  have hvalid : i.config.validate = .ok () := by decide +kernel
  have hx : (i.config.orientation.x == 0) = true := by decide +kernel
  have hy : (i.config.orientation.y == 0) = true := by decide +kernel
  have hops : i.ops = (Interpreter.standard i.config).ops := rfl
  have hnests : i.brackets.Nests "F[+FL][-F+FL]".toList := by decide +kernel
  obtain ⟨d, hd, -⟩ := interpret_of_nests hvalid hnests
  obtain ⟨halike, hswap⟩ := interpret_mirror "F[+FL][-F+FL]" hvalid hx hy
  refine ⟨hvalid, hx, hy, hops, ?_, hswap hops⟩
  exact halike.resolve_left fun ⟨_, _, hfault, _⟩ => nomatch hfault.symm.trans hd

end Turtle

end LSystem
