import LSystem.Fault
import LSystem.Turtle.Basic

/-!
# Turtle parameters

The sizes with which words are drawn and the state in which the turtle starts. Parameters are free
until they are used: `validate` names the first that nothing can be drawn with.
-/

namespace LSystem.Turtle

/-- The parameters of an interpretation. -/
structure Config where
  /-- The length of one step. -/
  stepLength : Float32
  /-- The angle of one turn, in degrees. -/
  turnAngle : Float32
  origin : Vec3
  /-- How the turtle is turned at the start, up to the length of the quaternion. -/
  orientation : Quaternion
deriving BEq, DecidableEq

/-- One degree in radians. -/
def radiansPerDegree : Float32 := Float32.ofBits 0x40490fdb / 180

namespace Config

instance : Inhabited Config := ⟨1, 25, Vec3.zero, Quaternion.identity⟩

/-- Refuses parameters that nothing can be drawn with, naming the first of them. -/
def validate (config : Config) : Except ParameterFault Unit :=
  if !(config.stepLength.isFinite && config.stepLength > 0) then
    .error (.stepLength config.stepLength)
  else if !config.turnAngle.isFinite then .error (.turnAngle config.turnAngle)
  else if !config.origin.isFinite then .error (.origin config.origin)
  else if !config.orientation.isFinite || config.orientation.lengthSquared == 0 then
    .error (.orientation config.orientation)
  else .ok ()

theorem validate_eq_ok_iff {config : Config} :
    config.validate = .ok () ↔
      (config.stepLength.isFinite && config.stepLength > 0) = true ∧
        config.turnAngle.isFinite = true ∧ config.origin.isFinite = true ∧
        config.orientation.isFinite = true ∧ (config.orientation.lengthSquared == 0) = false := by
  rw [validate]
  by_cases hstep : (config.stepLength.isFinite && config.stepLength > 0) = true
  · cases hturn : config.turnAngle.isFinite <;> cases horigin : config.origin.isFinite <;>
      cases hfinite : config.orientation.isFinite <;>
      cases hzero : config.orientation.lengthSquared == 0 <;> simp [hstep]
  · simp [hstep]

def start (config : Config) : State := ⟨config.origin, config.orientation.normalize⟩

/-- The angle of one turn in radians. -/
def turnRadians (config : Config) : Float32 := config.turnAngle * radiansPerDegree

/-- The rotation of a turn by a multiple of the turning angle. -/
def rotation (config : Config) (factor : Float32) : Quaternion :=
  .aboutZ (config.turnRadians * factor)

end Config

end LSystem.Turtle
