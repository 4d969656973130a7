import LSystem.Geometry.Quaternion
import LSystem.IterationRange

/-!
# Why there is no drawing

Parameters can be unfit for drawing, and a word can close a branch that it never opened. Each cause
is a value with what it is about; the wording is in `message` alone.
-/

namespace LSystem

/-- Floats in messages: the shortest digits, and nothing after those of a whole number. -/
def messageStyle : Number.FloatStyle := ⟨"NaN", ""⟩

/-- A parameter that nothing can be drawn with, and its value. -/
inductive ParameterFault where
  | stepLength (length : Float32)
  | turnAngle (degrees : Float32)
  | origin (point : Vec3)
  | orientation (rotation : Quaternion)
  | emptyRange (range : IterationRange)
  | iterations (count : UInt32) (range : IterationRange)
deriving DecidableEq

def ParameterFault.message : ParameterFault → String
  | stepLength length =>
    "step_length must be positive and finite, got " ++ messageStyle.single length
  | turnAngle degrees => "turn_angle must be finite, got " ++ messageStyle.single degrees
  | origin point => "origin must be finite, got " ++ point.render messageStyle
  | orientation rotation =>
    "orientation must be a finite non-zero quaternion, got " ++ rotation.render messageStyle
  | emptyRange range => s!"iteration range is empty ({range.render})"
  | iterations count range => s!"iterations {count.toNat} outside {range.render}"

/-- Why an interpretation gives no drawing. -/
inductive Fault where
  /-- The parameters were refused before the word was read. -/
  | parameter (fault : ParameterFault)
  /-- The symbol at byte `index` closes a branch, and none is open. Until then `emitted` primitives
  had been emitted. -/
  | unmatchedPop (index emitted : Nat)
deriving DecidableEq

def Fault.message : Fault → String
  | parameter fault => "invalid configuration: " ++ fault.message
  | unmatchedPop index emitted =>
    s!"malformed input: unmatched ']' at byte {index} ({emitted} primitives discarded)"

end LSystem
