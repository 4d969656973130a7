import LSystem.Codec.Record
import LSystem.Geometry.Quaternion

/-!
# Vectors and quaternions in documents

Both are arrays of floats. Each float is written as the double precision float with the same value,
so that nothing is lost on the way.
-/

namespace LSystem.Codec

open Toml (Value)

def ofSingle (x : Float32) : Value := .float (Number.widen x)

/-- Reads the first items of an array as floats, as many as there are up to the given number. -/
def singles (number : Nat) (expected : String) : Decoder (List Float32) := fun v =>
  match v.items? with
  | some items => (items.take number).mapM single
  | none => invalidType v expected

def vec3 (v : Value) : Except ShapeFault Vec3 := do
  let expected := "a sequence of 3 f32 values"
  match ← singles 3 expected v with
  | [x, y, z] => .ok ⟨x, y, z⟩
  | xs => .error (.invalidLength xs.length expected)

def quaternion (v : Value) : Except ShapeFault Quaternion := do
  let expected := "a sequence of 4 f32 values"
  match ← singles 4 expected v with
  | [x, y, z, w] => .ok ⟨x, y, z, w⟩
  | xs => .error (.invalidLength xs.length expected)

def ofVec3 (v : Vec3) : Value := .array [ofSingle v.x, ofSingle v.y, ofSingle v.z]

def ofQuaternion (q : Quaternion) : Value :=
  .array [ofSingle q.x, ofSingle q.y, ofSingle q.z, ofSingle q.w]

end LSystem.Codec
