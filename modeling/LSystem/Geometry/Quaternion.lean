import LSystem.Geometry.Vec3
import LSystem.Number.Sine

/-!
# Quaternions

Rotations in space, written as four single precision components with the real part `w` last. As for
vectors, the grouping of the sums is part of the result, and no product is left out because a factor
is zero or one: a product with an infinity or with a value that is not a number has to show.
-/

namespace LSystem

structure Quaternion where
  x : Float32
  y : Float32
  z : Float32
  w : Float32
deriving BEq, DecidableEq

namespace Quaternion

/-- The rotation that leaves every vector where it is. -/
def identity : Quaternion := ⟨0, 0, 0, 1⟩

/-- The rotation by an angle in radians about the third axis. -/
def aboutZ (angle : Float32) : Quaternion :=
  let half := angle * 0.5
  let s := Number.sine half
  let c := Number.cosine half
  ⟨0 * s, 0 * s, 1 * s, c⟩

/-- The product of two rotations: the right one is applied first. -/
instance : Mul Quaternion where
  mul l r :=
    { x := (l.w * r.x + l.x * r.w) + (l.y * r.z - l.z * r.y)
      y := (l.w * r.y - l.x * r.z) + (l.y * r.w + l.z * r.x)
      z := (l.w * r.z + l.x * r.y) + (-(l.y * r.x) + l.z * r.w)
      w := (l.w * r.w - l.x * r.x) + (-(l.y * r.y) + -(l.z * r.z)) }

/-- The vector part. -/
def axis (q : Quaternion) : Vec3 := ⟨q.x, q.y, q.z⟩

/-- The vector that a rotation makes of a vector. -/
instance : HMul Quaternion Vec3 Vec3 where
  hMul q v :=
    let b := q.axis
    v * (q.w * q.w - b.dot b) + b * (v.dot b * 2) + b.cross v * (q.w * 2)

def lengthSquared (q : Quaternion) : Float32 := (q.x * q.x + q.z * q.z) + (q.y * q.y + q.w * q.w)

/-- The rotation with each component divided by the length. -/
def normalize (q : Quaternion) : Quaternion :=
  let length := q.lengthSquared.sqrt
  ⟨q.x / length, q.y / length, q.z / length, q.w / length⟩

def isFinite (q : Quaternion) : Bool :=
  q.x.isFinite && q.y.isFinite && q.z.isFinite && q.w.isFinite

def render (style : Number.FloatStyle) (q : Quaternion) : String :=
  s!"[{style.single q.x}, {style.single q.y}, {style.single q.z}, {style.single q.w}]"

end Quaternion

end LSystem
