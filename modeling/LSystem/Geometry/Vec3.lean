import LSystem.Number.Shortest

/-!
# Vectors

Points and directions in space with single precision coordinates. Sums of three products are added
from left to right and every operation is rounded on its own, so the order in these definitions is
part of the result.

`=` compares bit patterns, and `==` compares as numbers: under `==` a vector with a coordinate that
is not a number differs from itself, and the two zeros are the same.
-/

namespace LSystem

structure Vec3 where
  x : Float32
  y : Float32
  z : Float32
deriving BEq, DecidableEq

namespace Vec3

def zero : Vec3 := ⟨0, 0, 0⟩

/-- The direction in which an unrotated turtle looks. -/
def unitY : Vec3 := ⟨0, 1, 0⟩

instance : Add Vec3 where
  add a b := ⟨a.x + b.x, a.y + b.y, a.z + b.z⟩

instance : HMul Vec3 Float32 Vec3 where
  hMul v factor := ⟨v.x * factor, v.y * factor, v.z * factor⟩

def dot (a b : Vec3) : Float32 := a.x * b.x + a.y * b.y + a.z * b.z

def cross (a b : Vec3) : Vec3 where
  x := a.y * b.z - b.y * a.z
  y := a.z * b.x - b.z * a.x
  z := a.x * b.y - b.x * a.y

/-- The corner with the smaller coordinates of two points. Where the coordinates do not compare, the
one of the second point is taken. -/
def min (a b : Vec3) : Vec3 where
  x := if a.x < b.x then a.x else b.x
  y := if a.y < b.y then a.y else b.y
  z := if a.z < b.z then a.z else b.z

/-- The corner with the larger coordinates of two points. Where the coordinates do not compare, the
one of the second point is taken. -/
def max (a b : Vec3) : Vec3 where
  x := if a.x > b.x then a.x else b.x
  y := if a.y > b.y then a.y else b.y
  z := if a.z > b.z then a.z else b.z

def isFinite (v : Vec3) : Bool := v.x.isFinite && v.y.isFinite && v.z.isFinite

def render (style : Number.FloatStyle) (v : Vec3) : String :=
  s!"[{style.single v.x}, {style.single v.y}, {style.single v.z}]"

end Vec3

end LSystem
