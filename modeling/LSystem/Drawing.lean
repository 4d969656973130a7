import LSystem.Geometry.Quaternion

/-!
# Drawings

A drawing is the sequence of primitives that a turtle emitted, in the order of emission. It is
always complete: an interpretation that fails gives no drawing.
-/

namespace LSystem

/-- One thing to draw: a branch between two points, or a leaf at a point. -/
inductive Primitive where
  | segment (start finish : Vec3)
  | marker (point : Vec3) (orientation : Quaternion)
deriving BEq, DecidableEq

namespace Primitive

def isSegment : Primitive → Bool
  | segment .. => true
  | marker .. => false

def isMarker : Primitive → Bool
  | segment .. => false
  | marker .. => true

def segment? : Primitive → Option (Vec3 × Vec3)
  | segment start finish => some (start, finish)
  | marker .. => none

def marker? : Primitive → Option (Vec3 × Quaternion)
  | segment .. => none
  | marker point orientation => some (point, orientation)

def points : Primitive → List Vec3
  | segment start finish => [start, finish]
  | marker point _ => [point]

end Primitive

/-- The primitives of one interpretation, in the order of emission. -/
structure Drawing where
  primitives : Array Primitive
deriving BEq, DecidableEq

namespace Drawing

def empty : Drawing := ⟨#[]⟩

def push (d : Drawing) (p : Primitive) : Drawing := ⟨d.primitives.push p⟩

def toList (d : Drawing) : List Primitive := d.primitives.toList

theorem toList_push (d : Drawing) (p : Primitive) : (d.push p).toList = d.toList ++ [p] :=
  Array.toList_push

def size (d : Drawing) : Nat := d.primitives.size

def isEmpty (d : Drawing) : Bool := d.primitives.isEmpty

/-- At most `count` primitives, from the given index on. -/
def window (d : Drawing) (start count : Nat) : List Primitive := (d.toList.drop start).take count

def last? (d : Drawing) : Option Primitive := d.primitives.back?

def segments (d : Drawing) : List (Vec3 × Vec3) := d.toList.filterMap Primitive.segment?

def markers (d : Drawing) : List (Vec3 × Quaternion) := d.toList.filterMap Primitive.marker?

def segmentCount (d : Drawing) : Nat := d.segments.length

def markerCount (d : Drawing) : Nat := d.markers.length

def points (d : Drawing) : List Vec3 := d.toList.flatMap Primitive.points

/-- The smallest box with axis-parallel sides around all points, as its lowest and its highest
corner. An empty drawing has none. -/
def bounds (d : Drawing) : Option (Vec3 × Vec3) :=
  match d.points with
  | [] => none
  | first :: rest => some (rest.foldl (fun box p => (box.1.min p, box.2.max p)) (first, first))

end Drawing

end LSystem
