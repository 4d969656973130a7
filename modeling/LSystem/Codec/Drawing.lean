import LSystem.Codec.Geometry
import LSystem.Drawing

/-!
# Drawings in documents

A drawing is an array of primitives, and a primitive is a variant with two parts.
-/

namespace LSystem.Codec

open Toml (Value Table)

def primitiveNames : List String := ["Segment", "Marker"]

def segmentPairing : Pairing Vec3 Vec3 :=
  ⟨"struct variant DrawPrimitive::Segment", "start", vec3, "end", vec3⟩

def markerPairing : Pairing Vec3 Quaternion :=
  ⟨"struct variant DrawPrimitive::Marker", "point", vec3, "orientation", quaternion⟩

def primitive (v : Value) : Except ShapeFault Primitive := do
  let (name, parts) ← variant v
  match name with
  | "Segment" =>
    let (start, finish) ← withParts "struct variant" segmentPairing.decodeClosed parts
    return .segment start finish
  | "Marker" =>
    let (point, orientation) ← withParts "struct variant" markerPairing.decodeClosed parts
    return .marker point orientation
  | name => .error (.unknownVariant name primitiveNames)

def primitives : Decoder (List Primitive) := fun v =>
  match v.items? with
  | some items => items.mapM primitive
  | none => invalidType v "a sequence"

def drawingFields : Fields (Option (List Primitive)) :=
  [("primitives", fun _ v => do return some (← primitives v))]

def drawingOfTable (entries : Table) : Except ShapeFault Drawing := do
  match ← drawingFields.ofTable none entries with
  | some primitives => return ⟨primitives.toArray⟩
  | none => .error (.missingField "primitives")

def tableOfPrimitive : Primitive → Table
  | .segment start finish =>
    [("Segment", .table [("start", ofVec3 start), ("end", ofVec3 finish)])]
  | .marker point orientation =>
    [("Marker", .table [("point", ofVec3 point), ("orientation", ofQuaternion orientation)])]

def tableOfDrawing (d : Drawing) : Table :=
  [("primitives", .ofTables (d.toList.map tableOfPrimitive))]

end LSystem.Codec
