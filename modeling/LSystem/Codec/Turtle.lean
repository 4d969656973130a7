import LSystem.Codec.Geometry
import LSystem.SortedMap
import LSystem.Turtle.Config

/-!
# Turtles in documents

States and parameters are records, and operations are variants: names, of which only the turn has a
part. Every missing parameter takes its usual value, while a state must be complete.
-/

namespace LSystem.Codec

open Toml (Value Table)

/-! ### States -/

def statePairing : Pairing Vec3 Quaternion :=
  ⟨"struct TurtleState", "position", vec3, "rotation", quaternion⟩

def stateOfTable (entries : Table) : Except ShapeFault Turtle.State := do
  let (position, rotation) ← statePairing.ofTable entries
  return ⟨position, rotation⟩

def tableOfState (s : Turtle.State) : Table :=
  [("position", ofVec3 s.position), ("rotation", ofQuaternion s.rotation)]

/-! ### Parameters -/

def configFields : Fields Turtle.Config :=
  [("step_length", fun c v => do return { c with stepLength := ← single v }),
    ("turn_angle", fun c v => do return { c with turnAngle := ← single v }),
    ("origin", fun c v => do return { c with origin := ← vec3 v }),
    ("orientation", fun c v => do return { c with orientation := ← quaternion v })]

def configOfTable (entries : Table) : Except ShapeFault Turtle.Config :=
  configFields.ofTable default entries

def config : Decoder Turtle.Config := configFields.decode default "struct TurtleConfig"

def tableOfConfig (c : Turtle.Config) : Table :=
  [("step_length", ofSingle c.stepLength), ("turn_angle", ofSingle c.turnAngle),
    ("origin", ofVec3 c.origin), ("orientation", ofQuaternion c.orientation)]

/-! ### Operations -/

def opNames : List String := ["Draw", "Move", "Leaf", "Turn", "Push", "Pop", "Ignore"]

def op (v : Value) : Except ShapeFault Turtle.Op := do
  let (name, parts) ← variant v
  let plain (op : Turtle.Op) : Except ShapeFault Turtle.Op := do
    withoutParts parts
    return op
  match name with
  | "Draw" => plain .draw
  | "Move" => plain .move
  | "Leaf" => plain .leaf
  | "Turn" => return .turn (← withParts "newtype variant" single parts)
  | "Push" => plain .push
  | "Pop" => plain .pop
  | "Ignore" => plain .ignore
  | name => .error (.unknownVariant name opNames)

def ofOp : Turtle.Op → Value
  | .draw => .string "Draw"
  | .move => .string "Move"
  | .leaf => .string "Leaf"
  | .turn factor => .table [("Turn", ofSingle factor)]
  | .push => .string "Push"
  | .pop => .string "Pop"
  | .ignore => .string "Ignore"

/-- Reads named operations. -/
def opsOfTable (entries : Table) : Except ShapeFault (SortedMap String Turtle.Op) :=
  return .ofList (← entries.mapM fun entry => return (entry.1, ← op entry.2))

def tableOfOps (ops : SortedMap String Turtle.Op) : Table :=
  ops.toList.map fun entry => (entry.1, ofOp entry.2)

end LSystem.Codec
