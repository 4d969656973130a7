import LSystem.Codec.Grammar
import LSystem.Codec.Turtle
import LSystem.Plant

/-!
# Plants in documents

A plant is a record of which every field may be missing and then is that of the small tree. The
range inside it must be complete.
-/

namespace LSystem.Codec

open Toml (Value Table)

def rangePairing : Pairing UInt32 UInt32 := ⟨"struct IterationRange", "min", count, "max", count⟩

def rangeOfTable (entries : Table) : Except ShapeFault IterationRange := do
  let (min, max) ← rangePairing.ofTable entries
  return ⟨min, max⟩

def range (v : Value) : Except ShapeFault IterationRange := do
  let (min, max) ← rangePairing.decode v
  return ⟨min, max⟩

def ofCount (n : UInt32) : Value := .integer n.toNat

def tableOfRange (r : IterationRange) : Table := [("min", ofCount r.min), ("max", ofCount r.max)]

def plantFields : Fields Plant :=
  [("axiom", fun p v => do return { p with seed := ← text v }),
    ("iterations", fun p v => do return { p with iterations := ← count v }),
    ("rules", fun p v => do return { p with rules := ← grammar v }),
    ("range", fun p v => do return { p with range := ← range v }),
    ("turtle", fun p v => do return { p with turtle := ← config v })]

def plantOfTable (entries : Table) : Except ShapeFault Plant := plantFields.ofTable default entries

def tableOfPlant (p : Plant) : Table :=
  [("axiom", .string p.seed), ("iterations", ofCount p.iterations),
    ("rules", .table (tableOfGrammar p.rules)), ("range", .table (tableOfRange p.range)),
    ("turtle", .table (tableOfConfig p.turtle))]

end LSystem.Codec
