import LSystem.Grammar.Growth
import LSystem.Turtle.Interpreter

/-!
# Plants

A plant is all that a drawing is grown from: the word to start with, the grammar, the number of
rewriting passes with the range that a host offers for it, and the parameters of the turtle.
-/

namespace LSystem

/-- The parameters from which a drawing is grown. -/
structure Plant where
  seed : String
  iterations : UInt32
  rules : Grammar
  /-- The numbers of passes that may be chosen. -/
  range : IterationRange
  turtle : Turtle.Config
deriving BEq, DecidableEq

namespace Plant

/-- A small branching tree. -/
instance : Inhabited Plant where
  default :=
    { seed := "F"
      iterations := 1
      rules := .ofRules [('F', "F[+F]F[-F]L"), ('L', "L")]
      range := default
      turtle := default }

/-- Refuses parameters that nothing can be grown from, naming the first of them. -/
def validate (plant : Plant) : Except ParameterFault Unit :=
  if plant.range.max < plant.range.min then .error (.emptyRange plant.range)
  else if !plant.range.contains plant.iterations then
    .error (.iterations plant.iterations plant.range)
  else plant.turtle.validate

def setIterations (plant : Plant) (count : UInt32) : Plant :=
  { plant with iterations := plant.range.clamp count }

/-- Chooses a number of passes, and gives the one that is set. -/
def chooseIterations (plant : Plant) (count : UInt32) : UInt32 × Plant :=
  let next := plant.setIterations count
  (next.iterations, next)

def label (plant : Plant) : String := s!"Iterations: {plant.iterations.toNat}"

def commands (plant : Plant) : String := plant.rules.expand plant.seed plant.iterations.toNat

def grow (plant : Plant) : Except Fault Drawing :=
  match plant.validate with
  | .error fault => .error (.parameter fault)
  | .ok () => Turtle.interpret plant.commands plant.turtle

end Plant

end LSystem
