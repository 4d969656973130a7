import LSystem.Drawing

/-!
# The turtle

The turtle is a place and an orientation. It heads along its own upward axis, the second one, and it
turns about its own third axis, so that it stays in the plane of its first two axes.
-/

namespace LSystem.Turtle

/-- Where the turtle is and how it is turned. -/
structure State where
  position : Vec3
  rotation : Quaternion
deriving BEq, DecidableEq

namespace State

instance : Inhabited State := ⟨Vec3.zero, Quaternion.identity⟩

/-- The direction in which the turtle heads. -/
def up (s : State) : Vec3 := s.rotation * Vec3.unitY

def advance (s : State) (distance : Float32) : State :=
  { s with position := s.position + s.up * distance }

def rotate (s : State) (rotation : Quaternion) : State :=
  { s with rotation := s.rotation * rotation }

/-- The turtle turned about its third axis, by an angle in radians. -/
def turn (s : State) (angle : Float32) : State := s.rotate (.aboutZ angle)

end State

/-- What a symbol makes the turtle do. A value of `α` tells how far a turn goes. -/
inductive Motion (α : Type) where
  | draw
  | move
  | leaf
  | turn (amount : α)
  /-- Open a branch: remember the current state. -/
  | push
  /-- Close a branch: go back to the state remembered last. -/
  | pop
  | ignore
deriving BEq, DecidableEq

/-- The same motion with the amount of a turn told in another way. -/
def Motion.map {α β : Type} (f : α → β) : Motion α → Motion β
  | draw => draw
  | move => move
  | leaf => leaf
  | turn amount => turn (f amount)
  | push => push
  | pop => pop
  | ignore => ignore

/-- A motion as a table of symbols has it: a turn goes by a multiple of the turning angle. -/
abbrev Op := Motion Float32

end LSystem.Turtle
