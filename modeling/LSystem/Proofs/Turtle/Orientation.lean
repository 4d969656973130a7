import LSystem.Proofs.Turtle.Outcome
import LSystem.Proofs.Turtle.SideBySide

/-!
# Orientations do not depend on places

Where the turtle starts and how far it steps has no influence on how it is turned. Two
interpretations of a word that differ in nothing else keep their turtles turned alike, on the stacks
as well, and so they end alike, with markers that are turned alike. This is a matter of what is read
from what, and not of arithmetic: it holds of all numbers, also where one of the turtles leaves their
range and the other does not.

The main statement is `interpret_turnedAlike`.
-/

namespace LSystem

/-- Two primitives of one kind. If they are markers, they are turned alike. -/
inductive Primitive.TurnedAlike : Primitive → Primitive → Prop
  | segment (start finish start' finish' : Vec3) :
      TurnedAlike (.segment start finish) (.segment start' finish')
  | marker (point point' : Vec3) (orientation : Quaternion) :
      TurnedAlike (.marker point orientation) (.marker point' orientation)

namespace Turtle

/-- Two turtles that are turned alike, wherever they are. -/
def State.TurnedAlike (s t : State) : Prop := s.rotation = t.rotation

variable {a b : Config} {s t : State}

theorem Config.follow_turnedAlike (hangle : a.turnAngle = b.turnAngle) (h : s.TurnedAlike t)
    (op : Op) : (a.follow s op).TurnedAlike (b.follow t op) := by
  cases op with
  | turn factor =>
    change s.rotation * a.rotation factor = t.rotation * b.rotation factor
    rw [h, Config.rotation, Config.rotation, Config.turnRadians, Config.turnRadians, hangle]
  | draw | move | leaf | push | pop | ignore => exact h

theorem Config.emission_turnedAlike (h : s.TurnedAlike t) (op : Op) :
    Option.Rel Primitive.TurnedAlike (a.emission? s op) (b.emission? t op) := by
  cases op with
  | draw => exact .some (.segment ..)
  | leaf =>
    rw [Config.emission?, Config.emission?, h]
    exact .some (.marker ..)
  | move | turn _ | push | pop | ignore => exact .none

/-- Two sets of parameters with the same turning angle and the same orientation, wherever the turtle
starts and however far it steps, end at the same symbol after the same number of primitives, or they
give drawings with the same kinds of primitives in the same order and with markers turned alike. -/
theorem interpret_turnedAlike (ops : MotionTable Float32) (word : String)
    (ha : a.validate = .ok ()) (hb : b.validate = .ok ()) (hangle : a.turnAngle = b.turnAngle)
    (horientation : a.orientation = b.orientation) :
    (∃ index emitted,
      (Interpreter.mk ops a).interpret word = .error (.unmatchedPop index emitted) ∧
        (Interpreter.mk ops b).interpret word = .error (.unmatchedPop index emitted)) ∨
    ∃ d e, (Interpreter.mk ops a).interpret word = .ok d ∧
      (Interpreter.mk ops b).interpret word = .ok e ∧
        List.Forall₂ Primitive.TurnedAlike d.toList e.toList := by
  let i : Interpreter := ⟨ops, a⟩
  let j : Interpreter := ⟨ops, b⟩
  have hstart : i.config.start.TurnedAlike j.config.start :=
    congrArg Quaternion.normalize horientation
  have hparallel : ∀ symbol ∈ word.toList, i.Parallel State.TurnedAlike j symbol :=
    fun symbol _ => ⟨Iff.rfl, Iff.rfl, fun h => Config.follow_turnedAlike hangle h (i.op symbol)⟩
  have halike := endAlike_interpret (i := i) (j := j) ha hb hstart hparallel
  exact halike.forall₂ fun symbol _ _ h => Config.emission_turnedAlike h (i.op symbol)

/-- The same word drawn with short steps around the origin, and with steps that leave the range of
numbers from a place at its border. -/
theorem interpret_turnedAlike_overflow :
    let ops := (Interpreter.standard default).ops
    let a : Config := default
    let b : Config :=
      { a with origin := ⟨0, .ofBits 0x7f7fffff, 0⟩, stepLength := .ofBits 0x7f7fffff }
    a.validate = .ok () ∧ b.validate = .ok () ∧
      (∃ d e, (Interpreter.mk ops a).interpret "F[+FL]F[-L" = .ok d ∧
        (Interpreter.mk ops b).interpret "F[+FL]F[-L" = .ok e ∧
          List.Forall₂ Primitive.TurnedAlike d.toList e.toList) := by
  intro ops a b
  have ha : a.validate = .ok () := by decide +kernel
  have hb : b.validate = .ok () := by decide +kernel
  have hnests : (Interpreter.mk ops a).brackets.Nests "F[+FL]F[-L".toList := by decide +kernel
  refine ⟨ha, hb, ?_⟩
  have hangle : a.turnAngle = b.turnAngle := by simp only [b]
  have horientation : a.orientation = b.orientation := by simp only [b]
  rcases interpret_turnedAlike ops "F[+FL]F[-L" ha hb hangle horientation with
    ⟨_, _, hfault, -⟩ | halike
  · obtain ⟨d, hd, -⟩ := interpret_of_nests (i := ⟨ops, a⟩) ha hnests
    exact nomatch hfault.symm.trans hd
  · exact halike

end Turtle

end LSystem
