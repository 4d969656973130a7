import LSystem.SortedMap
import LSystem.Turtle.Config

/-!
# Interpreting words

An interpreter reads a word from left to right and lets each symbol move the turtle. What a symbol
does is looked up in a table, and a symbol without an entry is ignored. Branches are kept on a
stack. Branches that are still open at the end of the word are dropped, and a symbol that closes a
branch when none is open ends the interpretation without a drawing.

While a word is drawn, the table holds the rotations themselves: each is worked out once, however
often its symbol occurs. By `motion_motions` this is the same as working it out at every symbol.
-/

namespace LSystem.Turtle

/-- The motions of some symbols. -/
abbrev MotionTable (α : Type) := SortedMap Char (Motion α)

namespace MotionTable

variable {α β : Type}

/-- The motion of a symbol; symbols without an entry are ignored. -/
def motion (table : MotionTable α) (symbol : Char) : Motion α := (table.get? symbol).getD .ignore

/-- The same motions with the amount of each turn told in another way. -/
def map (f : α → β) (table : MotionTable α) : MotionTable β :=
  table.mapValues fun _ motion => motion.map f

theorem motion_map (f : α → β) (table : MotionTable α) (symbol : Char) :
    (table.map f).motion symbol = (table.motion symbol).map f := by
  rw [motion, map, SortedMap.get?_mapValues, motion]
  cases table.get? symbol <;> rfl

end MotionTable

/-- The operations of symbols, and the parameters to draw with. -/
structure Interpreter where
  ops : MotionTable Float32
  config : Config

namespace Interpreter

def op (i : Interpreter) (symbol : Char) : Op := i.ops.motion symbol

/-- The motions of the symbols with the rotation of each turn. -/
def motions (i : Interpreter) : MotionTable Quaternion := i.ops.map i.config.rotation

theorem motion_motions (i : Interpreter) (symbol : Char) :
    i.motions.motion symbol = (i.op symbol).map i.config.rotation :=
  MotionTable.motion_map i.config.rotation i.ops symbol

def blank (config : Config) : Interpreter := ⟨.empty, config⟩

def setOp (i : Interpreter) (symbol : Char) (op : Op) : Interpreter :=
  { i with ops := i.ops.insert symbol op }

def setOps (i : Interpreter) (ops : List (Char × Op)) : Interpreter :=
  ops.foldl (fun i entry => i.setOp entry.1 entry.2) i

def withOps (i : Interpreter) (ops : List (Char × Op)) : Interpreter :=
  (blank i.config).setOps ops

/-- The usual meaning of symbols. -/
def standardOps : List (Char × Op) :=
  [('F', .draw), ('L', .leaf), ('+', .turn (-1)), ('-', .turn 1), ('[', .push), (']', .pop)]

def populateStandard (i : Interpreter) : Interpreter := i.setOps standardOps

def standard (config : Config) : Interpreter := (blank config).populateStandard

instance : Inhabited Interpreter := ⟨standard default⟩

end Interpreter

/-- An interpretation between two symbols. -/
structure Machine where
  /-- The byte at which the next symbol starts. -/
  offset : Nat
  turtle : State
  /-- The states at the open branches, the innermost first. -/
  branches : List State
  drawing : Drawing

namespace Machine

def start (config : Config) : Machine := ⟨0, config.start, [], .empty⟩

/-- The machine after the motion of the next symbol. Only closing a branch can fail. -/
def apply (distance : Float32) (m : Machine) : Motion Quaternion → Except Fault Machine
  | .draw =>
    let next := m.turtle.advance distance
    let segment := .segment m.turtle.position next.position
    .ok { m with turtle := next, drawing := m.drawing.push segment }
  | .move => .ok { m with turtle := m.turtle.advance distance }
  | .leaf =>
    let marker := .marker m.turtle.position m.turtle.rotation
    .ok { m with drawing := m.drawing.push marker }
  | .turn rotation => .ok { m with turtle := m.turtle.rotate rotation }
  | .push => .ok { m with branches := m.turtle :: m.branches }
  | .pop =>
    match m.branches with
    | [] => .error (.unmatchedPop m.offset m.drawing.size)
    | turtle :: branches => .ok { m with turtle, branches }
  | .ignore => .ok m

def skip (m : Machine) (symbol : Char) : Machine :=
  { m with offset := m.offset + symbol.utf8Size }

def step (distance : Float32) (motions : MotionTable Quaternion) (m : Machine) (symbol : Char) :
    Except Fault Machine :=
  (·.skip symbol) <$> m.apply distance (motions.motion symbol)

def run (distance : Float32) (motions : MotionTable Quaternion) (m : Machine)
    (symbols : List Char) : Except Fault Machine :=
  symbols.foldlM (step distance motions) m

section Equations

variable (distance : Float32) (motions : MotionTable Quaternion)

theorem apply_pop_of_nil {m : Machine} (hbranches : m.branches = []) :
    m.apply distance .pop = .error (.unmatchedPop m.offset m.drawing.size) := by
  simp only [apply, hbranches]

theorem apply_pop_of_cons {m : Machine} {turtle : State} {branches : List State}
    (hbranches : m.branches = turtle :: branches) :
    m.apply distance .pop = .ok { m with turtle, branches } := by
  simp only [apply, hbranches]

/-- Looking up the rotation of a turn gives the same step as working it out at the symbol. -/
theorem step_motions (i : Interpreter) (m : Machine) (symbol : Char) :
    m.step distance i.motions symbol =
      (·.skip symbol) <$> m.apply distance ((i.op symbol).map i.config.rotation) := by
  rw [step, i.motion_motions]

theorem run_cons (m : Machine) (symbol : Char) (symbols : List Char) :
    m.run distance motions (symbol :: symbols) =
      (m.step distance motions symbol).bind fun next => next.run distance motions symbols :=
  List.foldlM_cons

/-- A run that goes through makes the motion of its first symbol and goes on from there. -/
theorem exists_apply_of_run_cons {i : Interpreter} {m last : Machine} {symbol : Char}
    {symbols : List Char} (hrun : m.run distance i.motions (symbol :: symbols) = .ok last) :
    ∃ next, m.apply distance ((i.op symbol).map i.config.rotation) = .ok next ∧
      (next.skip symbol).run distance i.motions symbols = .ok last := by
  rw [run_cons, step_motions] at hrun
  cases happly : m.apply distance ((i.op symbol).map i.config.rotation) with
  | error fault =>
    rw [happly] at hrun
    exact nomatch hrun
  | ok next =>
    rw [happly] at hrun
    exact ⟨next, rfl, hrun⟩

theorem run_append (m : Machine) (front back : List Char) :
    m.run distance motions (front ++ back) =
      (m.run distance motions front).bind fun next => next.run distance motions back :=
  List.foldlM_append

end Equations

end Machine

/-- Draws a word. The parameters are checked before the first symbol is read. -/
def Interpreter.interpret (i : Interpreter) (word : String) : Except Fault Drawing :=
  match i.config.validate with
  | .error fault => .error (.parameter fault)
  | .ok () =>
    (·.drawing) <$> (Machine.start i.config).run i.config.stepLength i.motions word.toList

theorem Interpreter.exists_run_of_interpret {i : Interpreter} {word : String} {d : Drawing}
    (hdrawing : i.interpret word = .ok d) :
    ∃ last, (Machine.start i.config).run i.config.stepLength i.motions word.toList = .ok last ∧
      last.drawing = d := by
  rw [interpret] at hdrawing
  split at hdrawing
  · exact nomatch hdrawing
  · cases hrun : (Machine.start i.config).run i.config.stepLength i.motions word.toList with
    | error fault =>
      rw [hrun] at hdrawing
      exact nomatch hdrawing
    | ok last =>
      rw [hrun] at hdrawing
      exact ⟨last, rfl, Except.ok.inj hdrawing⟩

def interpret (word : String) (config : Config) : Except Fault Drawing :=
  (Interpreter.standard config).interpret word

end LSystem.Turtle
