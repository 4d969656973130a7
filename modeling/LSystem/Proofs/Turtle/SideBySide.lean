import LSystem.Proofs.Turtle.OpenPath
import Mathlib.Data.List.Forall2

/-!
# Turtles side by side

Two interpreters read the same word. Suppose that their tables open and close branches at the same
symbols, and that two turtles which are related in some way are still so related after each has
followed what its own table has for a symbol (`Interpreter.Parallel`). Then all states stay related,
those of the turtles and those on the two stacks, pair by pair (`Machine.InStep`): a state that comes
back from a stack was related to its partner when both were put there, and nothing on a stack
changes.

So the two interpretations end alike (`EndAlike`): both with a drawing, or both at the same symbol.
Each symbol before the end is read by two turtles that are related, and what the drawings have in
common is a question about what a symbol emits in two related states.
-/

namespace LSystem.Turtle

/-- A symbol, with the states in which two turtles read it. -/
structure Visit where
  symbol : Char
  left : State
  right : State

namespace Interpreter

/-- The primitive that a symbol emits when it is read in a state. -/
def emission? (i : Interpreter) (symbol : Char) (s : State) : Option Primitive :=
  i.config.emission? s (i.op symbol)

/-- What is drawn on one side of some visits. -/
def drawn (i : Interpreter) (side : Visit → State) (visits : List Visit) : List Primitive :=
  visits.filterMap fun v => i.emission? v.symbol (side v)

theorem drawn_concat (i : Interpreter) (side : Visit → State) (visits : List Visit) (v : Visit) :
    i.drawn side (visits ++ [v]) =
      i.drawn side visits ++ (i.emission? v.symbol (side v)).toList := by
  rw [drawn, List.filterMap_append, List.filterMap_cons, drawn]
  cases i.emission? v.symbol (side v) <;> rfl

/-- A symbol opens or closes a branch for both interpreters or for neither, and it leaves related
turtles related. -/
structure Parallel (R : State → State → Prop) (i j : Interpreter) (symbol : Char) : Prop where
  push : i.op symbol = .push ↔ j.op symbol = .push
  pop : i.op symbol = .pop ↔ j.op symbol = .pop
  follow {s t : State} : R s t →
    R (i.config.follow s (i.op symbol)) (j.config.follow t (j.op symbol))

end Interpreter

/-- How two interpretations of a word end that stay in step. -/
inductive EndAlike (R : State → State → Prop) (i j : Interpreter) (word : List Char) :
    Except Fault Drawing → Except Fault Drawing → Prop
  | drawn {visits : List Visit} {d e : Drawing} (hword : visits.map Visit.symbol = word)
      (hrelated : ∀ v ∈ visits, R v.left v.right) (hleft : d.toList = i.drawn Visit.left visits)
      (hright : e.toList = j.drawn Visit.right visits) : EndAlike R i j word (.ok d) (.ok e)
  | broken {visits : List Visit} {symbol : Char} {after : List Char}
      (hword : visits.map Visit.symbol ++ symbol :: after = word)
      (hrelated : ∀ v ∈ visits, R v.left v.right) :
      EndAlike R i j word
        (.error (.unmatchedPop (String.ofList (visits.map Visit.symbol)).utf8ByteSize
          (i.drawn Visit.left visits).length))
        (.error (.unmatchedPop (String.ofList (visits.map Visit.symbol)).utf8ByteSize
          (j.drawn Visit.right visits).length))

/-- Two machines that have read the same symbols, each symbol in related states, and that now have
related turtles and related states on their stacks. -/
structure Machine.InStep (R : State → State → Prop) (i j : Interpreter) (visits : List Visit)
    (m n : Machine) : Prop where
  turtle : R m.turtle n.turtle
  branches : List.Forall₂ R m.branches n.branches
  offset : m.offset = (String.ofList (visits.map Visit.symbol)).utf8ByteSize
  sameOffset : n.offset = m.offset
  related : ∀ v ∈ visits, R v.left v.right
  left : m.drawing.toList = i.drawn Visit.left visits
  right : n.drawing.toList = j.drawn Visit.right visits

namespace Machine

variable {R : State → State → Prop} {i j : Interpreter} {visits : List Visit} {m n : Machine}

theorem inStep_start (hstart : R i.config.start j.config.start) :
    InStep R i j [] (start i.config) (start j.config) where
  turtle := hstart
  branches := .nil
  offset := rfl
  sameOffset := rfl
  related := fun _ hv => nomatch hv
  left := rfl
  right := rfl

/-- Machines in step are in step again when both have read a symbol in their present states. -/
theorem InStep.next (h : InStep R i j visits m n) (symbol : Char) {m' n' : Machine}
    (hturtle : R m'.turtle n'.turtle) (hbranches : List.Forall₂ R m'.branches n'.branches)
    (hoffset : m'.offset = m.offset) (hsame : n'.offset = n.offset)
    (hleft : m'.drawing.toList = m.drawing.toList ++ (i.emission? symbol m.turtle).toList)
    (hright : n'.drawing.toList = n.drawing.toList ++ (j.emission? symbol n.turtle).toList) :
    InStep R i j (visits ++ [⟨symbol, m.turtle, n.turtle⟩]) (m'.skip symbol) (n'.skip symbol) where
  turtle := hturtle
  branches := hbranches
  offset := by simp [skip, hoffset, h.offset]
  sameOffset := by simp [skip, hoffset, hsame, h.sameOffset]
  related := by
    intro v hv
    rcases List.mem_append.1 hv with hbefore | hlast
    · exact h.related v hbefore
    · rw [List.mem_singleton.1 hlast]
      exact h.turtle
  left := by
    rw [Interpreter.drawn_concat, ← h.left]
    exact hleft
  right := by
    rw [Interpreter.drawn_concat, ← h.right]
    exact hright

/-- One symbol leaves two machines in step, or it stops both. -/
theorem InStep.step (h : InStep R i j visits m n) {symbol : Char}
    (hparallel : i.Parallel R j symbol) :
    (∃ m' n', m.step i.config.stepLength i.motions symbol = .ok m' ∧
        n.step j.config.stepLength j.motions symbol = .ok n' ∧
        InStep R i j (visits ++ [⟨symbol, m.turtle, n.turtle⟩]) m' n') ∨
      m.step i.config.stepLength i.motions symbol =
          .error (.unmatchedPop m.offset m.drawing.size) ∧
        n.step j.config.stepLength j.motions symbol =
          .error (.unmatchedPop n.offset n.drawing.size) := by
  rw [step_motions, step_motions]
  by_cases hpush : i.op symbol = .push
  · have hpush' := hparallel.push.1 hpush
    rw [hpush, hpush']
    refine .inl ⟨_, _, rfl, rfl, h.next symbol h.turtle (.cons h.turtle h.branches) rfl rfl ?_ ?_⟩
    · simp [Interpreter.emission?, hpush, Config.emission?]
    · simp [Interpreter.emission?, hpush', Config.emission?]
  by_cases hpop : i.op symbol = .pop
  · have hpop' := hparallel.pop.1 hpop
    rw [hpop, hpop', Motion.map, Motion.map]
    have hbranches := h.branches
    -- The stacks are equally high, so that either both can close a branch or none can.
    cases hm : m.branches with
    | nil =>
      rw [hm] at hbranches
      rw [apply_pop_of_nil _ hm, apply_pop_of_nil _ (List.forall₂_nil_left_iff.1 hbranches)]
      exact .inr ⟨rfl, rfl⟩
    | cons s branches =>
      rw [hm] at hbranches
      obtain ⟨t, branches', hs, hrest, hn⟩ := List.forall₂_cons_left_iff.1 hbranches
      rw [apply_pop_of_cons _ hm, apply_pop_of_cons _ hn]
      refine .inl ⟨_, _, rfl, rfl, h.next symbol hs hrest rfl rfl ?_ ?_⟩
      · simp [Interpreter.emission?, hpop, Config.emission?]
      · simp [Interpreter.emission?, hpop', Config.emission?]
  · obtain ⟨d, hleft, hd⟩ := apply_of_plain i.config m hpush hpop
    obtain ⟨e, hright, he⟩ := apply_of_plain j.config n
      (fun hpush' => hpush (hparallel.push.2 hpush')) (fun hpop' => hpop (hparallel.pop.2 hpop'))
    rw [hleft, hright]
    exact .inl ⟨_, _, rfl, rfl, h.next symbol (hparallel.follow h.turtle) h.branches rfl rfl hd he⟩

theorem InStep.run (h : InStep R i j visits m n) {symbols : List Char}
    (hparallel : ∀ symbol ∈ symbols, i.Parallel R j symbol) :
    EndAlike R i j (visits.map Visit.symbol ++ symbols)
      ((·.drawing) <$> m.run i.config.stepLength i.motions symbols)
      ((·.drawing) <$> n.run j.config.stepLength j.motions symbols) := by
  induction symbols generalizing m n visits with
  | nil => exact .drawn (List.append_nil _).symm h.related h.left h.right
  | cons symbol symbols ih =>
    obtain ⟨hsymbol, hsymbols⟩ := List.forall_mem_cons.1 hparallel
    rw [run_cons, run_cons]
    rcases h.step hsymbol with ⟨m', n', hm, hn, hnext⟩ | ⟨hm, hn⟩
    · have hrest := ih hnext hsymbols
      rw [List.map_append, List.append_assoc] at hrest
      rw [hm, hn]
      exact hrest
    · have hleft : m.drawing.size = (i.drawn Visit.left visits).length := by
        rw [← h.left, Drawing.size, Drawing.toList, Array.length_toList]
      have hright : n.drawing.size = (j.drawn Visit.right visits).length := by
        rw [← h.right, Drawing.size, Drawing.toList, Array.length_toList]
      rw [hm, hn, h.sameOffset, h.offset, hleft, hright]
      exact .broken rfl h.related

end Machine

/-- Interpreters that start with related turtles and keep them related end alike. -/
theorem endAlike_interpret {R : State → State → Prop} {i j : Interpreter} {word : String}
    (hvalid : i.config.validate = .ok ()) (hvalid' : j.config.validate = .ok ())
    (hstart : R i.config.start j.config.start)
    (hparallel : ∀ symbol ∈ word.toList, i.Parallel R j symbol) :
    EndAlike R i j word.toList (i.interpret word) (j.interpret word) := by
  rw [Interpreter.interpret, Interpreter.interpret, hvalid, hvalid']
  exact (Machine.inStep_start hstart).run hparallel

section Related

variable {R : State → State → Prop} {P : Primitive → Primitive → Prop} {i j : Interpreter}

/-- If what symbols emit in related states is related, so are the primitives drawn in such states. -/
theorem forall₂_drawn
    (hemission : ∀ symbol {s t}, R s t →
      Option.Rel P (i.emission? symbol s) (j.emission? symbol t))
    {visits : List Visit} (hrelated : ∀ v ∈ visits, R v.left v.right) :
    List.Forall₂ P (i.drawn Visit.left visits) (j.drawn Visit.right visits) := by
  have hvisits : List.Forall₂ (fun v w => v = w ∧ R v.left v.right) visits visits :=
    List.forall₂_same.2 fun v hv => ⟨rfl, hrelated v hv⟩
  refine List.rel_filterMap ?_ hvisits
  rintro v _ ⟨rfl, hv⟩
  exact hemission v.symbol hv

/-- Two interpretations that end alike then fail alike, or their drawings are related one by one. -/
theorem EndAlike.forall₂ {word : List Char} {left right : Except Fault Drawing}
    (h : EndAlike R i j word left right)
    (hemission : ∀ symbol {s t}, R s t →
      Option.Rel P (i.emission? symbol s) (j.emission? symbol t)) :
    (∃ index emitted, left = .error (.unmatchedPop index emitted) ∧
        right = .error (.unmatchedPop index emitted)) ∨
      ∃ d e, left = .ok d ∧ right = .ok e ∧ List.Forall₂ P d.toList e.toList := by
  cases h with
  | drawn _ hrelated hleft hright =>
    refine .inr ⟨_, _, rfl, rfl, ?_⟩
    rw [hleft, hright]
    exact forall₂_drawn hemission hrelated
  | broken _ hrelated =>
    rw [(forall₂_drawn hemission hrelated).length_eq]
    exact .inl ⟨_, _, rfl, rfl⟩

end Related

end LSystem.Turtle
