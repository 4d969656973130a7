import LSystem.Proofs.Nesting
import LSystem.Proofs.SortedMap
import LSystem.Turtle.Interpreter

/-!
# How interpretations end

Whether a word can be drawn depends on the parameters and on the order of its brackets, which are
the symbols that the table binds to `push` and to `pop`. If the brackets nest, there is a drawing,
and its primitives are of the kinds that the symbols of the word ask for. If they do not, the
interpretation ends at the symbol where the word breaks, with the place of this symbol in bytes and
the number of primitives before it.

Between two symbols a machine has counted what it has read: its offset is a number of bytes, its
stack is as high as branches are open, and its drawing has a primitive for each emitting symbol
(`Machine.Counts`). A step keeps these counts unless it closes a branch that is not there, and a run
keeps them as long as the word nests.

The main statement is `interpret_outcome`.
-/

namespace LSystem.Turtle

def Motion.emits {α : Type} : Motion α → Bool
  | draw => true
  | leaf => true
  | _ => false

/-- Which kind of primitive an operation is drawn as. -/
inductive DrawnAs : Op → Primitive → Prop
  | segment (start finish : Vec3) : DrawnAs .draw (.segment start finish)
  | marker (point : Vec3) (orientation : Quaternion) : DrawnAs .leaf (.marker point orientation)

namespace Interpreter

variable (i : Interpreter)

/-- The symbols that open and close branches, whatever they look like. -/
def brackets : Brackets := ⟨fun symbol => i.op symbol = .push, fun symbol => i.op symbol = .pop⟩

/-- The operations that emit primitives, in the order of their symbols. -/
def emitting (symbols : List Char) : List Op := (symbols.map i.op).filter Motion.emits

/-- The number of symbols that are bound to an operation. -/
def countOp (op : Op) (symbols : List Char) : Nat := symbols.countP fun symbol => i.op symbol = op

end Interpreter

variable {i : Interpreter} {symbol : Char} {symbols : List Char}

/-! ### The usual brackets -/

namespace Interpreter

theorem op_setOp (i : Interpreter) (symbol other : Char) (op : Op) :
    (i.setOp symbol op).op other = if other = symbol then op else i.op other := by
  rw [Interpreter.op, MotionTable.motion, setOp, SortedMap.get?_insert]
  split <;> rfl

theorem op_standard (config : Config) (symbol : Char) :
    (standard config).op symbol =
      if symbol = ']' then .pop else if symbol = '[' then .push
      else if symbol = '-' then .turn 1 else if symbol = '+' then .turn (-1)
      else if symbol = 'L' then .leaf else if symbol = 'F' then .draw else .ignore := by
  simp only [standard, populateStandard, setOps, standardOps, List.foldl_cons, List.foldl_nil,
    op_setOp]
  rfl

theorem brackets_standard (config : Config) : (standard config).brackets = .square := by
  have hopens : ∀ symbol, decide ((standard config).op symbol = .push) = (symbol == '[') := by
    intro symbol
    rw [op_standard]
    split_ifs <;> simp_all
  have hcloses : ∀ symbol, decide ((standard config).op symbol = .pop) = (symbol == ']') := by
    intro symbol
    rw [op_standard]
    split_ifs <;> simp_all
  rw [brackets, Brackets.square, Brackets.mk.injEq]
  exact ⟨funext hopens, funext hcloses⟩

end Interpreter

/-! ### Counting symbols and primitives -/

theorem opened_singleton :
    i.brackets.opened [symbol] = if i.op symbol = .push then 1 else 0 := by
  simp [Brackets.opened, Interpreter.brackets, List.countP_singleton]

theorem closed_singleton :
    i.brackets.closed [symbol] = if i.op symbol = .pop then 1 else 0 := by
  simp [Brackets.closed, Interpreter.brackets, List.countP_singleton]

theorem emitting_append (front back : List Char) :
    i.emitting (front ++ back) = i.emitting front ++ i.emitting back := by
  rw [Interpreter.emitting, List.map_append, List.filter_append]
  rfl

theorem emitting_singleton :
    i.emitting [symbol] = if (i.op symbol).emits then [i.op symbol] else [] := by
  simp [Interpreter.emitting, List.filter_singleton]

theorem countP_emitting {op : Op} (hemits : op.emits = true) (symbols : List Char) :
    (i.emitting symbols).countP (fun other => other = op) = i.countOp op symbols := by
  rw [Interpreter.emitting, List.countP_filter, List.countP_map, Interpreter.countOp]
  apply List.countP_congr
  intro symbol _
  by_cases hop : i.op symbol = op <;> simp [hop, hemits]

/-- Primitives are counted by counting the operations that are drawn as them. -/
theorem DrawnAs.counts {ops : List Op} {primitives : List Primitive}
    (h : List.Forall₂ DrawnAs ops primitives) :
    (primitives.filterMap Primitive.segment?).length = ops.countP (fun op => op = .draw) ∧
      (primitives.filterMap Primitive.marker?).length = ops.countP (fun op => op = .leaf) ∧
      primitives.length =
        ops.countP (fun op => op = .draw) + ops.countP (fun op => op = .leaf) := by
  induction h with
  | nil => exact ⟨rfl, rfl, rfl⟩
  | cons hhead _ ih =>
    obtain ⟨hsegments, hmarkers, hlength⟩ := ih
    cases hhead with
    | segment =>
      simp [List.filterMap_cons, Primitive.segment?, Primitive.marker?, hsegments, hmarkers,
        hlength, Nat.add_right_comm]
    | marker =>
      simp [List.filterMap_cons, Primitive.segment?, Primitive.marker?, hsegments, hmarkers,
        hlength, Nat.add_assoc]

theorem counts_of_drawnAs {drawing : Drawing}
    (h : List.Forall₂ DrawnAs (i.emitting symbols) drawing.toList) :
    drawing.segmentCount = i.countOp .draw symbols ∧ drawing.markerCount = i.countOp .leaf symbols ∧
      drawing.size = i.countOp .draw symbols + i.countOp .leaf symbols := by
  rw [← countP_emitting rfl, ← countP_emitting rfl]
  exact DrawnAs.counts h

/-! ### One step -/

/-- What a machine has counted when it has read some symbols from the start. -/
structure Machine.Counts (i : Interpreter) (read : List Char) (m : Machine) : Prop where
  offset : m.offset = (String.ofList read).utf8ByteSize
  branches : m.branches.length + i.brackets.closed read = i.brackets.opened read
  drawing : List.Forall₂ DrawnAs (i.emitting read) m.drawing.toList

namespace Machine

variable {m next : Machine} {read : List Char}

theorem counts_start (i : Interpreter) : (Machine.start i.config).Counts i [] where
  offset := rfl
  branches := rfl
  drawing := .nil

theorem Counts.skip (h : m.Counts i read) {drawn : List Primitive}
    (hoffset : next.offset = m.offset)
    (hbranches : next.branches.length + i.brackets.closed [symbol] =
      m.branches.length + i.brackets.opened [symbol])
    (hdrawing : next.drawing.toList = m.drawing.toList ++ drawn)
    (hdrawn : List.Forall₂ DrawnAs (i.emitting [symbol]) drawn) :
    (next.skip symbol).Counts i (read ++ [symbol]) where
  offset := by simp [Machine.skip, hoffset, h.offset]
  branches := by
    have hread := h.branches
    change next.branches.length + _ = _
    rw [Brackets.opened_append, Brackets.closed_append]
    omega
  drawing := by
    change List.Forall₂ DrawnAs _ next.drawing.toList
    rw [emitting_append, hdrawing]
    exact List.rel_append h.drawing hdrawn

/-- A symbol that emits a primitive of its kind leaves the branches alone. -/
theorem Counts.emit (h : m.Counts i read) {op : Op} (hop : i.op symbol = op) {p : Primitive}
    (hkind : DrawnAs op p) (hoffset : next.offset = m.offset)
    (hbranches : next.branches = m.branches) (hdrawing : next.drawing = m.drawing.push p) :
    (next.skip symbol).Counts i (read ++ [symbol]) := by
  have hsame : next.branches.length + i.brackets.closed [symbol] =
      m.branches.length + i.brackets.opened [symbol] := by
    rw [closed_singleton, opened_singleton, hop, hbranches]
    cases hkind <;> rfl
  have hpushed : next.drawing.toList = m.drawing.toList ++ [p] := by
    rw [hdrawing, Drawing.toList_push]
  have hdrawn : List.Forall₂ DrawnAs (i.emitting [symbol]) [p] := by
    rw [emitting_singleton, hop]
    cases hkind <;> exact .cons (by constructor) .nil
  exact h.skip hoffset hsame hpushed hdrawn

/-- A symbol that emits nothing may open or close a branch. -/
theorem Counts.quiet (h : m.Counts i read) {op : Op} (hop : i.op symbol = op)
    (hquiet : op.emits = false) (hoffset : next.offset = m.offset)
    (hbranches : next.branches.length + (if op = .pop then 1 else 0) =
      m.branches.length + (if op = .push then 1 else 0))
    (hdrawing : next.drawing = m.drawing) : (next.skip symbol).Counts i (read ++ [symbol]) := by
  have hcount : next.branches.length + i.brackets.closed [symbol] =
      m.branches.length + i.brackets.opened [symbol] := by
    rw [closed_singleton, opened_singleton, hop, hbranches]
  have hsame : next.drawing.toList = m.drawing.toList ++ [] := by
    rw [hdrawing, List.append_nil]
  have hdrawn : List.Forall₂ DrawnAs (i.emitting [symbol]) [] := by
    simp [emitting_singleton, hop, hquiet]
  exact h.skip hoffset hcount hsame hdrawn

/-- Only a symbol that closes a branch can stop a machine, and only if no branch is open. -/
theorem Counts.step (h : m.Counts i read)
    (hopen : i.brackets.closed [symbol] ≤ m.branches.length + i.brackets.opened [symbol]) :
    ∃ next, m.step i.config.stepLength i.motions symbol = .ok next ∧
      next.Counts i (read ++ [symbol]) := by
  rw [step_motions]
  cases hop : i.op symbol with
  | draw => exact ⟨_, rfl, h.emit hop (.segment _ _) rfl rfl rfl⟩
  | leaf => exact ⟨_, rfl, h.emit hop (.marker _ _) rfl rfl rfl⟩
  | move => exact ⟨_, rfl, h.quiet hop rfl rfl (by simp) rfl⟩
  | turn factor => exact ⟨_, rfl, h.quiet hop rfl rfl (by simp) rfl⟩
  | ignore => exact ⟨_, rfl, h.quiet hop rfl rfl (by simp) rfl⟩
  | push => exact ⟨_, rfl, h.quiet hop rfl rfl (by simp) rfl⟩
  | pop =>
    rw [closed_singleton, opened_singleton, hop] at hopen
    cases hbranches : m.branches with
    | nil => simp [hbranches] at hopen
    | cons turtle branches =>
      rw [Motion.map, apply_pop_of_cons _ hbranches]
      exact ⟨_, rfl, h.quiet hop rfl rfl (by simp [hbranches]) rfl⟩

theorem step_of_branches_eq_nil (hop : i.op symbol = .pop) (hbranches : m.branches = []) :
    m.step i.config.stepLength i.motions symbol =
      .error (.unmatchedPop m.offset m.drawing.size) := by
  rw [step_motions, hop, Motion.map, apply_pop_of_nil _ hbranches]
  rfl

/-! ### Runs -/

/-- A machine reads all symbols that nest when read with the branches that it has open. -/
theorem Counts.run (h : m.Counts i read)
    (hnests : i.brackets.NestsFrom m.branches.length symbols) :
    ∃ last, m.run i.config.stepLength i.motions symbols = .ok last ∧
      last.Counts i (read ++ symbols) := by
  induction symbols generalizing m read with
  | nil => exact ⟨m, rfl, by rwa [List.append_nil]⟩
  | cons symbol symbols ih =>
    obtain ⟨hopen, hrest⟩ := Brackets.nestsFrom_cons.1 hnests
    obtain ⟨next, hstep, hnext⟩ := h.step hopen
    have hdepth : m.branches.length + i.brackets.opened [symbol] - i.brackets.closed [symbol] =
        next.branches.length := by
      have hbefore := h.branches
      have hafter := hnext.branches
      rw [Brackets.opened_append, Brackets.closed_append] at hafter
      omega
    rw [hdepth] at hrest
    obtain ⟨last, hrun, hlast⟩ := ih hnext hrest
    refine ⟨last, ?_, by simpa using hlast⟩
    rw [run_cons, hstep]
    exact hrun

theorem run_of_nests (i : Interpreter) (hnests : i.brackets.Nests symbols) :
    ∃ last, (Machine.start i.config).run i.config.stepLength i.motions symbols = .ok last ∧
      last.Counts i symbols :=
  (counts_start i).run (Brackets.nestsFrom_zero_iff.2 hnests)

/-- Where a word breaks, the machine stops, whatever comes behind. -/
theorem run_of_breaksAt {before : List Char} (hbreaks : i.brackets.BreaksAt before symbol)
    (after : List Char) :
    (Machine.start i.config).run i.config.stepLength i.motions (before ++ symbol :: after) =
      .error (.unmatchedPop (String.ofList before).utf8ByteSize
        (i.countOp .draw before + i.countOp .leaf before)) := by
  obtain ⟨last, hrun, hlast⟩ := run_of_nests i hbreaks.nests
  have hop : i.op symbol = .pop := of_decide_eq_true hbreaks.closes
  have hbranches : last.branches = [] := by
    have hcount := hlast.branches
    rw [hbreaks.opened_eq_closed] at hcount
    exact List.length_eq_zero_iff.1 (by omega)
  have hsize := (counts_of_drawnAs hlast.drawing).2.2
  rw [run_append, hrun, Except.bind, run_cons, step_of_branches_eq_nil hop hbranches, hlast.offset,
    hsize]
  rfl

end Machine

/-! ### Whole words -/

theorem interpret_of_nests {word : String} (hvalid : i.config.validate = .ok ())
    (hnests : i.brackets.Nests word.toList) :
    ∃ drawing, i.interpret word = .ok drawing ∧
      List.Forall₂ DrawnAs (i.emitting word.toList) drawing.toList := by
  obtain ⟨last, hrun, hlast⟩ := Machine.run_of_nests i hnests
  refine ⟨last.drawing, ?_, hlast.drawing⟩
  rw [Interpreter.interpret, hvalid, hrun]
  rfl

theorem interpret_of_breaksAt {before : String} (hvalid : i.config.validate = .ok ())
    (hbreaks : i.brackets.BreaksAt before.toList symbol) (after : String) :
    i.interpret (before ++ .singleton symbol ++ after) =
      .error (.unmatchedPop before.utf8ByteSize
        (i.countOp .draw before.toList + i.countOp .leaf before.toList)) := by
  have hword : (before ++ .singleton symbol ++ after).toList =
      before.toList ++ symbol :: after.toList := by simp
  rw [Interpreter.interpret, hvalid, hword, Machine.run_of_breaksAt hbreaks, String.ofList_toList]
  rfl

theorem exists_unmatchedPop_iff {word : String} (hvalid : i.config.validate = .ok ()) :
    (∃ index emitted, i.interpret word = .error (.unmatchedPop index emitted)) ↔
      ¬i.brackets.Nests word.toList := by
  constructor
  · rintro ⟨index, emitted, hfault⟩ hnests
    obtain ⟨drawing, hok, -⟩ := interpret_of_nests hvalid hnests
    exact nomatch hfault.symm.trans hok
  · intro hbroken
    obtain ⟨before, symbol, after, rfl, hbreaks⟩ := Brackets.exists_word_breaksAt hbroken
    exact ⟨_, _, interpret_of_breaksAt hvalid hbreaks after⟩

/-- Every interpretation ends in one of three ways.

* Unfit parameters are refused whatever the word is.
* Otherwise it ends at an unmatched symbol exactly if some first part of the word closes more
  branches than it opens. The symbol is the last one of the shortest such part: its place is told in
  bytes, the primitives before it are counted, and they make up the drawing of what stands before
  the symbol. What stands behind it plays no role.
* If there is no such part, there is a drawing. It has a segment for each symbol bound to `draw`, a
  marker for each symbol bound to `leaf`, in the order of these symbols, and nothing else. -/
theorem interpret_outcome (i : Interpreter) (word : String) :
    (∀ fault, i.config.validate = .error fault → i.interpret word = .error (.parameter fault)) ∧
    (i.config.validate = .ok () →
      ((∃ index emitted, i.interpret word = .error (.unmatchedPop index emitted)) ↔
        ∃ front, front <+: word.toList ∧ i.brackets.opened front < i.brackets.closed front) ∧
      (∀ index emitted, i.interpret word = .error (.unmatchedPop index emitted) →
        ∃ before symbol after, word = before ++ .singleton symbol ++ after ∧
          i.brackets.BreaksAt before.toList symbol ∧ index = before.utf8ByteSize ∧
          emitted = i.countOp .draw before.toList + i.countOp .leaf before.toList ∧
          (∃ drawing, i.interpret before = .ok drawing ∧ drawing.size = emitted) ∧
          ∀ other, i.interpret (before ++ .singleton symbol ++ other) =
            .error (.unmatchedPop index emitted)) ∧
      (i.brackets.Nests word.toList →
        ∃ drawing, i.interpret word = .ok drawing ∧
          List.Forall₂ DrawnAs (i.emitting word.toList) drawing.toList ∧
          drawing.segmentCount = i.countOp .draw word.toList ∧
          drawing.markerCount = i.countOp .leaf word.toList)) := by
  refine ⟨fun fault hfault => by rw [Interpreter.interpret, hfault], fun hvalid => ?_⟩
  refine ⟨?_, fun index emitted hfault => ?_, fun hnests => ?_⟩
  · rw [exists_unmatchedPop_iff hvalid, Brackets.not_nests_iff]
  · have hbroken := (exists_unmatchedPop_iff hvalid).1 ⟨index, emitted, hfault⟩
    obtain ⟨before, symbol, after, hword, hbreaks⟩ := Brackets.exists_word_breaksAt hbroken
    rw [hword, interpret_of_breaksAt hvalid hbreaks] at hfault
    cases hfault
    obtain ⟨drawing, hok, hkinds⟩ := interpret_of_nests hvalid hbreaks.nests
    exact ⟨before, symbol, after, hword, hbreaks, rfl, rfl,
      ⟨drawing, hok, (counts_of_drawnAs hkinds).2.2⟩, interpret_of_breaksAt hvalid hbreaks⟩
  · obtain ⟨drawing, hok, hkinds⟩ := interpret_of_nests hvalid hnests
    obtain ⟨hsegments, hmarkers, -⟩ := counts_of_drawnAs hkinds
    exact ⟨drawing, hok, hkinds, hsegments, hmarkers⟩

/-- With other symbols as brackets and `[` as a step, the word breaks at its second `é`. -/
theorem interpret_outcome_rebound :
    let i := (Interpreter.standard default).withOps
      [('L', .leaf), ('[', .draw), ('«', .push), ('é', .pop)]
    i.config.validate = .ok () ∧ i.interpret "L«[éé[" = .error (.unmatchedPop 6 2) ∧
      ∃ before symbol, i.brackets.BreaksAt before.toList symbol ∧ 6 = before.utf8ByteSize ∧
        ∀ other, i.interpret (before ++ .singleton symbol ++ other) =
          .error (.unmatchedPop 6 2) := by
  intro i
  have hvalid : i.config.validate = .ok () := by decide +kernel
  have hfault : i.interpret "L«[éé[" = .error (.unmatchedPop 6 2) := by decide +kernel
  obtain ⟨before, symbol, -, -, hbreaks, hindex, -, -, hother⟩ :=
    ((interpret_outcome i "L«[éé[").2 hvalid).2.1 6 2 hfault
  exact ⟨hvalid, hfault, before, symbol, hbreaks, hindex, hother⟩

end LSystem.Turtle
