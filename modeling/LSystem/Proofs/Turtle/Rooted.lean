import LSystem.Proofs.Plant.Nesting

/-!
# Drawings hang together

A turtle that never moves without drawing leaves a trail: wherever it is, it is at its origin or at
the end of a segment that was drawn before. The same holds of the states on the stack, for they are
states that the turtle was in, and segments are never taken back. So whatever is drawn stands at the
origin or on something drawn earlier (`Drawing.RootedAt`).

One operation keeps both, the trail and the drawing (`Machine.Rooted.apply`). The usual table has no
operation that moves without drawing, so all plants are rooted. The main statement is
`rootedAt_origin`.
-/

namespace LSystem

/-- Where a primitive is attached: a segment at its start, a marker at its point. -/
def Primitive.base : Primitive → Vec3
  | segment start _ => start
  | marker point _ => point

/-- The places to which something can be attached: the root, and the ends of segments. -/
def Primitive.Supports (root : Vec3) (drawn : List Primitive) (place : Vec3) : Prop :=
  place = root ∨ ∃ start, .segment start place ∈ drawn

/-- Every primitive is attached to the root or to the end of an earlier segment. -/
def Drawing.RootedAt (root : Vec3) (d : Drawing) : Prop :=
  ∀ earlier p later, d.toList = earlier ++ p :: later → Primitive.Supports root earlier p.base

theorem Primitive.Supports.append {root place : Vec3} {drawn : List Primitive}
    (h : Supports root drawn place) (more : List Primitive) :
    Supports root (drawn ++ more) place := by
  rcases h with hroot | ⟨start, hmem⟩
  · exact .inl hroot
  · exact .inr ⟨start, List.mem_append_left more hmem⟩

namespace Drawing

variable {root : Vec3} {d : Drawing}

theorem rootedAt_empty (root : Vec3) : Drawing.empty.RootedAt root := by
  intro earlier p later hsplit
  exact absurd hsplit.symm (List.append_ne_nil_of_right_ne_nil _ (List.cons_ne_nil p later))

theorem RootedAt.push (h : d.RootedAt root) {p : Primitive}
    (hbase : Primitive.Supports root d.toList p.base) : (d.push p).RootedAt root := by
  intro earlier q later hsplit
  rw [toList_push] at hsplit
  rcases List.eq_nil_or_concat later with rfl | ⟨between, last, rfl⟩
  · obtain ⟨rfl, hlast⟩ := List.append_inj' hsplit rfl
    cases hlast
    exact hbase
  · have hsame : d.toList ++ [p] = earlier ++ q :: between ++ [last] := by
      rw [hsplit, List.concat_eq_append, List.append_assoc, List.cons_append]
    exact h earlier q between (List.append_inj' hsame rfl).1

end Drawing

namespace Turtle

/-! ### One operation -/

/-- The drawing is rooted, and so are the turtle and the states on the stack. -/
structure Machine.Rooted (root : Vec3) (m : Machine) : Prop where
  drawing : m.drawing.RootedAt root
  states : ∀ s ∈ m.turtle :: m.branches, Primitive.Supports root m.drawing.toList s.position

namespace Machine

variable {root : Vec3} {m next : Machine}

theorem rooted_start (config : Config) : (Machine.start config).Rooted config.origin where
  drawing := Drawing.rootedAt_empty config.origin
  states := by
    intro s hs
    rw [List.mem_singleton.1 hs]
    exact .inl rfl

/-- Drawing more leaves the states rooted. -/
theorem Rooted.states_push (h : m.Rooted root) (p : Primitive) :
    ∀ s ∈ m.turtle :: m.branches,
      Primitive.Supports root (m.drawing.push p).toList s.position := by
  intro s hs
  rw [Drawing.toList_push]
  exact (h.states s hs).append [p]

theorem Rooted.apply (h : m.Rooted root) {distance : Float32} {motion : Motion Quaternion}
    (hmove : motion ≠ .move) (hnext : m.apply distance motion = .ok next) : next.Rooted root := by
  have hturtle := h.states m.turtle List.mem_cons_self
  have hbranches : ∀ s ∈ m.branches, Primitive.Supports root m.drawing.toList s.position :=
    fun s hs => h.states s (List.mem_cons_of_mem _ hs)
  cases motion with
  | draw =>
    cases hnext
    refine ⟨h.drawing.push hturtle, List.forall_mem_cons.2 ⟨?_, fun s hs => ?_⟩⟩
    · -- The turtle is at the end of the new segment.
      exact .inr ⟨m.turtle.position, by simp [Drawing.toList_push]⟩
    · exact h.states_push _ s (List.mem_cons_of_mem _ hs)
  | move => exact absurd rfl hmove
  | leaf =>
    cases hnext
    exact ⟨h.drawing.push hturtle, h.states_push _⟩
  | turn rotation =>
    cases hnext
    exact ⟨h.drawing, List.forall_mem_cons.2 ⟨hturtle, hbranches⟩⟩
  | push =>
    cases hnext
    exact ⟨h.drawing, List.forall_mem_cons.2 ⟨hturtle, h.states⟩⟩
  | pop =>
    cases hstack : m.branches with
    | nil =>
      rw [apply_pop_of_nil _ hstack] at hnext
      exact nomatch hnext
    | cons turtle branches =>
      rw [apply_pop_of_cons _ hstack] at hnext
      cases hnext
      exact ⟨h.drawing, hstack ▸ hbranches⟩
  | ignore =>
    cases hnext
    exact h

/-! ### Runs -/

theorem Rooted.run (h : m.Rooted root) {i : Interpreter} {symbols : List Char}
    (hmove : ∀ symbol ∈ symbols, i.op symbol ≠ .move)
    (hnext : m.run i.config.stepLength i.motions symbols = .ok next) : next.Rooted root := by
  induction symbols generalizing m with
  | nil =>
    cases hnext
    exact h
  | cons symbol symbols ih =>
    obtain ⟨hsymbol, hsymbols⟩ := List.forall_mem_cons.1 hmove
    obtain ⟨moved, happly, hrest⟩ := exists_apply_of_run_cons _ hnext
    have hmotion : (i.op symbol).map i.config.rotation ≠ .move := by
      cases hop : i.op symbol <;> simp_all [Motion.map]
    have hmoved : moved.Rooted root := h.apply hmotion happly
    have hskipped : (moved.skip symbol).Rooted root := ⟨hmoved.drawing, hmoved.states⟩
    exact ih hskipped hsymbols hrest

end Machine

theorem rootedAt_of_interpret {i : Interpreter} {word : String} {d : Drawing}
    (hmove : ∀ symbol ∈ word.toList, i.op symbol ≠ .move) (hdrawing : i.interpret word = .ok d) :
    d.RootedAt i.config.origin := by
  obtain ⟨last, hrun, rfl⟩ := Interpreter.exists_run_of_interpret hdrawing
  exact ((Machine.rooted_start i.config).run hmove hrun).drawing

theorem op_standard_ne_move (config : Config) (symbol : Char) :
    (Interpreter.standard config).op symbol ≠ .move := by
  rw [Interpreter.op_standard]
  split_ifs <;> simp

/-- If no symbol of the word moves the turtle without drawing, everything in the drawing stands at
the origin or at the end of something drawn earlier, bit for bit. So it is with every plant that can
be grown. -/
theorem rootedAt_origin :
    (∀ (i : Interpreter) (word : String) (d : Drawing),
      (∀ symbol ∈ word.toList, i.op symbol ≠ .move) → i.interpret word = .ok d →
        d.RootedAt i.config.origin) ∧
    ∀ (plant : Plant) (d : Drawing), plant.grow = .ok d → d.RootedAt plant.turtle.origin := by
  refine ⟨fun i word d => rootedAt_of_interpret, fun plant d hgrow => ?_⟩
  rw [Plant.grow] at hgrow
  split at hgrow
  · cases hgrow
  · exact rootedAt_of_interpret (fun symbol _ => op_standard_ne_move plant.turtle symbol) hgrow

/-- Steps so long that two of them leave the range of numbers, in a table where `f` moves without
drawing but is not used. -/
theorem rootedAt_origin_overflow :
    let i : Interpreter :=
      (Interpreter.standard { (default : Config) with stepLength := .ofBits 0x7f7fffff }).setOp
        'f' .move
    ∃ d tree, i.interpret "FF[+F[FL]]FL" = .ok d ∧ d.RootedAt i.config.origin ∧
      (default : Plant).grow = .ok tree ∧ tree.RootedAt (default : Plant).turtle.origin := by
  intro i
  have hmove : ∀ symbol ∈ "FF[+F[FL]]FL".toList, i.op symbol ≠ .move := by
    intro symbol hmem
    have hother : symbol ≠ 'f' := by
      rintro rfl
      exact absurd hmem (by decide)
    rw [Interpreter.op_setOp, if_neg hother]
    exact op_standard_ne_move _ symbol
  have hvalid : i.config.validate = .ok () := by decide +kernel
  have hnests : i.brackets.Nests "FF[+F[FL]]FL".toList := by decide +kernel
  obtain ⟨d, hdrawing, -⟩ := interpret_of_nests hvalid hnests
  obtain ⟨tree, hgrow⟩ := @Plant.exists_grow_eq_ok default (by decide +kernel)
    (by decide +kernel) (by decide +kernel)
  exact ⟨d, tree, hdrawing, rootedAt_origin.1 i _ d hmove hdrawing, hgrow,
    rootedAt_origin.2 default tree hgrow⟩

end Turtle

end LSystem
