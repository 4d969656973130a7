import LSystem.Turtle.Interpreter

/-!
# Drawing without a stack

The interpreter remembers a state for every open branch. Here the same drawing is described without
any memory: at each symbol the state is found anew, by walking from the start along the open path to
that symbol, which is all that was read before it without the branches that are closed and without
the openings of those that are not.

The open path is read off backwards (`openSteps`): with a count of the branches that have to be
skipped, a closing symbol adds one and an opening symbol takes one off. The same function at the
count `k` gives the path to the `k`th open branch, and this is the invariant that ties the stack to
the word (`Machine.OnPath`).

The main statement is `toList_interpret_eq`. It also says that a closed branch, whatever it holds,
has no influence on what is drawn behind it.
-/

namespace LSystem.Turtle

/-! ### Open paths -/

section OpenPath

variable {α : Type}

/-- Some motions, the last one first, without the innermost `closed` branches that are open at the
end, without the branches that are closed, and without the openings of all others. -/
def openSteps (closed : Nat) : List (Motion α) → List (Motion α)
  | [] => []
  | .pop :: earlier => openSteps (closed + 1) earlier
  | .push :: earlier => openSteps (closed - 1) earlier
  | motion :: earlier =>
    if closed = 0 then motion :: openSteps 0 earlier else openSteps closed earlier

/-- The open path through some motions: every closed branch is deleted, with both its ends and all
between them, and so is the opening of every branch that is not closed. -/
def openPath (motions : List (Motion α)) : List (Motion α) := (openSteps 0 motions.reverse).reverse

/-- Motions that close each branch they open, and no other. -/
inductive Closed : List (Motion α) → Prop
  | nil : Closed []
  | cons {motion : Motion α} {rest : List (Motion α)} (hpush : motion ≠ .push)
      (hpop : motion ≠ .pop) : Closed rest → Closed (motion :: rest)
  | branch {inside rest : List (Motion α)} :
      Closed inside → Closed rest → Closed (.push :: inside ++ .pop :: rest)

theorem openSteps_zero_cons {motion : Motion α} (earlier : List (Motion α))
    (hpush : motion ≠ .push) (hpop : motion ≠ .pop) :
    openSteps 0 (motion :: earlier) = motion :: openSteps 0 earlier := by
  cases motion <;> first | rfl | contradiction

theorem openSteps_succ_cons {motion : Motion α} (closed : Nat) (earlier : List (Motion α))
    (hpush : motion ≠ .push) (hpop : motion ≠ .pop) :
    openSteps (closed + 1) (motion :: earlier) = openSteps (closed + 1) earlier := by
  cases motion <;> first | rfl | contradiction

/-- Inside a branch that is skipped anyway, closed branches make no difference. -/
theorem Closed.openSteps_succ {inside : List (Motion α)} (hclosed : Closed inside) (closed : Nat)
    (earlier : List (Motion α)) :
    openSteps (closed + 1) (inside.reverse ++ earlier) = openSteps (closed + 1) earlier := by
  induction hclosed generalizing closed earlier with
  | nil => rfl
  | cons hpush hpop _ ih =>
    rw [List.reverse_cons, List.append_assoc, ih]
    exact openSteps_succ_cons closed earlier hpush hpop
  | branch _ _ ihinside ihrest =>
    rw [List.reverse_append, List.reverse_cons, List.reverse_cons]
    simp only [List.append_assoc, List.cons_append]
    rw [ihrest]
    exact ihinside (closed + 1) (.push :: earlier)

/-- Motions behind two pasts that are skipped alike are skipped alike. -/
theorem openSteps_append_congr {left right : List (Motion α)}
    (hsame : ∀ closed, openSteps closed left = openSteps closed right) (later : List (Motion α)) :
    ∀ closed, openSteps closed (later ++ left) = openSteps closed (later ++ right) := by
  induction later with
  | nil => exact hsame
  | cons motion later ih =>
    intro closed
    cases motion <;> simp only [List.cons_append, openSteps, ih]

/-- A closed branch leaves no trace in an open path. -/
theorem openPath_branch {inside : List (Motion α)} (hclosed : Closed inside)
    (before after : List (Motion α)) :
    openPath (before ++ .push :: inside ++ .pop :: after) = openPath (before ++ after) := by
  have hsame : ∀ closed, openSteps closed (.pop :: (inside.reverse ++ .push :: before.reverse)) =
      openSteps closed before.reverse := by
    intro closed
    exact hclosed.openSteps_succ closed (.push :: before.reverse)
  have hreverse : (before ++ .push :: inside ++ .pop :: after).reverse =
      after.reverse ++ .pop :: (inside.reverse ++ .push :: before.reverse) := by
    simp
  rw [openPath, openPath, hreverse, List.reverse_append,
    openSteps_append_congr hsame after.reverse 0]

end OpenPath

/-! ### Drawing along open paths -/

namespace Config

variable (config : Config)

/-- The state after one operation of an open path. -/
def follow (s : State) : Op → State
  | .draw => s.advance config.stepLength
  | .move => s.advance config.stepLength
  | .turn factor => s.turn (config.turnRadians * factor)
  | _ => s

/-- The state at the end of an open path from the start. -/
def walk (path : List Op) : State := path.foldl config.follow config.start

/-- The primitive that an operation emits in a state. -/
def emission? (s : State) : Op → Option Primitive
  | .draw => some (.segment s.position (s.advance config.stepLength).position)
  | .leaf => some (.marker s.position s.rotation)
  | _ => none

/-- The primitives that operations emit after others: each is found by walking along the open path
to its operation. -/
def drawnAfter (before : List Op) : List Op → List Primitive
  | [] => []
  | op :: rest =>
    (config.emission? (config.walk (openPath before)) op).toList ++ drawnAfter (before ++ [op]) rest

theorem drawnAfter_append (before ops more : List Op) :
    config.drawnAfter before (ops ++ more) =
      config.drawnAfter before ops ++ config.drawnAfter (before ++ ops) more := by
  induction ops generalizing before with
  | nil => simp [drawnAfter]
  | cons op ops ih => simp [drawnAfter, ih, List.append_assoc]

/-- What is drawn behind a closed branch is drawn as if the branch were not there. -/
theorem drawnAfter_branch {inside : List Op} (hclosed : Closed inside) (before ops : List Op) :
    ∀ after, config.drawnAfter (before ++ .push :: inside ++ .pop :: after) ops =
      config.drawnAfter (before ++ after) ops := by
  induction ops with
  | nil => intro after; rfl
  | cons op ops ih =>
    intro after
    have hnext := ih (after ++ [op])
    simp only [drawnAfter, List.append_assoc, List.cons_append] at hnext ⊢
    rw [hnext]
    have hpath := openPath_branch hclosed before after
    simp only [List.append_assoc, List.cons_append] at hpath
    rw [hpath]

end Config

/-! ### The stack holds the states at the open branches -/

/-- The turtle and the states on the stack are those at the ends of the paths that are open when
none, one, two and so on of the open branches are closed. -/
def Machine.OnPath (config : Config) (read : List Op) (m : Machine) : Prop :=
  ∀ closed s, (m.turtle :: m.branches)[closed]? = some s →
    s = config.walk (openSteps closed read.reverse).reverse

namespace Machine

variable {config : Config} {read : List Op} {m next : Machine}

theorem onPath_start (config : Config) : (Machine.start config).OnPath config [] := by
  intro closed s hs
  cases closed with
  | zero => exact (Option.some.inj hs).symm
  | succ closed => exact nomatch hs

theorem OnPath.turtle_eq (hpath : m.OnPath config read) :
    m.turtle = config.walk (openPath read) := hpath 0 m.turtle rfl

/-- An operation that leaves the stack alone moves the turtle one step along its path. -/
theorem OnPath.step (hpath : m.OnPath config read) {op : Op} (hpush : op ≠ .push) (hpop : op ≠ .pop)
    (hturtle : next.turtle = config.follow m.turtle op) (hbranches : next.branches = m.branches) :
    next.OnPath config (read ++ [op]) := by
  intro closed s hs
  rw [List.reverse_append, List.reverse_singleton, List.singleton_append]
  cases closed with
  | zero =>
    have hs' : next.turtle = s := Option.some.inj hs
    rw [openSteps_zero_cons _ hpush hpop, ← hs', hturtle, hpath.turtle_eq]
    simp [Config.walk, openPath]
  | succ closed =>
    rw [List.getElem?_cons_succ, hbranches] at hs
    rw [openSteps_succ_cons closed _ hpush hpop]
    exact hpath (closed + 1) s (by rwa [List.getElem?_cons_succ])

theorem OnPath.push (hpath : m.OnPath config read) (hturtle : next.turtle = m.turtle)
    (hbranches : next.branches = m.turtle :: m.branches) :
    next.OnPath config (read ++ [.push]) := by
  intro closed s hs
  rw [List.reverse_append, List.reverse_singleton, List.singleton_append, openSteps]
  rw [hturtle, hbranches] at hs
  cases closed with
  | zero => exact hpath 0 s hs
  | succ closed => exact hpath closed s hs

theorem OnPath.pop (hpath : m.OnPath config read)
    (hbranches : m.branches = next.turtle :: next.branches) :
    next.OnPath config (read ++ [.pop]) := by
  intro closed s hs
  rw [List.reverse_append, List.reverse_singleton, List.singleton_append, openSteps]
  exact hpath (closed + 1) s (by rw [List.getElem?_cons_succ, hbranches, hs])

/-- An operation that leaves the stack alone moves the turtle and emits what its state demands. -/
theorem apply_of_plain (config : Config) (m : Machine) {op : Op} (hpush : op ≠ .push)
    (hpop : op ≠ .pop) :
    ∃ d, m.apply config.stepLength (op.map config.rotation) =
        .ok { m with turtle := config.follow m.turtle op, drawing := d } ∧
      d.toList = m.drawing.toList ++ (config.emission? m.turtle op).toList := by
  cases op with
  | draw => exact ⟨_, rfl, Drawing.toList_push ..⟩
  | leaf => exact ⟨_, rfl, Drawing.toList_push ..⟩
  | move => exact ⟨_, rfl, (List.append_nil _).symm⟩
  | turn factor => exact ⟨_, rfl, (List.append_nil _).symm⟩
  | ignore => exact ⟨_, rfl, (List.append_nil _).symm⟩
  | push => exact absurd rfl hpush
  | pop => exact absurd rfl hpop

/-- Every operation keeps the stack in line with the word, and emits what its state demands. -/
theorem OnPath.apply (hpath : m.OnPath config read) {op : Op}
    (hnext : m.apply config.stepLength (op.map config.rotation) = .ok next) :
    next.OnPath config (read ++ [op]) ∧
      next.drawing.toList =
        m.drawing.toList ++ (config.emission? (config.walk (openPath read)) op).toList := by
  rw [← hpath.turtle_eq]
  by_cases hpush : op = .push
  · subst hpush
    cases hnext
    exact ⟨hpath.push rfl rfl, (List.append_nil _).symm⟩
  by_cases hpop : op = .pop
  · subst hpop
    cases hbranches : m.branches with
    | nil =>
      rw [Motion.map, apply_pop_of_nil _ hbranches] at hnext
      exact nomatch hnext
    | cons s branches =>
      rw [Motion.map, apply_pop_of_cons _ hbranches] at hnext
      cases hnext
      exact ⟨hpath.pop hbranches, (List.append_nil _).symm⟩
  · obtain ⟨d, hplain, hdrawing⟩ := apply_of_plain config m hpush hpop
    rw [hplain] at hnext
    cases hnext
    exact ⟨hpath.step hpush hpop rfl rfl, hdrawing⟩

theorem OnPath.run {i : Interpreter} (hpath : m.OnPath i.config read)
    (hdrawing : m.drawing.toList = i.config.drawnAfter [] read) {symbols : List Char}
    (hnext : m.run i.config.stepLength i.motions symbols = .ok next) :
    next.drawing.toList = i.config.drawnAfter [] (read ++ symbols.map i.op) := by
  induction symbols generalizing m read with
  | nil =>
    cases hnext
    rw [List.map_nil, List.append_nil, hdrawing]
  | cons symbol symbols ih =>
    obtain ⟨moved, happly, hrest⟩ := exists_apply_of_run_cons _ hnext
    obtain ⟨hmoved, hemitted⟩ := hpath.apply happly
    have hskipped : (moved.skip symbol).OnPath i.config (read ++ [i.op symbol]) := hmoved
    have hdrawn : (moved.skip symbol).drawing.toList =
        i.config.drawnAfter [] (read ++ [i.op symbol]) := by
      simp [Machine.skip, hemitted, hdrawing, Config.drawnAfter_append, Config.drawnAfter]
    rw [ih hskipped hdrawn hrest, List.map_cons, List.append_assoc, List.singleton_append]

end Machine

/-- A drawing is drawn along open paths: what each symbol emits is found by walking from the start
along the open path to the symbol. Behind a closed branch it is therefore drawn as if the branch,
whatever is inside, had not been read. -/
theorem toList_interpret_eq {i : Interpreter} {word : String} {drawing : Drawing}
    (hdrawing : i.interpret word = .ok drawing) :
    drawing.toList = i.config.drawnAfter [] (word.toList.map i.op) ∧
      ∀ before inside after : List Op,
        word.toList.map i.op = before ++ .push :: inside ++ .pop :: after → Closed inside →
          drawing.toList = i.config.drawnAfter [] before ++
            i.config.drawnAfter (before ++ [.push]) inside ++ i.config.drawnAfter before after := by
  have hdrawn : drawing.toList = i.config.drawnAfter [] (word.toList.map i.op) := by
    obtain ⟨last, hrun, rfl⟩ := Interpreter.exists_run_of_interpret hdrawing
    exact (Machine.onPath_start i.config).run rfl hrun
  refine ⟨hdrawn, fun before inside after hword hclosed => ?_⟩
  have hbehind : i.config.drawnAfter (before ++ .push :: inside ++ [.pop]) after =
      i.config.drawnAfter before after := by
    simpa using i.config.drawnAfter_branch hclosed before after []
  have hsplit : before ++ .push :: inside ++ .pop :: after =
      before ++ ([.push] ++ (inside ++ ([.pop] ++ after))) := by simp
  rw [hdrawn, hword, hsplit]
  simp only [Config.drawnAfter_append, Config.drawnAfter, Config.emission?]
  simpa using hbehind

/-- Behind a branch with another branch inside, the marker stands at the end of the first step. -/
theorem toList_interpret_eq_nested :
    let i : Interpreter := .standard default
    let inside : List Op := [.turn (-1), .push, .leaf, .pop, .draw]
    ∃ drawing, i.interpret "F[+[L]F]L" = .ok drawing ∧
      drawing.toList = i.config.drawnAfter [] ("F[+[L]F]L".toList.map i.op) ∧
      drawing.toList = i.config.drawnAfter [] [.draw] ++
        i.config.drawnAfter ([.draw] ++ [.push]) inside ++ i.config.drawnAfter [.draw] [.leaf] := by
  intro i inside
  have hclosed : Closed inside :=
    .cons (by simp) (by simp) (.branch (.cons (by simp) (by simp) .nil)
      (.cons (by simp) (by simp) .nil))
  have hword : "F[+[L]F]L".toList.map i.op = [.draw] ++ .push :: inside ++ .pop :: [.leaf] := by
    decide +kernel
  have hok : (i.interpret "F[+[L]F]L").isOk = true := by decide +kernel
  cases hdrawing : i.interpret "F[+[L]F]L" with
  | error fault =>
    rw [hdrawing] at hok
    exact nomatch hok
  | ok drawing =>
    obtain ⟨hdrawn, hbranch⟩ := toList_interpret_eq hdrawing
    exact ⟨drawing, rfl, hdrawn, hbranch [.draw] inside [.leaf] hword hclosed⟩

end LSystem.Turtle
