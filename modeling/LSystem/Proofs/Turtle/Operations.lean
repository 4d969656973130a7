import LSystem.Proofs.Turtle.Outcome

/-!
# Only the operations matter

A word is read symbol by symbol, but the turtle sees no symbols: it performs the operations that the
table has for them, and those that do nothing pass it by. So an interpretation is known from the
sequence of its other operations. A machine that is given nothing but these operations, and counts
them instead of bytes (`Machine.perform`), goes the same way as the machine that reads the word
(`Machine.readAs`): where the one stops at an operation, the other stops at the symbol of this
operation (`Interpreter.OperationAt`).

Two words with the same operations, be they read with different tables, are thereby compared through
what they have in common. The main statement is `interpret_of_operations_eq`.
-/

namespace LSystem.Turtle

namespace Interpreter

/-- The operations of some symbols, without those that do nothing. -/
def operations (i : Interpreter) (symbols : List Char) : List Op :=
  (symbols.map i.op).filter (· ≠ .ignore)

/-- The symbol that starts at a byte of the word has an operation, and so many come before it. -/
def OperationAt (i : Interpreter) (word : String) (count index : Nat) : Prop :=
  ∃ before symbol after, word = before ++ .singleton symbol ++ after ∧ i.op symbol ≠ .ignore ∧
    (i.operations before.toList).length = count ∧ before.utf8ByteSize = index

variable {i : Interpreter} {symbol : Char}

theorem operations_cons (i : Interpreter) (symbol : Char) (symbols : List Char) :
    i.operations (symbol :: symbols) = i.operations [symbol] ++ i.operations symbols := by
  rw [operations, ← List.singleton_append, List.map_append, List.filter_append]
  rfl

theorem operations_of_ignore (hop : i.op symbol = .ignore) : i.operations [symbol] = [] := by
  simp [operations, hop]

theorem operations_of_ne (hop : i.op symbol ≠ .ignore) : i.operations [symbol] = [i.op symbol] := by
  simp [operations, hop]

end Interpreter

/-! ### One operation -/

namespace Machine

/-- The machine after the next operation. Its offset is the number of operations before. -/
def perform (config : Config) (m : Machine) (op : Op) : Except Fault Machine :=
  (fun next => { next with offset := next.offset + 1 }) <$>
    m.apply config.stepLength (op.map config.rotation)

def performAll (config : Config) (m : Machine) (ops : List Op) : Except Fault Machine :=
  ops.foldlM (perform config) m

theorem performAll_cons (config : Config) (m : Machine) (op : Op) (ops : List Op) :
    m.performAll config (op :: ops) =
      (m.perform config op).bind fun next => next.performAll config ops :=
  List.foldlM_cons

/-- What a motion does has nothing to do with the offset. Only a failure tells it. -/
theorem apply_offset_cases (distance : Float32) (turtle : State) (branches : List State)
    (drawing : Drawing) (motion : Motion Quaternion) :
    (∃ turtle' branches' drawing', ∀ offset,
        (mk offset turtle branches drawing).apply distance motion =
          .ok (mk offset turtle' branches' drawing')) ∨
      ∀ offset, (mk offset turtle branches drawing).apply distance motion =
        .error (.unmatchedPop offset drawing.size) := by
  cases motion with
  | draw =>
    let finish := turtle.advance distance
    exact .inl ⟨finish, branches, drawing.push (.segment turtle.position finish.position),
      fun _ => rfl⟩
  | move => exact .inl ⟨turtle.advance distance, branches, drawing, fun _ => rfl⟩
  | leaf =>
    exact .inl ⟨turtle, branches, drawing.push (.marker turtle.position turtle.rotation),
      fun _ => rfl⟩
  | turn rotation => exact .inl ⟨turtle.rotate rotation, branches, drawing, fun _ => rfl⟩
  | push => exact .inl ⟨turtle, turtle :: branches, drawing, fun _ => rfl⟩
  | pop =>
    cases branches with
    | nil => exact .inr fun _ => rfl
    | cons turtle' branches => exact .inl ⟨turtle', branches, drawing, fun _ => rfl⟩
  | ignore => exact .inl ⟨turtle, branches, drawing, fun _ => rfl⟩

/-! ### All operations -/

/-- How reading some symbols ends, and how performing their operations does: with the same drawing,
or the one at the symbol of the operation at which the other ends. -/
inductive ReadAs (i : Interpreter) (offset count : Nat) (symbols : List Char) :
    Except Fault Machine → Except Fault Machine → Prop
  | drawn {last last' : Machine} (hdrawing : last.drawing = last'.drawing) :
      ReadAs i offset count symbols (.ok last) (.ok last')
  | broken {before : List Char} {symbol : Char} {after : List Char} {emitted : Nat}
      (hsymbols : symbols = before ++ symbol :: after) (hop : i.op symbol ≠ .ignore) :
      ReadAs i offset count symbols
        (.error (.unmatchedPop (offset + (String.ofList before).utf8ByteSize) emitted))
        (.error (.unmatchedPop (count + (i.operations before).length) emitted))

theorem ReadAs.cons {i : Interpreter} {offset count : Nat} {symbol : Char} {symbols : List Char}
    {read performed : Except Fault Machine}
    (h : ReadAs i (offset + symbol.utf8Size) (count + (i.operations [symbol]).length) symbols
      read performed) : ReadAs i offset count (symbol :: symbols) read performed := by
  cases h with
  | drawn hdrawing => exact .drawn hdrawing
  | @broken before stop after emitted hsymbols hop =>
    have hsplit : symbol :: symbols = (symbol :: before) ++ stop :: after := by
      rw [hsymbols, List.cons_append]
    have hoffset : offset + symbol.utf8Size + (String.ofList before).utf8ByteSize =
        offset + (String.ofList (symbol :: before)).utf8ByteSize := by
      rw [String.ofList_cons, String.utf8ByteSize_append, String.utf8ByteSize_singleton,
        Nat.add_assoc]
    have hcount : count + (i.operations [symbol]).length + (i.operations before).length =
        count + (i.operations (symbol :: before)).length := by
      rw [i.operations_cons symbol before, List.length_append, Nat.add_assoc]
    rw [hoffset, hcount]
    exact .broken hsplit hop

/-- A machine that reads symbols and a machine that performs their operations go the same way. -/
theorem readAs (i : Interpreter) (turtle : State) (branches : List State) (drawing : Drawing)
    (offset count : Nat) (symbols : List Char) :
    ReadAs i offset count symbols
      ((mk offset turtle branches drawing).run i.config.stepLength i.motions symbols)
      ((mk count turtle branches drawing).performAll i.config (i.operations symbols)) := by
  induction symbols generalizing turtle branches drawing offset count with
  | nil => exact .drawn rfl
  | cons symbol symbols ih =>
    rw [run_cons, step_motions, i.operations_cons symbol symbols]
    by_cases hop : i.op symbol = .ignore
    · -- Only the machine that reads the symbol takes notice of it.
      have hnone := Interpreter.operations_of_ignore hop
      have hrest := ih turtle branches drawing (offset + symbol.utf8Size) count
      rw [hop, hnone]
      exact ReadAs.cons (by rwa [hnone])
    · have hone := Interpreter.operations_of_ne hop
      rw [hone, List.singleton_append, performAll_cons, perform]
      rcases apply_offset_cases i.config.stepLength turtle branches drawing
        ((i.op symbol).map i.config.rotation) with ⟨turtle', branches', drawing', hnext⟩ | hfail
      · have hrest := ih turtle' branches' drawing' (offset + symbol.utf8Size) (count + 1)
        rw [hnext offset, hnext count]
        exact ReadAs.cons (by rwa [hone])
      · rw [hfail offset, hfail count]
        exact .broken (show symbol :: symbols = [] ++ symbol :: symbols from rfl) hop

end Machine

/-! ### Words with the same operations -/

/-- How two interpretations of two words end that make the turtle do the same: with the same drawing,
or at the same operation after the same number of primitives. -/
inductive SameEnd (i j : Interpreter) (word word' : String) :
    Except Fault Drawing → Except Fault Drawing → Prop
  | drawn (d : Drawing) : SameEnd i j word word' (.ok d) (.ok d)
  | broken {count emitted index index' : Nat} (hleft : i.OperationAt word count index)
      (hright : j.OperationAt word' count index') :
      SameEnd i j word word' (.error (.unmatchedPop index emitted))
        (.error (.unmatchedPop index' emitted))

variable {i j : Interpreter} {word word' : String}

theorem Interpreter.operationAt_of_toList {before : List Char} {symbol : Char} {after : List Char}
    (hword : word.toList = before ++ symbol :: after) (hop : i.op symbol ≠ .ignore) :
    i.OperationAt word (i.operations before).length (String.ofList before).utf8ByteSize := by
  refine ⟨.ofList before, symbol, .ofList after, ?_, hop, by rw [String.toList_ofList], rfl⟩
  apply String.toList_injective
  simp [hword]

/-- Two machines that go the same way as one third end alike. -/
theorem Machine.ReadAs.sameEnd {read read' performed performed' : Except Fault Machine}
    (h : ReadAs i 0 0 word.toList read performed)
    (h' : ReadAs j 0 0 word'.toList read' performed') (hsame : performed = performed') :
    SameEnd i j word word' ((·.drawing) <$> read) ((·.drawing) <$> read') := by
  cases h with
  | @drawn last _ hdrawing =>
    cases h' with
    | @drawn last' _ hdrawing' =>
      cases hsame
      change SameEnd i j word word' (.ok last.drawing) (.ok last'.drawing)
      rw [hdrawing, ← hdrawing']
      exact .drawn last'.drawing
    | broken => exact nomatch hsame
  | broken hword hop =>
    cases h' with
    | drawn => exact nomatch hsame
    | broken hword' hop' =>
      rw [Except.error.injEq, Fault.unmatchedPop.injEq, Nat.zero_add, Nat.zero_add] at hsame
      obtain ⟨hcount, rfl⟩ := hsame
      rw [Nat.zero_add, Nat.zero_add]
      refine .broken (Interpreter.operationAt_of_toList hword hop) ?_
      rw [hcount]
      exact Interpreter.operationAt_of_toList hword' hop'

theorem sameEnd_interpret (hconfig : i.config = j.config) (hvalid : i.config.validate = .ok ())
    (hoperations : i.operations word.toList = j.operations word'.toList) :
    SameEnd i j word word' (i.interpret word) (j.interpret word') := by
  have hread := Machine.readAs i i.config.start [] .empty 0 0 word.toList
  have hread' := Machine.readAs j j.config.start [] .empty 0 0 word'.toList
  have hend := hread.sameEnd hread' (by rw [hconfig, hoperations])
  rw [Interpreter.interpret, Interpreter.interpret, ← hconfig, hvalid]
  rw [← hconfig] at hend
  exact hend

theorem interpret_eq_ok_iff (hconfig : i.config = j.config)
    (hoperations : i.operations word.toList = j.operations word'.toList) (d : Drawing) :
    i.interpret word = .ok d ↔ j.interpret word' = .ok d := by
  cases hvalid : i.config.validate with
  | error fault =>
    rw [Interpreter.interpret, Interpreter.interpret, ← hconfig, hvalid]
  | ok =>
    have hend := sameEnd_interpret hconfig hvalid hoperations
    generalize i.interpret word = left at hend ⊢
    generalize j.interpret word' = right at hend ⊢
    cases hend with
    | drawn => exact Iff.rfl
    | broken => simp

/-- Interpreters with the same parameters, whatever their tables are, and words in which they find
the same sequence of operations, apart from those that do nothing: the interpretations give the same
drawing, or they end at the same operation in the two words, after the same number of primitives.

So a drawing stays what it is if symbols that do nothing are put into the word or taken out of it, if
symbols give way to others with the same operations, and if the table is changed for symbols that do
not occur. -/
theorem interpret_of_operations_eq :
    (∀ (i j : Interpreter) (word word' : String), i.config = j.config →
      i.config.validate = .ok () → i.operations word.toList = j.operations word'.toList →
        SameEnd i j word word' (i.interpret word) (j.interpret word')) ∧
    (∀ (i : Interpreter) (word word' : String),
      (word.toList.filter fun symbol => i.op symbol ≠ .ignore) =
          (word'.toList.filter fun symbol => i.op symbol ≠ .ignore) →
        ∀ d, i.interpret word = .ok d ↔ i.interpret word' = .ok d) ∧
    (∀ (i : Interpreter) (word word' : String),
      word.toList.map i.op = word'.toList.map i.op →
        ∀ d, i.interpret word = .ok d ↔ i.interpret word' = .ok d) ∧
    ∀ (i j : Interpreter) (word : String), i.config = j.config →
      (∀ symbol ∈ word.toList, i.op symbol = j.op symbol) →
        ∀ d, i.interpret word = .ok d ↔ j.interpret word = .ok d := by
  refine ⟨fun i j word word' => sameEnd_interpret, fun i word word' hkept => ?_,
    fun i word word' haliases => ?_, fun i j word hconfig hops => ?_⟩
  · apply interpret_eq_ok_iff rfl
    have hmapped := congrArg (List.map i.op) hkept
    rw [Interpreter.operations, Interpreter.operations, List.filter_map, List.filter_map]
    exact hmapped
  · apply interpret_eq_ok_iff rfl
    rw [Interpreter.operations, haliases, Interpreter.operations]
  · apply interpret_eq_ok_iff hconfig
    rw [Interpreter.operations, List.map_congr_left hops, Interpreter.operations]

/-- A table with other and wider symbols, noise in the word, and a branch that is closed twice: both
words break at their sixth operation. -/
theorem interpret_of_operations_eq_noise :
    let i := Interpreter.standard default
    let j := i.withOps [('G', .draw), ('ö', .turn (-1)), ('«', .push), ('»', .pop), ('L', .leaf)]
    i.config = j.config ∧ i.config.validate = .ok () ∧
      i.operations "F[+L]]".toList = j.operations "G«öL»· »".toList ∧
      (∃ count emitted index index', i.interpret "F[+L]]" = .error (.unmatchedPop index emitted) ∧
        j.interpret "G«öL»· »" = .error (.unmatchedPop index' emitted) ∧
        i.OperationAt "F[+L]]" count index ∧ j.OperationAt "G«öL»· »" count index') ∧
      ("·F[ +L]".toList.filter fun symbol => i.op symbol ≠ .ignore) =
        ("F[+·L]".toList.filter fun symbol => i.op symbol ≠ .ignore) ∧
      (∀ d, i.interpret "·F[ +L]" = .ok d ↔ i.interpret "F[+·L]" = .ok d) ∧
      "FxL".toList.map i.op = "F·L".toList.map i.op ∧
      (∀ d, i.interpret "FxL" = .ok d ↔ i.interpret "F·L" = .ok d) ∧
      (∀ symbol ∈ "Lx".toList, i.op symbol = j.op symbol) ∧
      ∀ d, i.interpret "Lx" = .ok d ↔ j.interpret "Lx" = .ok d := by
  intro i j
  have hconfig : i.config = j.config := by decide +kernel
  have hvalid : i.config.validate = .ok () := by decide +kernel
  have hoperations : i.operations "F[+L]]".toList = j.operations "G«öL»· »".toList := by
    decide +kernel
  have hkept : ("·F[ +L]".toList.filter fun symbol => i.op symbol ≠ .ignore) =
      ("F[+·L]".toList.filter fun symbol => i.op symbol ≠ .ignore) := by decide +kernel
  have haliases : "FxL".toList.map i.op = "F·L".toList.map i.op := by decide +kernel
  have hunused : ∀ symbol ∈ "Lx".toList, i.op symbol = j.op symbol := by
    intro symbol hmem
    have hsymbols : symbol = 'L' ∨ symbol = 'x' := by simpa using hmem
    rcases hsymbols with rfl | rfl <;> decide +kernel
  obtain ⟨hends, hnoise, halias, htable⟩ := interpret_of_operations_eq
  have hend := hends i j "F[+L]]" "G«öL»· »" hconfig hvalid hoperations
  have hbroken : ¬i.brackets.Nests "F[+L]]".toList := by decide +kernel
  obtain ⟨index, emitted, hfault⟩ := (exists_unmatchedPop_iff hvalid).2 hbroken
  refine ⟨hconfig, hvalid, hoperations, ?_, hkept, hnoise i _ _ hkept, haliases,
    halias i _ _ haliases, hunused, htable i j _ hconfig hunused⟩
  rw [hfault] at hend
  generalize j.interpret "G«öL»· »" = right at hend ⊢
  cases hend with
  | broken hleft hright => exact ⟨_, _, _, _, hfault, rfl, hleft, hright⟩

end LSystem.Turtle
