import LSystem.Proofs.Turtle.Outcome
import LSystem.Proofs.Turtle.SideBySide

/-!
# Emitting does not influence moving

Some symbols that draw are told to move only, and some that set leaves to do nothing. The turtle goes
the same way as before, so all other symbols emit what they emitted before, bit for bit, and the
primitives of the silenced symbols are missing.

A primitive belongs to a symbol: the first one to the first symbol that emits, and so on. In these
terms the new drawing is the old one without what belongs to silenced symbols. The main statement is
`interpret_silence`.
-/

namespace LSystem.Turtle

namespace Interpreter

/-- The interpreter with some symbols bound to `move` and others bound to `ignore`. -/
def silence (i : Interpreter) (draws leaves : List Char) : Interpreter :=
  i.setOps (draws.map (·, .move) ++ leaves.map (·, .ignore))

/-- The symbols that emit primitives, in their order. -/
def emitters (i : Interpreter) (symbols : List Char) : List Char :=
  symbols.filter fun symbol => (i.op symbol).emits

theorem config_setOps (i : Interpreter) (ops : List (Char × Op)) :
    (i.setOps ops).config = i.config := by
  induction ops generalizing i with
  | nil => rfl
  | cons entry ops ih => exact ih (i.setOp entry.1 entry.2)

theorem op_setOps_const (i : Interpreter) (symbols : List Char) (op : Op) (symbol : Char) :
    (i.setOps (symbols.map (·, op))).op symbol = if symbol ∈ symbols then op else i.op symbol := by
  induction symbols generalizing i with
  | nil => rfl
  | cons first symbols ih =>
    have hrest : (i.setOps ((first :: symbols).map (·, op))).op symbol =
        ((i.setOp first op).setOps (symbols.map (·, op))).op symbol := rfl
    rw [hrest, ih, op_setOp]
    by_cases hmem : symbol ∈ symbols <;> by_cases hfirst : symbol = first <;> simp [hmem, hfirst]

theorem op_silence (i : Interpreter) (draws leaves : List Char) (symbol : Char) :
    (i.silence draws leaves).op symbol =
      if symbol ∈ leaves then .ignore else if symbol ∈ draws then .move else i.op symbol := by
  have hparts : i.silence draws leaves =
      (i.setOps (draws.map (·, .move))).setOps (leaves.map (·, .ignore)) := List.foldl_append
  rw [hparts, op_setOps_const, op_setOps_const]

end Interpreter

/-! ### What belongs to which symbol -/

/-- The primitives that are emitted in some visits, each with its symbol. -/
def Interpreter.credits (i : Interpreter) (visits : List Visit) : List (Char × Primitive) :=
  visits.filterMap fun v => (i.emission? v.symbol v.left).map (v.symbol, ·)

theorem emission_cases (i : Interpreter) (symbol : Char) (s : State) :
    i.emission? symbol s = none ∧ (i.op symbol).emits = false ∨
      ∃ p, i.emission? symbol s = some p ∧ (i.op symbol).emits = true ∧
        DrawnAs (i.op symbol) p := by
  rw [Interpreter.emission?]
  cases i.op symbol with
  | draw => exact .inr ⟨_, rfl, rfl, .segment ..⟩
  | leaf => exact .inr ⟨_, rfl, rfl, .marker ..⟩
  | move | turn _ | push | pop | ignore => exact .inl ⟨rfl, rfl⟩

theorem fst_credits (i : Interpreter) (visits : List Visit) :
    (i.credits visits).map Prod.fst = i.emitters (visits.map Visit.symbol) := by
  induction visits with
  | nil => rfl
  | cons v visits ih =>
    rw [Interpreter.credits, Interpreter.emitters] at ih ⊢
    rcases emission_cases i v.symbol v.left with ⟨hnone, hquiet⟩ | ⟨p, hsome, hemits, -⟩
    · simp [hnone, hquiet, ih]
    · simp [hsome, hemits, ih]

theorem snd_credits (i : Interpreter) (visits : List Visit) :
    (i.credits visits).map Prod.snd = i.drawn Visit.left visits := by
  induction visits with
  | nil => rfl
  | cons v visits ih =>
    rw [Interpreter.credits, Interpreter.drawn] at ih ⊢
    cases hemission : i.emission? v.symbol v.left <;> simp [hemission, ih]

theorem drawnAs_of_mem_credits {i : Interpreter} {visits : List Visit} {entry : Char × Primitive}
    (hentry : entry ∈ i.credits visits) : DrawnAs (i.op entry.1) entry.2 := by
  obtain ⟨v, -, hv⟩ := List.mem_filterMap.1 hentry
  rcases emission_cases i v.symbol v.left with ⟨hnone, -⟩ | ⟨p, hsome, -, hkind⟩
  · rw [hnone] at hv
    exact nomatch hv
  · rw [hsome] at hv
    cases hv
    exact hkind

section Silenced

variable {i : Interpreter} {draws leaves : List Char}
  (hdraws : ∀ symbol ∈ draws, i.op symbol = .draw) (hleaves : ∀ symbol ∈ leaves, i.op symbol = .leaf)

include hdraws hleaves

/-! ### One symbol -/

/-- Silencing takes away what a symbol emits and leaves alone where the turtle goes. -/
theorem silence_cases (symbol : Char) :
    symbol ∈ draws ++ leaves ∧
        (i.op symbol = .draw ∧ (i.silence draws leaves).op symbol = .move ∨
          i.op symbol = .leaf ∧ (i.silence draws leaves).op symbol = .ignore) ∨
      symbol ∉ draws ++ leaves ∧ (i.silence draws leaves).op symbol = i.op symbol := by
  rw [Interpreter.op_silence, List.mem_append]
  by_cases hleaf : symbol ∈ leaves
  · rw [if_pos hleaf]
    exact .inl ⟨.inr hleaf, .inr ⟨hleaves symbol hleaf, rfl⟩⟩
  · rw [if_neg hleaf]
    by_cases hdraw : symbol ∈ draws
    · rw [if_pos hdraw]
      exact .inl ⟨.inl hdraw, .inl ⟨hdraws symbol hdraw, rfl⟩⟩
    · rw [if_neg hdraw]
      exact .inr ⟨by simp [hdraw, hleaf], rfl⟩

theorem parallel_silence (symbol : Char) : i.Parallel Eq (i.silence draws leaves) symbol := by
  have hconfig : (i.silence draws leaves).config = i.config := Interpreter.config_setOps i _
  rcases silence_cases hdraws hleaves symbol with
    ⟨-, ⟨hop, hop'⟩ | ⟨hop, hop'⟩⟩ | ⟨-, hop'⟩
  · exact ⟨by simp [hop, hop'], by simp [hop, hop'], fun h => by rw [hop, hop', hconfig, h]; rfl⟩
  · exact ⟨by simp [hop, hop'], by simp [hop, hop'], fun h => by rw [hop, hop', h]; rfl⟩
  · exact ⟨by rw [hop'], by rw [hop'], fun h => by rw [hop', hconfig, h]⟩

theorem emission_silence_of_mem {symbol : Char} (hmem : symbol ∈ draws ++ leaves) (s : State) :
    (∃ p, i.emission? symbol s = some p) ∧
      (i.silence draws leaves).emission? symbol s = none := by
  rw [Interpreter.emission?, Interpreter.emission?]
  rcases silence_cases hdraws hleaves symbol with
    ⟨-, ⟨hop, hop'⟩ | ⟨hop, hop'⟩⟩ | ⟨hother, -⟩
  · rw [hop, hop']
    exact ⟨⟨_, rfl⟩, rfl⟩
  · rw [hop, hop']
    exact ⟨⟨_, rfl⟩, rfl⟩
  · exact absurd hmem hother

theorem emission_silence_of_not_mem {symbol : Char} (hother : symbol ∉ draws ++ leaves)
    (s : State) : (i.silence draws leaves).emission? symbol s = i.emission? symbol s := by
  have hconfig : (i.silence draws leaves).config = i.config := Interpreter.config_setOps i _
  rcases silence_cases hdraws hleaves symbol with ⟨hmem, -⟩ | ⟨-, hop⟩
  · exact absurd hmem hother
  · rw [Interpreter.emission?, Interpreter.emission?, hop, hconfig]

/-! ### Words -/

theorem drawn_silence {visits : List Visit} (hrelated : ∀ v ∈ visits, v.left = v.right) :
    (i.silence draws leaves).drawn Visit.right visits =
      ((i.credits visits).filter fun entry => entry.1 ∉ draws ++ leaves).map Prod.snd := by
  induction visits with
  | nil => rfl
  | cons v visits ih =>
    obtain ⟨hv, hvisits⟩ := List.forall_mem_cons.1 hrelated
    have hrest := ih hvisits
    rw [Interpreter.credits, Interpreter.drawn] at hrest ⊢
    rw [List.filterMap_cons, List.filterMap_cons, ← hv]
    by_cases hmem : v.symbol ∈ draws ++ leaves
    · obtain ⟨⟨p, hp⟩, hnone⟩ := emission_silence_of_mem hdraws hleaves hmem v.left
      simp only [hp, hnone, hrest, Option.map_some, List.filter_cons, hmem, not_true_eq_false,
        decide_false, Bool.false_eq_true, if_false]
    · rw [emission_silence_of_not_mem hdraws hleaves hmem]
      cases i.emission? v.symbol v.left with
      | none => exact hrest
      | some p =>
        simp only [hrest, Option.map_some, List.filter_cons, hmem, not_false_eq_true, decide_true,
          if_true, List.map_cons]

/-- The primitives that are missing belong to the silenced symbols, one to each. -/
theorem length_drawn_silence {visits : List Visit} (hrelated : ∀ v ∈ visits, v.left = v.right) :
    (i.drawn Visit.left visits).length =
      ((i.silence draws leaves).drawn Visit.right visits).length +
        (visits.map Visit.symbol).countP (· ∈ draws ++ leaves) := by
  have hemits : ∀ symbol ∈ draws ++ leaves, (i.op symbol).emits = true := by
    intro symbol hmem
    rcases List.mem_append.1 hmem with hdraw | hleaf
    · rw [hdraws symbol hdraw]
      rfl
    · rw [hleaves symbol hleaf]
      rfl
  have hsilenced : (i.credits visits).countP (fun entry => entry.1 ∈ draws ++ leaves) =
      (visits.map Visit.symbol).countP (· ∈ draws ++ leaves) := by
    -- Counting among the symbols that emit is the same, for silenced symbols are among them.
    have hsymbols := congrArg (List.countP (· ∈ draws ++ leaves)) (fst_credits i visits)
    rw [List.countP_map, Interpreter.emitters, List.countP_filter] at hsymbols
    refine hsymbols.trans (List.countP_congr fun symbol _ => ?_)
    simpa using fun hmem => hemits symbol (List.mem_append.2 hmem)
  have hkept := List.length_eq_countP_add_countP
    (fun entry : Char × Primitive => entry.1 ∉ draws ++ leaves) (l := i.credits visits)
  rw [drawn_silence hdraws hleaves hrelated, ← snd_credits, List.length_map, List.length_map,
    ← List.countP_eq_length_filter, ← hsilenced]
  simpa using hkept

end Silenced

/-- With some symbols told to move instead of to draw, and some told to do nothing instead of to set
a leaf, a word has a drawing exactly if it had one. What is missing in the new drawing is what belongs
to these symbols; all else is as it was, and in the same order. If there is no drawing, the word
breaks at the same symbol as before, and the number of primitives before it is smaller by the number
of silenced symbols before it. -/
theorem interpret_silence {i : Interpreter} {draws leaves : List Char}
    (hvalid : i.config.validate = .ok ()) (hdraws : ∀ symbol ∈ draws, i.op symbol = .draw)
    (hleaves : ∀ symbol ∈ leaves, i.op symbol = .leaf) (word : String) :
    (∃ d e, i.interpret word = .ok d ∧ (i.silence draws leaves).interpret word = .ok e ∧
      List.Forall₂ (fun symbol p => DrawnAs (i.op symbol) p) (i.emitters word.toList) d.toList ∧
      e.toList = (((i.emitters word.toList).zip d.toList).filter fun entry =>
        entry.1 ∉ draws ++ leaves).map Prod.snd) ∨
    ∃ before symbol after emitted, word = before ++ .singleton symbol ++ after ∧
      i.interpret word = .error (.unmatchedPop before.utf8ByteSize
        (emitted + before.toList.countP (· ∈ draws ++ leaves))) ∧
      (i.silence draws leaves).interpret word =
        .error (.unmatchedPop before.utf8ByteSize emitted) := by
  have hconfig : (i.silence draws leaves).config = i.config := Interpreter.config_setOps i _
  have halike : EndAlike Eq i (i.silence draws leaves) word.toList (i.interpret word)
      ((i.silence draws leaves).interpret word) :=
    endAlike_interpret hvalid (by rw [hconfig, hvalid]) (by rw [hconfig])
      fun symbol _ => parallel_silence hdraws hleaves symbol
  generalize i.interpret word = left at halike ⊢
  generalize (i.silence draws leaves).interpret word = right at halike ⊢
  cases halike with
  | @drawn visits d e hword hrelated hleft hright =>
    have hsymbols := fst_credits i visits
    have hprimitives := snd_credits i visits
    rw [hword] at hsymbols
    rw [← hleft] at hprimitives
    refine .inl ⟨d, e, rfl, rfl, ?_, ?_⟩
    · rw [← hsymbols, ← hprimitives, List.forall₂_map_left_iff, List.forall₂_map_right_iff]
      exact List.forall₂_same.2 fun entry hentry => drawnAs_of_mem_credits hentry
    · rw [hright, drawn_silence hdraws hleaves hrelated, ← List.zip_of_prod hsymbols hprimitives]
  | @broken visits symbol after hword hrelated =>
    refine .inr ⟨.ofList (visits.map Visit.symbol), symbol, .ofList after,
      ((i.silence draws leaves).drawn Visit.right visits).length, ?_, ?_, rfl⟩
    · apply String.toList_injective
      simp [← hword]
    · rw [String.toList_ofList, length_drawn_silence hdraws hleaves hrelated]

/-- `F` and `L` are silenced, also inside a branch, and `G` still draws. -/
theorem interpret_silence_branch :
    let i := (Interpreter.standard default).setOp 'G' .draw
    i.config.validate = .ok () ∧ (∀ symbol ∈ ['F'], i.op symbol = .draw) ∧
      (∀ symbol ∈ ['L'], i.op symbol = .leaf) ∧
      i.emitters "F[+GL]FG".toList = ['F', 'G', 'L', 'F', 'G'] ∧
      ∃ d e, i.interpret "F[+GL]FG" = .ok d ∧
        (i.silence ['F'] ['L']).interpret "F[+GL]FG" = .ok e ∧
        e.toList = (((i.emitters "F[+GL]FG".toList).zip d.toList).filter fun entry =>
          entry.1 ∉ ['F'] ++ ['L']).map Prod.snd := by
  intro i
  have hvalid : i.config.validate = .ok () := by decide +kernel
  have hdraws : ∀ symbol ∈ ['F'], i.op symbol = .draw := by
    simp [i, Interpreter.op_setOp, Interpreter.op_standard]
  have hleaves : ∀ symbol ∈ ['L'], i.op symbol = .leaf := by
    simp [i, Interpreter.op_setOp, Interpreter.op_standard]
  have hnests : i.brackets.Nests "F[+GL]FG".toList := by decide +kernel
  refine ⟨hvalid, hdraws, hleaves, by decide +kernel, ?_⟩
  rcases interpret_silence hvalid hdraws hleaves "F[+GL]FG" with
    ⟨d, e, hd, he, -, hkept⟩ | ⟨_, _, _, _, -, hfault, -⟩
  · exact ⟨d, e, hd, he, hkept⟩
  · obtain ⟨d, hd, -⟩ := interpret_of_nests hvalid hnests
    exact nomatch hfault.symm.trans hd

end LSystem.Turtle
