import LSystem.Plant
import LSystem.Proofs.Grammar.Nesting
import LSystem.Proofs.Turtle.Outcome

/-!
# Plants that can always be grown

A plant can be grown if its parameters are fit for drawing and the brackets `[` and `]` of its
expanded word nest. Nesting can be read off the seed and the replacements, whatever the number of
passes is: no pass brings a closing symbol to a place where no branch is open.

The main statement is `grow_of_nests`.
-/

namespace LSystem.Plant

open Turtle

theorem validate_of_contains {plant : Plant}
    (hcount : plant.range.contains plant.iterations = true) :
    plant.validate = plant.turtle.validate := by
  have hbounds : plant.range.min ≤ plant.iterations ∧ plant.iterations ≤ plant.range.max := by
    simpa [IterationRange.contains] using hcount
  have hrange : ¬plant.range.max < plant.range.min :=
    UInt32.not_lt.2 (UInt32.le_trans hbounds.1 hbounds.2)
  rw [validate, if_neg hrange, hcount]
  rfl

theorem grow_eq_interpret {plant : Plant} (hvalid : plant.validate = .ok ()) :
    plant.grow = (Interpreter.standard plant.turtle).interpret plant.commands := by
  rw [grow, hvalid]
  rfl

theorem exists_grow_eq_ok {plant : Plant}
    (hcount : plant.range.contains plant.iterations = true)
    (hturtle : plant.turtle.validate = .ok ())
    (hnests : Brackets.square.Nests plant.commands.toList) :
    ∃ drawing, plant.grow = .ok drawing := by
  have hvalid : (Interpreter.standard plant.turtle).config.validate = .ok () := hturtle
  rw [← Interpreter.brackets_standard plant.turtle] at hnests
  obtain ⟨drawing, hdrawing, -⟩ := interpret_of_nests hvalid hnests
  refine ⟨drawing, ?_⟩
  rw [grow_eq_interpret (by rw [validate_of_contains hcount, hturtle])]
  exact hdrawing

/-- If the seed and the replacements nest, and brackets are left alone, the expanded word nests
after any number of passes. The plant can therefore be grown with every number of passes that its
range contains and every turtle that is fit for drawing.

If seed and replacements moreover have as many `]` as `[`, so has the expanded word, and drawing it
ends with no branch open. -/
theorem grow_of_nests (plant : Plant) (hseed : Brackets.square.Nests plant.seed.toList)
    (hrules : plant.rules.Respects .square Brackets.square.Nests) :
    (∀ passes, Brackets.square.Nests (plant.rules.expand plant.seed passes).toList) ∧
    (∀ count turtle, plant.range.contains count = true → turtle.validate = .ok () →
      ∃ drawing, { plant with iterations := count, turtle }.grow = .ok drawing) ∧
    (Brackets.square.Balances plant.seed.toList →
      plant.rules.Respects .square Brackets.square.Balances →
        ∀ passes, Brackets.square.Balances (plant.rules.expand plant.seed passes).toList ∧
          ∀ turtle : Config, ∃ last,
            (Machine.start turtle).run turtle.stepLength (Interpreter.standard turtle).motions
              (plant.rules.expand plant.seed passes).toList = .ok last ∧ last.branches = []) := by
  have hnests := Grammar.nests_expand hrules hseed
  refine ⟨hnests, ?_, ?_⟩
  · intro count turtle hcount hturtle
    exact exists_grow_eq_ok hcount hturtle (hnests count.toNat)
  · intro hseedBalances hrulesBalance passes
    have hbalances := Grammar.balances_expand hrulesBalance hseedBalances passes
    refine ⟨hbalances, fun turtle => ?_⟩
    have hword := hnests passes
    rw [← Interpreter.brackets_standard turtle] at hword hbalances
    obtain ⟨last, hrun, hlast⟩ := Machine.run_of_nests (.standard turtle) hword
    refine ⟨last, hrun, ?_⟩
    have hcount := hlast.branches
    rw [Brackets.Balances] at hbalances
    exact List.length_eq_zero_iff.1 (by omega)

/-- A tree whose opening brackets are rewritten to themselves. -/
theorem grow_of_nests_tree :
    let plant : Plant :=
      { (default : Plant) with
        rules := .ofRules [('F', "F[+F]F[-F]L"), ('L', "L"), ('[', "[")] }
    Brackets.square.Nests plant.seed.toList ∧
      plant.rules.Respects .square Brackets.square.Nests ∧
      plant.rules.Respects .square Brackets.square.Balances ∧
      (∃ drawing, { plant with iterations := 5 }.grow = .ok drawing) ∧
      Brackets.square.Balances (plant.rules.expand plant.seed 5).toList := by
  intro plant
  have hseed : Brackets.square.Nests plant.seed.toList := by decide +kernel
  have hrules : plant.rules.Respects .square Brackets.square.Nests := by decide +kernel
  have hbalances : plant.rules.Respects .square Brackets.square.Balances := by decide +kernel
  have hturtle : plant.turtle.validate = .ok () := by decide +kernel
  obtain ⟨-, hgrow, hbalance⟩ := grow_of_nests plant hseed hrules
  exact ⟨hseed, hrules, hbalances, hgrow 5 plant.turtle (by decide) hturtle,
    (hbalance (by decide +kernel) hbalances 5).1⟩

end LSystem.Plant
