import LSystem.Proofs.Plant.Nesting
import Mathlib.Data.Nat.Dist

/-!
# Choosing the number of passes

A host may ask for any number of passes. What is set is the nearest number of the range, so a plant
whose other parameters are fit for drawing is fit for drawing once a number has been chosen, whatever
it was before and whatever was asked for on the way. All that can go wrong from then on is a branch
that is closed and was never opened.

What is set, what belongs to the range and whether there is a range at all is decided by comparisons
in three places. They meet in the arithmetic of `toNat_clamp`, from which all that is said about
ranges follows. The main statement is `chooseIterations_settles`.
-/

namespace LSystem

namespace IterationRange

variable {range : IterationRange}

/-- The chosen count belongs to the range, and every other count of the range is farther away from
the one that was asked for. -/
structure Nearest (range : IterationRange) (count chosen : UInt32) : Prop where
  contains : range.contains chosen = true
  farther : ∀ other, range.contains other = true → other ≠ chosen →
    Nat.dist chosen.toNat count.toNat < Nat.dist other.toNat count.toNat

theorem contains_iff {count : UInt32} :
    range.contains count = true ↔
      range.min.toNat ≤ count.toNat ∧ count.toNat ≤ range.max.toNat := by
  rw [contains, Bool.and_eq_true, decide_eq_true_iff, decide_eq_true_iff, UInt32.le_iff_toNat_le,
    UInt32.le_iff_toNat_le]

theorem toNat_clamp (range : IterationRange) (count : UInt32) :
    (range.clamp count).toNat =
      Min.min (Max.max count.toNat range.min.toNat) range.max.toNat := by
  simp only [clamp, UInt32.lt_iff_toNat_lt, apply_ite UInt32.toNat]
  split
  · next hlow => split <;> omega
  · next hhigh => split <;> omega

theorem nearest_clamp (hrange : range.min ≤ range.max) (count : UInt32) :
    range.Nearest count (range.clamp count) := by
  rw [UInt32.le_iff_toNat_le] at hrange
  have hclamp := range.toNat_clamp count
  refine ⟨contains_iff.2 (by omega), fun other hother hne => ?_⟩
  rw [contains_iff] at hother
  rw [ne_eq, ← UInt32.toNat_inj] at hne
  simp only [Nat.dist]
  omega

theorem clamp_eq_self_iff (hrange : range.min ≤ range.max) {count : UInt32} :
    range.clamp count = count ↔ range.contains count = true := by
  rw [UInt32.le_iff_toNat_le] at hrange
  rw [contains_iff, ← UInt32.toNat_inj, toNat_clamp]
  omega

theorem clamp_mono (range : IterationRange) {count other : UInt32} (h : count ≤ other) :
    range.clamp count ≤ range.clamp other := by
  rw [UInt32.le_iff_toNat_le] at h ⊢
  rw [toNat_clamp, toNat_clamp]
  omega

theorem clamp_clamp (range : IterationRange) (count : UInt32) :
    range.clamp (range.clamp count) = range.clamp count := by
  rw [← UInt32.toNat_inj, toNat_clamp, toNat_clamp]
  omega

theorem contains_eq_false (hempty : range.max < range.min) (count : UInt32) :
    range.contains count = false := by
  rw [UInt32.lt_iff_toNat_lt] at hempty
  rw [← Bool.not_eq_true, contains_iff]
  omega

end IterationRange

namespace Plant

open Turtle

variable {plant : Plant}

theorem validate_eq_ok_iff :
    plant.validate = .ok () ↔
      plant.range.contains plant.iterations = true ∧ plant.turtle.validate = .ok () := by
  cases hcount : plant.range.contains plant.iterations with
  | true => simp [validate_of_contains hcount]
  | false =>
    have hrefused : plant.validate ≠ .ok () := by
      rw [validate, hcount]
      split <;> simp
    simp [hrefused]

/-- A plant with fit parameters is drawn, or a branch is closed that was never opened. -/
theorem grow_of_validate (hvalid : plant.validate = .ok ()) :
    (∃ drawing, plant.grow = .ok drawing) ∨
      ∃ index emitted, plant.grow = .error (.unmatchedPop index emitted) := by
  rw [grow_eq_interpret hvalid]
  have hconfig : (Interpreter.standard plant.turtle).config.validate = .ok () :=
    (validate_eq_ok_iff.1 hvalid).2
  by_cases hnests :
      (Interpreter.standard plant.turtle).brackets.Nests plant.commands.toList
  · obtain ⟨drawing, hdrawing, -⟩ := interpret_of_nests hconfig hnests
    exact .inl ⟨drawing, hdrawing⟩
  · exact .inr ((exists_unmatchedPop_iff hconfig).2 hnests)

/-- Chooses one number after the other, and gives those that were set. -/
def chooseAll (plant : Plant) : List UInt32 → List UInt32 × Plant
  | [] => ([], plant)
  | count :: counts =>
    let (chosen, next) := plant.chooseIterations count
    let (others, last) := next.chooseAll counts
    (chosen :: others, last)

/-- Of all numbers that were asked for, the last one alone shows in the plant. -/
theorem chooseAll_concat (plant : Plant) (counts : List UInt32) (count : UInt32) :
    plant.chooseAll (counts ++ [count]) =
      ((counts ++ [count]).map plant.range.clamp, plant.setIterations count) := by
  induction counts generalizing plant with
  | nil => rfl
  | cons first counts ih =>
    -- The first choice changes the number alone, so the run goes on in the same range.
    have hnext := ih (plant.setIterations first)
    rw [List.cons_append, chooseAll, chooseIterations]
    dsimp only
    rw [hnext]
    rfl

theorem range_chooseAll (plant : Plant) (counts : List UInt32) :
    (plant.chooseAll counts).2.range = plant.range := by
  induction counts generalizing plant with
  | nil => rfl
  | cons count counts ih => exact ih (plant.setIterations count)

theorem validate_of_emptyRange (hempty : plant.range.max < plant.range.min) :
    plant.validate = .error (.emptyRange plant.range) := by
  rw [validate, if_pos hempty]

theorem validate_setIterations (hrange : plant.range.min ≤ plant.range.max) (count : UInt32) :
    (plant.setIterations count).validate = plant.turtle.validate :=
  validate_of_contains (plant.range.nearest_clamp hrange count).contains

/-- What choosing numbers of passes comes to.

* Each choice sets the number that it gives and nothing else, whatever was chosen before. Larger
  numbers are never answered by smaller ones, and a number that was given is given again.
* If there is a range, the number is the nearest of the range, and the one that was asked for only
  if that belongs to the range. With a fit turtle the plant is then fit for drawing, and it is drawn
  unless a branch is closed that was never opened.
* If there is no range, no number belongs to it, and no choice makes the plant fit for drawing. -/
theorem chooseIterations_settles (plant : Plant) :
    (∀ (counts : List UInt32) (count : UInt32),
      plant.chooseAll (counts ++ [count]) =
        ((counts ++ [count]).map fun asked => (plant.chooseIterations asked).1,
          { plant with iterations := (plant.chooseIterations count).1 })) ∧
    (∀ count other, count ≤ other →
      (plant.chooseIterations count).1 ≤ (plant.chooseIterations other).1) ∧
    (∀ count, plant.chooseIterations (plant.chooseIterations count).1 =
      plant.chooseIterations count) ∧
    (plant.range.min ≤ plant.range.max →
      (∀ count, plant.range.Nearest count (plant.chooseIterations count).1 ∧
        ((plant.chooseIterations count).1 = count ↔ plant.range.contains count = true)) ∧
      (plant.turtle.validate = .ok () → ∀ (counts : List UInt32) (count : UInt32),
        let last := (plant.chooseAll (counts ++ [count])).2
        last.validate = .ok () ∧
          ((∃ drawing, last.grow = .ok drawing) ∨
            ∃ index emitted, last.grow = .error (.unmatchedPop index emitted)))) ∧
    (plant.range.max < plant.range.min →
      (∀ count, plant.range.contains count = false) ∧
        ∀ counts, (plant.chooseAll counts).2.validate = .error (.emptyRange plant.range)) := by
  refine ⟨plant.chooseAll_concat, fun _ _ => plant.range.clamp_mono, fun count => ?_,
    fun hrange => ⟨fun count => ⟨plant.range.nearest_clamp hrange count,
      plant.range.clamp_eq_self_iff hrange⟩, fun hturtle counts count => ?_⟩,
    fun hempty => ⟨plant.range.contains_eq_false hempty, fun counts => ?_⟩⟩
  · simp only [chooseIterations, setIterations, IterationRange.clamp_clamp]
  · have hvalid : (plant.chooseAll (counts ++ [count])).2.validate = .ok () := by
      rw [chooseAll_concat, validate_setIterations hrange, hturtle]
    exact ⟨hvalid, grow_of_validate hvalid⟩
  · rw [← range_chooseAll plant counts] at hempty ⊢
    exact validate_of_emptyRange hempty

/-- A plant that can be drawn without a pass only, with a number of passes outside its range, and the
same plant without a range. -/
theorem chooseIterations_settles_unmatched :
    let plant : Plant :=
      { (default : Plant) with
        iterations := 900, rules := .ofRules [('F', "L]F")], range := ⟨0, 3⟩ }
    let rangeless : Plant := { plant with range := ⟨4, 3⟩ }
    plant.range.min ≤ plant.range.max ∧ plant.turtle.validate = .ok () ∧
      plant.chooseAll [0, 1, 0xffffffff] = ([0, 1, 3], { plant with iterations := 3 }) ∧
      (plant.chooseIterations 1).1 ≤ (plant.chooseIterations 0xffffffff).1 ∧
      plant.range.Nearest 0xffffffff 3 ∧ plant.range.contains 0xffffffff = false ∧
      (plant.chooseAll [0, 1, 0xffffffff]).2.validate = .ok () ∧
      (plant.chooseAll [0, 1, 0xffffffff]).2.grow = .error (.unmatchedPop 1 1) ∧
      rangeless.range.max < rangeless.range.min ∧ rangeless.range.contains 3 = false ∧
      (rangeless.chooseAll [3, 4]).2.validate = .error (.emptyRange ⟨4, 3⟩) := by
  intro plant rangeless
  have hrange : plant.range.min ≤ plant.range.max := by decide
  have hturtle : plant.turtle.validate = .ok () := by decide +kernel
  have hempty : rangeless.range.max < rangeless.range.min := by decide
  have hfault : (plant.chooseAll [0, 1, 0xffffffff]).2.grow = .error (.unmatchedPop 1 1) := by
    decide +kernel
  obtain ⟨hrun, hmono, -, hsome, -⟩ := chooseIterations_settles plant
  obtain ⟨hchoice, hvalid⟩ := hsome hrange
  obtain ⟨-, -, -, -, hnone⟩ := chooseIterations_settles rangeless
  obtain ⟨houtside, hrefused⟩ := hnone hempty
  have hnearest := hchoice 0xffffffff
  have hother : plant.range.contains 0xffffffff = false :=
    Bool.eq_false_iff.2 fun h => absurd (hnearest.2.2 h) (by decide)
  exact ⟨hrange, hturtle, hrun [0, 1] 0xffffffff, hmono _ _ (by decide), hnearest.1,
    hother, (hvalid hturtle [0, 1] 0xffffffff).1, hfault, hempty,
    houtside 3, hrefused [3, 4]⟩

end Plant

end LSystem
