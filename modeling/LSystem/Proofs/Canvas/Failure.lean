import LSystem.Proofs.Canvas.Run
import Mathlib

/-!
# Changes that fail

A change that fails has no effect at all: plant, sink and drawing are what they were, in whatever
state the canvas was, and the fault is that of the plant which could not be grown. Over a run this
means that only the changes that succeed count (`run_accepted`): the others can be struck out.

The main statement about a single change is `apply_of_failed`.
-/

namespace LSystem.Canvas

variable {σ : Type} [Sink σ]

/-- A change that fails leaves everything as it was, also a number of passes that the range does not
contain, and gives the fault of the plant that it aimed at. -/
theorem apply_of_failed (canvas : Canvas σ) (change : Change) (fault : Fault)
    (hfailed : (canvas.apply change).1 = .error fault) :
    (canvas.apply change).2 = canvas ∧ (change.target canvas.plant).grow = .error fault := by
  cases hgrow : (change.target canvas.plant).grow with
  | ok drawing =>
    rw [apply_of_grow_eq_ok hgrow] at hfailed
    exact nomatch hfailed
  | error other =>
    rw [apply_of_grow_eq_error hgrow] at hfailed ⊢
    exact ⟨rfl, hfailed⟩

/-- The second pass closes a branch that is not there, and the canvas keeps its seven passes, though
its range ends at three. -/
theorem apply_of_failed_outside_range :
    let plant : Plant :=
      { (default : Plant) with
        iterations := 7
        rules := .ofRules [('F', "F]")]
        range := ⟨0, 3⟩ }
    let canvas := Canvas.new plant CallLog.empty
    (canvas.apply (.setIterations 2)).1 = .error (.unmatchedPop 1 1) ∧
      (canvas.apply (.setIterations 2)).2 = canvas ∧
      (plant.setIterations 2).grow = .error (.unmatchedPop 1 1) := by
  intro plant canvas
  have hfailed : (canvas.apply (.setIterations 2)).1 = .error (.unmatchedPop 1 1) := by
    decide +kernel
  exact ⟨hfailed, apply_of_failed canvas (.setIterations 2) (.unmatchedPop 1 1) hfailed⟩

/-- The changes of a run that succeed. -/
def accepted (canvas : Canvas σ) : List Change → List Change
  | [] => []
  | change :: changes =>
    let (result, next) := canvas.apply change
    if result.isOk then change :: next.accepted changes else next.accepted changes

/-- A run ends in the same canvas when the changes that fail are left out, and then none fails. -/
theorem run_accepted (canvas : Canvas σ) (changes : List Change) :
    (canvas.run (canvas.accepted changes)).2 = (canvas.run changes).2 ∧
      (canvas.run (canvas.accepted changes)).1 =
        (canvas.run changes).1.filter fun result => result.isOk := by
  induction changes generalizing canvas with
  | nil => exact ⟨rfl, rfl⟩
  | cons change changes ih =>
    cases hgrow : (change.target canvas.plant).grow with
    | ok drawing =>
      have happly := apply_of_grow_eq_ok hgrow
      obtain ⟨hcanvas, hresults⟩ := ih (canvas.apply change).2
      rw [happly] at hcanvas hresults
      simp [accepted, run, happly, Except.isOk, Except.toBool, hcanvas, hresults]
    | error fault =>
      have happly := apply_of_grow_eq_error hgrow
      obtain ⟨hcanvas, hresults⟩ := ih canvas
      simp [accepted, run, happly, Except.isOk, Except.toBool, hcanvas, hresults]

end LSystem.Canvas
