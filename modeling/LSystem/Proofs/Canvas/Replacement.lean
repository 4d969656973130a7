import LSystem.Proofs.Canvas.Run

/-!
# Every change replaces the plant

There are three ways to change a canvas. One grows the plant that is there, one changes its number
of passes in place and puts the old number back after a failure, and one takes another plant, which
is dropped if it cannot be grown. The first two are cases of the third: whatever state the canvas is
in, they do what taking the plant that they aim at does (`apply_eq_setPlant`), and a run of any
changes is a run that takes one plant after the other (`run_setPlant_targets`).

The main statement is `changes_agree`. It is about every sink, so also about one that records its
calls: two ways that agree tell the sink the same things in the same order.
-/

namespace LSystem.Canvas

variable {σ : Type} [Sink σ]

theorem apply_eq_setPlant (canvas : Canvas σ) (change : Change) :
    canvas.apply change = canvas.setPlant (change.target canvas.plant) := by
  have hset := apply_eq canvas (.setPlant (change.target canvas.plant))
  rw [apply_eq canvas change]
  exact hset.symm

/-- The plants that the changes of a run aim at, each found in the canvas that its change meets. -/
def targets (canvas : Canvas σ) : List Change → List Plant
  | [] => []
  | change :: changes =>
    change.target canvas.plant :: (canvas.apply change).2.targets changes

/-- Taking the plants that the changes of a run aim at gives the same results and the same canvas as
the run. -/
theorem run_setPlant_targets (canvas : Canvas σ) (changes : List Change) :
    canvas.run ((canvas.targets changes).map .setPlant) = canvas.run changes := by
  induction changes generalizing canvas with
  | nil => rfl
  | cons change changes ih =>
    have hfirst : canvas.apply (.setPlant (change.target canvas.plant)) = canvas.apply change :=
      (apply_eq_setPlant canvas change).symm
    simp only [targets, List.map_cons, run, hfirst, ih]

/-- Changing the number of passes does all that taking the plant with the clamped number does, and
refreshing all that taking the present plant does: the result, the plant, the drawing and the sink
afterwards are the same, whether the plant can be grown or not and whatever number was there. -/
theorem changes_agree (canvas : Canvas σ) (count : UInt32) :
    canvas.setIterations count =
        canvas.setPlant { canvas.plant with iterations := canvas.plant.range.clamp count } ∧
      canvas.refresh = canvas.setPlant canvas.plant :=
  ⟨apply_eq_setPlant canvas (.setIterations count), apply_eq_setPlant canvas .refresh⟩

end LSystem.Canvas
