import LSystem.Canvas

/-!
# Runs of a canvas

Every change of a canvas aims at a plant: the present one, the present one with another number of
passes, or a new one. What the change does is decided by growing that plant and by nothing else
(`apply_eq`), and all that is said about canvases rests on this one lemma. A run applies changes one
after the other and collects their results.

The main statement is `run_new_grows`: whatever is done to a new canvas, its drawing is the one that
its plant grows, and there is a drawing as soon as one change has succeeded.
-/

namespace LSystem

/-- The plant that a change of a canvas tries to grow. -/
def Canvas.Change.target (plant : Plant) : Canvas.Change → Plant
  | .refresh => plant
  | .setIterations count => plant.setIterations count
  | .setPlant other => other

namespace Canvas

variable {σ : Type} [Sink σ]

/-- Applies changes one after the other, and gives the result of each. -/
def run (canvas : Canvas σ) : List Change → List (Except Fault Drawing) × Canvas σ
  | [] => ([], canvas)
  | change :: changes =>
    let (result, next) := canvas.apply change
    let (results, last) := next.run changes
    (result :: results, last)

/-! ### One change -/

/-- A change shows the drawing of the plant that it aims at. If that plant cannot be grown, nothing
happens: the number of passes that `setIterations` puts back is the one that was there. -/
theorem apply_eq (canvas : Canvas σ) (change : Change) :
    canvas.apply change =
      match (change.target canvas.plant).grow with
      | .ok drawing =>
        (.ok drawing, { canvas with plant := change.target canvas.plant }.display drawing)
      | .error fault => (.error fault, canvas) := by
  cases change with
  | refresh => rfl
  | setIterations count => rfl
  | setPlant plant => rfl

theorem apply_of_grow_eq_ok {canvas : Canvas σ} {change : Change} {drawing : Drawing}
    (hgrow : (change.target canvas.plant).grow = .ok drawing) :
    canvas.apply change =
      (.ok drawing, { canvas with plant := change.target canvas.plant }.display drawing) := by
  rw [apply_eq, hgrow]

theorem apply_of_grow_eq_error {canvas : Canvas σ} {change : Change} {fault : Fault}
    (hgrow : (change.target canvas.plant).grow = .error fault) :
    canvas.apply change = (.error fault, canvas) := by
  rw [apply_eq, hgrow]

/-- What every change keeps, a run keeps. -/
theorem run_preserves {property : Canvas σ → Prop}
    (hkeeps : ∀ canvas change, property canvas → property (canvas.apply change).2)
    {canvas : Canvas σ} (hproperty : property canvas) (changes : List Change) :
    property (canvas.run changes).2 := by
  induction changes generalizing canvas with
  | nil => exact hproperty
  | cons change changes ih => exact ih (hkeeps canvas change hproperty)

/-! ### The drawing belongs to the plant -/

/-- The drawing of the canvas, if there is one, is what its plant grows. -/
def InStep (canvas : Canvas σ) : Prop :=
  ∀ drawing, canvas.current = some drawing → canvas.plant.grow = .ok drawing

omit [Sink σ] in
theorem inStep_new (plant : Plant) (sink : σ) : (Canvas.new plant sink).InStep := by
  intro drawing hcurrent
  exact nomatch hcurrent

theorem InStep.apply {canvas : Canvas σ} (hstep : canvas.InStep) (change : Change) :
    (canvas.apply change).2.InStep := by
  cases hgrow : (change.target canvas.plant).grow with
  | ok drawing =>
    rw [apply_of_grow_eq_ok hgrow]
    intro shown hshown
    have hsame : drawing = shown := Option.some.inj hshown
    rw [← hsame]
    exact hgrow
  | error fault =>
    rw [apply_of_grow_eq_error hgrow]
    exact hstep

theorem InStep.run {canvas : Canvas σ} (hstep : canvas.InStep) (changes : List Change) :
    (canvas.run changes).2.InStep :=
  run_preserves (fun _ change hstep => hstep.apply change) hstep changes

/-- A canvas in step can always be refreshed once it shows a drawing, and only its sink notices. -/
theorem InStep.refresh {canvas : Canvas σ} {drawing : Drawing} (hstep : canvas.InStep)
    (hcurrent : canvas.current = some drawing) :
    canvas.refresh = (.ok drawing, canvas.display drawing) := by
  rw [Canvas.refresh, hstep drawing hcurrent]

/-! ### When there is a drawing -/

/-- After a change there is no drawing if and only if there was none and the change failed. -/
theorem current_apply_eq_none_iff (canvas : Canvas σ) (change : Change) :
    (canvas.apply change).2.current = none ↔
      canvas.current = none ∧ (canvas.apply change).1.isOk = false := by
  cases hgrow : (change.target canvas.plant).grow with
  | ok drawing =>
    rw [apply_of_grow_eq_ok hgrow]
    simp [display, Except.isOk, Except.toBool]
  | error fault =>
    rw [apply_of_grow_eq_error hgrow]
    simp [Except.isOk, Except.toBool]

theorem current_run_eq_none_iff (canvas : Canvas σ) (changes : List Change) :
    (canvas.run changes).2.current = none ↔
      canvas.current = none ∧ ∀ result ∈ (canvas.run changes).1, result.isOk = false := by
  induction changes generalizing canvas with
  | nil => simp [run]
  | cons change changes ih =>
    have hnext := ih (canvas.apply change).2
    rw [current_apply_eq_none_iff, and_assoc] at hnext
    simpa only [run, List.forall_mem_cons] using hnext

/-- Whatever changes a new canvas goes through, it has a drawing exactly if one of them succeeded,
and growing its plant gives that drawing. From the first success on, refreshing therefore never
fails: it gives the drawing that is there, and it changes neither the plant nor the drawing. -/
theorem run_new_grows (plant : Plant) (sink : σ) (changes : List Change) :
    let results := ((Canvas.new plant sink).run changes).1
    let canvas := ((Canvas.new plant sink).run changes).2
    (canvas.current = none ↔ ∀ result ∈ results, result.isOk = false) ∧
      (∀ drawing, canvas.current = some drawing → canvas.plant.grow = .ok drawing) ∧
      ((∃ result ∈ results, result.isOk = true) →
        ∃ drawing, canvas.current = some drawing ∧ canvas.refresh.1 = .ok drawing ∧
          canvas.refresh.2.plant = canvas.plant ∧ canvas.refresh.2.current = some drawing) := by
  intro results canvas
  have hnone : canvas.current = none ↔ ∀ result ∈ results, result.isOk = false := by
    rw [current_run_eq_none_iff]
    simp [Canvas.new, results]
  have hstep : canvas.InStep := (inStep_new plant sink).run changes
  refine ⟨hnone, hstep, ?_⟩
  rintro ⟨result, hmem, hok⟩
  cases hcurrent : canvas.current with
  | none => simp [hnone.1 hcurrent result hmem] at hok
  | some drawing =>
    refine ⟨drawing, rfl, ?_⟩
    rw [hstep.refresh hcurrent]
    exact ⟨rfl, rfl, rfl⟩

end Canvas

end LSystem
