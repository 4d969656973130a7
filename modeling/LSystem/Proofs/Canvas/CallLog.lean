import LSystem.Proofs.Canvas.Run

/-!
# What a sink is told

A sink hears of a canvas only when a change succeeds. It is then cleared and receives the drawing
that the change gives, primitive by primitive (`calls_apply`). Put together over a run, the calls of
a sink are known from the results alone, and those since it was cleared last are the primitives of
the present drawing.

The main statement is `calls_run_new`, for a sink that records its calls.
-/

namespace LSystem

/-- The calls that a sink receives when a change has the given result. -/
def SinkCall.ofResult : Except Fault Drawing → List SinkCall
  | .ok drawing => .clear :: drawing.toList.map .primitive
  | .error _ => []

theorem Drawing.foldl_push (d : Drawing) (primitives : List Primitive) :
    primitives.foldl push d = ⟨d.primitives ++ primitives.toArray⟩ := by
  induction primitives generalizing d with
  | nil => simp
  | cons p primitives ih => simp [ih, push]

namespace CallLog

theorem calls_foldl_primitive (log : CallLog) (primitives : List Primitive) :
    (primitives.foldl Sink.primitive log).calls.toList =
      log.calls.toList ++ primitives.map .primitive := by
  induction primitives generalizing log with
  | nil => simp
  | cons p primitives ih =>
    have hcall : (Sink.primitive log p).calls = log.calls.push (.primitive p) := by
      cases p <;> rfl
    rw [List.foldl_cons, ih, hcall, Array.toList_push, List.map_cons, List.append_assoc,
      List.singleton_append]

theorem calls_replace (log : CallLog) (drawing : Drawing) :
    (Sink.replace log drawing).calls.toList =
      log.calls.toList ++ SinkCall.ofResult (.ok drawing) := by
  have hclear : (Sink.clear log).calls = log.calls.push .clear := rfl
  rw [Sink.replace, calls_foldl_primitive, hclear, Array.toList_push, List.append_assoc,
    List.singleton_append, SinkCall.ofResult]

/-- Behind the last clearing stands what the sink shows. -/
theorem shown_of_calls {log : CallLog} {earlier : List SinkCall} {drawing : Drawing}
    (hcalls : log.calls.toList = earlier ++ SinkCall.ofResult (.ok drawing)) :
    log.shown = drawing := by
  rw [shown, ← Array.foldl_toList, hcalls, SinkCall.ofResult, List.foldl_append, List.foldl_cons,
    List.foldl_map]
  change drawing.toList.foldl Drawing.push .empty = drawing
  rw [Drawing.foldl_push]
  simp [Drawing.empty, Drawing.toList]

end CallLog

namespace Canvas

/-- A change tells the sink its result. -/
theorem calls_apply (canvas : Canvas CallLog) (change : Change) :
    (canvas.apply change).2.sink.calls.toList =
      canvas.sink.calls.toList ++ SinkCall.ofResult (canvas.apply change).1 := by
  cases hgrow : (change.target canvas.plant).grow with
  | ok drawing =>
    rw [apply_of_grow_eq_ok hgrow]
    exact CallLog.calls_replace canvas.sink drawing
  | error fault =>
    rw [apply_of_grow_eq_error hgrow, SinkCall.ofResult, List.append_nil]

theorem calls_run (canvas : Canvas CallLog) (changes : List Change) :
    (canvas.run changes).2.sink.calls.toList =
      canvas.sink.calls.toList ++ (canvas.run changes).1.flatMap SinkCall.ofResult := by
  induction changes generalizing canvas with
  | nil => simp [run]
  | cons change changes ih =>
    simp only [run, ih, calls_apply, List.flatMap_cons, List.append_assoc]

/-! ### Clearings -/

theorem countP_clear_ofResult (result : Except Fault Drawing) :
    (SinkCall.ofResult result).countP (· == .clear) = if result.isOk then 1 else 0 := by
  cases result with
  | ok drawing =>
    have hnone : (drawing.toList.map SinkCall.primitive).countP (· == .clear) = 0 := by
      rw [List.countP_map]
      exact List.countP_eq_zero.2 fun p _ hclear => nomatch hclear
    rw [SinkCall.ofResult, List.countP_cons, hnone]
    rfl
  | error fault => rfl

theorem countP_clear_flatMap (results : List (Except Fault Drawing)) :
    (results.flatMap SinkCall.ofResult).countP (· == .clear) = results.countP (·.isOk) := by
  induction results with
  | nil => rfl
  | cons result results ih =>
    rw [List.flatMap_cons, List.countP_append, ih, countP_clear_ofResult, List.countP_cons,
      Nat.add_comm]

/-! ### The present drawing -/

/-- The sink was cleared last for the drawing of the canvas, and was never called before there was
one. -/
structure InSink (canvas : Canvas CallLog) : Prop where
  blank : canvas.current = none → canvas.sink.calls = #[]
  last : ∀ drawing, canvas.current = some drawing →
    ∃ earlier, canvas.sink.calls.toList = earlier ++ SinkCall.ofResult (.ok drawing)

theorem inSink_new (plant : Plant) : (Canvas.new plant CallLog.empty).InSink where
  blank _ := rfl
  last _ hcurrent := nomatch hcurrent

theorem InSink.apply {canvas : Canvas CallLog} (hsink : canvas.InSink) (change : Change) :
    (canvas.apply change).2.InSink := by
  cases hgrow : (change.target canvas.plant).grow with
  | ok drawing =>
    rw [apply_of_grow_eq_ok hgrow]
    refine ⟨fun hnone => (nomatch hnone), fun shown hshown => ?_⟩
    have hsame : drawing = shown := Option.some.inj hshown
    rw [← hsame]
    exact ⟨_, CallLog.calls_replace canvas.sink drawing⟩
  | error fault =>
    rw [apply_of_grow_eq_error hgrow]
    exact hsink

/-- Whatever changes a new canvas goes through, the calls of its sink are, for each change that
succeeded and in their order, one clearing and then the primitives of the drawing that the change
gave. Changes that failed add nothing. So there are as many clearings as successes, and the sink
shows the drawing of the canvas at all times. -/
theorem calls_run_new (plant : Plant) (changes : List Change) :
    let results := ((Canvas.new plant CallLog.empty).run changes).1
    let canvas := ((Canvas.new plant CallLog.empty).run changes).2
    canvas.sink.calls.toList = results.flatMap SinkCall.ofResult ∧
      canvas.sink.clears = results.countP (·.isOk) ∧
      (canvas.current = none ↔ canvas.sink.calls = #[]) ∧
      ∀ drawing, canvas.current = some drawing → canvas.sink.shown = drawing ∧
        ∃ earlier, canvas.sink.calls.toList =
          earlier ++ .clear :: drawing.toList.map .primitive := by
  intro results canvas
  have hcalls : canvas.sink.calls.toList = results.flatMap SinkCall.ofResult :=
    calls_run (Canvas.new plant CallLog.empty) changes
  have hsink : canvas.InSink :=
    run_preserves (fun _ change hsink => hsink.apply change) (inSink_new plant) changes
  refine ⟨hcalls, ?_, ⟨hsink.blank, fun hempty => ?_⟩, fun drawing hcurrent => ?_⟩
  · rw [CallLog.clears, hcalls, countP_clear_flatMap]
  · cases hcurrent : canvas.current with
    | none => rfl
    | some drawing =>
      obtain ⟨earlier, hlast⟩ := hsink.last drawing hcurrent
      simp [hempty, SinkCall.ofResult] at hlast
  · obtain ⟨earlier, hlast⟩ := hsink.last drawing hcurrent
    exact ⟨CallLog.shown_of_calls hlast, earlier, hlast⟩

end Canvas

end LSystem
