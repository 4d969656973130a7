import LSystem.Plant

/-!
# Canvases

A canvas shows the drawing of a plant in a sink, which is whatever renders primitives. Every change
grows the new drawing first and touches the sink only when that succeeded: the sink then is cleared
and receives the primitives of the drawing in order. After a failure the canvas is what it was.

A `CallLog` is a sink that remembers all it was told.
-/

namespace LSystem

/-- A renderer of primitives, as a state and what each call makes of it. -/
class Sink (σ : Type) where
  clear : σ → σ
  /-- Shows a branch between two points. -/
  segment : σ → (start finish : Vec3) → σ
  marker : σ → (point : Vec3) → (orientation : Quaternion) → σ

namespace Sink

variable {σ : Type} [Sink σ]

def primitive (sink : σ) : Primitive → σ
  | .segment start finish => segment sink start finish
  | .marker point orientation => marker sink point orientation

/-- Shows a drawing in place of everything shown before. -/
def replace (sink : σ) (drawing : Drawing) : σ := drawing.toList.foldl primitive (clear sink)

end Sink

inductive SinkCall where
  | clear
  | primitive (p : Primitive)
deriving BEq, DecidableEq

structure CallLog where
  calls : Array SinkCall
deriving BEq, DecidableEq

namespace CallLog

def empty : CallLog := ⟨#[]⟩

instance : Sink CallLog where
  clear log := ⟨log.calls.push .clear⟩
  segment log start finish := ⟨log.calls.push (.primitive (.segment start finish))⟩
  marker log point orientation := ⟨log.calls.push (.primitive (.marker point orientation))⟩

def clears (log : CallLog) : Nat := log.calls.toList.countP (· == .clear)

/-- The primitives that the sink shows: those received since it was cleared last. -/
def shown (log : CallLog) : Drawing :=
  log.calls.foldl
    (fun drawing call =>
      match call with
      | .clear => .empty
      | .primitive p => drawing.push p)
    .empty

end CallLog

/-- A plant, a sink, and the drawing that the sink shows. -/
structure Canvas (σ : Type) where
  plant : Plant
  sink : σ
  /-- The drawing in the sink; there is none until one has been grown. -/
  current : Option Drawing

namespace Canvas

variable {σ : Type} [Sink σ]

def new (plant : Plant) (sink : σ) : Canvas σ := ⟨plant, sink, none⟩

def display (canvas : Canvas σ) (drawing : Drawing) : Canvas σ :=
  { canvas with sink := Sink.replace canvas.sink drawing, current := some drawing }

def refresh (canvas : Canvas σ) : Except Fault Drawing × Canvas σ :=
  match canvas.plant.grow with
  | .ok drawing => (.ok drawing, canvas.display drawing)
  | .error fault => (.error fault, canvas)

/-- Changes the number of passes, as far as the range allows, and shows the result. If it cannot be
grown, the number stays what it was. -/
def setIterations (canvas : Canvas σ) (count : UInt32) : Except Fault Drawing × Canvas σ :=
  let previous := canvas.plant.iterations
  let changed := { canvas with plant := canvas.plant.setIterations count }
  match changed.plant.grow with
  | .ok drawing => (.ok drawing, changed.display drawing)
  | .error fault =>
    (.error fault, { changed with plant := { changed.plant with iterations := previous } })

/-- Takes another plant and shows it. A plant that cannot be grown is dropped. -/
def setPlant (canvas : Canvas σ) (plant : Plant) : Except Fault Drawing × Canvas σ :=
  match plant.grow with
  | .ok drawing => (.ok drawing, { canvas with plant }.display drawing)
  | .error fault => (.error fault, canvas)

inductive Change where
  | refresh
  | setIterations (count : UInt32)
  | setPlant (plant : Plant)

def apply (canvas : Canvas σ) : Change → Except Fault Drawing × Canvas σ
  | .refresh => canvas.refresh
  | .setIterations count => canvas.setIterations count
  | .setPlant plant => canvas.setPlant plant

end Canvas

end LSystem
