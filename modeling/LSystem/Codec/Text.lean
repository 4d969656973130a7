import LSystem.Codec.Drawing
import LSystem.Codec.Plant
import LSystem.Toml.Layout

/-!
# Reading and writing texts

A text is read in three steps, each of which can fail: it has to be a TOML document, the document
has to describe what is asked for, and a plant has to be one that can be grown.
-/

namespace LSystem

namespace Codec

inductive ReadFault where
  | malformed
  /-- The document does not describe what is asked for. -/
  | shape (fault : ShapeFault)
  /-- The plant cannot be grown. -/
  | parameter (fault : ParameterFault)

/-- Reads a text as what a table describes. -/
def read {α : Type} (decode : Toml.Table → Except ShapeFault α) (source : String) :
    Except ReadFault α :=
  match Toml.readTable? source with
  | none => .error .malformed
  | some entries => (decode entries).mapError .shape

end Codec

/-- Reads a plant that can be grown. -/
def Plant.read (source : String) : Except Codec.ReadFault Plant := do
  let plant ← Codec.read Codec.plantOfTable source
  plant.validate.mapError .parameter
  return plant

def Plant.write (plant : Plant) : String := Toml.writeTable (Codec.tableOfPlant plant)

end LSystem
