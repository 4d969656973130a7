import LSystem.Number.Shortest
import LSystem.Text.Quote
import LSystem.Toml.Value

/-!
# Values of the wrong shape

A document can be well formed and still not describe what is asked for. The cause is a value that
tells what was found and what was expected; the wording is in `message` alone.
-/

namespace LSystem.Codec

/-- Floats in messages about shapes: the shortest digits, with a point and a zero after a whole
number. -/
def shapeStyle : Number.FloatStyle := ⟨"NaN", ".0"⟩

/-- What stood where something else was expected. -/
inductive Found where
  | integer (n : Int)
  | float (x : Float)
  | boolean (b : Bool)
  | string (s : String)
  | sequence
  | map
  | unitVariant

def Found.message : Found → String
  | integer n => s!"integer `{n}`"
  | float x => s!"floating point `{shapeStyle.double x}`"
  | boolean b => s!"boolean `{b}`"
  | string s => "string " ++ Text.quote s
  | sequence => "sequence"
  | map => "map"
  | unitVariant => "unit variant"

/-- How a message calls a value. A date counts as a map. -/
def Found.ofValue : Toml.Value → Found
  | .string s => string s
  | .integer n => integer n
  | .float x => float x
  | .boolean b => boolean b
  | .datetime _ => map
  | .array _ => sequence
  | .table _ => map
  | .elements _ => sequence

/-- Why a value does not describe what is asked for. -/
inductive ShapeFault where
  /-- The value is of another kind. -/
  | invalidType (found : Found) (expected : String)
  /-- The value is of the right kind, but out of bounds. -/
  | invalidValue (found : Found) (expected : String)
  /-- The sequence is too short. -/
  | invalidLength (length : Nat) (expected : String)
  | missingField (name : String)
  | unknownVariant (name : String) (known : List String)
  /-- A key that should be a symbol is not one character. -/
  | ruleKey (key : String)
  /-- A variant is neither a name nor a table. -/
  | notVariant
  /-- The table of a variant is empty. -/
  | noVariant
  /-- The table of a variant has several keys. -/
  | severalVariants
  /-- A variant without parts has parts. -/
  | needlessParts
  /-- A variant without parts has an array of tables as parts. -/
  | needlessElements
  /-- The parts of a variant have names that it does not know. -/
  | unexpectedKeys (keys known : List String)
  /-- The parts of a variant are a scalar of the given kind. -/
  | scalarParts (kind : String)

def joined (names : List String) : String := ", ".intercalate names

/-- The names in a message that offers a choice. -/
def offer : List String → String
  | [] => "there are no variants"
  | [name] => s!"expected `{name}`"
  | [first, second] => s!"expected `{first}` or `{second}`"
  | names => "expected one of " ++ joined (names.map fun name => s!"`{name}`")

def ShapeFault.message : ShapeFault → String
  | invalidType found expected => s!"invalid type: {found.message}, expected {expected}"
  | invalidValue found expected => s!"invalid value: {found.message}, expected {expected}"
  | invalidLength length expected => s!"invalid length {length}, expected {expected}"
  | missingField name => s!"missing field `{name}`"
  | unknownVariant name known => s!"unknown variant `{name}`, " ++ offer known
  | ruleKey key => s!"rule key {Text.quote key} must be a single character"
  | notVariant => "wanted string or table"
  | noVariant => "wanted exactly 1 element, found 0 elements"
  | severalVariants => "wanted exactly 1 element, more than 1 element"
  | needlessParts => "expected empty table"
  | needlessElements => "expected empty array"
  | unexpectedKeys keys known =>
    s!"unexpected keys in table: {joined keys}, available keys: {joined known}"
  | scalarParts kind => s!"expected table, found {kind}"

end LSystem.Codec
