import LSystem.Codec.ShapeFault
import LSystem.Number.Conversion

/-!
# Decoding records

A record is described by a table with its fields as keys, or by an array with its fields in order.
Fields are decoded in the order in which they stand, so the first that does not fit is reported;
only then missing fields are looked for. Keys that are no field are skipped, and so are further
items of an array; only the table with the parts of a variant must not have other keys.
-/

namespace LSystem.Codec

open Toml (Value Table)

/-- A reading of values as `α`. -/
abbrev Decoder (α : Type) := Value → Except ShapeFault α

/-- The key under which a date or a time holds its text. -/
def datetimeKey : String := "$__toml_private_datetime"

/-- The entries of a value that has keys. A date or a time has one. -/
def entries? : Value → Option Table
  | .table entries => some entries
  | .datetime text => some [(datetimeKey, .string text)]
  | _ => none

def invalidType {α : Type} (v : Value) (expected : String) : Except ShapeFault α :=
  .error (.invalidType (.ofValue v) expected)

/-! ### Scalars -/

def text : Decoder String
  | .string s => .ok s
  | v => invalidType v "a string"

def count : Decoder UInt32
  | .integer n =>
    if 0 ≤ n && n < UInt32.size then .ok (.ofNat n.toNat)
    else .error (.invalidValue (.integer n) "u32")
  | v => invalidType v "u32"

/-- Reads a single precision float, from a float or from an integer. -/
def single : Decoder Float32
  | .float x => .ok (Number.narrow x)
  | .integer n => .ok (.ofInt n)
  | v => invalidType v "f32"

/-! ### Records -/

/-- The fields of a record `ρ`: their names, and how the record changes when one is decoded. -/
abbrev Fields (ρ : Type) := List (String × (ρ → Decoder ρ))

namespace Fields

variable {ρ : Type}

/-- Decodes the fields in a table, in the order of the table. -/
def ofTable (fields : Fields ρ) (start : ρ) (entries : Table) : Except ShapeFault ρ :=
  entries.foldlM
    (fun record entry =>
      match fields.lookup entry.1 with
      | some decode => decode record entry.2
      | none => .ok record)
    start

def ofItems (fields : Fields ρ) (start : ρ) (items : List Value) : Except ShapeFault ρ :=
  (fields.zip items).foldlM (fun record part => part.1.2 record part.2) start

/-- Decodes a record all of whose fields may be missing. -/
def decode (fields : Fields ρ) (start : ρ) (title : String) (v : Value) : Except ShapeFault ρ :=
  match v.items?, entries? v with
  | some items, _ => fields.ofItems start items
  | none, some entries => fields.ofTable start entries
  | none, none => invalidType v title

end Fields

/-- A record of two fields that must both be there. -/
structure Pairing (α β : Type) where
  title : String
  firstName : String
  first : Decoder α
  secondName : String
  second : Decoder β

namespace Pairing

variable {α β : Type}

def fields (p : Pairing α β) : Fields (Option α × Option β) :=
  [(p.firstName, fun record v => do return (some (← p.first v), record.2)),
    (p.secondName, fun record v => do return (record.1, some (← p.second v)))]

def ofTable (p : Pairing α β) (entries : Table) : Except ShapeFault (α × β) := do
  match ← p.fields.ofTable (none, none) entries with
  | (some a, some b) => .ok (a, b)
  | (none, _) => .error (.missingField p.firstName)
  | (some _, none) => .error (.missingField p.secondName)

def ofItems (p : Pairing α β) (items : List Value) : Except ShapeFault (α × β) := do
  match ← p.fields.ofItems (none, none) items with
  | (some a, some b) => .ok (a, b)
  | (none, _) => .error (.invalidLength 0 (p.title ++ " with 2 elements"))
  | (some _, none) => .error (.invalidLength 1 (p.title ++ " with 2 elements"))

def decode (p : Pairing α β) (v : Value) : Except ShapeFault (α × β) :=
  match v.items?, entries? v with
  | some items, _ => p.ofItems items
  | none, some entries => p.ofTable entries
  | none, none => invalidType v p.title

def names (p : Pairing α β) : List String := p.fields.map Prod.fst

/-- The keys of a table that are no field. -/
def unexpected (p : Pairing α β) (entries : Table) : List String :=
  (entries.map Prod.fst).filter fun key => !p.names.contains key

/-- Decodes the record, but refuses a table with other keys before it looks at the fields. -/
def decodeClosed (p : Pairing α β) (v : Value) : Except ShapeFault (α × β) :=
  match v with
  | .table entries =>
    match p.unexpected entries with
    | [] => p.ofTable entries
    | keys => .error (.unexpectedKeys keys p.names)
  | v => p.decode v

end Pairing

/-! ### Variants -/

/-- Reads a variant: its name alone, or a table with its name as the one key and its parts. -/
def variant : Decoder (String × Option Value)
  | .string name => .ok (name, none)
  | .table [] => .error .noVariant
  | .table [(name, parts)] => .ok (name, some parts)
  | .table _ => .error .severalVariants
  | _ => .error .notVariant

/-- Makes sure that a variant without parts was given none. -/
def withoutParts : Option Value → Except ShapeFault Unit
  | none => .ok ()
  | some (.table entries) => if entries.isEmpty then .ok () else .error .needlessParts
  | some (.array items) => if items.isEmpty then .ok () else .error .needlessParts
  | some (.elements tables) => if tables.isEmpty then .ok () else .error .needlessElements
  | some (.string _) => .error (.scalarParts "string")
  | some (.integer _) => .error (.scalarParts "integer")
  | some (.float _) => .error (.scalarParts "float")
  | some (.boolean _) => .error (.scalarParts "boolean")
  | some (.datetime _) => .error (.scalarParts "datetime")

/-- Decodes the parts of a variant that has some. -/
def withParts {α : Type} (kind : String) (decode : Decoder α) : Option Value → Except ShapeFault α
  | some parts => decode parts
  | none => .error (.invalidType .unitVariant kind)

end LSystem.Codec
