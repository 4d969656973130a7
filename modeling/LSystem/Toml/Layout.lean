import LSystem.Toml.Document

/-!
# Laying out tables

How a table becomes a document. Plain values come first, in order; then each table inside it gets a
section, and so does each element of an array of tables. A table that holds nothing but further
tables needs no heading.
-/

namespace LSystem.Toml

/-- Whether a value is laid out in sections of its own. -/
def Value.isBlock : Value → Bool
  | .table _ => true
  | .elements _ => true
  | _ => false

def plainPairs (entries : Table) : List Pair :=
  (entries.filter fun entry => !entry.2.isBlock).map fun (key, v) => (⟨[], key⟩, v)

mutual

def Value.sections (path : Path) : Value → List Section
  | .table entries =>
    let pairs := plainPairs entries
    let own := if pairs.isEmpty && !entries.isEmpty then [] else [⟨.table path, pairs⟩]
    own ++ tableSections (path.parents ++ [path.name]) entries
  | .elements tables => elementSections path tables
  | _ => []

def tableSections (parents : List String) : List (String × Value) → List Section
  | [] => []
  | (key, v) :: rest => v.sections ⟨parents, key⟩ ++ tableSections parents rest

def elementSections (path : Path) : List (List (String × Value)) → List Section
  | [] => []
  | entries :: rest =>
    ⟨.element path, plainPairs entries⟩ ::
      (tableSections (path.parents ++ [path.name]) entries ++ elementSections path rest)

end

def Document.ofTable (entries : Table) : Document := ⟨plainPairs entries, tableSections [] entries⟩

def writeTable (entries : Table) : String := String.ofList (Document.ofTable entries).encode

end LSystem.Toml
