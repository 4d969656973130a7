import LSystem.Toml.Key
import LSystem.Toml.Value

/-!
# Building tables

A document names each key once, but it may speak of a table in several places: as a table of its own
under a heading, as something that another heading or a dotted key passes through, or as the last
element of an array of tables. Which of these brought a table into being decides what may still be
added to it, so the tree that is built keeps that with each table and drops it at the end.
-/

namespace LSystem.Toml

/-- What brought a table into being. -/
inductive Origin where
  /-- It has a heading of its own. -/
  | heading
  /-- A heading of another table passed through it. -/
  | passed
  /-- A dotted key passed through it. -/
  | dotted
deriving DecidableEq

/-- What a key stands for while the document is read. -/
inductive Node where
  /-- A value that nothing can be added to. -/
  | value (v : Value)
  | table (origin : Origin) (entries : List (String × Node))
  /-- The elements of an array of tables, one for each of its headings. -/
  | elements (tables : List (List (String × Node)))

namespace Node

/-- The entries of a table under construction. -/
abbrev Entries := List (String × Node)

/-- Changes what a key stands for, or adds the key at the end. -/
def alter (key : String) (f : Option Node → Option Node) : Entries → Option Entries
  | [] => (f none).map fun node => [(key, node)]
  | (k, node) :: rest =>
    if k = key then (f (some node)).map fun node => (k, node) :: rest
    else (alter key f rest).map fun rest => (k, node) :: rest

/-- Changes the last element of a list that has one. -/
def alterLast {α : Type} (f : α → Option α) : List α → Option (List α)
  | [] => none
  | [x] => (f x).map fun x => [x]
  | x :: y :: rest => (alterLast f (y :: rest)).map fun rest => x :: rest

def erase (key : String) (entries : Entries) : Entries := entries.filter fun entry => entry.1 ≠ key

/-- Adds a value under a path. The tables on the way must have come from dotted keys: a table with a
heading is closed to them, and one that a heading passed through can be passed, but not filled. -/
def addPath (name : String) (v : Value) : (parents : List String) → Entries → Option Entries
  | [], entries =>
    alter name
      (fun
        | none => some (.value v)
        | some _ => none)
      entries
  | parent :: parents, entries =>
    alter parent
      (fun
        | none => (addPath name v parents []).map (.table .dotted)
        | some (.table .dotted inner) => (addPath name v parents inner).map (.table .dotted)
        | some (.table .passed inner) =>
          if parents.isEmpty then none
          else (addPath name v parents inner).map (.table .passed)
        | some (.elements tables) =>
          if parents.isEmpty then none
          else (alterLast (addPath name v parents) tables).map .elements
        | some (.table .heading _) => none
        | some (.value _) => none)
      entries

/-- Adds values under their paths, one after the other. -/
def addPairs (pairs : List (Path × Value)) (entries : Entries) : Option Entries :=
  pairs.foldlM (fun entries pair => addPath pair.1.name pair.2 pair.1.parents entries) entries

/-- Changes the table that the parents of a heading lead to. A heading can pass through every table,
and it enters the last element of an array of tables. -/
def enter (f : Entries → Option Entries) : (parents : List String) → Entries → Option Entries
  | [], entries => f entries
  | parent :: parents, entries =>
    alter parent
      (fun
        | none => (enter f parents []).map (.table .passed)
        | some (.table origin inner) => (enter f parents inner).map (.table origin)
        | some (.elements tables) => (alterLast (enter f parents) tables).map .elements
        | some (.value _) => none)
      entries

/-- Adds a table with a heading. It may have been passed through before; it then keeps what is in it
and takes its place behind the keys that are there. -/
def addTable (path : Path) (pairs : List (Path × Value)) : Entries → Option Entries :=
  enter
    (fun entries =>
      match entries.lookup path.name with
      | none =>
        (addPairs pairs []).map fun inner => entries ++ [(path.name, .table .heading inner)]
      | some (.table .passed inner) =>
        (addPairs pairs inner).map fun inner =>
          erase path.name entries ++ [(path.name, .table .heading inner)]
      | some _ => none)
    path.parents

def addElement (path : Path) (pairs : List (Path × Value)) : Entries → Option Entries :=
  enter
    (alter path.name fun
      | none => (addPairs pairs []).map fun inner => .elements [inner]
      | some (.elements tables) =>
        (addPairs pairs []).map fun inner => .elements (tables ++ [inner])
      | some _ => none)
    path.parents

mutual

def toValue : Node → Value
  | .value v => v
  | .table _ entries => .table (toTable entries)
  | .elements tables => .elements (toTables tables)

def toTable : List (String × Node) → Table
  | [] => []
  | (key, node) :: rest => (key, node.toValue) :: toTable rest

def toTables : List (List (String × Node)) → List Table
  | [] => []
  | entries :: rest => toTable entries :: toTables rest

end

end Node

/-- The table between braces with the given values. -/
def inlineTable? (pairs : List (Path × Value)) : Option Value :=
  (Node.addPairs pairs []).map fun entries => .table (Node.toTable entries)

end LSystem.Toml
