import LSystem.Toml.Quoted

/-!
# Keys

A key is bare or quoted on one line. Keys joined by dots are a path into nested tables.
-/

namespace LSystem.Toml

/-- A key in nested tables: the keys of the tables around it, the outermost first, and its name. -/
structure Path where
  parents : List String
  name : String
deriving DecidableEq

/-- The number of keys from which on a path is refused. -/
def depthLimit : Nat := 80

def isBareKeyChar (c : Char) : Bool := c.isAlphanum || c == '-' || c == '_'

def key? (cs : List Char) : Option (String × List Char) :=
  match cs with
  | '"' :: rest => (basicBody rest).map fun (s, rest) => (String.ofList s, rest)
  | '\'' :: rest => (literalBody rest).map fun (s, rest) => (String.ofList s, rest)
  | cs =>
    let bare := cs.takeWhile isBareKeyChar
    if bare.isEmpty then none else some (String.ofList bare, cs.dropWhile isBareKeyChar)

/-- Reads a path of at most `budget` keys with blanks around each of them. -/
def path? : (budget : Nat) → List Char → Option (Path × List Char)
  | 0, _ => none
  | budget + 1, cs =>
    match key? (skipBlanks cs) with
    | none => none
    | some (key, rest) =>
      match skipBlanks rest with
      | '.' :: rest =>
        (path? budget rest).map fun (path, rest) => (⟨key :: path.parents, path.name⟩, rest)
      | rest => some (⟨[], key⟩, rest)

/-- A key as it is written: bare where that is possible. -/
def encodeKey (key : String) : List Char :=
  let s := key.toList
  if !s.isEmpty && s.all isBareKeyChar then s else (QuoteStyle.ofKey s).encode s

def Path.encode (path : Path) : List Char :=
  path.parents.flatMap (fun key => encodeKey key ++ ['.']) ++ encodeKey path.name

end LSystem.Toml
