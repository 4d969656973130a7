import LSystem.Toml.Scalar
import LSystem.Toml.Tree

/-!
# Documents

A document is its lines: first keys with values, then sections, each a heading with keys and values
of its own. `Document.read?` finds the lines in a text, and `Document.toTable?` says what table the
lines build; a text is a TOML document if both succeed. `Document.encode` writes the lines.
-/

namespace LSystem.Toml

/-- A line that gives a key its value. -/
abbrev Pair := Path × Value

/-- A line that says which table the next lines belong to. -/
inductive Heading where
  | table (path : Path)
  /-- A new last element of an array of tables. -/
  | element (path : Path)

/-- One line of a document, without blank lines and comments. -/
inductive Line where
  | pair (p : Pair)
  | heading (h : Heading)

/-- A heading with the lines that belong to it. -/
structure Section where
  heading : Heading
  pairs : List Pair

/-- The lines of a document, by the table they belong to. -/
structure Document where
  pairs : List Pair
  sections : List Section

/-! ### Reading values -/

/-- Reads the items of an array, from behind its opening bracket. Items stand between gaps, and a
comma may follow the last. -/
def items? (value : List Char → Option (Value × List Char)) :
    (fuel : Nat) → List Char → Option (List Value × List Char)
  | 0, _ => none
  | fuel + 1, cs =>
    match skipGaps false cs with
    | ']' :: rest => some ([], rest)
    | cs =>
      match value cs with
      | none => none
      | some (v, rest) =>
        match skipGaps false rest with
        | ',' :: rest => (items? value fuel rest).map fun (vs, rest) => (v :: vs, rest)
        | ']' :: rest => some ([v], rest)
        | _ => none

def pair? (value : List Char → Option (Value × List Char)) (cs : List Char) :
    Option (Pair × List Char) :=
  match path? (depthLimit - 1) cs with
  | some (path, '=' :: rest) =>
    (value (skipBlanks rest)).map fun (v, rest) => ((path, v), rest)
  | _ => none

/-- Reads the pairs between braces, from behind the opening one. There is at least one pair, and no
comma follows the last. -/
def pairs? (value : List Char → Option (Value × List Char)) :
    (fuel : Nat) → List Char → Option (List Pair × List Char)
  | 0, _ => none
  | fuel + 1, cs =>
    match pair? value cs with
    | none => none
    | some (p, rest) =>
      match skipBlanks rest with
      | ',' :: rest => (pairs? value fuel rest).map fun (ps, rest) => (p :: ps, rest)
      | '}' :: rest => some ([p], rest)
      | _ => none

def leaf? (cs : List Char) : Option (Value × List Char) :=
  if cs.head? = some '"' || cs.head? = some '\'' then
    (quoted? cs).map fun (s, rest) => (.string s, rest)
  else word? cs

/-- Reads a value with at most `depth` brackets and braces around each of its parts. -/
def value? : (depth : Nat) → List Char → Option (Value × List Char)
  | 0, cs => leaf? cs
  | depth + 1, cs =>
    match cs with
    | '[' :: rest =>
      (items? (value? depth) cs.length rest).map fun (vs, rest) => (.array vs, rest)
    | '{' :: rest =>
      match skipBlanks rest with
      | '}' :: rest => some (.table [], rest)
      | rest =>
        match pairs? (value? depth) cs.length rest with
        | some (ps, rest) => (inlineTable? ps).map fun v => (v, rest)
        | none => none
    | cs => leaf? cs

/-! ### Reading lines -/

def heading? (cs : List Char) : Option (Heading × List Char) :=
  match cs with
  | '[' :: '[' :: rest =>
    match path? (depthLimit - 1) rest with
    | some (path, ']' :: ']' :: rest) => some (.element path, rest)
    | _ => none
  | '[' :: rest =>
    match path? (depthLimit - 1) rest with
    | some (path, ']' :: rest) => some (.table path, rest)
    | _ => none
  | _ => none

def line? (cs : List Char) : Option (Line × List Char) :=
  if cs.head? = some '[' then (heading? cs).map fun (h, rest) => (.heading h, rest)
  else (pair? (value? (depthLimit - 1)) cs).map fun (p, rest) => (.pair p, rest)

/-- Reads all lines. Each one takes at least one character, so as many rounds as there are
characters are enough. -/
def lines? : (fuel : Nat) → List Char → Option (List Line)
  | 0, _ => none
  | fuel + 1, cs =>
    match skipBlanks cs with
    | [] => some []
    | c :: rest =>
      if c = '#' || c = '\n' || c = '\r' then (lineEnd? (c :: rest)).bind (lines? fuel)
      else
        match line? (c :: rest) with
        | none => none
        | some (line, rest) =>
          ((lineEnd? rest).bind (lines? fuel)).map fun lines => line :: lines

namespace Document

def ofLines : List Line → Document
  | [] => ⟨[], []⟩
  | .pair p :: rest => { ofLines rest with pairs := p :: (ofLines rest).pairs }
  | .heading h :: rest => ⟨[], ⟨h, (ofLines rest).pairs⟩ :: (ofLines rest).sections⟩

/-- The document that a text writes. A byte order mark at the start is skipped. -/
def read? (text : String) : Option Document :=
  let cs :=
    match text.toList with
    | '\uFEFF' :: cs => cs
    | cs => cs
  (lines? (cs.length + 1) cs).map ofLines

/-- The table that a document builds, unless it names a key twice or adds to a table that is closed
to it. -/
def toTable? (d : Document) : Option Table :=
  let root := Node.addPairs d.pairs []
  let entries := d.sections.foldlM
    (fun entries s =>
      match s.heading with
      | .table path => Node.addTable path s.pairs entries
      | .element path => Node.addElement path s.pairs entries)
  (root.bind entries).map Node.toTable

end Document

/-- The table that a text writes, if it is a TOML document. -/
def readTable? (text : String) : Option Table := (Document.read? text).bind Document.toTable?

/-! ### Writing -/

mutual

def Value.encode : Value → List Char
  | .string s => encodeString s
  | .integer n => (toString n).toList
  | .float x => (floatStyle.double x).toList
  | .boolean b => (toString b).toList
  | .datetime text => text.toList
  | .array items => '[' :: encodeItems items ++ [']']
  | .table entries => '{' :: encodeEntries entries ++ ['}']
  | .elements tables => '[' :: encodeElements tables ++ [']']

def encodeItems : List Value → List Char
  | [] => []
  | [v] => v.encode
  | v :: w :: rest => v.encode ++ [',', ' '] ++ encodeItems (w :: rest)

def encodeElements : List (List (String × Value)) → List Char
  | [] => []
  | [entries] => '{' :: encodeEntries entries ++ ['}']
  | entries :: more :: rest =>
    '{' :: encodeEntries entries ++ ['}', ',', ' '] ++ encodeElements (more :: rest)

/-- Keys and values with commas between them and blanks around them all. -/
def encodeEntries : List (String × Value) → List Char
  | [] => []
  | [(key, v)] => ' ' :: encodeKey key ++ [' ', '=', ' '] ++ v.encode ++ [' ']
  | (key, v) :: entry :: rest =>
    ' ' :: encodeKey key ++ [' ', '=', ' '] ++ v.encode ++ [','] ++ encodeEntries (entry :: rest)

end

/-- A key with its value, on a line of its own. -/
def encodePair (p : Pair) : List Char := p.1.encode ++ [' ', '=', ' '] ++ p.2.encode ++ ['\n']

def encodePairs (ps : List Pair) : List Char := ps.flatMap encodePair

def Heading.encode : Heading → List Char
  | table path => '[' :: path.encode ++ [']', '\n']
  | element path => '[' :: '[' :: path.encode ++ [']', ']', '\n']

def Section.encode (s : Section) : List Char := s.heading.encode ++ encodePairs s.pairs

/-- The text of a document: an empty line before each heading, except at the start. -/
def Document.encode (d : Document) : List Char :=
  let sections := d.sections.flatMap fun s => '\n' :: s.encode
  if d.pairs.isEmpty then sections.drop 1 else encodePairs d.pairs ++ sections

end LSystem.Toml
