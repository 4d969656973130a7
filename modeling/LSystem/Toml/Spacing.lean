/-!
# Blanks, comments and line ends

What may stand between the parts of a TOML document. A line ends with a line feed or with a carriage
return and a line feed; a carriage return on its own is nowhere allowed.
-/

namespace LSystem.Toml

def isBlank (c : Char) : Bool := c == ' ' || c == '\t'

/-- The characters of comments and of strings on one line: all but the control characters of ASCII,
and the tab. -/
def isText (c : Char) : Bool := c == '\t' || (' ' ≤ c && c != '\x7f')

def skipBlanks (cs : List Char) : List Char := cs.dropWhile isBlank

/-- What follows a line end. -/
def newline? : List Char → Option (List Char)
  | '\n' :: rest => some rest
  | '\r' :: '\n' :: rest => some rest
  | _ => none

/-- What follows the end of a line that may close with blanks and a comment. The end of the document
ends a line. -/
def lineEnd? (cs : List Char) : Option (List Char) :=
  let rest :=
    match skipBlanks cs with
    | '#' :: comment => comment.dropWhile isText
    | rest => rest
  if rest.isEmpty then some [] else newline? rest

/-- Skips blanks, line ends and comments, starting inside or outside a comment. A comment with a
character that it must not hold ends before that character. -/
def skipGaps : (inComment : Bool) → List Char → List Char
  | _, [] => []
  | _, '\n' :: rest => skipGaps false rest
  | _, '\r' :: '\n' :: rest => skipGaps false rest
  | true, c :: rest => if isText c then skipGaps true rest else c :: rest
  | false, c :: rest =>
    if isBlank c then skipGaps false rest
    else if c = '#' then skipGaps true rest
    else c :: rest

theorem skipBlanks_length_le (cs : List Char) : (skipBlanks cs).length ≤ cs.length :=
  (List.dropWhile_sublist isBlank).length_le

theorem newline?_length_lt {cs rest : List Char} (hrest : newline? cs = some rest) :
    rest.length < cs.length := by
  unfold newline? at hrest
  split at hrest
  · cases hrest
    exact Nat.lt_succ_self _
  · cases hrest
    exact Nat.lt_succ_of_le (Nat.le_succ _)
  · cases hrest

end LSystem.Toml
