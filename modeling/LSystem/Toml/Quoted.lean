import LSystem.Number.Digits
import LSystem.Toml.Spacing

/-!
# Quoted strings

A string is written in one of four styles: on one line or over several, with escapes or literally.
Each style has an encoder and a reader. The readers take a list of characters from behind the
opening quotes, and give the string with the characters behind the closing quotes; a list that is no
such string gives nothing.

A string over several lines may hold up to two quotes in a row, also in front of its closing quotes,
and a line end directly behind its opening quotes does not belong to it.
-/

namespace LSystem.Toml

/-- The ways to quote a string. -/
inductive QuoteStyle where
  | basic
  | literal
  | multilineBasic
  | multilineLiteral
deriving DecidableEq

/-! ### Reading -/

/-- The character with the number that the first `count` characters write in hexadecimal digits. -/
def hexEscape? (count : Nat) (cs : List Char) : Option (Char × List Char) :=
  let ds := cs.take count
  let n := Number.ofDigits 16 ds
  if ds.length = count && ds.all (Number.isDigitIn 16) && n.isValidChar then
    some (Char.ofNat n, cs.drop count)
  else none

/-- The character that an escape stands for, from behind its backslash. -/
def escape? : List Char → Option (Char × List Char)
  | 'b' :: rest => some ('\x08', rest)
  | 't' :: rest => some ('\t', rest)
  | 'n' :: rest => some ('\n', rest)
  | 'f' :: rest => some ('\x0c', rest)
  | 'r' :: rest => some ('\r', rest)
  | '"' :: rest => some ('"', rest)
  | '\\' :: rest => some ('\\', rest)
  | 'u' :: rest => hexEscape? 4 rest
  | 'U' :: rest => hexEscape? 8 rest
  | _ => none

/-- Skips blanks and line ends. -/
def skipLines : List Char → List Char
  | '\r' :: '\n' :: rest => skipLines rest
  | c :: rest => if isBlank c || c == '\n' then skipLines rest else c :: rest
  | [] => []

/-- What follows a line end that is taken out of a string with all blanks and line ends behind it,
from behind the backslash in front of it. -/
def joinedLine? (cs : List Char) : Option (List Char) :=
  (newline? (skipBlanks cs)).map skipLines

/-- The end of a string over several lines: three quotes and up to two before them that belong to
the string. -/
def closing? (quote : Char) (cs : List Char) : Option (List Char × List Char) :=
  let run := (cs.takeWhile (· == quote)).length
  if run < 3 then none
  else
    let taken := min run 5
    some (List.replicate (taken - 3) quote, cs.drop taken)

theorem hexEscape?_length_le {count : Nat} {cs rest : List Char} {c : Char}
    (hread : hexEscape? count cs = some (c, rest)) : rest.length ≤ cs.length := by
  dsimp only [hexEscape?] at hread
  split at hread
  · cases hread
    exact (List.drop_sublist count cs).length_le
  · cases hread

theorem escape?_length_lt {cs rest : List Char} {c : Char} (hread : escape? cs = some (c, rest)) :
    rest.length < cs.length := by
  unfold escape? at hread
  split at hread
  case h_8 => exact Nat.lt_succ_of_le (hexEscape?_length_le hread)
  case h_9 => exact Nat.lt_succ_of_le (hexEscape?_length_le hread)
  case h_10 => cases hread
  all_goals
    cases hread
    simp

theorem skipLines_length_le (cs : List Char) : (skipLines cs).length ≤ cs.length := by
  fun_induction skipLines cs with
  | case1 rest ih => simp only [List.length_cons]; omega
  | case2 c rest _ _ ih => simp only [List.length_cons]; omega
  | case3 c rest _ _ => exact Nat.le_refl _
  | case4 => exact Nat.le_refl _

theorem joinedLine?_length_lt {cs rest : List Char} (hread : joinedLine? cs = some rest) :
    rest.length < cs.length := by
  obtain ⟨line, hline, rfl⟩ := Option.map_eq_some_iff.1 hread
  have hskip := skipLines_length_le line
  have hnewline := newline?_length_lt hline
  have hblanks := skipBlanks_length_le cs
  omega

set_option linter.unusedVariables false in
def basicBody (cs : List Char) : Option (List Char × List Char) :=
  match cs with
  | [] => none
  | c :: rest =>
    if c = '"' then some ([], rest)
    else if c = '\\' then
      match hread : escape? rest with
      | none => none
      | some (c, rest) => (basicBody rest).map fun (s, rest) => (c :: s, rest)
    else if isText c then (basicBody rest).map fun (s, rest) => (c :: s, rest)
    else none
termination_by cs.length
decreasing_by
  · have := escape?_length_lt hread
    simp only [List.length_cons]
    omega
  · simp

def literalBody : List Char → Option (List Char × List Char)
  | [] => none
  | c :: rest =>
    if c = '\'' then some ([], rest)
    else if isText c then (literalBody rest).map fun (s, rest) => (c :: s, rest)
    else none

set_option linter.unusedVariables false in
def multilineBasicBody (cs : List Char) : Option (List Char × List Char) :=
  match cs with
  | [] => none
  | c :: rest =>
    match closing? '"' (c :: rest) with
    | some ending => some ending
    | none =>
      if c = '\\' then
        match hjoined : joinedLine? rest with
        | some rest => multilineBasicBody rest
        | none =>
          match hread : escape? rest with
          | none => none
          | some (c, rest) => (multilineBasicBody rest).map fun (s, rest) => (c :: s, rest)
      else if c = '\r' then
        if rest.head? = some '\n' then multilineBasicBody rest else none
      else if c = '\n' || isText c then
        (multilineBasicBody rest).map fun (s, rest) => (c :: s, rest)
      else none
termination_by cs.length
decreasing_by
  · have := joinedLine?_length_lt hjoined
    simp only [List.length_cons]
    omega
  · have := escape?_length_lt hread
    simp only [List.length_cons]
    omega
  · simp
  · simp

def multilineLiteralBody : List Char → Option (List Char × List Char)
  | [] => none
  | c :: rest =>
    match closing? '\'' (c :: rest) with
    | some ending => some ending
    | none =>
      if c = '\r' then
        if rest.head? = some '\n' then multilineLiteralBody rest else none
      else if c = '\n' || isText c then
        (multilineLiteralBody rest).map fun (s, rest) => (c :: s, rest)
      else none

def skipNewline (cs : List Char) : List Char := (newline? cs).getD cs

/-- Reads a string in the style that its opening quotes tell. -/
def quoted? (cs : List Char) : Option (String × List Char) :=
  let body :=
    match cs with
    | '"' :: '"' :: '"' :: rest => multilineBasicBody (skipNewline rest)
    | '"' :: rest => basicBody rest
    | '\'' :: '\'' :: '\'' :: rest => multilineLiteralBody (skipNewline rest)
    | '\'' :: rest => literalBody rest
    | _ => none
  body.map fun (s, rest) => (String.ofList s, rest)

/-! ### Writing -/

def hexDigit (n : Nat) : Char :=
  if n < 10 then Char.ofNat ('0'.toNat + n) else Char.ofNat ('A'.toNat + (n - 10))

/-- A control character of ASCII as an escape with four digits. -/
def controlEscape (c : Char) : List Char :=
  ['\\', 'u', '0', '0', hexDigit (c.toNat / 16), hexDigit (c.toNat % 16)]

/-- The control characters that no string may hold unescaped, apart from the line feed. -/
def isControl (c : Char) : Bool := (c < ' ' && c != '\t' && c != '\n') || c == '\x7f'

/-- A character of a string with escapes on one line. -/
def escaped (c : Char) : List Char :=
  if c = '"' then ['\\', '"']
  else if c = '\\' then ['\\', '\\']
  else if c = '\x08' then ['\\', 'b']
  else if c = '\t' then ['\\', 't']
  else if c = '\n' then ['\\', 'n']
  else if c = '\x0c' then ['\\', 'f']
  else if c = '\r' then ['\\', 'r']
  else if isControl c then controlEscape c
  else [c]

/-- The characters of a string with escapes over several lines. A line feed stays as it is, and of
quotes in a row each third one is escaped; `run` of them stand directly before. -/
def multilineEscaped : (run : Nat) → List Char → List Char
  | _, [] => []
  | run, c :: rest =>
    if c = '"' then
      if run < 2 then '"' :: multilineEscaped (run + 1) rest
      else '\\' :: '"' :: multilineEscaped 0 rest
    else if c = '\n' then '\n' :: multilineEscaped 0 rest
    else escaped c ++ multilineEscaped 0 rest

/-- Three quotes on both sides of a string. If there is a line feed in the string, another one
stands before it. -/
def multilineQuoted (quote : Char) (s body : List Char) : List Char :=
  let quotes := [quote, quote, quote]
  quotes ++ (if s.contains '\n' then ['\n'] else []) ++ body ++ quotes

def QuoteStyle.encode (style : QuoteStyle) (s : List Char) : List Char :=
  match style with
  | basic => '"' :: s.flatMap escaped ++ ['"']
  | literal => '\'' :: s ++ ['\'']
  | multilineBasic => multilineQuoted '"' s (multilineEscaped 0 s)
  | multilineLiteral => multilineQuoted '\'' s s

/-- The length of the longest run of a character, where `run` of them stand directly before. -/
def longestRun (quote : Char) : (run : Nat) → List Char → Nat
  | run, [] => run
  | run, c :: rest =>
    if c = quote then longestRun quote (run + 1) rest else max run (longestRun quote 0 rest)

/-- The style in which a value is written: the first that needs no escapes, and on one line if the
string is on one line. The tab alone does not count as an escape. -/
def QuoteStyle.ofValue (s : List Char) : QuoteStyle :=
  let control := s.any isControl
  let backslash := s.contains '\\'
  let lines := s.contains '\n'
  let doubleRun := longestRun '"' 0 s
  let singleRun := longestRun '\'' 0 s
  if !control && !backslash && !lines && doubleRun = 0 then basic
  else if !control && !lines && singleRun = 0 then literal
  else if !control && !backslash && doubleRun ≤ 2 then multilineBasic
  else if !control && singleRun ≤ 2 then multilineLiteral
  else if lines then multilineBasic
  else basic

/-- The style in which a key is quoted. A key stays on one line. -/
def QuoteStyle.ofKey (s : List Char) : QuoteStyle :=
  let control := s.any fun c => isControl c || c == '\n'
  if !control && !s.contains '\\' && !s.contains '"' then basic
  else if !control && !s.contains '\'' then literal
  else basic

def encodeString (s : String) : List Char := (QuoteStyle.ofValue s.toList).encode s.toList

end LSystem.Toml
