import LSystem.Number.Shortest
import LSystem.Toml.Datetime
import LSystem.Toml.Spacing
import LSystem.Toml.Value

/-!
# Scalars without quotes

Booleans, numbers and dates are read as one word, the longest run of characters that can stand in
any of them. A word that is none of them is an error, because nothing but a blank, a comma, a
bracket, a comment or a line end can follow a value.

Integers have 64 bits. A float is the nearest double precision float to its decimal. Above the
largest one it is refused, while far enough below zero it is minus infinity. Underscores may stand
between two digits.
-/

namespace LSystem.Toml

open Number (Decimal)

/-- Floats in documents: the shortest digits, with a point and a zero after a whole number. -/
def floatStyle : Number.FloatStyle := ⟨"nan", ".0"⟩

def isWordChar (c : Char) : Bool := c.isAlphanum || ['+', '-', '.', ':', '_'].contains c

/-- The digits of a number in a base without their underscores. There is at least one digit, and
each underscore stands between two. -/
def ungroup? (base : Nat) : List Char → Option (List Char)
  | [] => none
  | [d] => if Number.isDigitIn base d then some [d] else none
  | d :: '_' :: rest =>
    if Number.isDigitIn base d then (ungroup? base rest).map (d :: ·) else none
  | d :: rest => if Number.isDigitIn base d then (ungroup? base rest).map (d :: ·) else none

/-- The sign of a number, true for a minus, and what follows it. -/
def splitSign : List Char → Bool × List Char
  | '-' :: rest => (true, rest)
  | '+' :: rest => (false, rest)
  | cs => (false, cs)

/-- The digits of a decimal number without a sign. A zero at the start stands alone. -/
def decimalDigits? (cs : List Char) : Option (List Char) :=
  match ungroup? 10 cs with
  | some ('0' :: _ :: _) => none
  | ds => ds

/-- An integer, if it has 64 bits. -/
def bounded? (n : Int) : Option Int :=
  if -0x8000000000000000 ≤ n && n < 0x8000000000000000 then some n else none

/-- Reads an integer: decimal with a sign or none, or in another base without a sign. -/
def integer? (cs : List Char) : Option Int :=
  let inBase (base : Nat) (ds : List Char) : Option Int :=
    (ungroup? base ds).bind fun ds => bounded? (Number.ofDigits base ds)
  match cs with
  | '0' :: 'x' :: ds => inBase 16 ds
  | '0' :: 'o' :: ds => inBase 8 ds
  | '0' :: 'b' :: ds => inBase 2 ds
  | cs =>
    let (negative, ds) := splitSign cs
    (decimalDigits? ds).bind fun ds =>
      let n : Int := Number.ofDigits 10 ds
      bounded? (if negative then -n else n)

/-- Reads an exponent: a letter, a sign or none, and digits. No characters are the exponent zero. -/
def exponent? : List Char → Option Int
  | [] => some 0
  | _ :: cs =>
    let (negative, ds) := splitSign cs
    (ungroup? 10 ds).map fun ds =>
      let n : Int := Number.ofDigits 10 ds
      if negative then -n else n

/-- Reads a decimal without a sign that has a fraction, an exponent or both. -/
def decimal? (cs : List Char) : Option Decimal :=
  let isExponentMark (c : Char) : Bool := c == 'e' || c == 'E'
  let scale := cs.dropWhile (!isExponentMark ·)
  let digits := cs.takeWhile (!isExponentMark ·)
  match decimalDigits? (digits.takeWhile (· != '.')), exponent? scale with
  | some whole, some exponent =>
    match digits.dropWhile (· != '.') with
    | [] => if scale.isEmpty then none else some (.reduce (Number.ofDigits 10 whole) exponent)
    | _ :: fraction =>
      (ungroup? 10 fraction).map fun fraction =>
        .reduce (Number.ofDigits 10 (whole ++ fraction)) (exponent - fraction.length)
  | _, _ => none

/-- Reads a float. Only the word for it is the positive infinity. -/
def float? (cs : List Char) : Option Float :=
  let (negative, magnitude) := splitSign cs
  let value :=
    if magnitude = ['i', 'n', 'f'] then some (.ofModel (.pack (.infinity .positive)))
    else if magnitude = ['n', 'a', 'n'] then some (.ofModel (.pack .notANumber))
    else ((decimal? magnitude).map Decimal.toDouble).filter fun x => negative || !x.isInf
  value.map fun x => if negative then -x else x

/-- The value that a word writes. -/
def scalar? (word : List Char) : Option Value :=
  if word = ['t', 'r', 'u', 'e'] then some (.boolean true)
  else if word = ['f', 'a', 'l', 's', 'e'] then some (.boolean false)
  else
    match integer? word with
    | some n => some (.integer n)
    | none =>
      match float? word with
      | some x => some (.float x)
      | none =>
        if Datetime.isDatetime word then some (.datetime (String.ofList word)) else none

/-- Reads a value that is written as one word, or as a date and a time with a blank between them. -/
def word? (cs : List Char) : Option (Value × List Char) :=
  let word := cs.takeWhile isWordChar
  let rest := cs.dropWhile isWordChar
  let time := (rest.drop 1).takeWhile isWordChar
  if rest.head? = some ' ' && Datetime.isDate word && Datetime.isTimeOffset time then
    some (.datetime (String.ofList (word ++ ' ' :: time)), (rest.drop 1).dropWhile isWordChar)
  else (scalar? word).map fun value => (value, rest)

end LSystem.Toml
