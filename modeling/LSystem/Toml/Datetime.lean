import LSystem.Number.Digits

/-!
# Dates and times

A date, a time, or both with a letter or one blank between them; only both together can have an
offset from universal time. Seconds are never left out and may be 60. The readers give the
characters that follow.
-/

namespace LSystem.Toml.Datetime

/-- Reads exactly `count` digits. -/
def number? (count : Nat) (cs : List Char) : Option (Nat × List Char) :=
  let ds := cs.take count
  if ds.length = count && ds.all Char.isDigit then
    some (Number.ofDigits 10 ds, cs.drop count)
  else none

/-- Reads one of the given characters. -/
def mark? (marks : List Char) : List Char → Option (List Char)
  | [] => none
  | c :: rest => if marks.contains c then some rest else none

def isLeapYear (year : Nat) : Bool := year % 4 == 0 && (year % 100 != 0 || year % 400 == 0)

def daysIn (year month : Nat) : Nat :=
  if month = 2 then if isLeapYear year then 29 else 28
  else if [4, 6, 9, 11].contains month then 30
  else 31

def date? (cs : List Char) : Option (List Char) := do
  let (year, cs) ← number? 4 cs
  let cs ← mark? ['-'] cs
  let (month, cs) ← number? 2 cs
  let cs ← mark? ['-'] cs
  let (day, cs) ← number? 2 cs
  if 1 ≤ month && month ≤ 12 && 1 ≤ day && day ≤ daysIn year month then some cs else none

def hourMinute? (cs : List Char) : Option (List Char) := do
  let (hour, cs) ← number? 2 cs
  let cs ← mark? [':'] cs
  let (minute, cs) ← number? 2 cs
  if hour ≤ 23 && minute ≤ 59 then some cs else none

/-- Reads a time, to the second or to a fraction of it. -/
def time? (cs : List Char) : Option (List Char) := do
  let cs ← hourMinute? cs
  let cs ← mark? [':'] cs
  let (second, cs) ← number? 2 cs
  if 60 < second then none
  else
    match cs with
    | '.' :: fraction =>
      if (fraction.takeWhile Char.isDigit).isEmpty then none
      else some (fraction.dropWhile Char.isDigit)
    | cs => some cs

/-- Reads a time that may have an offset. -/
def timeOffset? (cs : List Char) : Option (List Char) := do
  let cs ← time? cs
  match cs with
  | [] => some []
  | c :: rest =>
    if c == 'Z' || c == 'z' then some rest
    else if c == '+' || c == '-' then hourMinute? rest
    else some cs

def isDate (cs : List Char) : Bool := date? cs == some []

def isTimeOffset (cs : List Char) : Bool := timeOffset? cs == some []

/-- Whether all of the characters are a date, a time, or both joined by a letter. -/
def isDatetime (cs : List Char) : Bool :=
  isDate cs || time? cs == some [] || ((date? cs).bind (mark? ['T', 't'])).any isTimeOffset

end LSystem.Toml.Datetime
