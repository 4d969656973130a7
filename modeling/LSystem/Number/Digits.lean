/-!
# Digits

The digits of numbers, up to base sixteen.
-/

namespace LSystem.Number

/-- The value of a digit; letters count in both cases. -/
def digit? (c : Char) : Option Nat :=
  if '0' ≤ c && c ≤ '9' then some (c.toNat - '0'.toNat)
  else if 'a' ≤ c && c ≤ 'f' then some (c.toNat - 'a'.toNat + 10)
  else if 'A' ≤ c && c ≤ 'F' then some (c.toNat - 'A'.toNat + 10)
  else none

/-- Whether a character is a digit in a base. -/
def isDigitIn (base : Nat) (c : Char) : Bool := (digit? c).any (· < base)

/-- The number that digits write in a base, the most significant first. -/
def ofDigits (base : Nat) (ds : List Char) : Nat :=
  ds.foldl (fun n c => base * n + (digit? c).getD 0) 0

/-- The digits of a number in base ten, the most significant first. -/
def decimalDigits (n : Nat) : List Char := Nat.toDigits 10 n

end LSystem.Number
