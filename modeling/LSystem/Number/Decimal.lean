import LSystem.Number.Digits

/-!
# Decimal numbers

A decimal is a natural number times a power of ten. It is read as the nearest float of a format, and
it is written with a decimal point and without an exponent.
-/

namespace LSystem.Number

open Float.Model (Format UnpackedFloat)

/-- The number `coefficient * 10 ^ exponent`. -/
structure Decimal where
  coefficient : Nat
  exponent : Int
deriving DecidableEq

namespace Decimal

/-- Moves the trailing zeros of the coefficient into the exponent. Zero keeps the exponent zero. -/
def reduce (coefficient : Nat) (exponent : Int) : Decimal :=
  if hzero : coefficient = 0 then ⟨0, 0⟩
  else if coefficient % 10 = 0 then reduce (coefficient / 10) (exponent + 1)
  else ⟨coefficient, exponent⟩
termination_by coefficient
decreasing_by omega

/-- The exact value of a binary float: the powers of two that divide it are taken as powers of five
over powers of ten. -/
def ofBinary (mantissa : Nat) (exponent : Int) : Decimal :=
  if exponent < 0 then reduce (mantissa * Nat.pow 5 exponent.natAbs) exponent
  else reduce (mantissa * Nat.pow 2 exponent.natAbs) 0

/-- The nearest float of a format; ties go to the even mantissa. -/
def nearest (format : Format) (d : Decimal) : UnpackedFloat :=
  .ofScientific format d.coefficient d.exponent

def toDouble (d : Decimal) : Float := .ofModel (.pack (d.nearest .binary64))

/-- The parts of a decimal before and after the point. A number below one has a zero before it. -/
def parts (d : Decimal) : List Char × List Char :=
  let ds := decimalDigits d.coefficient
  match d.exponent with
  | .ofNat zeros => (ds ++ List.replicate zeros '0', [])
  | .negSucc places =>
    let places := places + 1
    if places < ds.length then ds.splitAt (ds.length - places)
    else (['0'], List.replicate (places - ds.length) '0' ++ ds)

end Decimal

end LSystem.Number
