import LSystem.Number.Decimal

/-!
# The shortest decimal of a float

Of all decimals that are read back as the same float, the one with the fewest digits is written, and
of those the one closest to the float. With a given number of digits only the two neighbours of the
float on the decimal grid can qualify: they are tried in the order of their distance, the larger
one first if both are equally far. The exact value stands at the end of the search, so whatever is
found is read back as the float it was made from.
-/

namespace LSystem.Number

open Float.Model (Format UnpackedFloat)

namespace Decimal

/-- Whether a decimal is read as the given float. -/
def readsAs (format : Format) (x : UnpackedFloat) (d : Decimal) : Bool :=
  (d.nearest format).pack format == x.pack format

/-- The neighbours of a decimal among the decimals without its last `dropped` digits, the closer one
first. A decimal that ends in as many zeros is its own neighbour. -/
def neighbours (d : Decimal) (dropped : Nat) : List Decimal :=
  let unit := Nat.pow 10 dropped
  let exponent := d.exponent + dropped
  let below := d.coefficient / unit
  let rest := d.coefficient % unit
  if rest = 0 then [reduce below exponent]
  else if 2 * rest < unit then [reduce below exponent, reduce (below + 1) exponent]
  else [reduce (below + 1) exponent, reduce below exponent]

/-- No double precision float needs more digits. -/
def enoughDigits : Nat := 17

/-- The shortest decimal that is read as the positive float `mantissa * 2 ^ exponent`. -/
def shortest (format : Format) (mantissa : Nat) (exponent : Int) (hpos : 0 < mantissa) : Decimal :=
  let exact := ofBinary mantissa exponent
  let length := (decimalDigits exact.coefficient).length
  let found := (List.range enoughDigits).findSome? fun n =>
    (exact.neighbours (length - (n + 1))).find?
      (readsAs format (.finite .positive mantissa exponent hpos))
  found.getD exact

end Decimal

/-- The spellings in which float texts differ. -/
structure FloatStyle where
  notANumber : String
  wholeEnding : String

namespace FloatStyle

/-- The text of a float: the shortest digits that are read back as the same float. -/
def render (style : FloatStyle) (format : Format) : UnpackedFloat → String
  | .notANumber => style.notANumber
  | .infinity sign => signText sign ++ "inf"
  | .zero sign => signText sign ++ "0" ++ style.wholeEnding
  | .finite sign mantissa exponent hpos =>
    let (whole, fraction) := (Decimal.shortest format mantissa exponent hpos).parts
    let ending := if fraction.isEmpty then style.wholeEnding else "." ++ String.ofList fraction
    signText sign ++ String.ofList whole ++ ending
where
  signText : Float.Model.UnpackedFloat.Sign → String
    | .positive => ""
    | .negative => "-"

def single (style : FloatStyle) (x : Float32) : String := style.render .binary32 x.toModel.unpack

def double (style : FloatStyle) (x : Float) : String := style.render .binary64 x.toModel.unpack

end FloatStyle

end LSystem.Number
