import LSystem.Number.Conversion

/-!
# Sine and cosine

Both are computed on the exact value of the angle, in fixed point with 320 fractional bits, and
rounded once at the end. The angle is divided by a quarter turn; what remains goes through the power
series of sine or cosine. For the largest single precision angles the quotient has 128 bits, so the
remainder is right to about 190 bits, far more than the nearest float ever depends on.

The correctly rounded value is one admissible choice. The precision of the two functions is not
prescribed, and the sine and cosine of a platform may differ from it in the last bit, and drawings
with them.

The series only sees the magnitude of the angle: negating an angle negates its sine and keeps its
cosine, by the way they are computed. The theorems about drawings use no more of the two functions
than these symmetries, so none of them depends on that bit.
-/

namespace LSystem.Number

open Float.Model (Format UnpackedFloat)

namespace Angle

/-- The number of fractional bits of the fixed point numbers. -/
def fractionBits : Nat := 320

/-- A quarter turn in radians, in fixed point. -/
def quarterTurn : Nat :=
  0x1921fb54442d18469898cc51701b839a252049c1114cf98e804177d4c76273644a29410f31c6809bb

/-- The alternating sum of `terms` terms that starts with `term`. Each term is the one before times
`square`, divided by the next two whole numbers after `degree`. -/
def series (square : Nat) : (terms term degree : Nat) → Int
  | 0, _, _ => 0
  | terms + 1, term, degree =>
    let next := ((term * square) >>> fractionBits) / ((degree + 1) * (degree + 2))
    term - series square terms next (degree + 2)

def seriesSine (angle : Nat) : Int := series ((angle * angle) >>> fractionBits) 40 angle 1

def seriesCosine (angle : Nat) : Int :=
  series ((angle * angle) >>> fractionBits) 40 (1 <<< fractionBits) 0

def magnitude (mantissa : Nat) (exponent : Int) : Nat :=
  mantissa <<< (exponent + fractionBits).toNat

def fixedSine (angle : Nat) : Int :=
  let rest := angle % quarterTurn
  match angle / quarterTurn % 4 with
  | 0 => seriesSine rest
  | 1 => seriesCosine rest
  | 2 => -seriesSine rest
  | _ => -seriesCosine rest

def fixedCosine (angle : Nat) : Int :=
  let rest := angle % quarterTurn
  match angle / quarterTurn % 4 with
  | 0 => seriesCosine rest
  | 1 => -seriesSine rest
  | 2 => -seriesCosine rest
  | _ => seriesSine rest

/-- A number without its last `count` bits, made odd if one of them was set: rounding to fewer bits
than are left needs to know no more of the lost part than whether there was one. -/
def dropBits (count value : Nat) : Nat :=
  let kept := value >>> count
  if kept <<< count = value then kept else kept ||| 1

/-- The single precision float nearest to a fixed point number. The first 64 bits of the magnitude
are far more than a float keeps, so the rest goes before the rounding. -/
def toSingle (value : Int) : Float32 :=
  let count := value.natAbs.log2 - 63
  let kept := value.sign * dropBits count value.natAbs
  .ofModel (.pack (.normalize .binary32 kept (count - fractionBits) .positive))

end Angle

def sine (angle : Float32) : Float32 :=
  match angle.toModel.unpack with
  | .finite sign mantissa exponent _ =>
    let value := Angle.toSingle (Angle.fixedSine (Angle.magnitude mantissa exponent))
    match sign with
    | .positive => value
    | .negative => -value
  | .zero _ => angle
  | _ => notANumber

def cosine (angle : Float32) : Float32 :=
  match angle.toModel.unpack with
  | .finite _ mantissa exponent _ =>
    Angle.toSingle (Angle.fixedCosine (Angle.magnitude mantissa exponent))
  | .zero _ => 1
  | _ => notANumber

end LSystem.Number
