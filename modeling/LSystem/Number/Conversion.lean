/-!
# Between single and double precision

Coordinates and angles are single precision floats, while texts are read and written through double
precision. A float of one format becomes the nearest float of the other, halves going to the even
mantissa. Every single precision float is a double precision float, so widening loses nothing.
-/

namespace LSystem.Number

open Float.Model (Format UnpackedFloat)

/-- The float of a format that is nearest to the given one. -/
def convert (format : Format) : UnpackedFloat → UnpackedFloat
  | .finite sign mantissa exponent _ => .round format sign mantissa exponent
  | x => x

/-- The double precision float with the same value. -/
def widen (x : Float32) : Float := .ofModel (.pack (convert .binary64 x.toModel.unpack))

/-- The nearest single precision float; from the middle between the largest one and the next power
of two on, this is an infinity. -/
def narrow (x : Float) : Float32 := .ofModel (.pack (convert .binary32 x.toModel.unpack))

/-- The single precision float that is not a number. -/
def notANumber : Float32 := .ofModel (.pack .notANumber)

end LSystem.Number
