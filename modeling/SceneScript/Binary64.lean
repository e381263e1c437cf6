/-!
# Rounding and ordering doubles

What drawing needs of binary64 beyond the four operations: cutting off the fraction, rounding to
the nearest whole number, reading a whole number off, and a total order. All of it is written
over the bits and over conversions that the kernel evaluates, so that a closed statement about
pixels and depths is decided by computation.

A double has a fraction only below `2^52` in magnitude, and there its whole part fits in 64 bits;
from `2^52` on it is its own whole part. `truncate` and `round` rest on that.
-/

namespace SceneScript.Binary64

/-- The sign bit is set: negative numbers, `-0` and `-∞`. -/
def signBit (x : Float) : Bool := x.toBits >>> 63 == 1

/-- `x` with the sign bit of `y`, for an `x` without one. -/
def withSignOf (y x : Float) : Float := if signBit y then -x else x

/-- Doubles of this magnitude and above are whole. -/
def wholeFrom : Float := 4503599627370496.0

/-- The whole part: the fraction is cut off toward zero, and the sign of a zero is kept. -/
def truncate (x : Float) : Float :=
  if x.abs < wholeFrom then withSignOf x x.abs.toUInt64.toFloat else x

/-- The nearest whole number, halves going away from zero. -/
def round (x : Float) : Float :=
  if x.abs < wholeFrom then
    let whole := x.abs.toUInt64.toFloat
    withSignOf x (if x.abs - whole < 0.5 then whole else whole + 1.0)
  else x

/-- The least and the greatest signed 64-bit number. -/
def minInt : Int := -9223372036854775808

@[inherit_doc minInt]
def maxInt : Int := 9223372036854775807

/-- The whole part as a signed 64-bit number: out of range it is the nearest end of the range, and
of what is not a number it is `0`. -/
def toInt (x : Float) : Int :=
  if x < 0.0 then max minInt (-(x.abs.toUInt64.toNat : Int))
  else min maxInt (x.toUInt64.toNat : Int)

/-- The rank of a double: the negative ones below the positive ones, each by magnitude, with `-0`
before `0`. There is one `Float` that is not a number, which does not tell its sign, and it is last.
So the order is that of the bit patterns but for what is not a number and has its sign bit set: the
bit patterns have it first. -/
def rank (x : Float) : Int :=
  let magnitude : Int := (x.toBits &&& 0x7fffffffffffffff).toNat
  if signBit x then -magnitude - 1 else magnitude

/-- The whole number as a double, to nearest. -/
def ofInt : Int → Float
  | .ofNat n => Float.ofNat n
  | .negSucc n => -Float.ofNat (n + 1)

/-- The double that stands for `-∞`, below every other in `≤`. -/
def negInfinity : Float := Float.ofBits 0xfff0000000000000

/-- `π` to nearest. -/
def pi : Float := Float.ofBits 0x400921fb54442d18

/-- `2π` to nearest. -/
def tau : Float := Float.ofBits 0x401921fb54442d18

/-- Degrees to radians: one product with `π / 180` to nearest. -/
def radians (degrees : Float) : Float := degrees * (pi / 180.0)

end SceneScript.Binary64
