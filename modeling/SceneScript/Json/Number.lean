import SceneScript.Decimal.Layout
import SceneScript.Decimal.Reading
import SceneScript.Json.Value

/-!
# Numbers in JSON

A natural number is digits alone, and below a bound. Any number will do for a double, which is
computed the quick way: the digits that fit into 64 bits, as a double, times or by a power of ten
that is a double too. Each of these steps rounds, so the result may miss the nearest double by a
little. Past the greatest double there is no number, while a small one becomes zero.
-/

namespace SceneScript

namespace JsonValue

open Decimal

/-- The bound of numbers of 64 bits, `2^64`. -/
def wordBound : Nat := 18446744073709551616

/-- The natural number below a bound that a value spells. -/
def natural? (bound : Nat) : JsonValue → Option Nat
  | number ds =>
    if !ds.isEmpty && ds.all isDigit && natOfDigits ds < bound then some (natOfDigits ds) else none
  | _ => none

/-! ## The digits that count -/

/-- Digits read so far: those that fit into 64 bits, and the power of ten they are short of. -/
structure Significand where
  value : Nat
  exponent : Int
deriving Repr, DecidableEq

/-- Take digits as long as they fit, each moving the exponent by `shift`, and give the digits
left. -/
def Significand.take (shift : Int) : List Char → Significand → Significand × List Char
  | [], s => (s, [])
  | d :: ds, s =>
    let value := 10 * s.value + (d.toNat - 48)
    if value < wordBound then take shift ds ⟨value, s.exponent + shift⟩ else (s, d :: ds)

/-- The digits before and behind the point. Those before the point that do not fit count for a
power of ten each; behind the point, the first one that does not fit ends the reading. -/
def Significand.ofDigits (whole fraction : List Char) : Significand :=
  let (s, rest) := Significand.take 0 whole ⟨0, 0⟩
  (Significand.take (-1) fraction ⟨s.value, s.exponent + rest.length⟩).1

/-! ## Scaling -/

/-- The greatest power of ten that is a double. -/
def greatestPower : Nat := 308

/-- A power of ten up to the greatest. -/
def power (n : Nat) : Float := nearest 1 n

/-- `x / 10^n`, dividing by the greatest power as long as it is not enough and something is left to
divide; at most `fuel` times. -/
def divide : Nat → Float → Nat → Float
  | 0, x, _ => x
  | fuel + 1, x, n =>
    if n ≤ greatestPower then x / power n
    else if x == 0.0 then x
    else divide fuel (x / power greatestPower) (n - greatestPower)

/-- The double that a significand stands for, if it is one. -/
def Significand.double? (s : Significand) : Option Float :=
  let x := (UInt64.ofNat s.value).toFloat
  if s.exponent < 0 then some (divide (s.exponent.natAbs + 1) x s.exponent.natAbs)
  else if greatestPower < s.exponent.toNat then if x == 0.0 then some x else none
  else
    let y := x * power s.exponent.toNat
    if y.isFinite then some y else none

/-! ## Doubles -/

/-- The bound of the exponents that are computed with, `2^31`. -/
def exponentBound : Int := 2147483648

/-- The magnitude of a number by its parts. -/
def magnitude? (whole fraction : List Char) (exponent : Int) : Option Float :=
  let s := Significand.ofDigits whole fraction
  if exponentBound ≤ exponent.natAbs then
    if s.value ≠ 0 && 0 < exponent then none else some 0.0
  else Significand.double? ⟨s.value, s.exponent + exponent⟩

/-- The magnitude that a number without its sign spells. -/
def unsigned? (s : List Char) : Option Float :=
  let whole := s.takeWhile isDigit
  match s.dropWhile isDigit with
  | '.' :: t => do
    magnitude? whole (t.takeWhile isDigit) (← Decimal.exponent? (t.dropWhile isDigit))
  | t => do magnitude? whole [] (← Decimal.exponent? t)

/-- The double that a value spells. -/
def double? : JsonValue → Option Float
  | number ('-' :: s) => (unsigned? s).map (-·)
  | number s => unsigned? s
  | _ => none

/-! ## Writing -/

/-- A natural number in digits. -/
def ofNatural (n : Nat) : JsonValue := number (digits n)

/-- The fewest digits that read back, a tie going to the even digit; a fraction on whole numbers,
and an exponent past sixteen digits or behind five zeros. -/
def numberLayout : Layout := ⟨.toEven, fun point => -5 < point && point ≤ 16, ['.', '0']⟩

/-- A finite double as a number. -/
def ofDouble (x : Float) : JsonValue := number (numberLayout.text x)

end JsonValue

end SceneScript
