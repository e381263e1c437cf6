/-!
# The fewest digits that read back

Many decimals round to a double; the one it is written with is the shortest of them. The reals
that round to a double form an interval around it, whose ends are half way to its two neighbours
and belong to it when its significand is even (`Magnitude.readsBack`). On the grid of decimals
with a given number of digits, if any point lies in the interval then so does one of the value's
two neighbours on that grid, so trying those two for one digit, two digits and so on finds the
shortest. Of two equally short ones the nearer is taken, and `Tie` says what happens half way.

All of it is exact arithmetic on naturals: a number `c · 2^i · 10^j` is a fraction of two of them.
-/

namespace SceneScript

/-- The number `coefficient · 10^exponent`. -/
structure Decimal where
  coefficient : Nat
  exponent : Int
deriving Repr, DecidableEq

/-- Which of two equally near neighbours is taken. -/
inductive Tie where
  | up
  | toEven
deriving Repr, DecidableEq

namespace Decimal

/-- A finite double without its sign: the number `significand · 2^exponent`. -/
structure Magnitude where
  significand : Nat
  exponent : Int
  /-- The neighbour below is half as far away as the neighbour above. -/
  narrowBelow : Bool
deriving Repr, DecidableEq

/-- The magnitude that the bits of a finite double stand for. All but the least ones have a leading
one, worth `2^52`, that the bits leave out. -/
def Magnitude.ofBits (bits : UInt64) : Magnitude :=
  let scale := ((bits >>> 52) &&& 0x7ff).toNat
  let fraction := (bits &&& 0xfffffffffffff).toNat
  if scale = 0 then ⟨fraction, -1074, false⟩
  else ⟨4503599627370496 + fraction, (scale : Int) - 1075, fraction == 0 && 1 < scale⟩

/-- A non-negative rational as numerator and denominator. -/
structure Fraction where
  numerator : Nat
  denominator : Nat

/-- The fraction `c · 2^i · 10^j`. -/
def Fraction.scaled (c : Nat) (i j : Int) : Fraction :=
  ⟨c * Nat.pow 2 i.toNat * Nat.pow 10 j.toNat, Nat.pow 2 (-i).toNat * Nat.pow 10 (-j).toNat⟩

/-- How two fractions compare, by cross-multiplying. -/
def Fraction.compare (a b : Fraction) : Ordering :=
  Ord.compare (a.numerator * b.denominator) (b.numerator * a.denominator)

/-- The decimal lies among the reals that round to `x`, to nearest with ties to the even
significand. -/
def Magnitude.readsBack (x : Magnitude) (d : Decimal) : Bool :=
  let low := .scaled (4 * x.significand - if x.narrowBelow then 1 else 2) (x.exponent - 2) 0
  let high := .scaled (4 * x.significand + 2) (x.exponent - 2) 0
  let value := .scaled d.coefficient 0 d.exponent
  let closed := x.significand % 2 == 0
  match Fraction.compare value low, Fraction.compare value high with
  | .gt, .lt => true
  | .eq, .lt => closed
  | .gt, .eq => closed
  | _, _ => false

/-- The least `k` with `x < 10^k`, for a positive `x`: an estimate from the binary logarithm that
is never too high, and at most four steps up from it. -/
def Magnitude.decimalScale (x : Magnitude) : Int :=
  let bits : Int := x.significand.log2 + x.exponent
  let least := bits * 30103 / 100000 - 1
  let fits (k : Int) := Fraction.compare (.scaled x.significand x.exponent 0) (.scaled 1 0 k) == .lt
  if fits least then least
  else if fits (least + 1) then least + 1
  else if fits (least + 2) then least + 2
  else least + 3

/-- The nearer of the two neighbours of `x` on the grid `10^g` that read back, if one does. -/
def Magnitude.onGrid (tie : Tie) (x : Magnitude) (g : Int) : Option Decimal :=
  let value := Fraction.scaled x.significand x.exponent (-g)
  let below := value.numerator / value.denominator
  match x.readsBack ⟨below, g⟩, x.readsBack ⟨below + 1, g⟩ with
  | false, false => none
  | true, false => some ⟨below, g⟩
  | false, true => some ⟨below + 1, g⟩
  | true, true =>
    match Ord.compare (2 * value.numerator) ((2 * below + 1) * value.denominator), tie with
    | .lt, _ => some ⟨below, g⟩
    | .gt, _ => some ⟨below + 1, g⟩
    | .eq, .up => some ⟨below + 1, g⟩
    | .eq, .toEven => some ⟨below + below % 2, g⟩

/-- All digits of `x`. -/
def Magnitude.exact (x : Magnitude) : Decimal :=
  ⟨x.significand * Nat.pow 2 x.exponent.toNat * Nat.pow 5 (-x.exponent).toNat, min x.exponent 0⟩

/-- At most `n` zeros at the end of the coefficient moved into the exponent. -/
def stripZeros : Nat → Decimal → Decimal
  | 0, d => d
  | n + 1, d =>
    if d.coefficient % 10 = 0 then stripZeros n ⟨d.coefficient / 10, d.exponent + 1⟩ else d

/-- The shortest decimal that reads back as a positive `x`. Seventeen digits are enough for every
double. -/
def Magnitude.shortest (tie : Tie) (x : Magnitude) : Decimal :=
  let k := x.decimalScale
  let found := (List.range 17).findSome? fun (n : Nat) => x.onGrid tie (k - (n + 1))
  stripZeros 20 (found.getD x.exact)

end Decimal

end SceneScript
