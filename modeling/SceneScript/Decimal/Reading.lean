/-!
# Reading decimals

A number is an optional sign before digits, with at most one point among them and at least one
digit, and an optional exponent; or the words `inf`, `infinity` and `nan` in any case. Its value is
the double nearest to the decimal, which is infinite past the greatest double and zero near enough
to zero.
-/

namespace SceneScript.Decimal

/-- A digit to base ten. -/
def isDigit (c : Char) : Bool := '0' ≤ c && c ≤ '9'

/-- The value of a digit string. -/
def natOfDigits (ds : List Char) : Nat := ds.foldl (fun n c => 10 * n + (c.toNat - 48)) 0

/-- The double nearest to `c · 10^e`. A positive decimal is below ten to the number of its digits
plus `e`, and at least a tenth of that: outside of the range below it is past the greatest double,
or less than half the least one. -/
def nearest (c : Nat) (e : Int) : Float :=
  let top : Int := (Nat.toDigits 10 c).length + e
  if c = 0 || top ≤ -324 then 0.0
  else if 310 < top then Float.ofBits 0x7ff0000000000000
  else if 0 ≤ e then Float.ofScientific c false e.toNat
  else Float.ofScientific c true (-e).toNat

/-- The exponent that the rest of a number spells, none being zero. -/
def exponent? : List Char → Option Int
  | [] => some 0
  | mark :: s =>
    if mark = 'e' || mark = 'E' then
      let (negative, ds) : Bool × List Char :=
        match s with
        | '-' :: ds => (true, ds)
        | '+' :: ds => (false, ds)
        | ds => (false, ds)
      if !ds.isEmpty && ds.all isDigit then
        some (if negative then -(natOfDigits ds : Int) else natOfDigits ds)
      else none
    else none

/-- The non-negative double that digits with a point and an exponent spell. -/
def unsigned? (s : List Char) : Option Float :=
  let whole := s.takeWhile isDigit
  let (fraction, rest) : List Char × List Char :=
    match s.dropWhile isDigit with
    | '.' :: t => (t.takeWhile isDigit, t.dropWhile isDigit)
    | t => ([], t)
  if whole.isEmpty && fraction.isEmpty then none
  else (exponent? rest).map fun e => nearest (natOfDigits (whole ++ fraction)) (e - fraction.length)

/-- The magnitude of a number: digits, or one of the words. -/
def magnitude? (s : List Char) : Option Float :=
  let word := String.ofList (s.map Char.toLower)
  if word = "inf" || word = "infinity" then some (Float.ofBits 0x7ff0000000000000)
  else if word = "nan" then some (Float.ofBits 0x7ff8000000000000)
  else unsigned? s

/-- The double that a text spells, if it is a number and nothing else. -/
def number? : List Char → Option Float
  | '-' :: s => (magnitude? s).map (-·)
  | '+' :: s => magnitude? s
  | s => magnitude? s

end SceneScript.Decimal
