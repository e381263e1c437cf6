import SceneScript.Binary64
import SceneScript.Decimal.Shortest

/-!
# Laying digits out

A `Layout` is the convention a format writes its numbers by: where the point may stand before an
exponent takes over, whether a whole number shows a fraction, and which digits a tie takes.
Scripts and listings use `Layout.plain`, which never writes an exponent.
-/

namespace SceneScript.Decimal

/-- A convention for writing numbers. -/
structure Layout where
  /-- Which of two equally near digit strings is written. -/
  tie : Tie
  /-- The number is written without an exponent when this many digits stand before the point. -/
  isPlain : Int → Bool
  /-- What a whole number without an exponent ends in. -/
  wholeEnd : List Char

/-- The digits of a number to base ten. -/
def digits (n : Nat) : List Char := Nat.toDigits 10 n

/-- A signed whole number to base ten. -/
def signed (n : Int) : List Char := if n < 0 then '-' :: digits n.natAbs else digits n.natAbs

/-- A positive decimal. The point stands after `point` digits; digits that a plain layout lacks on
either side of it are zeros. -/
def Layout.positive (l : Layout) (d : Decimal) : List Char :=
  let ds := digits d.coefficient
  let point : Int := ds.length + d.exponent
  if l.isPlain point then
    if point ≤ 0 then ['0', '.'] ++ List.replicate (-point).toNat '0' ++ ds
    else if 0 ≤ d.exponent then ds ++ List.replicate d.exponent.toNat '0' ++ l.wholeEnd
    else ds.take point.toNat ++ '.' :: ds.drop point.toNat
  else
    let mantissa :=
      match ds with
      | first :: second :: rest => first :: '.' :: second :: rest
      | short => short
    mantissa ++ 'e' :: signed (point - 1)

/-- A double as text. -/
def Layout.text (l : Layout) (x : Float) : List Char :=
  if x.isNaN then ['N', 'a', 'N']
  else
    let magnitude :=
      if x.isFinite then
        let m := Magnitude.ofBits x.toBits
        if m.significand = 0 then '0' :: l.wholeEnd else l.positive (m.shortest l.tie)
      else ['i', 'n', 'f']
    if Binary64.signBit x then '-' :: magnitude else magnitude

/-- Never an exponent, no point in a whole number, and a tie takes the greater digits. -/
def Layout.plain : Layout := ⟨.up, fun _ => true, []⟩

end SceneScript.Decimal
