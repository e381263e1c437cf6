import SceneScript.Binary64

/-!
# Scalars

Geometry, clipping and filling are written once over any `Scalar`: a type with the four
operations, an order, and a way to whole numbers and back. Pictures are computed at `Float`; the
laws of the same functions are told where the arithmetic is exact.

Comparisons are those of the scalar itself, so at `Float` what is not a number is neither below,
above nor equal to anything. `larger`, `smaller` and `clamp` say what becomes of it.

Round shapes need no order but the functions of the circle, which `Circular` adds to the four
operations.
-/

namespace SceneScript

/-- Arithmetic to draw with. -/
class Scalar (α : Type) extends Add α, Sub α, Mul α, Div α, Neg α where
  /-- At most. -/
  le : α → α → Bool
  /-- Less than. -/
  lt : α → α → Bool
  /-- A whole number as a scalar. -/
  ofInt : Int → α
  /-- The nearest whole number, halves going away from zero. -/
  round : α → α
  /-- The whole part as an integer, as far as the scalar's range of integers goes. -/
  toInt : α → Int
  /-- Neither infinite nor undefined. -/
  isFinite : α → Bool
  /-- A total preorder that extends `lt`, to sort by. -/
  sortsBefore : α → α → Bool

namespace Scalar

variable {α : Type} [Scalar α]

/-! ## Writing formulas over a scalar -/

/-- A whole number may be written as a literal. -/
scoped instance literal {n : Nat} : OfNat α n := ⟨ofInt n⟩

@[inherit_doc le]
scoped instance instLE : LE α := ⟨fun a b => le a b = true⟩

@[inherit_doc lt]
scoped instance instLT : LT α := ⟨fun a b => lt a b = true⟩

/-- The order is decided by computing it. -/
scoped instance decidableLE : DecidableLE α :=
  fun a b => inferInstanceAs (Decidable (le a b = true))

@[inherit_doc decidableLE]
scoped instance decidableLT : DecidableLT α :=
  fun a b => inferInstanceAs (Decidable (lt a b = true))

/-! ## Comparisons with what is not a number -/

/-- Numerically equal: `0` and `-0` are, and what is not a number is equal to nothing. -/
def same (a b : α) : Bool := le a b && le b a

/-- The larger of two scalars, or the one that is a number. -/
def larger (a b : α) : α := if a < b then b else if a ≤ a then a else b

/-- The smaller of two scalars, or the one that is a number. -/
def smaller (a b : α) : α := if b < a then b else if a ≤ a then a else b

/-- The nearest point of `[low, high]`; what is not a number stays as it is. -/
def clamp (low high a : α) : α := if a < low then low else if high < a then high else a

/-! ## Powers -/

/-- The power `a ^ n` times `b`, by the binary digits of `n`: `a` is squared from each to the
next. -/
def timesPower (b a : α) (n : Nat) : α :=
  let b := if n % 2 = 1 then b * a else b
  if n < 2 then b else timesPower b (a * a) (n / 2)

/-- The power `a ^ n`. -/
def power (a : α) (n : Nat) : α := timesPower 1 a n

end Scalar

instance : Scalar Float where
  le a b := decide (a ≤ b)
  lt a b := decide (a < b)
  ofInt := Binary64.ofInt
  round := Binary64.round
  toInt := Binary64.toInt
  isFinite := Float.isFinite
  sortsBefore a b := Binary64.rank a ≤ Binary64.rank b

/-! ## Circles -/

/-- Arithmetic with angles, and with where a circle is at an angle. -/
class Circular (α : Type) extends Add α, Mul α, Div α, Neg α where
  /-- A count as a number. -/
  ofNat : Nat → α
  /-- The angle of half a turn. -/
  halfTurn : α
  /-- The angle of a whole turn. -/
  fullTurn : α
  cos : α → α
  sin : α → α

namespace Circular

/-- The angle `i` steps of `n` into a turn. -/
def angle {α : Type} [Circular α] (turn : α) (i n : Nat) : α := turn * ofNat i / ofNat n

end Circular

instance : Circular Float where
  ofNat := Float.ofNat
  halfTurn := Binary64.pi
  fullTurn := Binary64.tau
  cos := Float.cos
  sin := Float.sin

end SceneScript
