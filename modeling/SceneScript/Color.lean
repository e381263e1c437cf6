/-!
# Colors

A color has three channels of one byte each. Computed channels are whole numbers of any size, and
the nearest byte stands for each.
-/

namespace SceneScript

/-- A color by its channels. -/
structure Color where
  red : UInt8
  green : UInt8
  blue : UInt8
deriving Repr, DecidableEq, Inhabited

namespace Color

/-- The largest value of a channel. -/
def maximum : UInt8 := 255

/-- The color with equal channels. -/
def gray (value : UInt8) : Color := ⟨value, value, value⟩

/-- The byte nearest to a whole number. -/
def channel (c : Int) : UInt8 := UInt8.ofNat (min c.toNat maximum.toNat)

/-- The color nearest to unbounded channels. -/
def clamped (red green blue : Int) : Color := ⟨channel red, channel green, channel blue⟩

/-- The channels in order. -/
def toList (c : Color) : List UInt8 := [c.red, c.green, c.blue]

end Color

end SceneScript
