/-!
# Rotation axes

An axis is named by one letter, `x`, `y` or `z`. It is read in either case and written in lower
case, so reading what was written gives it back (`ofChar?_letter`).
-/

namespace SceneScript

/-- An axis of space to turn about. -/
inductive Axis where
  | x
  | y
  | z
deriving Repr, DecidableEq

namespace Axis

/-- The letter an axis is written with. -/
def letter : Axis → Char
  | x => 'x'
  | y => 'y'
  | z => 'z'

/-- The axis a letter of either case names. -/
def ofChar? (c : Char) : Option Axis :=
  match c.toLower with
  | 'x' => some x
  | 'y' => some y
  | 'z' => some z
  | _ => none

/-- The byte of the letter an axis is written with. -/
def byte (a : Axis) : UInt8 := a.letter.toUInt8

/-- The axis the byte of a letter of either case names. -/
def ofByte? (b : UInt8) : Option Axis := ofChar? (Char.ofNat b.toNat)

@[simp] theorem ofChar?_letter (a : Axis) : ofChar? a.letter = some a := by cases a <;> rfl

@[simp] theorem ofByte?_byte (a : Axis) : ofByte? a.byte = some a := by cases a <;> rfl

end Axis

end SceneScript
