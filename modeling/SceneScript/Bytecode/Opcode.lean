/-!
# Opcodes

An instruction starts with the byte of its opcode. No opcode has the byte zero, which in the place
of an opcode ends a program (`byte_ne_endTag`).
-/

namespace SceneScript

/-- What an instruction does. -/
inductive Opcode where
  | push
  | pop
  | move
  | rotate
  | scale
  | box
  | sphere
  | torus
  | line
  | save
  | display
deriving Repr, DecidableEq

namespace Opcode

/-- The byte that ends a program where an opcode could stand. -/
def endTag : UInt8 := 0

/-- The byte of an opcode. -/
def byte : Opcode → UInt8
  | push => 1
  | pop => 2
  | move => 3
  | rotate => 4
  | scale => 5
  | box => 6
  | sphere => 7
  | torus => 8
  | line => 9
  | save => 10
  | display => 11

/-- Every opcode. -/
def all : List Opcode := [push, pop, move, rotate, scale, box, sphere, torus, line, save, display]

/-- The opcode of a byte. -/
def ofByte? (b : UInt8) : Option Opcode := all.find? (·.byte == b)

@[simp] theorem ofByte?_byte (c : Opcode) : ofByte? c.byte = some c := by cases c <;> rfl

@[simp] theorem byte_ne_endTag (c : Opcode) : c.byte ≠ endTag := by cases c <;> decide

end Opcode

end SceneScript
