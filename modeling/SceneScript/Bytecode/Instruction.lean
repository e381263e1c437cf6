import SceneScript.Bytecode.Fault
import SceneScript.Bytecode.Opcode
import SceneScript.Operation

/-!
# Instructions

An instruction is an operation as it is laid out in bytes: a solid always brings its profile, an
axis is a byte and a path is bytes. Curves and clearing have no instruction, nor do definitions,
whose profiles the solids carry already.

The opcode fixes the layout that follows it. Numbers take eight bytes, the least significant
first, there is nothing between them, and a path ends with a zero byte.
-/

namespace SceneScript

/-- An operation as it is laid out in bytes. -/
inductive Instruction where
  | push
  | pop
  | move (offset : Vec3 Float)
  | rotate (axis : UInt8) (degrees : Float)
  | scale (factors : Vec3 Float)
  | box (corner size : Vec3 Float) (profile : Reflectance)
  | sphere (center : Vec3 Float) (radius : Float) (profile : Reflectance)
  | torus (center : Vec3 Float) (minor major : Float) (profile : Reflectance)
  | line (p0 p1 : Vec3 Float)
  | save (path : List UInt8)
  | display
deriving Repr, DecidableEq

namespace Instruction

/-- The opcode of an instruction. -/
def opcode : Instruction → Opcode
  | push => .push
  | pop => .pop
  | move _ => .move
  | rotate .. => .rotate
  | scale _ => .scale
  | box .. => .box
  | sphere .. => .sphere
  | torus .. => .torus
  | line .. => .line
  | save _ => .save
  | display => .display

/-! ## Operations and instructions -/

/-- The instruction of an operation that has one. A solid without a profile of its own gets the
standard one. -/
def ofOperation? : Operation → Option Instruction
  | .push => some push
  | .pop => some pop
  | .move v => some (move v)
  | .rotate axis degrees => some (rotate axis.byte degrees)
  | .scale v => some (scale v)
  | .box corner size k => some (box corner size (k.getD .standard))
  | .sphere center radius k => some (sphere center radius (k.getD .standard))
  | .torus center minor major k => some (torus center minor major (k.getD .standard))
  | .line p0 p1 => some (line p0 p1)
  | .save path => some (save (Utf8.encode path.toList))
  | .display => some display
  | .circle .. | .hermite .. | .bezier .. | .clear | .constants .. => none

/-- The operation of an instruction at the given offset. An axis may be a letter of either case;
what is no axis, or no text, is found right behind the opcode. -/
def toOperation (offset : Nat) : Instruction → Except BytecodeError Operation
  | push => .ok .push
  | pop => .ok .pop
  | move v => .ok (.move v)
  | rotate axis degrees =>
    match Axis.ofByte? axis with
    | some a => .ok (.rotate a degrees)
    | none => .error (.invalidAxis (offset + 1) axis)
  | scale v => .ok (.scale v)
  | box corner size k => .ok (.box corner size (some k))
  | sphere center radius k => .ok (.sphere center radius (some k))
  | torus center minor major k => .ok (.torus center minor major (some k))
  | line p0 p1 => .ok (.line p0 p1)
  | save path =>
    match Utf8.decode path with
    | .ok text => .ok (.save (String.ofList text))
    | .error fault => .error (.undecodablePath (offset + 1) fault)
  | display => .ok .display

/-! ## Writing -/

/-- The eight bytes of a double, the least significant first. -/
def numberBytes (x : Float) : List UInt8 :=
  let w := x.toBits
  [w.toUInt8, (w >>> 8).toUInt8, (w >>> 16).toUInt8, (w >>> 24).toUInt8, (w >>> 32).toUInt8,
    (w >>> 40).toUInt8, (w >>> 48).toUInt8, (w >>> 56).toUInt8]

/-- The bytes of numbers, one after the other. -/
def numbersBytes (xs : List Float) : List UInt8 := xs.flatMap numberBytes

/-- What follows the opcode. -/
def payload : Instruction → List UInt8
  | push | pop | display => []
  | move v | scale v => numbersBytes v.toList
  | rotate axis degrees => axis :: numberBytes degrees
  | box corner size k => numbersBytes (corner.toList ++ size.toList ++ k.toList)
  | sphere center radius k => numbersBytes (center.toList ++ radius :: k.toList)
  | torus center minor major k => numbersBytes (center.toList ++ minor :: major :: k.toList)
  | line p0 p1 => numbersBytes (p0.toList ++ p1.toList)
  | save path => path ++ [0]

/-- The bytes of an instruction. -/
def bytes (i : Instruction) : List UInt8 := i.opcode.byte :: i.payload

/-! ## Reading -/

/-- A reader of bytes: it gives a value and the bytes behind it, or nothing when the bytes end. -/
abbrev Payload := StateT (List UInt8) Option

namespace Payload

/-- One byte. -/
def byte : Payload UInt8
  | [] => none
  | b :: rest => some (b, rest)

/-- A double. -/
def number : Payload Float
  | a :: b :: c :: d :: e :: f :: g :: h :: rest =>
    some (Float.ofBits (a.toUInt64 ||| b.toUInt64 <<< 8 ||| c.toUInt64 <<< 16 |||
      d.toUInt64 <<< 24 ||| e.toUInt64 <<< 32 ||| f.toUInt64 <<< 40 ||| g.toUInt64 <<< 48 |||
      h.toUInt64 <<< 56), rest)
  | _ => none

/-- A vector. -/
def vector : Payload (Vec3 Float) := do
  return ⟨← number, ← number, ← number⟩

/-- A profile. -/
def profile : Payload Reflectance := do
  return ⟨← vector, ← vector, ← vector⟩

/-- The bytes up to the first zero byte, which is taken too. -/
def terminated : Payload (List UInt8)
  | [] => none
  | b :: rest =>
    if b = 0 then some ([], rest) else (terminated rest).map fun (bs, rest) => (b :: bs, rest)

end Payload

open Payload in
/-- The instruction that follows an opcode. -/
def read : Opcode → Payload Instruction
  | .push => pure push
  | .pop => pure pop
  | .move => return move (← vector)
  | .rotate => return rotate (← byte) (← number)
  | .scale => return scale (← vector)
  | .box => return box (← vector) (← vector) (← profile)
  | .sphere => return sphere (← vector) (← number) (← profile)
  | .torus => return torus (← vector) (← number) (← number) (← profile)
  | .line => return line (← vector) (← vector)
  | .save => return save (← terminated)
  | .display => pure display

end Instruction

end SceneScript
