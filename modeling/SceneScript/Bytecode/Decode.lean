import SceneScript.Bytecode.Instruction

/-!
# Decoding

A program is read instruction by instruction up to its end, or up to a zero byte where an opcode
could stand; what follows that is not looked at. The first instruction that cannot be read fails
the whole: its opcode is checked first, then that all of it is there, and only then what it holds.
-/

namespace SceneScript

namespace Program

/-- The operations of at most `fuel` instructions at the front of the bytes, which start at
`offset`. -/
def decodeWithin : Nat → Nat → List UInt8 → Except BytecodeError (List Operation)
  | 0, _, _ => .ok []
  | _, _, [] => .ok []
  | fuel + 1, offset, tag :: rest =>
    if tag = Opcode.endTag then .ok []
    else match Opcode.ofByte? tag with
      | none => .error (.unknownTag offset tag)
      | some code =>
        match Instruction.read code rest with
        | none => .error (.truncated offset tag)
        | some (i, rest') => do
          let op ← i.toOperation offset
          let ops ← decodeWithin fuel (offset + i.bytes.length) rest'
          return op :: ops

/-- The operations of a program. Every instruction takes a byte, so there are at most as many as
there are bytes. -/
def decode (bytes : List UInt8) : Except BytecodeError (List Operation) :=
  decodeWithin bytes.length 0 bytes

end Program

end SceneScript
