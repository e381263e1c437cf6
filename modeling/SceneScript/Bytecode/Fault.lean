import SceneScript.Decimal.Layout
import SceneScript.Text.Quoted
import SceneScript.Text.Utf8

/-!
# What can be wrong with bytecode

Errors of reading a program carry the offset of the byte at fault, counted from the start of the
program.
-/

namespace SceneScript

/-- Why a program could not be written or read. -/
inductive BytecodeError where
  /-- The output or the input failed. -/
  | io (reason : String)
  | unknownTag (offset : Nat) (tag : UInt8)
  /-- The program ends inside the instruction at the offset. -/
  | truncated (offset : Nat) (tag : UInt8)
  | invalidAxis (offset : Nat) (byte : UInt8)
  /-- A path that cannot be written, since it holds the byte that would end it. -/
  | unwritablePath (path : String)
  /-- A path that is no text. -/
  | undecodablePath (offset : Nat) (fault : Utf8.Fault)
deriving Repr, DecidableEq

namespace BytecodeError

/-- The error in words. -/
def message (e : BytecodeError) : String :=
  String.ofList <|
    match e with
    | io reason => "IO error: ".toList ++ reason.toList
    | unknownTag offset tag =>
      "Unknown tag 0x".toList ++ Text.hexByte tag ++ " at offset ".toList ++ Decimal.digits offset
    | truncated offset tag =>
      "Truncated payload for tag 0x".toList ++ Text.hexByte tag ++ " at offset ".toList
        ++ Decimal.digits offset
    | invalidAxis offset byte =>
      "Invalid rotation axis byte 0x".toList ++ Text.hexByte byte ++ " at offset ".toList
        ++ Decimal.digits offset
    | unwritablePath path =>
      "Invalid filename: ".toList ++ Text.quote path.toList ++ " contains a NUL byte".toList
    | undecodablePath offset fault =>
      "Invalid filename: at offset ".toList ++ Decimal.digits offset ++ ": ".toList
        ++ fault.message.toList

end BytecodeError

end SceneScript
