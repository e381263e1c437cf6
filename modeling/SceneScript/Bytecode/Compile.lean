import SceneScript.Bytecode.Instruction
import SceneScript.Bytecode.Writer

/-!
# Compiling

A program is the bytes of its operations' instructions, one after the other. An operation without
an instruction is left out and reported, but for a definition, which the solids have made use of
already. A path that holds a zero byte would end early when it is read, so it fails the whole
compilation, and then nothing is written.
-/

namespace SceneScript

/-- An operation that was left out, by its place in the list. -/
structure Omission where
  index : Nat
  keyword : Keyword
deriving Repr, DecidableEq

/-- The report of an operation left out, in words. -/
def Omission.message (o : Omission) : String :=
  String.ofList <|
    "op code ".toList ++ Decimal.digits o.index ++ ": ".toList ++ o.keyword.text.toList
      ++ " not recognized".toList

/-- A compiled program and the report on it. -/
structure Program where
  bytes : List UInt8
  /-- The number of instructions. -/
  instructions : Nat
  /-- The number of bytes, counted when all of them are there. -/
  bytesWritten : Nat
  /-- The operations left out, in order. -/
  omissions : List Omission
deriving Repr, DecidableEq

namespace Program

/-- The program without instructions. -/
def empty : Program := ⟨[], 0, 0, []⟩

/-- The program with an instruction in front. -/
def prepend (i : Instruction) (p : Program) : Program :=
  { p with bytes := i.bytes ++ p.bytes, instructions := p.instructions + 1 }

/-- The program with one more operation left out, in front of the others. -/
def omitting (o : Omission) (p : Program) : Program := { p with omissions := o :: p.omissions }

/-- The program with its bytes counted. -/
def counted (p : Program) : Program := { p with bytesWritten := p.bytes.length }

/-- The path of an operation that would end early when it is read back. -/
def unwritablePath? : Operation → Option String
  | .save path => if path.toList.contains '\x00' then some path else none
  | _ => none

/-- The program of operations of which the first stands at place `index`. -/
def compileFrom (index : Nat) : List Operation → Except BytecodeError Program
  | [] => .ok empty
  | .constants .. :: ops => compileFrom (index + 1) ops
  | op :: ops =>
    match unwritablePath? op with
    | some path => .error (.unwritablePath path)
    | none =>
      match Instruction.ofOperation? op with
      | some i => (compileFrom (index + 1) ops).map (prepend i)
      | none => (compileFrom (index + 1) ops).map (omitting ⟨index, op.keyword⟩)

/-- The program of a list of operations. -/
def compile (ops : List Operation) : Except BytecodeError Program :=
  (compileFrom 0 ops).map counted

/-- Compile, then write the whole program at once. -/
def compileTo {σ : Type} (w : Writer σ) (ops : List Operation) (s : σ) :
    Except BytecodeError Program × σ :=
  match compile ops with
  | .error e => (.error e, s)
  | .ok p =>
    match w.write p.bytes s with
    | (.ok _, s') => (.ok p, s')
    | (.error reason, s') => (.error (.io reason), s')

end Program

end SceneScript
