import SceneScript.Bytecode.Compile
import SceneScript.Bytecode.Decode
import SceneScript.Proofs.Bytecode.Layout
import SceneScript.Proofs.Text.Utf8

/-!
# Programs read back

A program carries the operations that have an instruction, in their order, with a profile in every
solid (`Operation.carried`), and decoding it gives those operations (`decodeWithin_compileFrom`).
The proof goes along the list: each operation either puts the bytes of one instruction in front of
the rest (`compileFrom_instruction`), which are read off the front again
(`decodeWithin_instruction`), or it puts nothing there (`compileFrom_omitted`,
`compileFrom_definition`).

Compiling fails only at a path that holds a zero byte, so operations without one have a program
(`exists_compile`).
-/

namespace SceneScript

namespace Operation

/-! ## What a program carries -/

/-- Curves and clearing are left out of programs, and each is reported. -/
def isOmitted : Operation → Bool
  | circle .. | hermite .. | bezier .. | clear => true
  | _ => false

/-- Definitions are left out of programs too, and nothing is said about them. -/
def isDefinition : Operation → Bool
  | constants .. => true
  | _ => false

/-- A solid that names no profile gets the standard one; every other operation stays as it is. -/
def withStandardProfile : Operation → Operation
  | box corner size k => box corner size (some (k.getD .standard))
  | sphere center radius k => sphere center radius (some (k.getD .standard))
  | torus center minor major k => torus center minor major (some (k.getD .standard))
  | op => op

/-- The operations that a program of the given ones consists of. -/
def carried (ops : List Operation) : List Operation :=
  (ops.filter fun op => !op.isOmitted && !op.isDefinition).map withStandardProfile

/-- The operation has a path that can be written: no zero byte would end it early. -/
def IsWritable (op : Operation) : Prop := ∀ path, op = save path → 0 ∉ Utf8.encode path.toList

/-- An operation that a program carries stands in front of what the rest comes to. -/
theorem carried_cons {op : Operation} (ho : op.isOmitted = false) (hd : op.isDefinition = false)
    (ops : List Operation) : carried (op :: ops) = op.withStandardProfile :: carried ops := by
  rw [carried, List.filter_cons_of_pos (by rw [ho, hd]; rfl), List.map_cons, carried]

/-- An operation that is left out adds nothing. -/
theorem carried_cons_omitted {op : Operation} (h : op.isOmitted = true ∨ op.isDefinition = true)
    (ops : List Operation) : carried (op :: ops) = carried ops := by
  rw [carried, List.filter_cons_of_neg (by rcases h with h | h <;> simp [h]), carried]

end Operation

open Operation (carried)

namespace Instruction

/-! ## Operations through instructions -/

/-- An operation has an instruction, or is left out in one of the two ways. -/
theorem ofOperation?_cases (op : Operation) :
    (∃ i, ofOperation? op = some i ∧ op.isOmitted = false ∧ op.isDefinition = false) ∨
      op.isOmitted = true ∨ op.isDefinition = true := by
  cases op with
  | circle | hermite | bezier | clear => exact .inr (.inl rfl)
  | constants => exact .inr (.inr rfl)
  | _ => exact .inl ⟨_, rfl, rfl, rfl⟩

/-- An instruction stands for the operation that it was made of, with the profile filled in. -/
theorem toOperation_ofOperation? {op : Operation} {i : Instruction} (h : ofOperation? op = some i)
    (offset : Nat) : i.toOperation offset = .ok op.withStandardProfile := by
  cases op with
  | circle | hermite | bezier | clear | constants => cases h
  | rotate axis degrees =>
    cases h
    rw [toOperation, Axis.ofByte?_byte]
    rfl
  | save path =>
    cases h
    rw [toOperation, Utf8.decode_encode]
    exact congrArg (Except.ok ∘ Operation.save) String.ofList_toList
  | _ => cases h; rfl

/-- The instruction of an operation with a path that can be written can be read. -/
theorem isReadable_of_isWritable {op : Operation} {i : Instruction}
    (h : ofOperation? op = some i) (hw : op.IsWritable) : i.IsReadable := by
  rintro bytes rfl
  cases op with
  | save path =>
    cases h
    exact hw path rfl
  | _ => cases h

end Instruction

namespace Program

open Instruction

/-! ## Compiling along the list -/

/-- A path that can be written stops no compilation. -/
theorem unwritablePath?_eq_none {op : Operation} (hw : op.IsWritable) :
    unwritablePath? op = none := by
  cases op with
  | save path =>
    have h : '\x00' ∉ path.toList := fun h =>
      hw path rfl ((Utf8.mem_encode_ascii (a := '\x00') (by decide)).2 h)
    rw [unwritablePath?, if_neg (by simpa using h)]
  | _ => rfl

variable {n : Nat} {op : Operation} {ops : List Operation} {i : Instruction}

/-- The instruction of an operation comes before those of the rest. -/
theorem compileFrom_instruction (hw : op.IsWritable) (h : ofOperation? op = some i) :
    compileFrom n (op :: ops) = (compileFrom (n + 1) ops).map (prepend i) := by
  have hd : ∀ name k, op ≠ .constants name k := by
    rintro name k rfl
    cases h
  rw [compileFrom.eq_3 _ _ _ hd, unwritablePath?_eq_none hw, h]

/-- An operation that is left out is reported with its place. -/
theorem compileFrom_omitted (h : op.isOmitted = true) :
    compileFrom n (op :: ops) = (compileFrom (n + 1) ops).map (omitting ⟨n, op.keyword⟩) := by
  cases op with
  | circle | hermite | bezier | clear => rfl
  | _ => cases h

/-- A definition changes nothing but the places behind it. -/
theorem compileFrom_definition (h : op.isDefinition = true) :
    compileFrom n (op :: ops) = compileFrom (n + 1) ops := by
  cases op with
  | constants => rfl
  | _ => cases h

/-- Operations whose paths can be written have a program. -/
theorem exists_compileFrom (n : Nat) (hw : ∀ op ∈ ops, op.IsWritable) :
    ∃ p, compileFrom n ops = .ok p := by
  induction ops generalizing n with
  | nil => exact ⟨_, rfl⟩
  | cons op ops ih =>
    obtain ⟨hop, hops⟩ := List.forall_mem_cons.1 hw
    obtain ⟨p, hp⟩ := ih (n + 1) hops
    rcases ofOperation?_cases op with ⟨i, hi, -, -⟩ | ho | hd
    · exact ⟨_, by rw [compileFrom_instruction hop hi, hp]; rfl⟩
    · exact ⟨_, by rw [compileFrom_omitted ho, hp]; rfl⟩
    · exact ⟨_, by rw [compileFrom_definition hd, hp]⟩

/-! ## Decoding along the bytes -/

/-- An instruction is taken off the front of the bytes, and decoding goes on behind it. -/
theorem decodeWithin_instruction {fuel offset : Nat} {rest : List UInt8} (hr : i.IsReadable)
    (ho : i.toOperation offset = .ok op) :
    decodeWithin (fuel + 1) offset (i.bytes ++ rest) =
      (op :: ·) <$> decodeWithin fuel (offset + i.bytes.length) rest := by
  change decodeWithin (fuel + 1) offset (i.opcode.byte :: (i.payload ++ rest)) = _
  rw [decodeWithin, if_neg (Opcode.byte_ne_endTag _), Opcode.ofByte?_byte]
  simp only [reads_payload hr rest, ho]
  cases decodeWithin fuel (offset + i.bytes.length) rest <;> rfl

/-- A program is read back as the operations that it carries, wherever it starts, and it has one
instruction for each. -/
theorem decodeWithin_compileFrom {p : Program} (hw : ∀ op ∈ ops, op.IsWritable)
    (hp : compileFrom n ops = .ok p) {fuel : Nat} (hf : p.bytes.length ≤ fuel) (offset : Nat) :
    decodeWithin fuel offset p.bytes = .ok (carried ops) ∧
      p.instructions = (carried ops).length := by
  induction ops generalizing n p fuel offset with
  | nil =>
    cases hp
    exact ⟨by cases fuel <;> rfl, rfl⟩
  | cons op ops ih =>
    obtain ⟨hop, hops⟩ := List.forall_mem_cons.1 hw
    obtain ⟨q, hq⟩ := exists_compileFrom (n + 1) hops
    rcases ofOperation?_cases op with ⟨i, hi, ho, hd⟩ | ho | hd
    · rw [compileFrom_instruction hop hi, hq] at hp
      cases hp
      -- the opcode alone takes one unit of fuel, so the rest has enough
      have hlen : (prepend i q).bytes.length = i.payload.length + 1 + q.bytes.length := by
        rw [prepend, List.length_append, Instruction.bytes, List.length_cons]
      obtain ⟨fuel, rfl⟩ : ∃ k, fuel = k + 1 := ⟨fuel - 1, by omega⟩
      have hq' : q.bytes.length ≤ fuel := by omega
      obtain ⟨hdec, hcount⟩ := ih hops hq hq' (offset + i.bytes.length)
      rw [Operation.carried_cons ho hd, prepend,
        decodeWithin_instruction (isReadable_of_isWritable hi hop)
          (toOperation_ofOperation? hi offset), hdec, hcount]
      exact ⟨rfl, rfl⟩
    · rw [compileFrom_omitted ho, hq] at hp
      cases hp
      rw [Operation.carried_cons_omitted (.inl ho)]
      exact ih hops hq hf offset
    · rw [compileFrom_definition hd] at hp
      rw [Operation.carried_cons_omitted (.inr hd)]
      exact ih hops hp hf offset

/-- A program is complete when the bytes that were put together are counted. -/
theorem compile_eq_ok_iff {p : Program} :
    compile ops = .ok p ↔ ∃ q, compileFrom 0 ops = .ok q ∧ q.counted = p := by
  rw [compile]
  cases compileFrom 0 ops <;> simp [Except.map]

/-- The bytes that are reported are those of the program. -/
theorem bytesWritten_of_compile {p : Program} (hp : compile ops = .ok p) :
    p.bytesWritten = p.bytes.length := by
  obtain ⟨q, -, rfl⟩ := compile_eq_ok_iff.1 hp
  rfl

/-- Operations whose paths can be written have a program, and it is read back as what it carries. -/
theorem exists_compile (ops : List Operation) (hw : ∀ op ∈ ops, op.IsWritable) :
    ∃ p, compile ops = .ok p ∧ decode p.bytes = .ok (carried ops) ∧
      p.instructions = (carried ops).length := by
  obtain ⟨q, hq⟩ := exists_compileFrom 0 hw
  exact ⟨_, compile_eq_ok_iff.2 ⟨q, hq, rfl⟩, decodeWithin_compileFrom hw hq (Nat.le_refl _) 0⟩

/-! ## The round trip -/

/-- Compiling to memory that grows cannot fail on paths without a zero byte. What is written behind
the bytes that were there decodes to the operations without curves, clearing and definitions, with
the standard profile in the solids that named none; the report counts those operations and the
bytes that were written. -/
theorem decode_compileTo_growing (ops : List Operation)
    (hw : ∀ path, .save path ∈ ops → 0 ∉ Utf8.encode path.toList) (held : List UInt8) :
    ∃ p written, compileTo .growing ops held = (.ok p, held ++ written) ∧
      decode written = .ok (carried ops) ∧ p.instructions = (carried ops).length ∧
      p.bytes = written ∧ p.bytesWritten = written.length := by
  obtain ⟨p, hp, hdec, hcount⟩ := exists_compile ops fun op hop path h => hw path (h ▸ hop)
  refine ⟨p, p.bytes, ?_, hdec, hcount, rfl, bytesWritten_of_compile hp⟩
  rw [compileTo, hp]
  rfl

/-- A definition and a circle go, a sphere gets its profile, and a path of several bytes a character
stays. -/
theorem decode_compileTo_growing_scene :
    (∀ path, Operation.save path ∈ [.constants "k" .standard, .circle ⟨0.0, 0.0, 0.0⟩ 5.0,
        .sphere ⟨1.0, 2.0, 3.0⟩ 4.0 none, .save "café.png"] → 0 ∉ Utf8.encode path.toList) ∧
      ∃ p written, compileTo .growing [.constants "k" .standard, .circle ⟨0.0, 0.0, 0.0⟩ 5.0,
          .sphere ⟨1.0, 2.0, 3.0⟩ 4.0 none, .save "café.png"] [7] = (.ok p, [7] ++ written) ∧
        decode written =
          .ok [.sphere ⟨1.0, 2.0, 3.0⟩ 4.0 (some .standard), .save "café.png"] ∧
        p.instructions = 2 ∧ p.bytes = written ∧ p.bytesWritten = written.length := by
  have hw : ∀ path, Operation.save path ∈ [.constants "k" .standard, .circle ⟨0.0, 0.0, 0.0⟩ 5.0,
      .sphere ⟨1.0, 2.0, 3.0⟩ 4.0 none, .save "café.png"] → 0 ∉ Utf8.encode path.toList := by
    intro path h
    obtain rfl : path = "café.png" := by simpa using h
    decide
  exact ⟨hw, decode_compileTo_growing _ hw [7]⟩

end Program

end SceneScript
