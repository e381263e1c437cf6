import SceneScript.Proofs.Binary64.Bits
import SceneScript.Proofs.Bytecode.RoundTrip
import SceneScript.Proofs.Bytecode.Wire

/-!
# Programs written again

Decoding forgets the case of the letters that name axes, and of a number that is undefined which of
the undefined ones it was; nothing else. So the operations of a program are written as the program
again, instruction by instruction, with a small letter for each axis, and what stands behind its end
is gone (`exists_recoded_of_decode`). What is written is a program of the same operations, so
writing it once more changes nothing.

A number is written as the eight bytes it was read from, unless these are undefined
(`numberBytes_ofBits`), and numbers in a row are because each of them is (`sameNumbers_numbersAt`).
So every instruction that is read has an instruction to write (`Spells.exists_recoded`), and a list
of them is compiled without leaving anything out (`exists_compileFrom_recoded`).
-/

namespace SceneScript

namespace Program

open Instruction hiding payload
open Instruction.Payload
open Operation (carried)

/-! ## What is written for what was read -/

/-- Eight bytes that spell no number: the bits of the exponent are all ones and those of the
fraction are not all zeros. -/
def Undefined (field : List UInt8) : Prop :=
  field.length = 8 ∧ 0x7ff0000000000000 < littleEndian field % 2 ^ 63

/-- Numbers in a row, eight bytes each, that are the same in both lists but where both are
undefined. -/
inductive SameNumbers : List UInt8 → List UInt8 → Prop
  | nil : SameNumbers [] []
  | same : field.length = 8 → SameNumbers fs gs → SameNumbers (field ++ fs) (field ++ gs)
  | undefined : Undefined f → Undefined g → SameNumbers fs gs → SameNumbers (f ++ fs) (g ++ gs)

/-- The byte of the small letter for that of a capital, and any other byte for itself. -/
def lowerCase (b : UInt8) : UInt8 := if 65 ≤ b ∧ b ≤ 90 then b + 32 else b

/-- What the bytes of an instruction become when they are read and written again. -/
inductive Recoded : List UInt8 → List UInt8 → Prop
  | numbers : tag ≠ 4 → tag ≠ 10 → SameNumbers fs gs → Recoded (tag :: fs) (tag :: gs)
  | rotate : SameNumbers fs gs → Recoded (4 :: letter :: fs) (4 :: lowerCase letter :: gs)
  | save : Recoded (10 :: path) (10 :: path)

variable {bytes field payload : List UInt8} {letter : UInt8} {axis : Axis} {op : Operation}
  {ops : List Operation} {parts : List (List UInt8)} {i k : Nat}

/-! ## Numbers -/

/-- A double with the bits that eight bytes spell is written as these bytes. -/
theorem numberBytes_eq {x : Float} (h : field.length = 8)
    (hx : x.toBits = UInt64.ofNat (littleEndian field)) : numberBytes x = field := by
  match field, h with
  | [a, b, c, d, e, f, g, h], _ =>
    have hbyte := toUInt8_shiftRight [a, b, c, d, e, f, g, h] rfl
    rw [numberBytes, hx]
    generalize UInt64.ofNat (littleEndian [a, b, c, d, e, f, g, h]) = w at hbyte
    have h0 : (w >>> 0).toUInt8 = a := hbyte 0 (by decide)
    rw [UInt64.shiftRight_zero] at h0
    simp only [h0, show (w >>> 8).toUInt8 = b from hbyte 1 (by decide),
      show (w >>> 16).toUInt8 = c from hbyte 2 (by decide),
      show (w >>> 24).toUInt8 = d from hbyte 3 (by decide),
      show (w >>> 32).toUInt8 = e from hbyte 4 (by decide),
      show (w >>> 40).toUInt8 = f from hbyte 5 (by decide),
      show (w >>> 48).toUInt8 = g from hbyte 6 (by decide),
      show (w >>> 56).toUInt8 = h from hbyte 7 (by decide)]

/-- The number that eight bytes spell is written as these bytes, unless it is undefined. -/
theorem numberBytes_ofBits (h : field.length = 8) :
    numberBytes (.ofBits (UInt64.ofNat (littleEndian field))) = field ∨
      Undefined field ∧
        Undefined (numberBytes (.ofBits (UInt64.ofNat (littleEndian field)))) := by
  have hlt : littleEndian field < 2 ^ 64 := by
    have hlt := littleEndian_lt field
    rwa [h] at hlt
  have hw : (UInt64.ofNat (littleEndian field)).toNat = littleEndian field :=
    UInt64.toNat_ofNat_of_lt' hlt
  rcases Binary64.toBits_ofBits_cases (UInt64.ofNat (littleEndian field)) with hx | ⟨hnan, hx⟩
  · exact .inl (numberBytes_eq h hx)
  · rw [hw] at hnan
    refine .inr ⟨⟨h, hnan⟩, ?_⟩
    rw [numberBytes, hx]
    exact ⟨rfl, by decide⟩

/-- The numbers that stand in a row from place `i` on. -/
def numbersAt (i : Nat) : Nat → List UInt8 → List Float
  | 0, _ => []
  | k + 1, bytes => numberAt i bytes :: numbersAt (i + 8) k bytes

/-- Numbers that are read in a row are written as the bytes they are read from. -/
theorem sameNumbers_numbersAt (h : payload.length = i + 8 * k) :
    SameNumbers (payload.drop i) (numbersBytes (numbersAt i k payload)) := by
  induction k generalizing i with
  | zero =>
    rw [List.drop_of_length_le (by omega)]
    exact .nil
  | succ k ih =>
    have hrest := ih (i := i + 8) (by omega)
    have hfield : ((payload.drop i).take 8).length = 8 := by
      rw [List.length_take, List.length_drop]
      omega
    rw [← List.take_append_drop 8 (payload.drop i), List.drop_drop, numbersAt, numbersBytes_cons,
      numberAt]
    generalize (payload.drop i).take 8 = field at hfield
    rcases numberBytes_ofBits hfield with hb | ⟨hf, hg⟩
    · rw [hb]
      exact .same hfield hrest
    · exact .undefined hf hg hrest

/-! ## Instructions -/

/-- An axis is written with a small letter. -/
theorem lowerCase_of_mem_axisBytes (h : (letter, axis) ∈ axisBytes) :
    lowerCase letter = axis.byte := by
  fin_cases h <;> rfl

/-- An instruction of numbers only is written as it was. -/
theorem recoded_numbersAt {tag : UInt8} (h4 : tag ≠ 4) (h10 : tag ≠ 10)
    (hp : payload.length = 8 * k) :
    Recoded (tag :: payload) (tag :: numbersBytes (numbersAt 0 k payload)) :=
  .numbers h4 h10 (sameNumbers_numbersAt (hp.trans (Nat.zero_add _).symm))

/-- What is spelled can be written again, as what it was. -/
theorem Spells.exists_recoded (h : Spells bytes op) :
    ∃ i, ofOperation? op = some i ∧ op.IsWritable ∧ Recoded bytes i.bytes := by
  cases h with
  | push | pop | display =>
    exact ⟨_, rfl, nofun, .numbers (by decide) (by decide) .nil⟩
  | move hp | scale hp =>
    exact ⟨_, rfl, nofun, recoded_numbersAt (k := 3) (by decide) (by decide) hp⟩
  | box hp => exact ⟨_, rfl, nofun, recoded_numbersAt (k := 15) (by decide) (by decide) hp⟩
  | sphere hp => exact ⟨_, rfl, nofun, recoded_numbersAt (k := 13) (by decide) (by decide) hp⟩
  | torus hp => exact ⟨_, rfl, nofun, recoded_numbersAt (k := 14) (by decide) (by decide) hp⟩
  | line hp => exact ⟨_, rfl, nofun, recoded_numbersAt (k := 6) (by decide) (by decide) hp⟩
  | @rotate letter axis degrees hd ha =>
    have hnumbers : SameNumbers degrees (numbersBytes (numbersAt 0 1 degrees)) :=
      sameNumbers_numbersAt (i := 0) (k := 1) hd
    refine ⟨_, rfl, nofun, ?_⟩
    rw [numbersAt, numbersAt, numbersBytes_singleton] at hnumbers
    exact lowerCase_of_mem_axisBytes ha ▸ .rotate hnumbers
  | @save text h0 =>
    refine ⟨_, rfl, ?_, ?_⟩
    · rintro path hpath
      rw [← (Operation.save.inj hpath), String.toList_ofList]
      exact h0
    · rw [String.toList_ofList]
      exact .save

/-- What is spelled is an operation as a program carries it. -/
theorem Spells.carried_cons (h : Spells bytes op) (ops : List Operation) :
    carried (op :: ops) = op :: carried ops := by
  cases h <;> rfl

/-! ## Programs -/

/-- A program carries the operations that are spelled as they are. -/
theorem carried_of_spells (h : List.Forall₂ Spells parts ops) : carried ops = ops := by
  induction h with
  | nil => rfl
  | cons hs _ ih => rw [hs.carried_cons, ih]

/-- Each operation of a program is spelled. -/
theorem exists_spells_of_mem (h : List.Forall₂ Spells parts ops) :
    ∀ op ∈ ops, ∃ part, Spells part op := by
  induction h with
  | nil => nofun
  | cons hs _ ih => exact List.forall_mem_cons.2 ⟨⟨_, hs⟩, ih⟩

/-- What is spelled can be written. -/
theorem forall_isWritable_of_spells (h : List.Forall₂ Spells parts ops) :
    ∀ op ∈ ops, op.IsWritable := by
  intro op hop
  obtain ⟨part, hs⟩ := exists_spells_of_mem h op hop
  obtain ⟨_, _, hw, _⟩ := hs.exists_recoded
  exact hw

/-- What is spelled in a row is compiled to what it becomes, and nothing is left out. -/
theorem exists_compileFrom_recoded (h : List.Forall₂ Spells parts ops) (n : Nat) :
    ∃ p recoded, compileFrom n ops = .ok p ∧ p.omissions = [] ∧
      List.Forall₂ Recoded parts recoded ∧ p.bytes = recoded.flatten := by
  induction h generalizing n with
  | nil => exact ⟨_, [], rfl, rfl, .nil, rfl⟩
  | cons hs _ ih =>
    obtain ⟨p, recoded, hp, ho, hr, hb⟩ := ih (n + 1)
    obtain ⟨i, hi, hw, hrec⟩ := hs.exists_recoded
    refine ⟨prepend i p, i.bytes :: recoded, ?_, ho, .cons hrec hr, ?_⟩
    · rw [compileFrom_instruction hw hi, hp]
      rfl
    · rw [prepend, hb, List.flatten_cons]

/-- What decodes is instructions in a row up to an end, and they are those of its operations. -/
theorem exists_spells_of_decode (h : decode bytes = .ok ops) :
    ∃ parts rest, bytes = parts.flatten ++ rest ∧ List.Forall₂ Spells parts ops ∧ Ends rest := by
  obtain ⟨parts, ops', rest, rfl, hs, he | ⟨e, he⟩⟩ := exists_parts bytes 0
  · rw [decode_of_ends hs he] at h
    cases h
    exact ⟨parts, rest, rfl, hs, he⟩
  · rw [Nat.zero_add] at he
    rw [decode_of_offends hs he] at h
    cases h

/-- The operations of a program are written as the instructions up to its end, each as it was but
for a small letter in the place of a capital one and for numbers that are undefined. Nothing is left
out. What is written is a program of the same operations, which are written as the same bytes
again. -/
theorem exists_recoded_of_decode (h : decode bytes = .ok ops) (held : List UInt8) :
    ∃ parts rest recoded p, bytes = parts.flatten ++ rest ∧ List.Forall₂ Spells parts ops ∧
      Ends rest ∧ List.Forall₂ Recoded parts recoded ∧
      compileTo .growing ops held = (.ok p, held ++ recoded.flatten) ∧ p.omissions = [] ∧
      p.instructions = ops.length ∧ p.bytes = recoded.flatten ∧
      decode recoded.flatten = .ok ops ∧
      ∀ again, decode recoded.flatten = .ok again →
        compileTo .growing again held = (.ok p, held ++ recoded.flatten) := by
  obtain ⟨parts, rest, hb, hs, he⟩ := exists_spells_of_decode h
  obtain ⟨q, recoded, hq, ho, hr, hbytes⟩ := exists_compileFrom_recoded hs 0
  -- the program is also what compiling writes for operations that are read back as themselves
  obtain ⟨p, hp, hdec, hcount⟩ := exists_compile ops (forall_isWritable_of_spells hs)
  obtain rfl : q.counted = p := Except.ok.inj ((compile_eq_ok_iff.2 ⟨q, hq, rfl⟩).symm.trans hp)
  rw [carried_of_spells hs] at hdec hcount
  rw [counted, hbytes] at hdec
  have hwrite : compileTo .growing ops held = (.ok q.counted, held ++ recoded.flatten) := by
    rw [compileTo, hp, ← hbytes]
    rfl
  refine ⟨parts, rest, recoded, _, hb, hs, he, hr, hwrite, ho, hcount, hbytes, hdec, ?_⟩
  intro again hagain
  rw [hdec] at hagain
  cases hagain
  exact hwrite

/-- A capital letter becomes a small one, a number that is undefined stays undefined, and what
stands behind the end is gone. -/
theorem exists_recoded_of_decode_capital :
    decode [1, 4, 0x59, 1, 0, 0, 0, 0, 0, 0xf0, 0x7f, 10, 0x61, 0, 0, 0xff] =
        .ok [.push, .rotate .y (Float.ofBits 0x7ff8000000000000), .save "a"] ∧
      ∃ parts rest recoded p,
        [1, 4, 0x59, 1, 0, 0, 0, 0, 0, 0xf0, 0x7f, 10, 0x61, 0, 0, 0xff] =
          parts.flatten ++ rest ∧
        List.Forall₂ Spells parts
          [.push, .rotate .y (Float.ofBits 0x7ff8000000000000), .save "a"] ∧
        Ends rest ∧ List.Forall₂ Recoded parts recoded ∧
        compileTo .growing [.push, .rotate .y (Float.ofBits 0x7ff8000000000000), .save "a"] [7] =
          (.ok p, [7] ++ recoded.flatten) ∧
        p.omissions = [] ∧ p.instructions = 3 ∧ p.bytes = recoded.flatten ∧
        decode recoded.flatten =
          .ok [.push, .rotate .y (Float.ofBits 0x7ff8000000000000), .save "a"] ∧
        ∀ again, decode recoded.flatten = .ok again →
          compileTo .growing again [7] = (.ok p, [7] ++ recoded.flatten) := by
  have h : decode [1, 4, 0x59, 1, 0, 0, 0, 0, 0, 0xf0, 0x7f, 10, 0x61, 0, 0, 0xff] =
      .ok [.push, .rotate .y (Float.ofBits 0x7ff8000000000000), .save "a"] := by
    decide +kernel
  exact ⟨h, exists_recoded_of_decode h [7]⟩

end Program

end SceneScript
