import SceneScript.Bytecode.Decode
import SceneScript.Proofs.Bytecode.Places
import SceneScript.Proofs.Text.Encoding

/-!
# What bytes are programs

The wire grammar is told without a decoder: `Spells` says which bytes are one instruction, and of
which operation; `Offends` says what is wrong with an instruction at the front of bytes, each kind
of fault only where none of those before it applies; `Ends` says where a program is over. Of any
bytes exactly one of the three holds at the front (`exists_front`).

Decoding follows the grammar step by step (`Spells.decodeWithin`, `Offends.decodeWithin`,
`Ends.decodeWithin`). So it succeeds exactly on instructions in a row up to an end, with their
operations, and otherwise it reports the fault of the first instruction that has one, where that
instruction stands (`decode_eq_ok_iff_and_error_iff`).
-/

namespace SceneScript

namespace Program

open Instruction hiding payload
open Instruction.Payload

/-! ## The grammar -/

/-- The letters that name an axis, in either case. -/
def axisBytes : List (UInt8 × Axis) :=
  [('x'.toUInt8, .x), ('X'.toUInt8, .x), ('y'.toUInt8, .y), ('Y'.toUInt8, .y), ('z'.toUInt8, .z),
    ('Z'.toUInt8, .z)]

/-- How many bytes follow a tag, but for the one that a path follows. -/
def payloadSizes : List (UInt8 × Nat) :=
  [(1, 0), (2, 0), (3, 24), (4, 9), (5, 24), (6, 120), (7, 104), (8, 112), (9, 48), (11, 0)]

/-- These bytes are one instruction, and it stands for the operation. -/
inductive Spells : List UInt8 → Operation → Prop
  | push : Spells [1] .push
  | pop : Spells [2] .pop
  | move : payload.length = 24 → Spells (3 :: payload) (.move (vectorAt 0 payload))
  | rotate : degrees.length = 8 → (letter, axis) ∈ axisBytes →
      Spells (4 :: letter :: degrees) (.rotate axis (numberAt 0 degrees))
  | scale : payload.length = 24 → Spells (5 :: payload) (.scale (vectorAt 0 payload))
  | box : payload.length = 120 → Spells (6 :: payload)
      (.box (vectorAt 0 payload) (vectorAt 24 payload) (some (profileAt 48 payload)))
  | sphere : payload.length = 104 → Spells (7 :: payload)
      (.sphere (vectorAt 0 payload) (numberAt 24 payload) (some (profileAt 32 payload)))
  | torus : payload.length = 112 → Spells (8 :: payload)
      (.torus (vectorAt 0 payload) (numberAt 24 payload) (numberAt 32 payload)
        (some (profileAt 40 payload)))
  | line : payload.length = 48 →
      Spells (9 :: payload) (.line (vectorAt 0 payload) (vectorAt 24 payload))
  | save : 0 ∉ Utf8.encode text →
      Spells (10 :: (Utf8.encode text ++ [0])) (.save (String.ofList text))
  | display : Spells [11] .display

/-- The bytes start with an instruction that stands at the offset and is at fault. -/
inductive Offends (offset : Nat) : List UInt8 → BytecodeError → Prop
  /-- The tag is none. -/
  | unknownTag : 11 < tag → Offends offset (tag :: rest) (.unknownTag offset tag)
  /-- The payload is not all there, whatever there is of it. -/
  | truncated : (tag, size) ∈ payloadSizes → rest.length < size →
      Offends offset (tag :: rest) (.truncated offset tag)
  /-- The path does not end, whatever it is. -/
  | unterminated : 0 ∉ rest → Offends offset (10 :: rest) (.truncated offset 10)
  /-- The payload is all there, and its letter names no axis. -/
  | invalidAxis : letter ∉ axisBytes.map Prod.fst → degrees.length = 8 →
      Offends offset (4 :: letter :: (degrees ++ rest)) (.invalidAxis (offset + 1) letter)
  /-- The path ends, and is no text. -/
  | undecodablePath : 0 ∉ path → (∀ text, path ≠ Utf8.encode text) →
      Utf8.decode path = .error fault →
      Offends offset (10 :: (path ++ 0 :: rest)) (.undecodablePath (offset + 1) fault)

/-- The program is over: there are no more bytes, or a zero byte stands for a tag. -/
def Ends (bytes : List UInt8) : Prop := bytes = [] ∨ ∃ rest, bytes = 0 :: rest

variable {bytes rest path degrees : List UInt8} {letter tag : UInt8} {axis : Axis}
  {op : Operation} {ops : List Operation} {e : BytecodeError} {offset fuel size : Nat}

/-! ## Single instructions -/

/-- A byte names an axis when it is one of its two letters. -/
theorem ofByte?_eq : ∀ n < 256, Axis.ofByte? (UInt8.ofNat n) =
    (axisBytes.find? (·.1 == UInt8.ofNat n)).map Prod.snd := by decide +kernel

theorem ofByte?_of_mem_axisBytes (h : (letter, axis) ∈ axisBytes) :
    Axis.ofByte? letter = some axis := by
  fin_cases h <;> rfl

theorem ofByte?_of_not_mem_axisBytes (h : letter ∉ axisBytes.map Prod.fst) :
    Axis.ofByte? letter = none := by
  rw [← UInt8.ofNat_toNat (x := letter), ofByte?_eq _ letter.toNat_lt, UInt8.ofNat_toNat,
    List.find?_eq_none.2, Option.map_none]
  rintro ⟨b, a⟩ hm hb
  obtain rfl : b = letter := by simpa using hb
  exact h (List.mem_map_of_mem hm)

/-- A tag that a fixed number of bytes follows is that of an opcode that reads as many. -/
theorem exists_spans (h : (tag, size) ∈ payloadSizes) :
    ∃ code value, tag = Opcode.byte code ∧ Spans (read code) size value := by
  fin_cases h
  · exact ⟨.push, _, rfl, spans_read_push⟩
  · exact ⟨.pop, _, rfl, spans_read_pop⟩
  · exact ⟨.move, _, rfl, spans_read_move⟩
  · exact ⟨.rotate, _, rfl, spans_read_rotate⟩
  · exact ⟨.scale, _, rfl, spans_read_scale⟩
  · exact ⟨.box, _, rfl, spans_read_box⟩
  · exact ⟨.sphere, _, rfl, spans_read_sphere⟩
  · exact ⟨.torus, _, rfl, spans_read_torus⟩
  · exact ⟨.line, _, rfl, spans_read_line⟩
  · exact ⟨.display, _, rfl, spans_read_display⟩

/-- Bytes that spell an operation are an opcode and a payload that is read to an instruction of the
same length, which stands for the operation wherever it is. -/
theorem Spells.exists_reads (h : Spells bytes op) :
    ∃ code payload i, bytes = Opcode.byte code :: payload ∧ Reads (read code) payload i ∧
      i.bytes.length = bytes.length ∧ ∀ offset, i.toOperation offset = .ok op := by
  have hlen {k n : Nat} {xs : List Float} {payload : List UInt8} (hp : payload.length = n)
      (hx : xs.length = k) (hk : 8 * k = n) : (numbersBytes xs).length = payload.length := by
    rw [length_numbersBytes, hx, hk, hp]
  cases h with
  | push => exact ⟨.push, _, _, rfl, spans_read_push.reads _ rfl, rfl, fun _ => rfl⟩
  | pop => exact ⟨.pop, _, _, rfl, spans_read_pop.reads _ rfl, rfl, fun _ => rfl⟩
  | display => exact ⟨.display, _, _, rfl, spans_read_display.reads _ rfl, rfl, fun _ => rfl⟩
  | move hp =>
    exact ⟨.move, _, _, rfl, spans_read_move.reads _ hp,
      congrArg (· + 1) (hlen hp (k := 3) rfl rfl), fun _ => rfl⟩
  | scale hp =>
    exact ⟨.scale, _, _, rfl, spans_read_scale.reads _ hp,
      congrArg (· + 1) (hlen hp (k := 3) rfl rfl), fun _ => rfl⟩
  | @rotate letter axis degrees hp ha =>
    refine ⟨.rotate, letter :: degrees, .rotate letter (numberAt 0 degrees), rfl, ?_, ?_,
      fun _ => ?_⟩
    · have hr := spans_read_rotate.reads (letter :: degrees) (congrArg (· + 1) hp)
      rwa [show (1 : Nat) = 1 + 0 from rfl, ← numberAt_drop] at hr
    · exact congrArg (· + 2) hp.symm
    · rw [toOperation, ofByte?_of_mem_axisBytes ha]
  | box hp =>
    exact ⟨.box, _, _, rfl, spans_read_box.reads _ hp,
      congrArg (· + 1) (hlen hp (k := 15) rfl rfl), fun _ => rfl⟩
  | sphere hp =>
    exact ⟨.sphere, _, _, rfl, spans_read_sphere.reads _ hp,
      congrArg (· + 1) (hlen hp (k := 13) rfl rfl), fun _ => rfl⟩
  | torus hp =>
    exact ⟨.torus, _, _, rfl, spans_read_torus.reads _ hp,
      congrArg (· + 1) (hlen hp (k := 14) rfl rfl), fun _ => rfl⟩
  | line hp =>
    exact ⟨.line, _, _, rfl, spans_read_line.reads _ hp,
      congrArg (· + 1) (hlen hp (k := 6) rfl rfl), fun _ => rfl⟩
  | @save text h0 =>
    refine ⟨.save, _, .save (Utf8.encode text), rfl, (reads_terminated h0).map _, rfl, fun _ => ?_⟩
    rw [toOperation, Utf8.decode_encode]

/-! ## Decoding by the grammar -/

/-- At the end of a program nothing is decoded. -/
theorem Ends.decodeWithin (h : Ends bytes) (fuel offset : Nat) :
    Program.decodeWithin fuel offset bytes = .ok [] := by
  cases fuel with
  | zero => rfl
  | succ fuel =>
    rcases h with rfl | ⟨rest, rfl⟩
    · rfl
    · rfl

/-- An instruction is decoded to its operation, and decoding goes on behind it. -/
theorem Spells.decodeWithin (h : Spells bytes op) (fuel offset : Nat) (rest : List UInt8) :
    Program.decodeWithin (fuel + 1) offset (bytes ++ rest) =
      (op :: ·) <$> Program.decodeWithin fuel (offset + bytes.length) rest := by
  obtain ⟨code, payload, i, rfl, hr, hl, ho⟩ := h.exists_reads
  rw [List.cons_append, Program.decodeWithin, if_neg (Opcode.byte_ne_endTag _), Opcode.ofByte?_byte]
  simp only [hr rest, ho, hl]
  cases Program.decodeWithin fuel (offset + (code.byte :: payload).length) rest <;> rfl

/-- An instruction at fault ends the decoding with its fault. -/
theorem Offends.decodeWithin (h : Offends offset bytes e) (fuel : Nat) :
    Program.decodeWithin (fuel + 1) offset bytes = .error e := by
  cases h with
  | @unknownTag tag rest ht =>
    have hn : ∀ n < 256, 11 < UInt8.ofNat n → UInt8.ofNat n ≠ Opcode.endTag ∧
        Opcode.ofByte? (UInt8.ofNat n) = none := by decide +kernel
    obtain ⟨h0, hc⟩ := hn tag.toNat tag.toNat_lt (by rwa [UInt8.ofNat_toNat])
    rw [UInt8.ofNat_toNat] at h0 hc
    rw [Program.decodeWithin, if_neg h0, hc]
  | truncated hm hl =>
    obtain ⟨code, value, rfl, hs⟩ := exists_spans hm
    rw [Program.decodeWithin, if_neg (Opcode.byte_ne_endTag _), Opcode.ofByte?_byte]
    simp only [hs.short _ hl]
  | @unterminated rest h0 =>
    have hr : read .save rest = none := by
      change (terminated rest).bind _ = none
      rw [terminated_eq_none h0]
      rfl
    change Program.decodeWithin (fuel + 1) offset (Opcode.byte .save :: rest) = _
    rw [Program.decodeWithin, if_neg (Opcode.byte_ne_endTag _), Opcode.ofByte?_byte]
    simp only [hr]
    rfl
  | @invalidAxis letter degrees rest ha hd =>
    have hr := spans_read_rotate.reads (letter :: degrees) (congrArg (· + 1) hd) rest
    change Program.decodeWithin (fuel + 1) offset
      (Opcode.byte .rotate :: ((letter :: degrees) ++ rest)) = _
    rw [Program.decodeWithin, if_neg (Opcode.byte_ne_endTag _), Opcode.ofByte?_byte]
    simp only [hr, toOperation, List.headD_cons, ofByte?_of_not_mem_axisBytes ha]
    rfl
  | @undecodablePath path fault rest h0 _ hf =>
    have hr : Reads (read .save) (path ++ [0]) (.save path) := (reads_terminated h0).map _
    have hr' := hr rest
    rw [List.append_assoc] at hr'
    change Program.decodeWithin (fuel + 1) offset (Opcode.byte .save :: (path ++ 0 :: rest)) = _
    rw [Program.decodeWithin, if_neg (Opcode.byte_ne_endTag _), Opcode.ofByte?_byte]
    simp only [show read .save (path ++ 0 :: rest) = _ from hr', toOperation, hf]
    rfl

/-! ## Every string of bytes -/

/-- A byte is the end, a tag with a fixed payload, the tag of a path, or no tag. -/
theorem tag_cases (tag : UInt8) :
    tag = 0 ∨ (∃ size, (tag, size) ∈ payloadSizes) ∨ tag = 10 ∨ 11 < tag := by
  have h : ∀ n < 256, UInt8.ofNat n = 0 ∨
      ((payloadSizes.find? (·.1 == UInt8.ofNat n)).isSome ∨ UInt8.ofNat n = 10 ∨
        11 < UInt8.ofNat n) := by decide +kernel
  have ht := h tag.toNat tag.toNat_lt
  rw [UInt8.ofNat_toNat] at ht
  refine ht.imp_right (Or.imp_left fun hs => ?_)
  obtain ⟨⟨b, size⟩, hf⟩ := Option.isSome_iff_exists.1 hs
  obtain rfl : b = tag := by simpa using List.find?_some hf
  exact ⟨size, List.mem_of_find?_eq_some hf⟩

/-- The payload of a tag is cut off, or makes an instruction, or it names no axis. -/
theorem exists_front_of_mem (h : (tag, size) ∈ payloadSizes) (rest : List UInt8) (offset : Nat) :
    (∃ part rest' op, tag :: rest = part ++ rest' ∧ Spells part op) ∨
      ∃ e, Offends offset (tag :: rest) e := by
  by_cases hl : rest.length < size
  · exact .inr ⟨_, .truncated h hl⟩
  have ht : (rest.take size).length = size := by
    rw [List.length_take]
    omega
  have hrest : tag :: rest = (tag :: rest.take size) ++ rest.drop size := by
    rw [List.cons_append, List.take_append_drop]
  generalize rest.take size = payload at ht hrest
  generalize rest.drop size = rest' at hrest
  rw [hrest]
  have spelled {op : Operation} (hs : Spells (tag :: payload) op) :
      (∃ part rest'' op, tag :: payload ++ rest' = part ++ rest'' ∧ Spells part op) ∨
        ∃ e, Offends offset (tag :: payload ++ rest') e := .inl ⟨_, rest', op, rfl, hs⟩
  fin_cases h
  · obtain rfl := List.eq_nil_of_length_eq_zero ht
    exact spelled .push
  · obtain rfl := List.eq_nil_of_length_eq_zero ht
    exact spelled .pop
  · exact spelled (.move ht)
  · obtain ⟨letter, degrees, rfl⟩ := List.exists_cons_of_length_eq_add_one ht
    have hd : degrees.length = 8 := Nat.succ.inj ht
    by_cases ha : letter ∈ axisBytes.map Prod.fst
    · obtain ⟨⟨_, axis⟩, hm, rfl⟩ := List.mem_map.1 ha
      exact spelled (.rotate hd hm)
    · exact .inr ⟨_, .invalidAxis ha hd⟩
  · exact spelled (.scale ht)
  · exact spelled (.box ht)
  · exact spelled (.sphere ht)
  · exact spelled (.torus ht)
  · exact spelled (.line ht)
  · obtain rfl := List.eq_nil_of_length_eq_zero ht
    exact spelled .display

/-- Bytes are at an end, or an instruction is at their front, or one at fault. -/
theorem exists_front (bytes : List UInt8) (offset : Nat) :
    Ends bytes ∨ (∃ part rest op, bytes = part ++ rest ∧ Spells part op) ∨
      ∃ e, Offends offset bytes e := by
  cases bytes with
  | nil => exact .inl (.inl rfl)
  | cons tag rest =>
    rcases tag_cases tag with rfl | ⟨size, hm⟩ | rfl | ht
    · exact .inl (.inr ⟨rest, rfl⟩)
    · exact .inr (exists_front_of_mem hm rest offset)
    · refine .inr ?_
      by_cases h0 : 0 ∈ rest
      · obtain ⟨path, rest, rfl, hp⟩ := List.eq_append_cons_of_mem h0
        cases hd : Utf8.decode path with
        | ok text =>
          obtain rfl := Utf8.decode_eq_ok_iff.1 hd
          exact .inl ⟨_, rest, _, by simp, .save hp⟩
        | error fault =>
          exact .inr ⟨_, .undecodablePath hp (Utf8.exists_decode_eq_error_iff.1 ⟨fault, hd⟩) hd⟩
      · exact .inr ⟨_, .unterminated h0⟩
    · exact .inr (.inr ⟨_, .unknownTag ht⟩)

/-- An instruction has a tag at least. -/
theorem Spells.length_pos (h : Spells bytes op) : 0 < bytes.length := by
  cases h <;> exact Nat.succ_pos _

/-- Instructions are no more than their bytes. -/
theorem length_le_of_forall₂ {parts : List (List UInt8)} (h : List.Forall₂ Spells parts ops) :
    parts.length ≤ parts.flatten.length := by
  induction h with
  | nil => exact Nat.le_refl _
  | cons hs _ ih =>
    have hp := hs.length_pos
    rw [List.length_cons, List.flatten_cons, List.length_append]
    omega

/-- Instructions in a row are decoded to their operations, and decoding goes on behind them. -/
theorem decodeWithin_flatten {parts : List (List UInt8)} (h : List.Forall₂ Spells parts ops)
    (fuel offset : Nat) (rest : List UInt8) :
    decodeWithin (fuel + parts.length) offset (parts.flatten ++ rest) =
      (ops ++ ·) <$> decodeWithin fuel (offset + parts.flatten.length) rest := by
  induction h generalizing offset with
  | nil =>
    rw [List.flatten_nil, List.length_nil, List.length_nil, Nat.add_zero, Nat.add_zero]
    exact (id_map _).symm
  | @cons part op parts ops hs _ ih =>
    rw [List.flatten_cons, List.append_assoc, List.length_cons, ← Nat.add_assoc, hs.decodeWithin,
      ih, List.length_append, ← Nat.add_assoc]
    cases decodeWithin fuel (offset + part.length + parts.flatten.length) rest <;> rfl

/-- Bytes are instructions in a row up to an end or to one at fault. -/
theorem exists_parts (bytes : List UInt8) (offset : Nat) :
    ∃ parts ops rest, bytes = parts.flatten ++ rest ∧ List.Forall₂ Spells parts ops ∧
      (Ends rest ∨ ∃ e, Offends (offset + parts.flatten.length) rest e) := by
  rcases exists_front bytes offset with he | ⟨part, rest, op, hb, hs⟩ | he
  · exact ⟨[], [], bytes, rfl, .nil, .inl he⟩
  · have hp := hs.length_pos
    have hlt : rest.length < bytes.length := by
      rw [hb, List.length_append]
      omega
    obtain ⟨parts, ops, rest', rfl, hf, he⟩ := exists_parts rest (offset + part.length)
    refine ⟨part :: parts, op :: ops, rest', ?_, .cons hs hf, ?_⟩
    · rw [hb, List.flatten_cons, List.append_assoc]
    · rwa [List.flatten_cons, List.length_append, ← Nat.add_assoc]
  · exact ⟨[], [], bytes, rfl, .nil, .inr he⟩
termination_by bytes.length

/-- Instructions in a row up to an end decode to their operations. -/
theorem decode_of_ends {parts : List (List UInt8)} (h : List.Forall₂ Spells parts ops)
    (he : Ends rest) : decode (parts.flatten ++ rest) = .ok ops := by
  have hl := length_le_of_forall₂ h
  have hfuel : (parts.flatten ++ rest).length =
      ((parts.flatten ++ rest).length - parts.length) + parts.length := by
    rw [List.length_append]
    omega
  rw [decode, hfuel, decodeWithin_flatten h, he.decodeWithin]
  exact congrArg Except.ok (List.append_nil ops)

/-- Instructions in a row up to one at fault decode to its fault. -/
theorem decode_of_offends {parts : List (List UInt8)} (h : List.Forall₂ Spells parts ops)
    (he : Offends parts.flatten.length rest e) : decode (parts.flatten ++ rest) = .error e := by
  have hl := length_le_of_forall₂ h
  have hr : 0 < rest.length := by
    cases he <;> exact Nat.succ_pos _
  have hfuel : (parts.flatten ++ rest).length =
      ((parts.flatten ++ rest).length - parts.length - 1 + 1) + parts.length := by
    rw [List.length_append]
    omega
  rw [← Nat.zero_add parts.flatten.length] at he
  rw [decode, hfuel, decodeWithin_flatten h, he.decodeWithin]
  rfl

/-- Decoding gives operations exactly of bytes that are their instructions in a row, up to the end
of the bytes or to a zero byte in the place of a tag. It gives an error exactly when instructions in
a row are followed by one that has this fault first, at the offset that is the number of bytes
before it. -/
theorem decode_eq_ok_iff_and_error_iff (bytes : List UInt8) :
    (∀ ops, decode bytes = .ok ops ↔ ∃ parts rest,
      bytes = parts.flatten ++ rest ∧ List.Forall₂ Spells parts ops ∧ Ends rest) ∧
    ∀ e, decode bytes = .error e ↔ ∃ parts ops rest,
      bytes = parts.flatten ++ rest ∧ List.Forall₂ Spells parts ops ∧
        Offends parts.flatten.length rest e := by
  obtain ⟨parts, ops, rest, hb, hs, he⟩ := exists_parts bytes 0
  rw [Nat.zero_add] at he
  refine ⟨fun ops' => ⟨fun h => ?_, ?_⟩, fun e' => ⟨fun h => ?_, ?_⟩⟩
  · rcases he with he | ⟨e, he⟩
    · rw [hb, decode_of_ends hs he] at h
      cases h
      exact ⟨parts, rest, hb, hs, he⟩
    · rw [hb, decode_of_offends hs he] at h
      cases h
  · rintro ⟨parts, rest, rfl, hs, he⟩
    exact decode_of_ends hs he
  · rcases he with he | ⟨e, he⟩
    · rw [hb, decode_of_ends hs he] at h
      cases h
    · rw [hb, decode_of_offends hs he] at h
      cases h
      exact ⟨parts, ops, rest, hb, hs, he⟩
  · rintro ⟨parts, ops, rest, rfl, hs, he⟩
    exact decode_of_offends hs he

end Program

end SceneScript
