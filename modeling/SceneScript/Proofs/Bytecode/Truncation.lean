import SceneScript.Proofs.Bytecode.Wire
import SceneScript.Proofs.Bytecode.Writing

/-!
# Programs that are cut off

What is compiled is spelled as the grammar says, instruction by instruction (`forall₂_encoded`). A
program that is cut off between two instructions has lost the rest of them and is sound otherwise
(`decode_take_offset`). Anywhere else the cut falls into an instruction (`offset_or_inside`), of
which the opcode is left and too little behind it: a layout of fixed size misses bytes, and a path
misses its end (`Spells.offends_take`). So decoding fails there, and it names that instruction
(`decode_take_inside`).
-/

namespace SceneScript

namespace Instruction

/-- The value of a layout is told by its places when they hold the bytes of that value. -/
theorem Payload.Spans.value_eq {α : Type} {r : Payload α} {value : List UInt8 → α} {a : α}
    {bytes : List UInt8} {n : Nat} (hs : Payload.Spans r n value) (hr : Payload.Reads r bytes a)
    (hn : bytes.length = n) : value bytes = a := by
  have h := (hs.reads bytes hn []).symm.trans (hr [])
  exact (Prod.mk.inj (Option.some.inj h)).1

/-! ## Places in a row -/

/-- The number of bytes in front of instruction `k` of a row, or of the whole row. -/
def offset (is : List Instruction) (k : Nat) : Nat := ((is.take k).flatMap bytes).length

@[simp] theorem offset_zero (is : List Instruction) : offset is 0 = 0 := rfl

@[simp] theorem offset_cons_succ (i : Instruction) (is : List Instruction) (k : Nat) :
    offset (i :: is) (k + 1) = i.bytes.length + offset is k := by
  rw [offset, List.take_succ_cons, List.flatMap_cons, List.length_append]
  rfl

/-- The bytes up to an offset are those of the instructions in front of it. -/
theorem take_offset (is : List Instruction) (k : Nat) :
    (is.flatMap bytes).take (offset is k) = (is.take k).flatMap bytes := by
  have hsplit : is.flatMap bytes = (is.take k).flatMap bytes ++ (is.drop k).flatMap bytes := by
    rw [← List.flatMap_append, List.take_append_drop]
  rw [hsplit]
  exact List.take_left

/-- Behind an instruction the offset is larger by its length. -/
theorem offset_succ {i : Instruction} {is : List Instruction} {k : Nat} (hi : is[k]? = some i) :
    offset is (k + 1) = offset is k + i.bytes.length := by
  simp [offset, List.take_add_one, hi]

/-- A place in a row of instructions is in front of one, behind all of them or inside of one. -/
theorem offset_or_inside (is : List Instruction) {n : Nat} (hn : n ≤ (is.flatMap bytes).length) :
    (∃ k ≤ is.length, n = offset is k) ∨
      ∃ k i, is[k]? = some i ∧ offset is k < n ∧ n < offset is (k + 1) := by
  induction is generalizing n with
  | nil => exact .inl ⟨0, Nat.le_refl 0, Nat.le_zero.1 hn⟩
  | cons i is ih =>
    rw [List.flatMap_cons, List.length_append] at hn
    rcases Nat.eq_zero_or_pos n with rfl | h0
    · exact .inl ⟨0, Nat.zero_le _, rfl⟩
    by_cases hlt : n < i.bytes.length
    · exact .inr ⟨0, i, rfl, h0, by rwa [offset_cons_succ, offset_zero]⟩
    obtain ⟨m, rfl⟩ := Nat.exists_eq_add_of_le (Nat.not_lt.1 hlt)
    rcases ih (n := m) (by omega) with ⟨k, hk, rfl⟩ | ⟨k, j, hj, hlow, hhigh⟩
    · exact .inl ⟨k + 1, Nat.succ_le_succ hk, (offset_cons_succ i is k).symm⟩
    · refine .inr ⟨k + 1, j, hj, ?_, ?_⟩ <;> rw [offset_cons_succ] <;> omega

end Instruction

namespace Program

open Instruction hiding payload
open Instruction.Payload
open Operation (carried encoded)

variable {ops all : List Operation} {op : Operation} {i : Instruction} {is : List Instruction}
  {bytes : List UInt8} {offset n k : Nat} {p : Program}

/-! ## What is compiled is spelled right -/

theorem mem_axisBytes (axis : Axis) : (axis.byte, axis) ∈ axisBytes := by
  cases axis <;> decide

/-- The bytes of an instruction spell the operation that it was made of. -/
theorem spells_bytes (h : ofOperation? op = some i) (hw : op.IsWritable) :
    Spells i.bytes op.withStandardProfile := by
  have hr := reads_payload (isReadable_of_isWritable h hw)
  cases op with
  | circle | hermite | bezier | clear | constants => cases h
  | push => cases h; exact .push
  | pop => cases h; exact .pop
  | display => cases h; exact .display
  | save path =>
    cases h
    have hs := Spells.save (hw path rfl)
    rwa [String.ofList_toList] at hs
  | rotate axis degrees =>
    cases h
    have hd := spans_number.value_eq (reads_number degrees) rfl
    have hs : Spells (4 :: axis.byte :: numberBytes degrees) _ := .rotate rfl (mem_axisBytes axis)
    rwa [hd] at hs
  | move v =>
    cases h
    have hs : Spells (3 :: (Instruction.move v).payload) _ := .move rfl
    rwa [Instruction.move.inj (spans_read_move.value_eq hr rfl)] at hs
  | scale v =>
    cases h
    have hs : Spells (5 :: (Instruction.scale v).payload) _ := .scale rfl
    rwa [Instruction.scale.inj (spans_read_scale.value_eq hr rfl)] at hs
  | box corner size profile =>
    cases h
    obtain ⟨hc, hz, hk⟩ := Instruction.box.inj (spans_read_box.value_eq hr rfl)
    have hs : Spells (6 :: (Instruction.box corner size (profile.getD .standard)).payload) _ :=
      .box rfl
    rwa [hc, hz, hk] at hs
  | sphere center radius profile =>
    cases h
    obtain ⟨hc, hz, hk⟩ := Instruction.sphere.inj (spans_read_sphere.value_eq hr rfl)
    have hs : Spells (7 :: (Instruction.sphere center radius (profile.getD .standard)).payload) _ :=
      .sphere rfl
    rwa [hc, hz, hk] at hs
  | torus center minor major profile =>
    cases h
    obtain ⟨hc, hm, hz, hk⟩ := Instruction.torus.inj (spans_read_torus.value_eq hr rfl)
    have hs : Spells
        (8 :: (Instruction.torus center minor major (profile.getD .standard)).payload) _ :=
      .torus rfl
    rwa [hc, hm, hz, hk] at hs
  | line p0 p1 =>
    cases h
    obtain ⟨hp, hq⟩ := Instruction.line.inj (spans_read_line.value_eq hr rfl)
    have hs : Spells (9 :: (Instruction.line p0 p1).payload) _ := .line rfl
    rwa [hp, hq] at hs

/-- The instructions of operations spell what a program of them carries. -/
theorem forall₂_encoded (hw : ∀ op ∈ ops, op.IsWritable) :
    List.Forall₂ (fun i op => Spells i.bytes op) (encoded ops) (carried ops) := by
  induction ops with
  | nil => exact .nil
  | cons op ops ih =>
    obtain ⟨hop, hops⟩ := List.forall_mem_cons.1 hw
    rcases ofOperation?_cases op with ⟨i, hi, ho, hd⟩ | h
    · rw [Operation.encoded_cons hi, Operation.carried_cons ho hd]
      exact .cons (spells_bytes hi hop) (ih hops)
    · rw [Operation.encoded_cons_omitted h, Operation.carried_cons_omitted h]
      exact ih hops

/-! ## Cuts -/

/-- An instruction that is cut off behind its opcode is at fault, and nothing else of it matters. -/
theorem Spells.offends_take (h : Spells bytes op) (h0 : 0 < n) (hn : n < bytes.length) :
    Offends offset (bytes.take n) (.truncated offset (bytes.headD 0)) := by
  obtain ⟨n, rfl⟩ := Nat.exists_eq_add_of_lt h0
  rw [Nat.zero_add] at hn ⊢
  have fixed {tag : UInt8} {size : Nat} {payload : List UInt8} (hm : (tag, size) ∈ payloadSizes)
      (hp : payload.length = size) (hn : n + 1 < (tag :: payload).length) :
      Offends offset ((tag :: payload).take (n + 1)) (.truncated offset tag) := by
    rw [List.length_cons, hp] at hn
    rw [List.take_succ_cons]
    refine .truncated hm ?_
    rw [List.length_take]
    omega
  cases h with
  | push | pop | display => exact fixed (by decide) rfl hn
  | move hp | scale hp | box hp | sphere hp | torus hp | line hp => exact fixed (by decide) hp hn
  | rotate hp _ => exact fixed (by decide) (congrArg (· + 1) hp) hn
  | @save text h0 =>
    rw [List.take_succ_cons]
    refine .unterminated fun h => h0 ?_
    rw [List.length_cons, List.length_append, List.length_singleton] at hn
    rw [List.take_append_of_le_length (by omega)] at h
    exact List.mem_of_mem_take h

/-- Cut off between two instructions, a program is that of the operations before. -/
theorem decode_take_offset (h : List.Forall₂ (fun i op => Spells i.bytes op) is all) (k : Nat) :
    decode ((is.flatMap Instruction.bytes).take (Instruction.offset is k)) = .ok (all.take k) := by
  have hk := List.forall₂_map_left_iff.2 (List.forall₂_take k h)
  rw [take_offset, List.flatMap_def, ← List.append_nil (List.flatten _)]
  exact decode_of_ends hk (.inl rfl)

/-- Cut off inside of an instruction, a program fails there, and the error names its opcode and
where it stands. -/
theorem decode_take_inside (h : List.Forall₂ (fun i op => Spells i.bytes op) is all)
    (hi : is[k]? = some i) (hlow : Instruction.offset is k < n)
    (hhigh : n < Instruction.offset is (k + 1)) :
    decode ((is.flatMap Instruction.bytes).take n) =
      .error (.truncated (Instruction.offset is k) i.opcode.byte) := by
  rw [offset_succ hi] at hhigh
  obtain ⟨m, rfl⟩ := Nat.exists_eq_add_of_lt hlow
  have hdrop : is.drop k = i :: is.drop (k + 1) := by
    obtain ⟨hlt, rfl⟩ := List.getElem?_eq_some_iff.1 hi
    exact List.drop_eq_getElem_cons hlt
  have hbytes : is.flatMap Instruction.bytes = (is.take k).flatMap Instruction.bytes ++
      (i.bytes ++ (is.drop (k + 1)).flatMap Instruction.bytes) := by
    rw [← List.flatMap_cons, ← hdrop, ← List.flatMap_append, List.take_append_drop]
  have htake : (is.flatMap Instruction.bytes).take (Instruction.offset is k + m + 1) =
      (is.take k).flatMap Instruction.bytes ++ i.bytes.take (m + 1) := by
    rw [hbytes, Nat.add_assoc, Instruction.offset, List.take_length_add_append,
      List.take_append_of_le_length (by omega)]
  have hspells : ∃ op, Spells i.bytes op := by
    have hfront := hdrop ▸ List.forall₂_drop k h
    obtain ⟨op, _, hs, -⟩ := List.forall₂_cons_left_iff.1 hfront
    exact ⟨op, hs⟩
  obtain ⟨op, hs⟩ := hspells
  rw [htake, List.flatMap_def]
  exact decode_of_offends (List.forall₂_map_left_iff.2 (List.forall₂_take k h))
    (hs.offends_take (Nat.succ_pos m) (by omega))

/-- Cut off anywhere, a program is never read as something else. Behind instruction `k` of it the
front is the program of the first `k` operations. Everywhere else the cut falls into one of its
instructions, and decoding fails with the offset and the opcode of that one. -/
theorem decode_take_of_compile (hp : compile ops = .ok p) :
    p.bytes = (encoded ops).flatMap Instruction.bytes ∧
    ∃ all, decode p.bytes = .ok all ∧ all.length = (encoded ops).length ∧
      ∀ n ≤ p.bytes.length,
        (∀ k ≤ (encoded ops).length, n = Instruction.offset (encoded ops) k →
          decode (p.bytes.take n) = .ok (all.take k)) ∧
        ((∀ k ≤ (encoded ops).length, n ≠ Instruction.offset (encoded ops) k) →
          ∃ k i, (encoded ops)[k]? = some i ∧ Instruction.offset (encoded ops) k < n ∧
            n < Instruction.offset (encoded ops) (k + 1) ∧
            decode (p.bytes.take n) =
              .error (.truncated (Instruction.offset (encoded ops) k) i.opcode.byte)) := by
  obtain ⟨q, hq, -⟩ := compile_eq_ok_iff.1 hp
  have hs := forall₂_encoded (forall_isWritable_of_compileFrom hq)
  rw [bytes_of_compile hp]
  refine ⟨rfl, carried ops, ?_, hs.length_eq.symm, fun n hn => ⟨?_, fun hne => ?_⟩⟩
  · rw [List.flatMap_def, ← List.append_nil (List.flatten _)]
    exact decode_of_ends (List.forall₂_map_left_iff.2 hs) (.inl rfl)
  · rintro k - rfl
    exact decode_take_offset hs k
  · rcases offset_or_inside (encoded ops) hn with ⟨k, hk, heq⟩ | ⟨k, i, hi, hlow, hhigh⟩
    · exact absurd heq (hne k hk)
    · exact ⟨k, i, hi, hlow, hhigh, decode_take_inside hs hi hlow hhigh⟩

/-- A program cut off behind its second instruction, and in the middle of a character of the path in
the third one. -/
theorem decode_take_of_compile_path :
    let ops : List Operation := [.push, .clear, .rotate .y 30.0, .save "é.png", .pop]
    ∃ p all, compile ops = .ok p ∧ decode p.bytes = .ok all ∧
      decode (p.bytes.take 11) = .ok (all.take 2) ∧
      decode (p.bytes.take 13) = .error (.truncated 11 10) := by
  intro ops
  obtain ⟨-, all, hall, -, h⟩ := decode_take_of_compile (rfl : compile ops = .ok _)
  obtain ⟨k, i, hi, hlow, hhigh, hcut⟩ := (h 13 (by decide)).2 (by decide)
  have hk : k = 2 := by
    have hlt : k < 4 := (List.getElem?_eq_some_iff.1 hi).1
    match k with
    | 0 | 1 => exact absurd hhigh (by decide)
    | 2 => rfl
    | 3 => exact absurd hlow (by decide)
  subst hk
  cases hi
  exact ⟨_, all, rfl, hall, (h 11 (by decide)).1 2 (by decide) rfl, hcut⟩

end Program

end SceneScript
