import SceneScript.Bytecode.Instruction
import SceneScript.Proofs.Binary64.Bits

/-!
# The layout of instructions

What is written behind an opcode is read back as it was, and nothing behind it is touched
(`reads_payload`). A reader that takes given bytes off the front, whatever follows them, `Reads`
them; readers in a row read their bytes in a row (`Reads.bind`), so each layout is read because its
parts are: numbers by their eight bytes (`reads_number`), a path by its end at the first zero byte
(`reads_terminated`).
-/

namespace SceneScript

namespace Instruction

namespace Payload

variable {α β : Type}

/-- The reader takes exactly these bytes off the front and makes the value of them, whatever bytes
follow. -/
def Reads (p : Payload α) (bytes : List UInt8) (a : α) : Prop :=
  ∀ rest, p (bytes ++ rest) = some (a, rest)

/-! ## Readers in a row -/

/-- A value that is there already takes no bytes. -/
theorem Reads.pure (a : α) : Reads (Pure.pure a) [] a := fun _ => rfl

/-- Behind what one reader takes the next one goes on. -/
theorem Reads.bind {p : Payload α} {f : α → Payload β} {bs cs : List UInt8} {a : α} {b : β}
    (hp : Reads p bs a) (hf : Reads (f a) cs b) : Reads (p >>= f) (bs ++ cs) b := by
  intro rest
  change (p (bs ++ cs ++ rest)).bind (fun (a, rest) => f a rest) = _
  rw [List.append_assoc, hp]
  exact hf rest

/-- A reader whose last value is built into another takes the same bytes. -/
theorem Reads.map {p : Payload α} {bs : List UInt8} {a : α} (hp : Reads p bs a) (f : α → β) :
    Reads (p >>= fun a => Pure.pure (f a)) bs (f a) := by
  rw [← List.append_nil bs]
  exact hp.bind (.pure _)

/-! ## Numbers -/

/-- A byte of a word, put back where it was, has the bits of the word there and no others. -/
theorem getLsbD_byte (w : BitVec 64) (k i : Nat) :
    (((w >>> k).setWidth 8).setWidth 64 <<< k).getLsbD i =
      (decide (k ≤ i ∧ i < k + 8) && w.getLsbD i) := by
  rw [BitVec.getLsbD_shiftLeft, BitVec.getLsbD_setWidth, BitVec.getLsbD_setWidth,
    BitVec.getLsbD_ushiftRight]
  by_cases hk : k ≤ i
  · rw [show k + (i - k) = i by omega]
    by_cases hi : i < 64
    · have h64 : i - k < 64 := by omega
      have h8 : i - k < 8 ↔ i < k + 8 := by omega
      simp [hk, hi, h64, h8]
    · rw [BitVec.getLsbD_of_ge w i (by omega)]
      simp
  · simp [hk, show i < k by omega]

/-- A word is its eight bytes, the least significant first. -/
theorem join_bytes (w : UInt64) :
    w.toUInt8.toUInt64 ||| (w >>> 8).toUInt8.toUInt64 <<< 8 |||
      (w >>> 16).toUInt8.toUInt64 <<< 16 ||| (w >>> 24).toUInt8.toUInt64 <<< 24 |||
      (w >>> 32).toUInt8.toUInt64 <<< 32 ||| (w >>> 40).toUInt8.toUInt64 <<< 40 |||
      (w >>> 48).toUInt8.toUInt64 <<< 48 ||| (w >>> 56).toUInt8.toUInt64 <<< 56 = w := by
  obtain ⟨b⟩ := w
  apply UInt64.toBitVec_inj.1
  apply BitVec.eq_of_getLsbD_eq
  intro i hi
  have h := getLsbD_byte b
  have h0 := h 0 i
  rw [BitVec.shiftLeft_zero, BitVec.ushiftRight_zero] at h0
  change ((b.setWidth 8).setWidth 64 ||| ((b >>> 8).setWidth 8).setWidth 64 <<< 8 |||
    ((b >>> 16).setWidth 8).setWidth 64 <<< 16 ||| ((b >>> 24).setWidth 8).setWidth 64 <<< 24 |||
    ((b >>> 32).setWidth 8).setWidth 64 <<< 32 ||| ((b >>> 40).setWidth 8).setWidth 64 <<< 40 |||
    ((b >>> 48).setWidth 8).setWidth 64 <<< 48 ||| ((b >>> 56).setWidth 8).setWidth 64 <<< 56
    ).getLsbD i = b.getLsbD i
  simp only [BitVec.getLsbD_or, h, h0]
  cases b.getLsbD i with
  | false => simp
  | true =>
    -- every place below 64 is in one of the eight bytes
    simp only [Bool.and_true, Bool.or_eq_true, decide_eq_true_eq]
    omega

/-- A double is read from its eight bytes. -/
theorem reads_number (x : Float) : Reads number (numberBytes x) x := by
  intro rest
  simp only [numberBytes, List.cons_append, List.nil_append, number, join_bytes,
    Float.ofBits_toBits]

theorem numbersBytes_append (xs ys : List Float) :
    numbersBytes (xs ++ ys) = numbersBytes xs ++ numbersBytes ys := List.flatMap_append

theorem numbersBytes_cons (x : Float) (xs : List Float) :
    numbersBytes (x :: xs) = numberBytes x ++ numbersBytes xs := List.flatMap_cons

theorem numbersBytes_singleton (x : Float) : numbersBytes [x] = numberBytes x := by
  rw [numbersBytes_cons]
  exact List.append_nil _

/-- A vector is read from its three numbers. -/
theorem reads_vector (v : Vec3 Float) : Reads vector (numbersBytes v.toList) v := by
  rw [Vec3.toList, numbersBytes_cons, numbersBytes_cons, numbersBytes_singleton]
  exact (reads_number v.x).bind ((reads_number v.y).bind ((reads_number v.z).map _))

/-- A profile is read from its nine numbers. -/
theorem reads_profile (k : Reflectance) : Reads profile (numbersBytes k.toList) k := by
  rw [Reflectance.toList, List.append_assoc, numbersBytes_append, numbersBytes_append]
  exact (reads_vector k.ambient).bind ((reads_vector k.diffuse).bind
    ((reads_vector k.specular).map _))

/-! ## Single bytes and paths -/

/-- A byte is read as it is. -/
theorem reads_byte (b : UInt8) : Reads byte [b] b := fun _ => rfl

/-- A path without a zero byte is read up to the zero byte behind it. -/
theorem reads_terminated {path : List UInt8} (h : 0 ∉ path) :
    Reads terminated (path ++ [0]) path := by
  intro rest
  induction path with
  | nil => rfl
  | cons b path ih =>
    rw [List.mem_cons, not_or] at h
    rw [List.append_assoc] at ih
    rw [List.cons_append, List.cons_append, List.append_assoc, terminated, if_neg (Ne.symm h.1),
      ih h.2]
    rfl

end Payload

open Payload

/-! ## Instructions -/

/-- The instruction can be read back: a path would end at a zero byte in it. -/
def IsReadable (i : Instruction) : Prop := ∀ path, i = save path → 0 ∉ path

/-- Behind its opcode an instruction is read back. -/
theorem reads_payload {i : Instruction} (h : i.IsReadable) : Reads (read i.opcode) i.payload i := by
  cases i with
  | push | pop | display => exact .pure _
  | move v | scale v => exact (reads_vector v).map _
  | rotate axis degrees => exact (reads_byte axis).bind ((reads_number degrees).map _)
  | box corner size k =>
    rw [payload, List.append_assoc, numbersBytes_append, numbersBytes_append]
    exact (reads_vector corner).bind ((reads_vector size).bind ((reads_profile k).map _))
  | sphere center radius k =>
    rw [payload, numbersBytes_append, numbersBytes_cons]
    exact (reads_vector center).bind ((reads_number radius).bind ((reads_profile k).map _))
  | torus center minor major k =>
    rw [payload, numbersBytes_append, numbersBytes_cons, numbersBytes_cons]
    exact (reads_vector center).bind ((reads_number minor).bind ((reads_number major).bind
      ((reads_profile k).map _)))
  | line p0 p1 =>
    rw [payload, numbersBytes_append]
    exact (reads_vector p0).bind ((reads_vector p1).map _)
  | save path => exact (reads_terminated (h path rfl)).map _

end Instruction

end SceneScript
