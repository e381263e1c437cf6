import SceneScript.Proofs.Bytecode.Layout

/-!
# Values at their places

A payload of fixed size is read by place: each number stands at its own distance from the front,
whatever its bytes are (`numberAt`, `vectorAt`, `profileAt`). A reader `Spans` a number of bytes if
it makes its value of just that many and nothing of fewer, and readers in a row span the sum, the
second one reading behind the first (`Spans.bind`). So the size of a layout is the sum of the sizes
of its parts, and what is cut off is missed whatever else is wrong (`spans_read`).

A path has no fixed size: without a zero byte nothing is read of it (`terminated_eq_none`).
-/

namespace SceneScript

namespace Instruction

namespace Payload

variable {α β : Type}

/-! ## Places -/

/-- The whole number that bytes spell, the least significant first. -/
def littleEndian (bytes : List UInt8) : Nat := bytes.foldr (fun b n => b.toNat + 256 * n) 0

/-- The double whose eight bytes start at place `i`. -/
def numberAt (i : Nat) (bytes : List UInt8) : Float :=
  Float.ofBits (UInt64.ofNat (littleEndian ((bytes.drop i).take 8)))

/-- The vector whose first number starts at place `i`. -/
def vectorAt (i : Nat) (bytes : List UInt8) : Vec3 Float :=
  ⟨numberAt i bytes, numberAt (i + 8) bytes, numberAt (i + 16) bytes⟩

/-- The profile whose first number starts at place `i`. -/
def profileAt (i : Nat) (bytes : List UInt8) : Reflectance :=
  ⟨vectorAt i bytes, vectorAt (i + 24) bytes, vectorAt (i + 48) bytes⟩

variable {i j n m : Nat} {bytes : List UInt8}

/-- Places are counted on when the front is taken away. -/
@[simp] theorem numberAt_drop : numberAt i (bytes.drop j) = numberAt (j + i) bytes := by
  rw [numberAt, numberAt, List.drop_drop]

/-- What is cut off behind a number does not matter to it. -/
theorem numberAt_take (h : i + 8 ≤ n) : numberAt i (bytes.take n) = numberAt i bytes := by
  rw [numberAt, numberAt, List.drop_take, List.take_take, Nat.min_eq_left (by omega)]

@[simp] theorem vectorAt_drop : vectorAt i (bytes.drop j) = vectorAt (j + i) bytes := by
  simp only [vectorAt, numberAt_drop, Nat.add_assoc]

theorem vectorAt_take (h : i + 24 ≤ n) : vectorAt i (bytes.take n) = vectorAt i bytes := by
  simp (disch := omega) only [vectorAt, numberAt_take]

@[simp] theorem profileAt_drop : profileAt i (bytes.drop j) = profileAt (j + i) bytes := by
  simp only [profileAt, vectorAt_drop, Nat.add_assoc]

/-! ## Readers of a fixed size -/

/-- The reader makes its value of `n` bytes, and nothing of fewer. -/
structure Spans (p : Payload α) (n : Nat) (value : List UInt8 → α) : Prop where
  reads : ∀ bytes, bytes.length = n → Reads p bytes (value bytes)
  short : ∀ bytes, bytes.length < n → p bytes = none

/-- A value that is there already spans no bytes. -/
theorem Spans.pure (a : α) : Spans (Pure.pure a) 0 fun _ => a where
  reads bytes h := by
    rw [List.eq_nil_of_length_eq_zero h]
    exact .pure a
  short _ h := absurd h (Nat.not_lt_zero _)

/-- Behind what one reader spans the next one goes on. -/
theorem Spans.bind {p : Payload α} {f : α → Payload β} {v : List UInt8 → α}
    {w : α → List UInt8 → β} (hp : Spans p n v) (hf : ∀ a, Spans (f a) m (w a)) :
    Spans (p >>= f) (n + m) fun bytes => w (v (bytes.take n)) (bytes.drop n) where
  reads bytes h := by
    have hn : (bytes.take n).length = n := by
      rw [List.length_take]
      omega
    have hm : (bytes.drop n).length = m := by
      rw [List.length_drop]
      omega
    have hb := (hp.reads _ hn).bind ((hf _).reads _ hm)
    rwa [List.take_append_drop] at hb
  short bytes h := by
    change (p bytes).bind (fun (a, rest) => f a rest) = none
    by_cases hn : bytes.length < n
    · rw [hp.short bytes hn]
      rfl
    · have ht : (bytes.take n).length = n := by
        rw [List.length_take]
        omega
      have hb := hp.reads _ ht (bytes.drop n)
      rw [List.take_append_drop] at hb
      rw [hb]
      refine (hf _).short _ ?_
      rw [List.length_drop]
      omega

/-- A reader whose last value is built into another spans the same bytes. -/
theorem Spans.map {p : Payload α} {v : List UInt8 → α} (hp : Spans p n v) (f : α → β) :
    Spans (p >>= fun a => Pure.pure (f a)) n fun bytes => f (v bytes) where
  reads bytes h := (hp.reads bytes h).map f
  short bytes h := by
    change (p bytes).bind _ = none
    rw [hp.short bytes h]
    rfl

/-- The value matters on bytes of the right number only. -/
theorem Spans.congr {p : Payload α} {v w : List UInt8 → α} (hp : Spans p n v)
    (h : ∀ bytes, bytes.length = n → v bytes = w bytes) : Spans p n w where
  reads bytes hb := h bytes hb ▸ hp.reads bytes hb
  short := hp.short

/-! ## Numbers -/

/-- Bytes spell a number below the one that has one digit more. -/
theorem littleEndian_lt (bytes : List UInt8) : littleEndian bytes < 256 ^ bytes.length := by
  induction bytes with
  | nil => exact Nat.one_pos
  | cons b bytes ih =>
    have hb := b.toNat_lt
    change b.toNat + 256 * littleEndian bytes < 256 ^ (bytes.length + 1)
    rw [Nat.pow_succ]
    omega

/-- The bytes of a number are its digits. -/
theorem littleEndian_digit (bytes : List UInt8) (k : Nat) :
    littleEndian bytes / 256 ^ k % 256 = (bytes.getD k 0).toNat := by
  induction bytes generalizing k with
  | nil =>
    change 0 / 256 ^ k % 256 = 0
    rw [Nat.zero_div]
  | cons b bytes ih =>
    have hb : b.toNat < 256 := b.toNat_lt
    change (b.toNat + 256 * littleEndian bytes) / 256 ^ k % 256 = _
    cases k with
    | zero =>
      change _ = b.toNat
      rw [Nat.pow_zero]
      omega
    | succ k =>
      rw [Nat.pow_succ', ← Nat.div_div_eq_div_mul, Nat.add_mul_div_left _ _ (by decide),
        Nat.div_eq_of_lt hb, Nat.zero_add, ih]
      rfl

/-- A byte is the eight bits that stand at its place in the number. -/
theorem toUInt8_shiftRight (bytes : List UInt8) (h : bytes.length = 8) (k : Nat) (hk : k < 8) :
    (UInt64.ofNat (littleEndian bytes) >>> UInt64.ofNat (8 * k)).toUInt8 = bytes.getD k 0 := by
  have hlt : littleEndian bytes < UInt64.size := by
    have hlt := littleEndian_lt bytes
    rwa [h] at hlt
  have hw : (UInt64.ofNat (littleEndian bytes)).toNat = littleEndian bytes :=
    UInt64.toNat_ofNat_of_lt' hlt
  have hk' : (UInt64.ofNat (8 * k)).toNat = 8 * k :=
    UInt64.toNat_ofNat_of_lt' (by simp only [UInt64.size]; omega)
  apply UInt8.toNat_inj.1
  rw [UInt64.toNat_toUInt8, UInt64.toNat_shiftRight, hw, hk',
    Nat.mod_eq_of_lt (show 8 * k < 64 by omega), Nat.shiftRight_eq_div_pow, Nat.pow_mul,
    ← littleEndian_digit]

/-- Eight bytes, each moved to its place, are the number that they spell. -/
theorem join_eq_littleEndian (a b c d e f g h : UInt8) :
    a.toUInt64 ||| b.toUInt64 <<< 8 ||| c.toUInt64 <<< 16 ||| d.toUInt64 <<< 24 |||
      e.toUInt64 <<< 32 ||| f.toUInt64 <<< 40 ||| g.toUInt64 <<< 48 ||| h.toUInt64 <<< 56 =
      UInt64.ofNat (littleEndian [a, b, c, d, e, f, g, h]) := by
  have hw := join_bytes (UInt64.ofNat (littleEndian [a, b, c, d, e, f, g, h]))
  have hbyte := toUInt8_shiftRight [a, b, c, d, e, f, g, h] rfl
  generalize UInt64.ofNat (littleEndian [a, b, c, d, e, f, g, h]) = w at hw hbyte ⊢
  have h0 : w.toUInt8 = a := by
    have h0 : (w >>> 0).toUInt8 = a := hbyte 0 (by decide)
    rwa [UInt64.shiftRight_zero] at h0
  rwa [h0, show (w >>> 8).toUInt8 = b from hbyte 1 (by decide),
    show (w >>> 16).toUInt8 = c from hbyte 2 (by decide),
    show (w >>> 24).toUInt8 = d from hbyte 3 (by decide),
    show (w >>> 32).toUInt8 = e from hbyte 4 (by decide),
    show (w >>> 40).toUInt8 = f from hbyte 5 (by decide),
    show (w >>> 48).toUInt8 = g from hbyte 6 (by decide),
    show (w >>> 56).toUInt8 = h from hbyte 7 (by decide)] at hw

/-- A double is read from eight bytes. -/
theorem spans_number : Spans number 8 (numberAt 0) where
  reads bytes h rest := by
    match bytes, h with
    | [a, b, c, d, e, f, g, h], _ =>
      change some (Float.ofBits _, rest) = _
      rw [join_eq_littleEndian]
      rfl
  short bytes h := by
    match bytes, h with
    | [], _ | [_], _ | [_, _], _ | [_, _, _], _ | [_, _, _, _], _ | [_, _, _, _, _], _
    | [_, _, _, _, _, _], _ | [_, _, _, _, _, _, _], _ => rfl

/-- A byte is read from one byte. -/
theorem spans_byte : Spans byte 1 fun bytes => bytes.headD 0 where
  reads bytes h rest := by
    match bytes, h with
    | [b], _ => rfl
  short bytes h := by
    match bytes, h with
    | [], _ => rfl

/-- A vector is read from its three numbers. -/
theorem spans_vector : Spans vector 24 (vectorAt 0) :=
  (Spans.bind spans_number fun _ => Spans.bind spans_number fun _ => Spans.map spans_number _).congr
    fun bytes _ => by
      simp (disch := omega) only [numberAt_take, numberAt_drop]
      rfl

/-- A profile is read from its nine numbers. -/
theorem spans_profile : Spans profile 72 (profileAt 0) :=
  (Spans.bind spans_vector fun _ => Spans.bind spans_vector fun _ => Spans.map spans_vector _).congr
    fun bytes _ => by
      simp (disch := omega) only [vectorAt_take, vectorAt_drop]
      rfl

/-! ## Paths -/

/-- Without a zero byte a path does not end. -/
theorem terminated_eq_none (h : 0 ∉ bytes) : terminated bytes = none := by
  induction bytes with
  | nil => rfl
  | cons b bytes ih =>
    rw [List.mem_cons, not_or] at h
    rw [terminated, if_neg (Ne.symm h.1), ih h.2]
    rfl

end Payload

open Payload

/-! ## Layouts -/

theorem spans_read_push : Spans (read .push) 0 fun _ => push := .pure _

theorem spans_read_pop : Spans (read .pop) 0 fun _ => pop := .pure _

theorem spans_read_display : Spans (read .display) 0 fun _ => display := .pure _

theorem spans_read_move : Spans (read .move) 24 fun bytes => move (vectorAt 0 bytes) :=
  Spans.map spans_vector _

theorem spans_read_scale : Spans (read .scale) 24 fun bytes => scale (vectorAt 0 bytes) :=
  Spans.map spans_vector _

theorem spans_read_rotate :
    Spans (read .rotate) 9 fun bytes => rotate (bytes.headD 0) (numberAt 1 bytes) :=
  (Spans.bind spans_byte fun _ => Spans.map spans_number _).congr fun bytes h => by
    obtain ⟨b, bytes, rfl⟩ := List.exists_cons_of_length_eq_add_one h
    rw [numberAt_drop]
    rfl

theorem spans_read_box :
    Spans (read .box) 120 fun bytes =>
      box (vectorAt 0 bytes) (vectorAt 24 bytes) (profileAt 48 bytes) :=
  (Spans.bind spans_vector fun _ => Spans.bind spans_vector fun _ =>
    Spans.map spans_profile _).congr fun bytes _ => by
      simp (disch := omega) only [vectorAt_take, vectorAt_drop, profileAt_drop]

theorem spans_read_sphere :
    Spans (read .sphere) 104 fun bytes =>
      sphere (vectorAt 0 bytes) (numberAt 24 bytes) (profileAt 32 bytes) :=
  (Spans.bind spans_vector fun _ => Spans.bind spans_number fun _ =>
    Spans.map spans_profile _).congr fun bytes _ => by
      simp (disch := omega) only [vectorAt_take, numberAt_take, numberAt_drop, profileAt_drop]

theorem spans_read_torus :
    Spans (read .torus) 112 fun bytes =>
      torus (vectorAt 0 bytes) (numberAt 24 bytes) (numberAt 32 bytes) (profileAt 40 bytes) :=
  (Spans.bind spans_vector fun _ => Spans.bind spans_number fun _ =>
    Spans.bind spans_number fun _ => Spans.map spans_profile _).congr fun bytes _ => by
      simp (disch := omega) only [vectorAt_take, numberAt_take, numberAt_drop, profileAt_drop]

theorem spans_read_line :
    Spans (read .line) 48 fun bytes => line (vectorAt 0 bytes) (vectorAt 24 bytes) :=
  (Spans.bind spans_vector fun _ => Spans.map spans_vector _).congr fun bytes _ => by
    simp (disch := omega) only [vectorAt_take, vectorAt_drop]

/-- Numbers take eight bytes each. -/
theorem length_numbersBytes (xs : List Float) : (numbersBytes xs).length = 8 * xs.length := by
  induction xs with
  | nil => rfl
  | cons x xs ih =>
    rw [numbersBytes_cons, List.length_append, ih, List.length_cons, Nat.mul_succ, Nat.add_comm]
    rfl

end Instruction

end SceneScript
