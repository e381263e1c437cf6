import SceneScript.Proofs.Binary64.Truncation

/-!
# Doubles that are whole numbers

A whole number becomes the double nearest to it (`rounds_ofInt`). A double whose value is a whole
number is kept by rounding (`value_round`), and the number that is read off it is its value, as far
as 64 bits go (`toInt_of_value`).
-/

namespace SceneScript.Binary64

open Float.Model (UnpackedFloat)
open Float.Model.Format (binary64)
open Float.Model.UnpackedFloat

variable {x : Float} {n : Int}

theorem value_half : value 0.5 = 1 / 2 := by
  have hbits : (0.5 : Float).toBits = 0x3fe0000000000000 := by decide
  rw [value_of_toBits hbits]
  change signed .positive ((2 ^ 52 : Nat) * 2 ^ (-53 : Int)) = _
  rw [signed, zpow_neg]
  norm_num

theorem value_zero : value 0.0 = 0 := by
  have hbits : (0.0 : Float).toBits = 0 := by decide
  rw [value_of_toBits hbits]
  rfl

theorem value_one : value (.ofBits 0x3ff0000000000000) = 1 := by
  have hbits : (Float.ofBits 0x3ff0000000000000).toBits = 0x3ff0000000000000 := by decide
  rw [value_of_toBits hbits]
  change signed .positive ((2 ^ 52 : Nat) * 2 ^ (-52 : Int)) = _
  rw [signed, zpow_neg]
  norm_num

theorem isRepresentable_one : IsRepresentable 1 := value_one ▸ isRepresentable_value _

/-- A number of the size of a word is finite. -/
theorem isFinite_of_abs_lt_word (hx : x.isNaN = false) (h : |value x| < 2 ^ 64) : x.isFinite := by
  refine isFinite_of_abs_lt hx (h.trans ?_)
  have hover := mul_zpow_lt_overflow (m := 1) (e := 64) (by norm_num) (by norm_num)
  rw [Nat.cast_one, one_mul] at hover
  exact_mod_cast hover

/-! ## Whole numbers as doubles -/

/-- The first power of ten that is kept in a table. -/
theorem powersOfTen_zero (h : 0 < Float.exactlyRepresentablePowersOfTen.size) :
    Float.exactlyRepresentablePowersOfTen[0] = .ofBits 0x3ff0000000000000 := rfl

theorem toFloat_toUInt64 {m : Nat} (hm : m < 2 ^ 64) :
    m.toUInt64.toFloat = .ofModel (.ofNat m) := by
  have hword : m.toUInt64.toNat = m := Nat.mod_eq_of_lt hm
  have h : m.toUInt64.toFloat = .ofModel (.ofNat m.toUInt64.toNat) := rfl
  rw [h, hword]

/-- A natural number becomes the double nearest to it. -/
theorem rounds_ofInt (m : Nat) : Rounds (ofInt m) m := by
  change Rounds (Float.ofScientific m false 0) m
  rw [Float.ofScientific]
  split
  · next h =>
    have hvalue := value_ofNat h.1
    have hnan : Float.isNaN (.ofModel (.ofNat m)) = false := (rounds_ofNat m).isNaN
    have hsize : |(m : ℚ)| < 2 ^ 64 := by
      rw [Nat.abs_cast]
      exact (mod_cast h.1 : (m : ℚ) < 2 ^ 53).trans (by norm_num)
    have hmul := rounds_mul (isFinite_of_abs_lt_word hnan (by rwa [hvalue]))
      (show (Float.ofBits 0x3ff0000000000000).isFinite by decide)
    rw [hvalue, value_one, mul_one] at hmul
    dsimp only
    rw [if_neg Bool.false_ne_true, powersOfTen_zero, toFloat_toUInt64 (by omega)]
    exact hmul
  · next h =>
    -- a larger one is brought to more bits than a mantissa has, and rounded from there
    have hm : 0 < m := Nat.pos_of_ne_zero fun h0 => h ⟨by omega, by omega⟩
    have hfine : 2 ^ 52 ≤ m <<< 53 * 10 ^ 0 := by
      rw [Nat.shiftLeft_eq]
      omega
    have hround := rounds_pack_roundWithAccuracy (e := -53 + 0) (.inl hfine) (keeps_exact _)
      .positive
    have hvalue : signed .positive ((m <<< 53 * 10 ^ 0 : Nat) * 2 ^ (-53 + 0 : Int)) = (m : ℚ) := by
      rw [signed, Nat.shiftLeft_eq, add_zero, zpow_neg]
      push_cast
      field_simp
    rw [hvalue] at hround
    have hscientific : UnpackedFloat.ofScientific binary64 m 0 =
        roundWithAccuracy binary64 .positive (m <<< 53 * 10 ^ 0) (-53 + 0) .exact := by
      have hexp : (2 : Int) ^ binary64.exponentBits = 2048 := rfl
      unfold UnpackedFloat.ofScientific
      rw [dif_neg hm.ne', hexp, if_neg (by omega), if_neg (by omega), if_pos le_rfl]
      rfl
    dsimp only
    rw [if_neg Bool.false_ne_true, Float.Model.ofScientific]
    change Rounds (.ofModel (.pack (UnpackedFloat.ofScientific binary64 m 0))) m
    rw [hscientific]
    exact hround

/-- A small whole number is kept. -/
theorem value_ofInt {m : Nat} (hm : m < 2 ^ 53) : value (ofInt m) = m :=
  (rounds_ofInt m).value_eq (value_ofNat hm ▸ isRepresentable_value _)

/-- A whole number of 64 bits with a sign is a finite double. -/
theorem isFinite_ofInt {m : Nat} (hm : (m : Int) ≤ maxInt) : (ofInt m).isFinite := by
  have hround := rounds_ofInt m
  have hover := mul_zpow_lt_overflow (m := 1) (e := 63) (by norm_num) (by norm_num)
  have hword : IsRepresentable (2 ^ 63) := by
    refine ⟨?_, 1, 63, by norm_num, by norm_num, by norm_num⟩
    rw [abs_of_pos (by norm_num)]
    rw [Nat.cast_one, one_mul] at hover
    exact_mod_cast hover.le
  have hlow : 0 ≤ value (ofInt m) := hround.le_value isRepresentable_zero (Nat.cast_nonneg m)
  have hhigh : value (ofInt m) ≤ 2 ^ 63 := by
    refine hround.value_le hword ?_
    have : (m : Int) ≤ 2 ^ 63 := hm.trans (by decide)
    exact_mod_cast this
  refine isFinite_of_abs_lt_word hround.isNaN ?_
  rw [abs_of_nonneg hlow]
  exact hhigh.trans_lt (by norm_num)

/-! ## Doubles as whole numbers -/

/-- Rounding keeps a whole number. -/
theorem value_round (hx : x.isNaN = false) (h : value x = n) :
    (round x).isNaN = false ∧ value (round x) = n := by
  rw [round]
  split
  · next hlt =>
    have hsmall : |value x| < 2 ^ 52 := by
      rw [lt_iff_value, value_abs, value_wholeFrom] at hlt
      exact hlt.2.2
    -- nothing is left behind the whole part
    have hwhole : value x.abs.toUInt64.toFloat = |value x| := by
      rw [value_toFloat_toUInt64 hsmall, h, ← Int.cast_abs, Int.floor_intCast]
    have hnan : x.abs.toUInt64.toFloat.isNaN = false := (rounds_ofNat _).isNaN
    have hrest : Rounds (x.abs - x.abs.toUInt64.toFloat) 0 := by
      have hword : |value x| < 2 ^ 64 := hsmall.trans (by norm_num)
      have hfin : x.abs.isFinite :=
        isFinite_of_abs_lt_word ((isNaN_abs x).trans hx) (by rwa [value_abs, abs_abs])
      have hfin' : x.abs.toUInt64.toFloat.isFinite :=
        isFinite_of_abs_lt_word hnan (by rwa [hwhole, abs_abs])
      have := rounds_sub hfin hfin'
      rwa [value_abs, hwhole, sub_self] at this
    have hbelow : x.abs - x.abs.toUInt64.toFloat < 0.5 := by
      refine lt_iff_value.2 ⟨hrest.isNaN, by decide, ?_⟩
      rw [hrest.value_eq isRepresentable_zero, value_half]
      norm_num
    have hsign := value_eq_of_signBit x
    dsimp only
    rw [if_pos hbelow, withSignOf]
    split <;> rename_i hbit
    · rw [if_pos hbit] at hsign
      rw [isNaN_neg, value_neg, hwhole, ← hsign]
      exact ⟨hnan, h⟩
    · rw [if_neg hbit] at hsign
      rw [hwhole, ← hsign]
      exact ⟨hnan, h⟩
  · exact ⟨hx, h⟩

/-- The whole number that is read off a double that is one. -/
theorem toInt_of_value (h : value x = n) (h0 : 0 ≤ n) (hn : n ≤ maxInt) :
    toInt x = n := by
  have hnonneg : ¬ x < 0.0 := by
    rw [lt_iff_value, value_zero, h]
    rintro ⟨-, -, hlt⟩
    exact absurd (Int.cast_nonneg h0) hlt.not_ge
  have hsize : n < 2 ^ 64 := hn.trans_lt (by decide)
  have hword := toNat_toUInt64 (x := x) (by rw [h]; exact Int.cast_nonneg h0)
    (by rw [h]; exact_mod_cast hsize)
  rw [h, Int.floor_intCast] at hword
  rw [toInt, if_neg hnonneg, hword, min_eq_right hn]

end SceneScript.Binary64
