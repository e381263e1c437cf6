import SceneScript.Proofs.Binary64.Whole

/-!
# Doubles as integers of 64 bits

The integer that is read off a double is its whole part, brought into the range of 64 bits. Zeros
and what is not a number are read as zero, and they take every product with them (`IsNull.mul`).
Only what is below zero is read as an integer below zero, and a product is not if none of its
factors is (`not_lt_zero_mul`).

Doubles lie the farther apart the larger they are, so that the least integer stands alone: no double
is read as one of the thousand integers above it (`toInt_eq_minInt_or`).
-/

namespace SceneScript.Binary64

open Float.Model (UnpackedFloat)
open Float.Model.Format (binary64)
open Float.Model.UnpackedFloat

variable {x y : Float} {m : Nat} {e : Int}

/-! ## Nothing to read off -/

/-- A zero, or what is not a number. -/
inductive IsNull (x : Float) : Prop
  | zero (s : Sign) (h : x.toModel.unpack = .zero s)
  | undefined (h : x.toModel.unpack = .notANumber)

theorem unpack_mul (x y : Float) : (x * y).toModel.unpack = unpack binary64
    (pack binary64 (UnpackedFloat.mul binary64 x.toModel.unpack y.toModel.unpack)) :=
  rfl

/-- A product with a factor that is null is null. -/
theorem IsNull.mul (h : IsNull x ∨ IsNull y) : IsNull (x * y) := by
  have hunpack := unpack_mul x y
  have hzero {s : Sign}
      (h : UnpackedFloat.mul binary64 x.toModel.unpack y.toModel.unpack = .zero s) :
      IsNull (x * y) := by
    rw [h, unpack_pack (u := .zero s) trivial] at hunpack
    exact .zero s hunpack
  have hundefined
      (h : UnpackedFloat.mul binary64 x.toModel.unpack y.toModel.unpack = .notANumber) :
      IsNull (x * y) := by
    rw [h, unpack_pack (u := .notANumber) trivial] at hunpack
    exact .undefined hunpack
  rcases h with (⟨s, h⟩ | h) | (⟨s, h⟩ | h)
  · cases hy : y.toModel.unpack with
    | notANumber | infinity => exact hundefined (by rw [h, hy]; rfl)
    | zero | finite => exact hzero (by rw [h, hy]; rfl)
  · exact hundefined (by rw [h]; rfl)
  · cases hx : x.toModel.unpack with
    | notANumber | infinity => exact hundefined (by rw [h, hx]; rfl)
    | zero | finite => exact hzero (by rw [h, hx]; rfl)
  · cases hx : x.toModel.unpack with
    | notANumber | infinity | zero | finite => exact hundefined (by rw [h, hx]; rfl)

theorem lt_zero_iff : x < 0.0 ↔ x.isNaN = false ∧ value x < 0 := by
  rw [lt_iff_value, value_zero]
  exact and_congr_right fun _ => and_iff_right rfl

theorem IsNull.not_lt_zero (h : IsNull x) : ¬ x < 0.0 := by
  have hvalue : value x = 0 := by
    cases h with
    | zero s h | undefined h => rw [value, h, unpackedValue]
  rw [lt_zero_iff, hvalue]
  exact fun h => lt_irrefl _ h.2

/-- What is null is read as zero. -/
theorem IsNull.toInt_eq (h : IsNull x) : toInt x = 0 := by
  have hword : x.toUInt64 = 0 := by
    change UInt64.ofNatClamp (x.toModel.unpack.toInt 0 (UInt64.size - 1)).toNat = 0
    cases h with
    | zero s h | undefined h => rw [h]; rfl
  rw [toInt, if_neg h.not_lt_zero, hword]
  rfl

/-! ## Signs of products -/

/-- What is not below zero is null, infinite or a number above zero. -/
theorem isNull_or_of_not_lt_zero (h : ¬ x < 0.0) :
    IsNull x ∨ x.toModel.unpack = .infinity .positive ∨
      x.isFinite ∧ ∃ m e hm, x.toModel.unpack = .finite .positive m e hm := by
  have hdx : IsDouble x.toModel.unpack := isDouble_unpack _
  rw [lt_zero_iff] at h
  cases hu : x.toModel.unpack with
  | zero s => exact .inl (.zero s hu)
  | notANumber => exact .inl (.undefined hu)
  | infinity s =>
    cases s with
    | positive => exact .inr (.inl rfl)
    | negative =>
      refine absurd ⟨isNaN_of_infinity hu, ?_⟩ h
      rw [value_of_infinity hu]
      exact neg_lt_zero.2 overflow_pos
  | finite s m e hm =>
    have hfinite : x.isFinite := by
      change x.toModel.unpack.isFinite = true
      rw [hu]
      rfl
    rw [hu] at hdx
    cases s with
    | positive => exact .inr (.inr ⟨hfinite, m, e, hm, rfl⟩)
    | negative =>
      refine absurd ⟨isNaN_of_isFinite hfinite, ?_⟩ h
      rw [value, hu]
      exact neg_lt_zero.2 hdx.bounds.1

/-- Factors that are not below zero have no product below zero. -/
theorem not_lt_zero_mul (hx : ¬ x < 0.0) (hy : ¬ y < 0.0) : ¬ x * y < 0.0 := by
  have hinfinity
      (h : UnpackedFloat.mul binary64 x.toModel.unpack y.toModel.unpack = .infinity .positive) :
      ¬ x * y < 0.0 := by
    have hunpack := unpack_mul x y
    rw [h, unpack_pack (u := .infinity .positive) trivial] at hunpack
    rw [lt_zero_iff, value_of_infinity hunpack]
    exact fun h => h.2.not_gt overflow_pos
  have hfinite (hfx : x.isFinite) (hfy : y.isFinite) : ¬ x * y < 0.0 := by
    rw [lt_zero_iff, not_and, not_lt] at hx hy ⊢
    intro _
    exact (rounds_mul hfx hfy).le_value isRepresentable_zero
      (mul_nonneg (hx (isNaN_of_isFinite hfx)) (hy (isNaN_of_isFinite hfy)))
  rcases isNull_or_of_not_lt_zero hx with hxnull | hxinf | ⟨hfx, m, e, hm, hu⟩
  · exact (IsNull.mul (.inl hxnull)).not_lt_zero
  all_goals rcases isNull_or_of_not_lt_zero hy with hynull | hyinf | ⟨hfy, m', e', hm', hw⟩
  · exact (IsNull.mul (.inr hynull)).not_lt_zero
  · exact hinfinity (by rw [hxinf, hyinf]; rfl)
  · exact hinfinity (by rw [hxinf, hw]; rfl)
  · exact (IsNull.mul (.inr hynull)).not_lt_zero
  · exact hinfinity (by rw [hu, hyinf]; rfl)
  · exact hfinite hfx hfy

/-! ## The range of the integers -/

theorem toInt_le_maxInt (x : Float) : toInt x ≤ maxInt := by
  rw [toInt, minInt, maxInt]
  split <;> omega

/-- Only what is below zero is read as an integer below zero. -/
theorem lt_zero_of_toInt (h : toInt x < 0) : x < 0.0 := by
  by_contra hx
  rw [toInt, if_neg hx, maxInt] at h
  omega

/-! ## The gap above the least integer -/

/-- The whole part of a double below `2 ^ 63` is below it by `2 ^ 10` at least. -/
theorem floor_add_le (hm : m < 2 ^ 53) (h : (m * 2 ^ e : ℚ) < 2 ^ 63) :
    ⌊(m * 2 ^ e : ℚ)⌋ + 2 ^ 10 ≤ 2 ^ 63 := by
  rcases le_or_gt 10 e with he | he
  · -- a multiple of `2 ^ 10`
    obtain ⟨k, rfl⟩ : ∃ k : Nat, e = (k + 10 : Nat) := ⟨(e - 10).toNat, by omega⟩
    have hwhole : (m * 2 ^ ((k + 10 : Nat) : Int) : ℚ) = (m * 2 ^ k * 2 ^ 10 : Nat) := by
      rw [zpow_natCast, pow_add]
      push_cast
      ring
    rw [hwhole] at h ⊢
    rw [Int.floor_natCast]
    have h : m * 2 ^ k * 2 ^ 10 < 2 ^ 63 := by exact_mod_cast h
    omega
  · have hpow : (2 : ℚ) ^ e ≤ 2 ^ (9 : Int) := zpow_le_zpow_right₀ (by norm_num) (by omega)
    have hlow : (m : ℚ) < 2 ^ 53 := mod_cast hm
    have hsmall : (m * 2 ^ e : ℚ) < (2 ^ 62 : Int) := by
      calc (m * 2 ^ e : ℚ) < 2 ^ 53 * 2 ^ e := mul_lt_mul_of_pos_right hlow (zpow_pos_two e)
        _ ≤ 2 ^ 53 * 2 ^ (9 : Int) := mul_le_mul_of_nonneg_left hpow (by norm_num)
        _ = (2 ^ 62 : Int) := by norm_num
    have := Int.floor_lt.2 hsmall
    omega

/-- A word that is read off a magnitude is not just below `2 ^ 63`. -/
theorem toNat_toUInt64_abs_add_le (h : x.abs.toUInt64.toNat < 2 ^ 63) :
    x.abs.toUInt64.toNat + 2 ^ 10 ≤ 2 ^ 63 := by
  have hdx : IsDouble x.toModel.unpack := isDouble_unpack _
  have hclamp (n : Nat) : (UInt64.ofNatClamp n).toNat = min n (2 ^ 64 - 1) := by
    rcases lt_or_ge n UInt64.size with hn | hn
    · rw [UInt64.toNat_ofNatClamp_of_lt hn]
      exact (min_eq_left (Nat.le_sub_one_of_lt hn)).symm
    · rw [UInt64.toNat_ofNatClamp_of_le hn]
      exact (min_eq_right ((Nat.sub_le _ _).trans hn)).symm
  have hword : x.abs.toUInt64.toNat =
      min (x.toModel.unpack.abs.toInt 0 (UInt64.size - 1)).toNat (2 ^ 64 - 1) := by
    rw [← unpack_abs, ← hclamp]
    rfl
  rw [hword] at h ⊢
  cases hu : x.toModel.unpack with
  | notANumber | zero =>
    change min (0 : Int).toNat (2 ^ 64 - 1) + 2 ^ 10 ≤ 2 ^ 63
    decide
  | infinity =>
    rw [hu] at h
    change min (UInt64.size - 1 : Int).toNat (2 ^ 64 - 1) < 2 ^ 63 at h
    exact absurd h (by decide)
  | finite s m e hm =>
    rw [hu] at h hdx
    change min (roundToInt .positive m e).toNat _ < _ at h
    change min (roundToInt .positive m e).toNat _ + _ ≤ _
    rw [roundToInt_eq] at h ⊢
    have hfloor : ⌊(m * 2 ^ e : ℚ)⌋ < 2 ^ 63 := by omega
    have := floor_add_le hdx.1.lt ((Int.floor_lt.1 hfloor).trans_eq (by norm_num))
    omega

/-- No double is read as one of the numbers just above the least integer. -/
theorem toInt_eq_minInt_or (x : Float) : toInt x = minInt ∨ minInt + 2 ^ 10 ≤ toInt x := by
  have hgap := toNat_toUInt64_abs_add_le (x := x)
  rw [toInt, minInt, maxInt]
  split <;> omega

end SceneScript.Binary64
