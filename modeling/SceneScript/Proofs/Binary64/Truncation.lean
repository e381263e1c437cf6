import Mathlib.Data.Rat.Floor
import Mathlib.Tactic.Linarith
import SceneScript.Proofs.Binary64.Arithmetic
import SceneScript.Proofs.Raster.Exact

/-!
# The whole part of a double

Cutting off the fraction of a double goes through a whole number of 64 bits and back. Below `2 ^ 52`
that loses nothing else, and from there on a double is whole (`whole_of_le_abs`), so the value of
the result is the whole part of the value, exactly (`value_truncate`).
-/

namespace SceneScript.Binary64

open Float.Model (UnpackedFloat totalExponent)
open Float.Model.Format (binary64)
open Float.Model.UnpackedFloat

variable {x y : Float} {s : Sign} {m : Nat} {e : Int}

/-! ## Signs -/

theorem isDouble_neg {u : UnpackedFloat} (hu : IsDouble u) : IsDouble u.neg := by
  cases u <;> exact hu

theorem isDouble_abs {u : UnpackedFloat} (hu : IsDouble u) : IsDouble u.abs := by
  cases u <;> exact hu

theorem signed_neg (s : Sign) (q : ℚ) : signed (-s) q = -signed s q := by
  cases s
  · exact (neg_neg q).symm
  · rfl

theorem value_neg (x : Float) : value (-x) = -value x := by
  have hx : IsDouble x.toModel.unpack := isDouble_unpack _
  change value (.ofModel (.pack x.toModel.unpack.neg)) = _
  rw [value_pack_isDouble (isDouble_neg hx), value]
  cases x.toModel.unpack with
  | notANumber | zero s => exact neg_zero.symm
  | infinity s | finite s m e hm => exact signed_neg s _

theorem isNaN_neg (x : Float) : (-x).isNaN = x.isNaN := by
  have hx : IsDouble x.toModel.unpack := isDouble_unpack _
  change (Float.ofModel (.pack x.toModel.unpack.neg)).isNaN = x.toModel.unpack.isNaN
  rw [isNaN_pack_isDouble (isDouble_neg hx)]
  cases x.toModel.unpack <;> rfl

theorem unpack_abs (x : Float) : x.abs.toModel.unpack = x.toModel.unpack.abs := by
  have hx : IsDouble x.toModel.unpack := isDouble_unpack _
  exact unpack_pack (isDouble_abs hx)

theorem value_abs (x : Float) : value x.abs = |value x| := by
  have hx : IsDouble x.toModel.unpack := isDouble_unpack _
  rw [value, unpack_abs, value]
  cases hu : x.toModel.unpack with
  | notANumber | zero s => exact abs_zero.symm
  | infinity s => exact (abs_signed s overflow_pos.le).symm
  | finite s m e hm =>
    rw [hu] at hx
    exact (abs_signed s hx.bounds.1.le).symm

theorem isNaN_abs (x : Float) : x.abs.isNaN = x.isNaN := by
  change x.abs.toModel.unpack.isNaN = x.toModel.unpack.isNaN
  rw [unpack_abs]
  cases x.toModel.unpack <;> rfl

/-- The sign bit is the bit that a sign is packed into. -/
theorem signBit_iff (x : Float) :
    signBit x = true ↔ Sign.ofBitVec (@unpackSign binary64 x.toBits.toBitVec) = .negative := by
  have hsign : ∀ b : BitVec 1, Sign.ofBitVec b = .negative ↔ b = 1#1 := by
    intro b
    obtain rfl | rfl := BitVec.eq_zero_or_eq_one b <;> simp [Sign.ofBitVec]
  rw [hsign, signBit, beq_iff_eq, unpackSign_def, ← UInt64.toNat_inj, ← BitVec.toNat_inj,
    BitVec.extractLsb'_toNat, UInt64.toNat_shiftRight, UInt64.toNat_toBitVec]
  have hlt := x.toBits.toNat_lt
  rw [Nat.shiftRight_eq_div_pow, Nat.shiftRight_eq_div_pow]
  change x.toBits.toNat / 2 ^ 63 = 1 ↔ x.toBits.toNat / 2 ^ 63 % 2 = 1
  omega

/-- Bits stand for a number with the sign that is packed into them. -/
theorem unpackedValue_unpack (b : BitVec 64) : unpackedValue (unpack binary64 b) =
    signed (Sign.ofBitVec (@unpackSign binary64 b)) |unpackedValue (unpack binary64 b)| := by
  have hzero : ∀ s, (0 : ℚ) = signed s |0| := by
    intro s
    cases s <;> simp [signed]
  have habs : ∀ s {q : ℚ}, 0 ≤ q → signed s q = signed s |signed s q| := by
    intro s q hq
    rw [abs_signed s hq]
  rw [unpack]
  dsimp only
  split
  · split
    · exact habs _ overflow_pos.le
    · exact hzero _
  · split
    · split
      · exact hzero _
      · exact habs _ (by positivity)
    · exact habs _ (by positivity)

/-- The sign bit tells on which side of zero a number lies. -/
theorem value_eq_of_signBit (x : Float) :
    value x = if signBit x then -|value x| else |value x| := by
  have hx := unpackedValue_unpack x.toBits.toBitVec
  have hsign := signBit_iff x
  cases h : Sign.ofBitVec (@unpackSign binary64 x.toBits.toBitVec)
  · rw [h] at hx
    rw [if_pos (hsign.2 h)]
    exact hx
  · rw [h] at hx
    rw [if_neg (by simp [hsign, h])]
    exact hx

/-! ## Whole numbers of 64 bits -/

theorem shiftRight_mantissa (em : ExtendedMantissa) (n : Nat) :
    (em >>> n).mantissa = em.mantissa / 2 ^ n := by
  induction n with
  | zero => exact (Nat.div_one _).symm
  | succ n ih =>
    rw [pow_succ, ← Nat.div_div_eq_div_mul, ← ih]
    rfl

/-- The whole part of a positive number. -/
theorem roundToInt_eq (m : Nat) (e : Int) : roundToInt .positive m e = ⌊(m * 2 ^ e : ℚ)⌋ := by
  change ((ExtendedMantissa.ofMantissaAndAccuracy (m <<< (e - 0).toNat) .exact >>>
    (0 - (e - (e - 0).toNat)).toNat).mantissa : Int) = _
  rw [shiftRight_mantissa, sub_zero]
  obtain ⟨n, rfl | rfl⟩ := e.eq_nat_or_neg
  · rw [Int.toNat_natCast, sub_self, sub_zero, Int.toNat_zero, pow_zero, Nat.div_one, zpow_natCast]
    change ((m <<< n : Nat) : Int) = _
    rw [Nat.shiftLeft_eq]
    exact_mod_cast (Int.floor_natCast (R := ℚ) (m * 2 ^ n)).symm
  · rw [Int.toNat_neg_natCast, zpow_neg, zpow_natCast, ← div_eq_mul_inv]
    have : ((0 : Int) - (-n - (0 : Nat))).toNat = n := by omega
    rw [this]
    change ((m / 2 ^ n : Nat) : Int) = _
    exact_mod_cast (Rat.floor_natCast_div_natCast m (2 ^ n)).symm

/-- Reading a whole number off a double that is not negative and not infinite. -/
theorem toInt_eq {u : UnpackedFloat} (hu : IsDouble u) (h0 : 0 ≤ unpackedValue u)
    (hlt : unpackedValue u < overflow) (low high : Int) :
    u.toInt low high = ⌊unpackedValue u⌋ := by
  have hover := overflow_pos
  rcases u with (_ | _) | _ | s | ⟨_ | _, m, e, hm⟩ <;>
    simp only [unpackedValue, signed] at h0 hlt
  · linarith
  · linarith
  · exact Int.floor_zero.symm
  · exact Int.floor_zero.symm
  · linarith [hu.bounds.1]
  · exact roundToInt_eq m e

/-- Reading a whole number of 64 bits off a double. -/
theorem toNat_toUInt64 (hx : 0 ≤ value x) (hlt : value x < 2 ^ 64) :
    (x.toUInt64.toNat : Int) = ⌊value x⌋ := by
  have hover : value x < overflow := by
    have : ((1 : Nat) : ℚ) * 2 ^ (64 : Int) < overflow :=
      mul_zpow_lt_overflow (by norm_num) (by norm_num)
    rw [Nat.cast_one, one_mul] at this
    exact lt_trans hlt (mod_cast this)
  have hfloor : 0 ≤ ⌊value x⌋ := Int.floor_nonneg.2 hx
  have hsize : ⌊value x⌋ < 2 ^ 64 := Int.floor_lt.2 (by push_cast; exact hlt)
  have hint := toInt_eq (isDouble_unpack _) hx hover 0 (UInt64.size - 1)
  change x.toModel.unpack.toInt 0 (UInt64.size - 1) = ⌊value x⌋ at hint
  change ((UInt64.ofNatClamp (x.toModel.unpack.toInt 0 (UInt64.size - 1)).toNat).toNat : Int) = _
  rw [hint, UInt64.toNat_ofNatClamp_of_lt]
  · exact Int.toNat_of_nonneg hfloor
  · change _ < 2 ^ 64
    omega

/-- A whole number becomes the double nearest to it. -/
theorem rounds_ofNat (n : Nat) : Rounds (.ofModel (.ofNat n)) n := by
  have h := rounds_normalize n 0 .positive
  rw [zpow_zero, mul_one, Int.cast_natCast] at h
  exact h

/-- A whole number that is not too large is kept. -/
theorem value_ofNat {n : Nat} (hn : n < 2 ^ 53) : value (.ofModel (.ofNat n)) = n := by
  have hover : (n : ℚ) * 2 ^ (0 : Int) < overflow := mul_zpow_lt_overflow hn (by norm_num)
  rw [zpow_zero, mul_one] at hover
  refine (rounds_ofNat n).value_eq ⟨?_, n, 0, ?_, by norm_num, ?_⟩
  · rw [abs_of_nonneg (Nat.cast_nonneg n)]
    exact hover.le
  · rw [abs_of_nonneg (by omega)]
    omega
  · rw [zpow_zero, mul_one, Int.cast_natCast]

/-! ## Whole parts -/

theorem isNaN_wholeFrom : wholeFrom.isNaN = false := by
  decide

theorem value_wholeFrom : value wholeFrom = 2 ^ 52 := by
  have hbits : wholeFrom.toBits = 0x4330000000000000 := by decide
  rw [value_of_toBits hbits]
  change signed .positive ((2 ^ 52 : Nat) * 2 ^ (0 : Int)) = _
  rw [signed, zpow_zero, mul_one]
  push_cast
  rfl

/-- A number with no bit after the point is whole. -/
theorem exists_signed_eq_intCast (s : Sign) (m : Nat) (he : 0 ≤ e) :
    ∃ n : Int, signed s (m * 2 ^ e) = n := by
  obtain ⟨k, rfl⟩ := Int.eq_ofNat_of_zero_le he
  cases s
  · exact ⟨-(m * 2 ^ k), by push_cast; rw [signed, zpow_natCast]⟩
  · exact ⟨m * 2 ^ k, by push_cast; rw [signed, zpow_natCast]⟩

/-- From `2 ^ 52` on a double is whole. -/
theorem whole_of_le_abs (h : 2 ^ 52 ≤ |value x|) : (Exact.whole (value x) : ℚ) = value x := by
  suffices ∃ n : Int, value x = n by
    obtain ⟨n, hn⟩ := this
    rw [hn, Exact.whole_intCast]
  have hdx : IsDouble x.toModel.unpack := isDouble_unpack _
  rw [value] at h ⊢
  cases hu : x.toModel.unpack with
  | notANumber | zero s => exact ⟨0, rfl⟩
  | infinity s =>
    have := exists_signed_eq_intCast s (2 ^ 53) (show (0 : Int) ≤ 971 by norm_num)
    rwa [Nat.cast_pow, Nat.cast_ofNat, ← overflow_eq] at this
  | finite s m e hm =>
    rw [hu] at h hdx
    refine exists_signed_eq_intCast s m ?_
    by_contra hneg
    rw [unpackedValue, abs_signed s hdx.bounds.1.le] at h
    have hlt : (m : ℚ) * 2 ^ e < (2 ^ 52 : Nat) * 2 ^ (0 : Int) :=
      mul_zpow_lt hdx.1.lt le_rfl (not_le.1 hneg)
    rw [zpow_zero, mul_one] at hlt
    push_cast at hlt
    linarith

/-- The whole part as it comes back from 64 bits, without a sign. -/
theorem value_toFloat_toUInt64 (hlt : |value x| < 2 ^ 52) :
    value x.abs.toUInt64.toFloat = ⌊|value x|⌋ := by
  have hint := toNat_toUInt64 (x := x.abs) (by rw [value_abs]; exact abs_nonneg _)
    (by rw [value_abs]; exact hlt.trans (by norm_num))
  rw [value_abs] at hint
  have hsize : ⌊|value x|⌋ < 2 ^ 52 := Int.floor_lt.2 (by push_cast; exact hlt)
  rw [← hint, Int.cast_natCast]
  exact value_ofNat (by omega)

/-- The fraction is cut off and nothing else. -/
theorem value_truncate (hx : x.isNaN = false) : value (truncate x) = Exact.whole (value x) := by
  have habs : x.abs < wholeFrom ↔ |value x| < 2 ^ 52 := by
    rw [lt_iff_value, isNaN_abs, value_abs, value_wholeFrom]
    exact ⟨fun h => h.2.2, fun h => ⟨hx, isNaN_wholeFrom, h⟩⟩
  rw [truncate]
  split
  · next hlt =>
    have hfloor := value_toFloat_toUInt64 (habs.1 hlt)
    have hsign := value_eq_of_signBit x
    have hwhole := Exact.whole_of_nonneg (abs_nonneg (value x))
    rw [withSignOf]
    split <;> rename_i hbit
    · rw [if_pos hbit] at hsign
      rw [value_neg, hfloor, hsign, abs_neg, abs_abs, Exact.whole_neg, hwhole, Int.cast_neg]
    · rw [if_neg hbit] at hsign
      rw [hfloor, hsign, abs_abs, hwhole]
  · next hge => exact (whole_of_le_abs (not_lt.1 (mt habs.2 hge))).symm

/-- The whole part of a number is a number. -/
theorem isNaN_truncate (hx : x.isNaN = false) : (truncate x).isNaN = false := by
  rw [truncate]
  split
  · have hwhole : x.abs.toUInt64.toFloat.isNaN = false := (rounds_ofNat _).isNaN
    rw [withSignOf]
    split
    · rw [isNaN_neg, hwhole]
    · exact hwhole
  · exact hx

/-- Cutting off fractions keeps the order. -/
theorem truncate_mono (h : x ≤ y) : truncate x ≤ truncate y := by
  obtain ⟨hx, hy, hle⟩ := le_iff_value.1 h
  refine le_iff_value.2 ⟨isNaN_truncate hx, isNaN_truncate hy, ?_⟩
  rw [value_truncate hx, value_truncate hy, Int.cast_le]
  exact Exact.whole_mono hle

/-- The whole part has no fraction to cut off. -/
theorem value_truncate_truncate (hx : x.isNaN = false) :
    value (truncate (truncate x)) = value (truncate x) := by
  rw [value_truncate (isNaN_truncate hx), value_truncate hx, Exact.whole_intCast]

end SceneScript.Binary64
