import Mathlib.Tactic.FieldSimp
import Mathlib.Tactic.Linarith
import SceneScript.Proofs.Binary64.Value

/-!
# Rounding to doubles

Arithmetic on doubles finds the result cut off somewhere below its last bit, together with where the
rest lies in the interval cut into (`Keeps`). It is brought to the exponent that a double of its
size has, and there rounded to the nearest whole mantissa. What is packed then is the double whose
value is nearest to the exact result (`rounds_pack_roundWithAccuracy`): a finer double is farther
down than the least mantissa of this exponent, and an infinity is nearest to all that is too large.

So rounding keeps what is representable (`Rounds.value_eq`), and it keeps the order
(`Rounds.value_mono`).
-/

namespace SceneScript.Binary64

open Float.Model (UnpackedFloat totalExponent)
open Float.Model.Format (binary64)
open Float.Model.UnpackedFloat

/-! ## Nearest doubles -/

/-- A double is a number, and none is nearer to `v`. -/
structure Rounds (x : Float) (v : ℚ) : Prop where
  isNaN : x.isNaN = false
  nearest : ∀ q, IsRepresentable q → |value x - v| ≤ |q - v|

namespace Rounds

variable {x y : Float} {v w q : ℚ}

/-- A representable number that is no more than `v` is no more than the double nearest to `v`. -/
theorem le_value (h : Rounds x v) (hq : IsRepresentable q) (hle : q ≤ v) : q ≤ value x := by
  have hnear := h.nearest q hq
  rw [abs_of_nonpos (sub_nonpos.2 hle)] at hnear
  linarith [(abs_le.1 hnear).1]

/-- A representable number that is no less than `v` is no less than the double nearest to `v`. -/
theorem value_le (h : Rounds x v) (hq : IsRepresentable q) (hle : v ≤ q) : value x ≤ q := by
  have hnear := h.nearest q hq
  rw [abs_of_nonneg (sub_nonneg.2 hle)] at hnear
  linarith [(abs_le.1 hnear).2]

/-- What is representable is its own nearest double. -/
theorem value_eq (h : Rounds x v) (hv : IsRepresentable v) : value x = v :=
  le_antisymm (h.value_le hv le_rfl) (h.le_value hv le_rfl)

/-- Doubles nearest to numbers in order are in that order. -/
theorem value_mono (hx : Rounds x v) (hy : Rounds y w) (h : v < w) : value x ≤ value y := by
  by_contra hlt
  have hlt := not_le.1 hlt
  have hnearx := hx.nearest (value y) (isRepresentable_value y)
  have hneary := hy.nearest (value x) (isRepresentable_value x)
  -- each of the two lies on its own side of the middle between them
  have hmiddlex : value x + value y ≤ 2 * v := by
    rcases lt_or_ge (value x) v with hxv | hxv
    · linarith
    · rw [abs_of_nonneg (by linarith)] at hnearx
      rcases lt_or_ge (value y) v with hyv | hyv
      · rw [abs_of_nonpos (by linarith)] at hnearx
        linarith
      · rw [abs_of_nonneg (by linarith)] at hnearx
        linarith
  have hmiddley : 2 * w ≤ value x + value y := by
    rcases lt_or_ge (value y) w with hyw | hyw
    · rw [abs_of_nonpos (by linarith)] at hneary
      rcases lt_or_ge (value x) w with hxw | hxw
      · rw [abs_of_nonpos (by linarith)] at hneary
        linarith
      · rw [abs_of_nonneg (by linarith)] at hneary
        linarith
    · linarith
  linarith

end Rounds

/-! ## Cut mantissas -/

/-- A number lies where a mantissa with its round and sticky bits says: on it, in the half above, in
the middle, or in the half after the middle. -/
def Keeps (em : ExtendedMantissa) (v : ℚ) : Prop :=
  match em.roundBit, em.stickyBit with
  | false, false => v = em.mantissa
  | false, true => em.mantissa < v ∧ v < em.mantissa + 1 / 2
  | true, false => v = em.mantissa + 1 / 2
  | true, true => em.mantissa + 1 / 2 < v ∧ v < em.mantissa + 1

variable {em : ExtendedMantissa} {v : ℚ}

theorem keeps_exact (m : Nat) : Keeps (.ofMantissaAndAccuracy m .exact) m := rfl

/-- The number lies between the mantissa and the next one. -/
theorem Keeps.bounds (h : Keeps em v) : em.mantissa ≤ v ∧ v < em.mantissa + 1 := by
  obtain ⟨m, _ | _, _ | _⟩ := em <;> simp only [Keeps] at h <;> constructor <;> linarith

/-- Rounding a cut mantissa moves the number by no more than a half. -/
theorem Keeps.abs_roundedMantissa_sub_le (h : Keeps em v) : |em.roundedMantissa - v| ≤ 1 / 2 := by
  rw [abs_le]
  obtain ⟨m, _ | _, _ | _⟩ := em
  · simp only [Keeps] at h
    change -(1 / 2) ≤ (m : ℚ) - v ∧ (m : ℚ) - v ≤ 1 / 2
    constructor <;> linarith
  · simp only [Keeps] at h
    change -(1 / 2) ≤ (m : ℚ) - v ∧ (m : ℚ) - v ≤ 1 / 2
    constructor <;> linarith
  · -- in the middle both neighbours are as near, whichever is even
    simp only [Keeps] at h
    change -(1 / 2) ≤ ((m + m % 2 : Nat) : ℚ) - v ∧ ((m + m % 2 : Nat) : ℚ) - v ≤ 1 / 2
    have hodd : ((m % 2 : Nat) : ℚ) ≤ 1 := mod_cast Nat.le_of_lt_succ (Nat.mod_lt m (by norm_num))
    have hnonneg : (0 : ℚ) ≤ ((m % 2 : Nat) : ℚ) := Nat.cast_nonneg _
    rw [Nat.cast_add]
    constructor <;> linarith
  · simp only [Keeps] at h
    change -(1 / 2) ≤ ((m + 1 : Nat) : ℚ) - v ∧ ((m + 1 : Nat) : ℚ) - v ≤ 1 / 2
    rw [Nat.cast_add, Nat.cast_one]
    constructor <;> linarith

/-- One bit more is cut off. -/
theorem Keeps.shiftRightOne (h : Keeps em v) : Keeps em.shiftRightOne (v / 2) := by
  obtain ⟨m, r, s⟩ := em
  have hm : (m : ℚ) = 2 * (m / 2 : Nat) + (m % 2 : Nat) := mod_cast (Nat.div_add_mod m 2).symm
  -- the bit of the mantissa that is cut off becomes the round bit
  rcases Nat.mod_two_eq_zero_or_one m with hbit | hbit <;> rw [hbit] at hm <;> push_cast at hm <;>
    cases r <;> cases s <;>
    simp only [Keeps, ExtendedMantissa.shiftRightOne, hbit] at h ⊢ <;>
    simp only [bne_self_eq_false, Bool.or_self, Bool.or_true, Bool.or_false, Nat.reduceBNe] <;>
    grind

/-- Bits are cut off. -/
theorem Keeps.shiftRight (h : Keeps em v) (n : Nat) : Keeps (em >>> n) (v / 2 ^ n) := by
  induction n with
  | zero =>
    rw [pow_zero, div_one]
    exact h
  | succ n ih =>
    rw [pow_succ, ← div_div]
    exact ih.shiftRightOne

/-- Rounding a cut mantissa gives a nearest whole number. -/
theorem Keeps.nearest (h : Keeps em v) (k : Int) : |em.roundedMantissa - v| ≤ |k - v| := by
  rcases eq_or_ne k em.roundedMantissa with rfl | hne
  · rw [Int.cast_natCast]
  · have hstep : (1 : ℚ) ≤ |(k : ℚ) - em.roundedMantissa| := by
      have : 1 ≤ |k - em.roundedMantissa| := Int.one_le_abs (sub_ne_zero.2 hne)
      exact_mod_cast this
    have htriangle := abs_sub_le (k : ℚ) v em.roundedMantissa
    rw [abs_sub_comm v] at htriangle
    linarith [h.abs_roundedMantissa_sub_le]

/-! ## Rounding at the exponent of a double -/

/-- `w` is in units of the last bit of the doubles around it, `2 ^ t`. -/
structure HasUnit (w : ℚ) (t : Int) : Prop where
  nonneg : 0 ≤ w
  lt : w < 2 ^ 53
  least : -1074 ≤ t
  full : 2 ^ 52 ≤ w ∨ t = -1074

variable {w q : ℚ} {t : Int}

/-- The whole number of units nearest to a number is the representable one nearest to it. -/
theorem HasUnit.nearest (hw : HasUnit w t) (h : Keeps em w) (hq : IsRepresentable q) :
    |em.roundedMantissa * 2 ^ t - w * 2 ^ t| ≤ |q - w * 2 ^ t| := by
  obtain ⟨-, k, f, hk, hf, rfl⟩ := hq
  rw [← sub_mul, abs_mul, abs_of_pos (zpow_pos_two t)]
  rcases le_or_gt t f with htf | hft
  · -- a coarser number is a whole number of units too
    have hwhole : (k : ℚ) * 2 ^ f = (k * 2 ^ (f - t).toNat : Int) * 2 ^ t := by
      rw [Int.cast_mul, Int.cast_pow, Int.cast_ofNat, mul_assoc, ← zpow_natCast,
        ← zpow_add₀ (by norm_num)]
      congr 2
      omega
    rw [hwhole, ← sub_mul, abs_mul, abs_of_pos (zpow_pos_two t)]
    exact mul_le_mul_of_nonneg_right (h.nearest _) (zpow_pos_two t).le
  · -- a finer number is below the least number with this unit
    have hfull : 2 ^ 52 ≤ w := hw.full.resolve_right (by omega)
    have hq : (k : ℚ) * 2 ^ f ≤ 2 ^ 52 * 2 ^ t := by
      have hk : (k : ℚ) ≤ 2 ^ 53 := mod_cast (le_abs_self k).trans hk
      calc (k : ℚ) * 2 ^ f ≤ 2 ^ 53 * 2 ^ f := mul_le_mul_of_nonneg_right hk (zpow_pos_two f).le
        _ ≤ 2 ^ 53 * 2 ^ (t - 1) :=
          mul_le_mul_of_nonneg_left (zpow_le_zpow_right₀ (by norm_num) (by omega)) (by norm_num)
        _ = 2 ^ 52 * 2 ^ t := by rw [zpow_sub_one₀ (by norm_num)]; ring
    have hnear := h.nearest (2 ^ 52)
    rw [Int.cast_pow, Int.cast_ofNat, abs_of_nonpos (sub_nonpos.2 hfull)] at hnear
    have hbelow := mul_le_mul_of_nonneg_right hfull (zpow_pos_two t).le
    calc |(em.roundedMantissa : ℚ) - w| * 2 ^ t ≤ -(2 ^ 52 - w) * 2 ^ t :=
          mul_le_mul_of_nonneg_right hnear (zpow_pos_two t).le
      _ = w * 2 ^ t - 2 ^ 52 * 2 ^ t := by ring
      _ ≤ w * 2 ^ t - k * 2 ^ f := by linarith
      _ ≤ |k * 2 ^ f - w * 2 ^ t| := by rw [abs_sub_comm]; exact le_abs_self _

/-- A rounded mantissa has all its bits or one more. -/
theorem HasUnit.roundedMantissa_le (hw : HasUnit w t) (h : Keeps em w) :
    em.roundedMantissa ≤ 2 ^ 53 := by
  have hnear := (abs_le.1 h.abs_roundedMantissa_sub_le).2
  have hlt : (em.roundedMantissa : ℚ) < (2 ^ 53 + 1 : Nat) := by
    push_cast
    linarith [hw.lt]
  exact Nat.lt_succ_iff.1 (mod_cast hlt)

theorem HasUnit.le_roundedMantissa (hw : HasUnit w t) (h : Keeps em w) :
    2 ^ 52 ≤ em.roundedMantissa ∨ t = -1074 := by
  refine hw.full.imp_left fun hfull => ?_
  have hnear := (abs_le.1 h.abs_roundedMantissa_sub_le).1
  have hlt : ((2 ^ 52 - 1 : Nat) : ℚ) < em.roundedMantissa := by
    push_cast
    linarith
  exact Nat.le_of_pred_lt (mod_cast hlt)

/-- Only what lies beyond the infinities is rounded beyond them. -/
theorem HasUnit.overflow_le (hw : HasUnit w t) (h : Keeps em w)
    (hover : overflow < em.roundedMantissa * 2 ^ t) : overflow ≤ w * 2 ^ t := by
  have ht : 971 < t := by
    by_contra hle
    have hm : (em.roundedMantissa : ℚ) ≤ 2 ^ 53 := mod_cast hw.roundedMantissa_le h
    refine hover.not_ge ?_
    calc (em.roundedMantissa : ℚ) * 2 ^ t ≤ 2 ^ 53 * 2 ^ t :=
          mul_le_mul_of_nonneg_right hm (zpow_pos_two t).le
      _ ≤ 2 ^ 53 * 2 ^ (971 : Int) :=
        mul_le_mul_of_nonneg_left (zpow_le_zpow_right₀ (by norm_num) (not_lt.1 hle)) (by norm_num)
      _ = overflow := overflow_eq.symm
  exact overflow_le_mul_zpow (hw.full.resolve_right (by omega)) ht

variable {m : Nat} {e : Int} {acc : Accuracy} {s : Sign}

theorem targetExponent_eq (m : Nat) (e : Int) :
    binary64.targetExponent (totalExponent m e) = max (m.log2 + e - 52) (-1074) := by
  rw [totalExponent, Float.Model.Format.targetExponent]
  change max ((m.log2 : Int) + 1 + e - 53) (-1074) = _
  congr 1
  omega

/-- Bits are cut off until the exponent is that of a double. -/
theorem exists_hasUnit (hfine : 2 ^ 52 ≤ m ∨ e ≤ -1074)
    (h : Keeps (.ofMantissaAndAccuracy m acc) v) :
    ∃ w, Keeps (shiftToTargetExponent binary64 m e acc).1 w ∧
      HasUnit w (shiftToTargetExponent binary64 m e acc).2 ∧
      v * 2 ^ e = w * 2 ^ (shiftToTargetExponent binary64 m e acc).2 := by
  obtain ⟨hmv, hvm⟩ := h.bounds
  have hmant : (ExtendedMantissa.ofMantissaAndAccuracy m acc).mantissa = m := by
    rcases acc with _ | _ | _ | _ <;> rfl
  rw [hmant] at hmv hvm
  have hlog : m < 2 ^ (m.log2 + 1) := Nat.lt_log2_self
  set t := max (m.log2 + e - 52) (-1074) with ht
  have het : e ≤ t := by
    rcases hfine with hm | he
    · have : 52 ≤ m.log2 := (Nat.le_log2 (by omega)).2 hm
      omega
    · omega
  obtain ⟨n, hn⟩ := Int.eq_ofNat_of_zero_le (sub_nonneg.2 het)
  have hshift : shiftToTargetExponent binary64 m e acc =
      (ExtendedMantissa.ofMantissaAndAccuracy m acc >>> n, t) := by
    rw [shiftToTargetExponent, targetExponent_eq, ← ht, shiftToExponent]
    rw [hn, Int.toNat_natCast]
    congr 1
    omega
  rw [hshift]
  have hpow : (0 : ℚ) < 2 ^ n := by positivity
  refine ⟨v / 2 ^ n, h.shiftRight n, ⟨?_, ?_, le_max_right _ _, ?_⟩, ?_⟩
  · exact div_nonneg ((Nat.cast_nonneg m).trans hmv) hpow.le
  · rw [div_lt_iff₀ hpow]
    have hbits : 2 ^ (m.log2 + 1) ≤ 2 ^ 53 * 2 ^ n := by
      rw [← pow_add]
      exact Nat.pow_le_pow_right (by norm_num) (by omega)
    exact hvm.trans_le (mod_cast hlog.trans_le hbits)
  · refine or_iff_not_imp_right.2 fun hleast => ?_
    have hne : m ≠ 0 := by
      rintro rfl
      rw [Nat.log2_zero] at ht
      omega
    rw [le_div_iff₀ hpow, ← pow_add, show 52 + n = m.log2 by omega]
    have hself : 2 ^ m.log2 ≤ m := Nat.log2_self_le hne
    exact (mod_cast hself : (2 : ℚ) ^ m.log2 ≤ m).trans hmv
  · rw [show t = n + e by omega, zpow_add₀ (by norm_num), zpow_natCast]
    field_simp

/-- A rounded mantissa that is one bit too long is a power of two and loses no bit. -/
theorem isCanonical_shiftToTargetExponent (hm : m ≤ 2 ^ 53) (ht : -1074 ≤ t)
    (hfull : 2 ^ 52 ≤ m ∨ t = -1074) :
    IsCanonical (shiftToTargetExponent binary64 m t .exact).1.mantissa
        (shiftToTargetExponent binary64 m t .exact).2 ∧
      ((shiftToTargetExponent binary64 m t .exact).1.mantissa : ℚ) *
        2 ^ (shiftToTargetExponent binary64 m t .exact).2 = m * 2 ^ t := by
  rcases hm.lt_or_eq with hlt | rfl
  · have hlog : m.log2 ≤ 52 := by
      rcases eq_or_ne m 0 with rfl | hne
      · norm_num
      · exact Nat.lt_succ_iff.1 ((Nat.log2_lt hne).2 hlt)
    have hshift : shiftToTargetExponent binary64 m t .exact = (⟨m, false, false⟩, t) := by
      rw [shiftToTargetExponent, targetExponent_eq, shiftToExponent]
      rw [Int.toNat_eq_zero.2 (by omega)]
      simp
      rfl
    rw [hshift]
    exact ⟨⟨hlt, ht, hfull⟩, rfl⟩
  · have hshift : shiftToTargetExponent binary64 (2 ^ 53) t .exact =
        (⟨2 ^ 52, false, false⟩, t + 1) := by
      rw [shiftToTargetExponent, targetExponent_eq, shiftToExponent]
      rw [Nat.log2_two_pow, show (max (((53 : Nat) : Int) + t - 52) (-1074) - t).toNat = 1 by omega]
      rfl
    rw [hshift]
    refine ⟨⟨by norm_num, by dsimp only; omega, .inl le_rfl⟩, ?_⟩
    dsimp only
    rw [zpow_add_one₀ (by norm_num)]
    push_cast
    ring

/-! ## Packing -/

variable {hm : 0 < m}

/-- A number whose mantissa has its top bit comes back out of its bits. -/
theorem unpack_pack_normal (hfull : 2 ^ 52 ≤ m) (hlt : m < 2 ^ 53) (hleast : -1074 ≤ e)
    (he : e ≤ 971) :
    unpack binary64 (pack binary64 (.finite s m e hm)) = .finite s m e hm := by
  have hlog : m.log2 = 52 := (Nat.log2_eq_iff hm.ne').2 ⟨hfull, hlt⟩
  obtain ⟨b, hb⟩ := Int.eq_ofNat_of_zero_le (show 0 ≤ e + 1075 by omega)
  have hbias : (e + binary64.exponentBias + binary64.mantissaBitsWithoutImplicit).toNat = b := by
    change (e + 1023 + 52).toNat = b
    omega
  have hbits : (BitVec.ofNat 11 b).toNat = b := Nat.mod_eq_of_lt (by norm_num; omega)
  have hmax : BitVec.ofNat 11 b ≠ -1#11 := by
    rw [← BitVec.toNat_inj.ne, hbits]
    change b ≠ 2047
    omega
  have hzero : BitVec.ofNat 11 b ≠ 0#11 := by
    rw [← BitVec.toNat_inj.ne, hbits]
    change b ≠ 0
    omega
  have hmant : (1#1 ++ BitVec.ofNat 52 m).toNat = m := by
    rw [toNat_one_append, BitVec.toNat_ofNat]
    omega
  rw [pack]
  dsimp only
  rw [hbias, if_neg (by norm_num; omega), if_pos (by rw [hlog]; rfl), unpack]
  simp only [unpackExponent_packComponents, unpackMantissa_packComponents,
    unpackSign_packComponents, Sign.ofBitVec_toBitVec, hbits, hmant]
  rw [if_neg hmax, if_neg hzero]
  congr 1
  change (b : Int) - 1075 = e
  omega

/-- A number with the least exponent whose mantissa lacks its top bit comes back out of its bits. -/
theorem unpack_pack_subnormal (hlt : m < 2 ^ 52) :
    unpack binary64 (pack binary64 (.finite s m (-1074) hm)) = .finite s m (-1074) hm := by
  have hlog : m.log2 + 1 ≠ binary64.mantissaBits := by
    have := (Nat.log2_lt hm.ne').2 hlt
    change m.log2 + 1 ≠ 53
    omega
  have hbits : (BitVec.ofNat 52 m).toNat = m := Nat.mod_eq_of_lt hlt
  have hzero : BitVec.ofNat 52 m ≠ 0#52 := by
    rw [← BitVec.toNat_inj.ne, hbits]
    exact hm.ne'
  rw [pack]
  dsimp only
  rw [if_neg (by decide), if_neg hlog, unpack]
  simp only [unpackExponent_packComponents, unpackMantissa_packComponents,
    unpackSign_packComponents, Sign.ofBitVec_toBitVec, hbits]
  rw [if_neg (by decide), if_pos trivial, dif_neg hzero]
  rfl

theorem unpack_packedInfinity (s : Sign) :
    unpack binary64 (packedInfinity binary64 s) = .infinity s := by
  simp [unpack, packedInfinity]

/-- A double comes back out of its bits. -/
theorem unpack_pack {u : UnpackedFloat} (hu : IsDouble u) :
    unpack binary64 (pack binary64 u) = u := by
  cases u with
  | notANumber => exact unpack_packedNaN
  | zero s => exact unpack_packedZero
  | infinity s => exact unpack_packedInfinity s
  | finite s m e hm =>
    obtain ⟨⟨hlt, hleast, hfull⟩, he⟩ := hu
    rcases le_or_gt (2 ^ 52) m with htop | htop
    · exact unpack_pack_normal htop hlt hleast he
    · obtain rfl : e = -1074 := hfull.resolve_left (by omega)
      exact unpack_pack_subnormal htop

/-- Packing a double keeps its value. -/
theorem value_pack_isDouble {u : UnpackedFloat} (hu : IsDouble u) :
    value (.ofModel (.pack u)) = unpackedValue u := congrArg unpackedValue (unpack_pack hu)

/-- Packing a double that is a number gives a number. -/
theorem isNaN_pack_isDouble {u : UnpackedFloat} (hu : IsDouble u) :
    (Float.ofModel (.pack u)).isNaN = u.isNaN := congrArg UnpackedFloat.isNaN (unpack_pack hu)

/-- What is too large becomes an infinity. -/
theorem unpack_pack_overflow (he : 971 < e) :
    unpack binary64 (pack binary64 (.finite s m e hm)) = .infinity s := by
  have hbias : 2 ^ 11 ≤
      (e + binary64.exponentBias + binary64.mantissaBitsWithoutImplicit).toNat + 1 := by
    change 2048 ≤ (e + 1023 + 52).toNat + 1
    omega
  rw [pack]
  dsimp only
  rw [if_pos hbias, unpack_packedInfinity]

/-- Packing keeps the value of what has the mantissa and the exponent of a double, but nothing is
beyond the infinities. -/
theorem value_pack (h : IsCanonical m e) :
    value (.ofModel (.pack (.finite s m e hm))) = signed s (min (m * 2 ^ e) overflow) := by
  rcases le_or_gt e 971 with he | he
  · rw [value_pack_isDouble (show IsDouble (.finite s m e hm) from ⟨h, he⟩),
      min_eq_left (mul_zpow_lt_overflow h.lt he).le]
    rfl
  · change unpackedValue (unpack binary64 (pack binary64 (.finite s m e hm))) = _
    have hfull : 2 ^ 52 ≤ m := h.full.resolve_right (by omega)
    rw [unpack_pack_overflow he, min_eq_right (overflow_le_mul_zpow (mod_cast hfull) he)]
    rfl

/-- A packed number is a number. -/
theorem isNaN_pack (h : IsCanonical m e) :
    (Float.ofModel (.pack (.finite s m e hm))).isNaN = false := by
  rcases le_or_gt e 971 with he | he
  · exact isNaN_pack_isDouble (show IsDouble (.finite s m e hm) from ⟨h, he⟩)
  · exact congrArg UnpackedFloat.isNaN (@unpack_pack_overflow m e s hm he)

/-! ## Rounding -/

theorem abs_signed_sub_signed (s : Sign) (a b : ℚ) : |signed s a - signed s b| = |a - b| := by
  cases s with
  | positive => rfl
  | negative => rw [signed, signed, neg_sub_neg, abs_sub_comm]

/-- A double of the nearest value is a nearest double. -/
theorem rounds_of_nearest {x : Float} (hx : x.isNaN = false) {a : ℚ} (hval : value x = signed s a)
    (hnear : ∀ q, IsRepresentable q → |a - v| ≤ |q - v|) : Rounds x (signed s v) := by
  refine ⟨hx, fun q hq => ?_⟩
  rw [hval, abs_signed_sub_signed]
  have hflip : |q - signed s v| = |signed s q - v| := by
    cases s with
    | positive => rfl
    | negative => rw [signed, signed, ← neg_add', abs_neg, sub_neg_eq_add]
  rw [hflip]
  exact hnear _ (hq.signed s)

/-- What arithmetic packs is the double nearest to the number whose digits it found. -/
theorem rounds_pack_roundWithAccuracy (hfine : 2 ^ 52 ≤ m ∨ e ≤ -1074)
    (h : Keeps (.ofMantissaAndAccuracy m acc) v) (s : Sign) :
    Rounds (.ofModel (.pack (roundWithAccuracy binary64 s m e acc))) (signed s (v * 2 ^ e)) := by
  obtain ⟨w, hkeeps, hunit, hw⟩ := exists_hasUnit hfine h
  rw [roundWithAccuracy]
  set cut := shiftToTargetExponent binary64 m e acc
  obtain ⟨hcanon, hval⟩ := isCanonical_shiftToTargetExponent (hunit.roundedMantissa_le hkeeps)
    hunit.least (hunit.le_roundedMantissa hkeeps)
  set final := shiftToTargetExponent binary64 cut.1.roundedMantissa cut.2 .exact
  have hnear : ∀ q, IsRepresentable q →
      |final.1.mantissa * 2 ^ final.2 - v * 2 ^ e| ≤ |q - v * 2 ^ e| := by
    intro q hq
    rw [hval, hw]
    exact hunit.nearest hkeeps hq
  change Rounds (.ofModel (.pack (if hz : final.1.mantissa = 0 then .zero s else
    .finite s final.1.mantissa final.2 (Nat.pos_of_ne_zero hz)))) _
  split
  · next hz =>
    have hzero : IsDouble (.zero s) := trivial
    refine rounds_of_nearest (a := 0) (isNaN_pack_isDouble hzero) ?_ fun q hq => ?_
    · rw [value_pack_isDouble hzero]
      cases s
      · exact neg_zero.symm
      · rfl
    · have := hnear q hq
      rwa [hz, Nat.cast_zero, zero_mul] at this
  · next hz =>
    refine rounds_of_nearest (isNaN_pack hcanon) (value_pack hcanon) fun q hq => ?_
    rcases le_or_gt (final.1.mantissa * 2 ^ final.2 : ℚ) overflow with hle | hover
    · rw [min_eq_left hle]
      exact hnear q hq
    · -- an infinity is nearest to what lies beyond it
      rw [min_eq_right hover.le]
      have hbeyond : overflow ≤ v * 2 ^ e := by
        rw [hw]
        exact hunit.overflow_le hkeeps (hval ▸ hover)
      have hq := (le_abs_self q).trans hq.1
      rw [abs_of_nonpos (by linarith), abs_of_nonpos (by linarith)]
      linarith

end SceneScript.Binary64
