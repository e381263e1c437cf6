import Mathlib.Algebra.Order.Ring.Rat
import Mathlib.Tactic.NormNum
import Mathlib.Tactic.Positivity
import Mathlib.Tactic.Ring
import SceneScript.Proofs.Binary64.Order

/-!
# The numbers that doubles stand for

A finite double stands for a sign, a mantissa and a power of two. Its mantissa uses all of its 53
bits unless the exponent is the least one (`IsCanonical`), so of two doubles the one with the
greater exponent, or at one exponent the greater mantissa, stands for the greater number
(`IsCanonical.le_iff`). An infinity is taken to stand for the power of two that is just too large
for a double. So every double but what is not a number has a `value`, and doubles are in the order
of their values (`le_iff_value`, `lt_iff_value`).

The values are the multiples of a power of two from `2 ^ -1074` up by at most `2 ^ 53` that are not
beyond the infinities (`IsRepresentable`).
-/

namespace SceneScript.Binary64

open Float.Model (UnpackedFloat)
open Float.Model.Format (binary64)
open Float.Model.UnpackedFloat

/-! ## Mantissas and exponents -/

/-- A mantissa and an exponent are those of a double: all bits of the mantissa are used, or the
exponent is the least. -/
structure IsCanonical (m : Nat) (e : Int) : Prop where
  lt : m < 2 ^ 53
  least : -1074 ≤ e
  full : 2 ^ 52 ≤ m ∨ e = -1074

variable {m m' : Nat} {e e' : Int} {s : Sign}

theorem zpow_pos_two (e : Int) : (0 : ℚ) < 2 ^ e := zpow_pos (by norm_num) e

/-- A number with a smaller exponent is smaller, if the other one uses all bits of its mantissa. -/
theorem mul_zpow_lt (hm : m < 2 ^ 53) (hm' : 2 ^ 52 ≤ m') (he : e < e') :
    (m : ℚ) * 2 ^ e < m' * 2 ^ e' := by
  have hpow : (2 : ℚ) ^ (53 + e) ≤ 2 ^ (52 + e') := zpow_le_zpow_right₀ (by norm_num) (by omega)
  have hlow : (m : ℚ) < 2 ^ 53 := mod_cast hm
  have hhigh : (2 : ℚ) ^ 52 ≤ m' := mod_cast hm'
  calc (m : ℚ) * 2 ^ e < 2 ^ 53 * 2 ^ e := mul_lt_mul_of_pos_right hlow (zpow_pos_two e)
    _ = 2 ^ (53 + e) := by rw [zpow_add₀ (by norm_num)]; norm_num
    _ ≤ 2 ^ (52 + e') := hpow
    _ = 2 ^ 52 * 2 ^ e' := by rw [zpow_add₀ (by norm_num)]; norm_num
    _ ≤ m' * 2 ^ e' := mul_le_mul_of_nonneg_right hhigh (zpow_pos_two e').le

/-- Canonical mantissas and exponents are in the order of the numbers that they make. -/
theorem IsCanonical.le_iff (h : IsCanonical m e) (h' : IsCanonical m' e') :
    (m : ℚ) * 2 ^ e ≤ m' * 2 ^ e' ↔ e < e' ∨ e = e' ∧ m ≤ m' := by
  rcases lt_trichotomy e e' with he | rfl | he
  · have hfull : 2 ^ 52 ≤ m' := h'.full.resolve_right (by have := h.least; omega)
    exact iff_of_true (mul_zpow_lt h.lt hfull he).le (.inl he)
  · rw [mul_le_mul_iff_left₀ (zpow_pos_two e), Nat.cast_le]
    omega
  · have hfull : 2 ^ 52 ≤ m := h.full.resolve_right (by have := h'.least; omega)
    refine iff_of_false (not_le.2 (mul_zpow_lt h'.lt hfull he)) ?_
    omega

/-- The number that an infinity is taken to stand for: the least power of two that is no double. -/
@[irreducible] def overflow : ℚ := 2 ^ (1024 : Int)

theorem overflow_pos : 0 < overflow := by
  rw [overflow]
  exact zpow_pos_two 1024

theorem overflow_eq : overflow = 2 ^ 53 * 2 ^ (971 : Int) := by
  rw [overflow, show (1024 : Int) = 53 + 971 from rfl, zpow_add₀ (by norm_num)]
  rfl

/-- A double is below the infinities. -/
theorem mul_zpow_lt_overflow (hm : m < 2 ^ 53) (he : e ≤ 971) : (m : ℚ) * 2 ^ e < overflow := by
  have hlow : (m : ℚ) < 2 ^ 53 := mod_cast hm
  calc (m : ℚ) * 2 ^ e < 2 ^ 53 * 2 ^ e := mul_lt_mul_of_pos_right hlow (zpow_pos_two e)
    _ ≤ 2 ^ 53 * 2 ^ (971 : Int) :=
      mul_le_mul_of_nonneg_left (zpow_le_zpow_right₀ (by norm_num) he) (by norm_num)
    _ = overflow := overflow_eq.symm

/-- What is too large for a double is not below the infinities. -/
theorem overflow_le_mul_zpow {w : ℚ} (hw : 2 ^ 52 ≤ w) (he : 971 < e) : overflow ≤ w * 2 ^ e := by
  calc overflow = 2 ^ 52 * 2 ^ (971 + 1 : Int) := by
        rw [overflow_eq, zpow_add_one₀ (by norm_num)]
        ring
    _ ≤ 2 ^ 52 * 2 ^ e :=
      mul_le_mul_of_nonneg_left (zpow_le_zpow_right₀ (by norm_num) he) (by norm_num)
    _ ≤ w * 2 ^ e := mul_le_mul_of_nonneg_right hw (zpow_pos_two e).le

/-! ## Values of unpacked doubles -/

/-- A number with a sign. -/
def signed : Sign → ℚ → ℚ
  | .negative, q => -q
  | .positive, q => q

theorem abs_signed (s : Sign) {q : ℚ} (hq : 0 ≤ q) : |signed s q| = q := by
  cases s
  · rw [signed, abs_neg, abs_of_nonneg hq]
  · exact abs_of_nonneg hq

/-- The number that an unpacked double stands for, if it is one. -/
def unpackedValue : UnpackedFloat → ℚ
  | .notANumber => 0
  | .zero _ => 0
  | .infinity s => signed s overflow
  | .finite s m e _ => signed s (m * 2 ^ e)

/-- An unpacked double has the mantissa and the exponent of a double. -/
def IsDouble : UnpackedFloat → Prop
  | .finite _ m e _ => IsCanonical m e ∧ e ≤ 971
  | _ => True

variable {hm : 0 < m} {hm' : 0 < m'} {s' : Sign}

/-- A finite double that is not zero has a value strictly between zero and the infinities. -/
theorem IsDouble.bounds (h : IsDouble (.finite s m e hm)) :
    0 < (m : ℚ) * 2 ^ e ∧ (m : ℚ) * 2 ^ e < overflow :=
  ⟨mul_pos (Nat.cast_pos.2 hm) (zpow_pos_two e), mul_zpow_lt_overflow h.1.lt h.2⟩

theorem IsDouble.le_iff (h : IsDouble (.finite s m e hm)) (h' : IsDouble (.finite s' m' e' hm')) :
    (m : ℚ) * 2 ^ e ≤ m' * 2 ^ e' ↔ e < e' ∨ e = e' ∧ m ≤ m' :=
  h.1.le_iff h'.1

/-- Numbers are in the order of their values. -/
theorem standing_le_iff {a b : UnpackedFloat} (ha : IsDouble a) (hb : IsDouble b)
    (hna : a.isNaN = false) (hnb : b.isNaN = false) :
    standing a ≤ standing b ↔ unpackedValue a ≤ unpackedValue b := by
  have hover := overflow_pos
  -- by kind and sign: those of different kinds lie on different sides of zero or an infinity
  rcases a with (_ | _) | _ | _ | ⟨_ | _, m₁, e₁, hm₁⟩ <;>
    rcases b with (_ | _) | _ | _ | ⟨_ | _, m₂, e₂, hm₂⟩ <;>
    simp only [standing, unpackedValue, signed, Prod.Lex.toLex_le_toLex] <;>
    grind [UnpackedFloat.isNaN, → IsDouble.bounds, → IsDouble.le_iff]

/-- The mantissa of a normal number has a bit more than is stored. -/
theorem toNat_one_append (b : BitVec 52) : (1#1 ++ b).toNat = 2 ^ 52 + b.toNat := by
  rw [BitVec.toNat_append, ← Nat.shiftLeft_add_eq_or_of_lt b.isLt]
  rfl

/-- The bits of a double give a mantissa and an exponent of a double. -/
theorem isDouble_unpack (b : BitVec 64) : IsDouble (unpack binary64 b) := by
  have hm := (@unpackMantissa binary64 b).isLt
  have he := (@unpackExponent binary64 b).isLt
  rw [unpack]
  dsimp only
  split
  · split <;> trivial
  · next hmax =>
    have hmax : (@unpackExponent binary64 b).toNat ≠ 2047 := fun h => hmax (BitVec.eq_of_toNat_eq h)
    split
    · next hzero =>
      split
      · trivial
      · -- below the least normal number the exponent is the least one
        rw [hzero]
        exact ⟨⟨hm.trans (by norm_num), by decide, .inr (by decide)⟩, by decide⟩
    · next hzero =>
      have hzero : (@unpackExponent binary64 b).toNat ≠ 0 := fun h =>
        hzero (BitVec.eq_of_toNat_eq h)
      change IsCanonical _ ((@unpackExponent binary64 b).toNat - 1075 : Int) ∧
        ((@unpackExponent binary64 b).toNat - 1075 : Int) ≤ 971
      rw [toNat_one_append]
      change (@unpackMantissa binary64 b).toNat < 2 ^ 52 at hm
      change (@unpackExponent binary64 b).toNat < 2 ^ 11 at he
      exact ⟨⟨by omega, by omega, .inl (by omega)⟩, by omega⟩

/-! ## Values of doubles -/

variable {x y : Float}

/-- The number that a double stands for. -/
def value (x : Float) : ℚ := unpackedValue x.toModel.unpack

/-- The value of a double from its bits. -/
theorem value_of_toBits {b : UInt64} (h : x.toBits = b) :
    value x = unpackedValue (unpack binary64 b.toBitVec) := by
  rw [← h]
  rfl

/-- Doubles that are numbers are in the order of their values. -/
theorem le_iff_value : x ≤ y ↔ x.isNaN = false ∧ y.isNaN = false ∧ value x ≤ value y := by
  rw [le_iff]
  exact and_congr_right fun hx => and_congr_right fun hy =>
    standing_le_iff (isDouble_unpack _) (isDouble_unpack _) hx hy

/-- A comparison and the same one the other way round. -/
theorem compare_then_eq_lt_iff (e₁ e₂ : Int) (m₁ m₂ : Nat) :
    (compare e₁ e₂).then (compare m₁ m₂) = .lt ↔ (compare e₂ e₁).then (compare m₂ m₁) = .gt := by
  rw [← Int.compare_swap e₁ e₂, ← Nat.compare_swap m₁ m₂, ← Ordering.swap_then]
  exact Ordering.swap_inj.symm

/-- One number is less than another when that one is not at most it. -/
theorem unpacked_lt_iff (a b : UnpackedFloat) :
    a.lt b ↔ a.isNaN = false ∧ b.isNaN = false ∧ ¬ b.le a := by
  unfold UnpackedFloat.lt UnpackedFloat.le
  rcases a with (_ | _) | _ | _ | ⟨_ | _, m₁, e₁, _⟩ <;>
    rcases b with (_ | _) | _ | _ | ⟨_ | _, m₂, e₂, _⟩ <;>
    simp [UnpackedFloat.compare, UnpackedFloat.isNaN]
  case infinity.negative.infinity.positive => decide
  case finite.negative.finite.negative => exact (compare_then_eq_lt_iff e₂ e₁ m₂ m₁).symm
  case finite.positive.finite.positive => exact compare_then_eq_lt_iff e₁ e₂ m₁ m₂

theorem lt_iff_value : x < y ↔ x.isNaN = false ∧ y.isNaN = false ∧ value x < value y := by
  have hle : y.toModel.unpack.le x.toModel.unpack = true ↔
      y.isNaN = false ∧ x.isNaN = false ∧ value y ≤ value x := by
    rw [← le_iff_value]
    change _ ↔ decide (y.toModel ≤ x.toModel) = true
    rw [decide_eq_true_iff]
    rfl
  change decide (x.toModel < y.toModel) = true ↔ _
  rw [decide_eq_true_iff]
  change x.toModel.unpack.lt y.toModel.unpack = true ↔ _
  rw [unpacked_lt_iff, hle]
  refine and_congr_right fun hx => and_congr_right fun hy => ?_
  rw [← not_le]
  exact not_congr ⟨fun h => h.2.2, fun h => ⟨hy, hx, h⟩⟩

/-- What is at least a number is above it or at most as great. -/
theorem lt_or_le_of_le (h : x ≤ y) : x < y ∨ y ≤ x := by
  obtain ⟨hx, hy, -⟩ := le_iff_value.1 h
  rcases lt_or_ge (value x) (value y) with hlt | hge
  · exact .inl (lt_iff_value.2 ⟨hx, hy, hlt⟩)
  · exact .inr (le_iff_value.2 ⟨hy, hx, hge⟩)

/-! ## Representable numbers -/

/-- The values of doubles: few enough bits in front of a power of two that is not too small, and no
more than the infinities. -/
def IsRepresentable (q : ℚ) : Prop :=
  |q| ≤ overflow ∧ ∃ k e : Int, |k| ≤ 2 ^ 53 ∧ -1074 ≤ e ∧ q = k * 2 ^ e

theorem IsRepresentable.neg {q : ℚ} (h : IsRepresentable q) : IsRepresentable (-q) := by
  obtain ⟨hover, k, e, hk, he, rfl⟩ := h
  exact ⟨(abs_neg _).trans_le hover, -k, e, (abs_neg _).trans_le hk, he, by push_cast; ring⟩

/-- A sign keeps a number representable. -/
theorem IsRepresentable.signed {q : ℚ} (h : IsRepresentable q) (s : Sign) :
    IsRepresentable (signed s q) := by
  cases s with
  | positive => exact h
  | negative => exact h.neg

theorem isRepresentable_zero : IsRepresentable 0 :=
  ⟨by rw [abs_zero]; exact overflow_pos.le, 0, 0, by norm_num⟩

theorem isRepresentable_overflow : IsRepresentable overflow := by
  refine ⟨(abs_of_pos overflow_pos).le, 2 ^ 53, 971, by norm_num, by norm_num, ?_⟩
  rw [overflow_eq, Int.cast_pow, Int.cast_ofNat]

theorem isRepresentable_value (x : Float) : IsRepresentable (value x) := by
  have hx : IsDouble x.toModel.unpack := isDouble_unpack _
  rw [value]
  cases hu : x.toModel.unpack with
  | notANumber | zero s => exact isRepresentable_zero
  | infinity s => exact isRepresentable_overflow.signed s
  | finite s m e hm =>
    rw [hu] at hx
    refine IsRepresentable.signed ⟨?_, m, e, ?_, hx.1.least, by rw [Int.cast_natCast]⟩ s
    · rw [abs_of_pos hx.bounds.1]
      exact hx.bounds.2.le
    · have := hx.1.lt
      rw [abs_of_nonneg (by positivity)]
      omega

end SceneScript.Binary64
