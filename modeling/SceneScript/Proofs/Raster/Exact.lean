import Mathlib.Data.Rat.Floor
import Mathlib.Tactic.Linarith
import SceneScript.Scalar

/-!
# Exact scalars

The rational numbers are a scalar on which every operation is exact and every number is finite. What
is written over any scalar can be read there, and the laws of geometry hold of it as they stand: the
comparisons are those of the order, `larger`, `smaller` and `clamp` are its extremes
(`Exact.larger_eq`, `Exact.smaller_eq`, `Exact.clamp_eq`), and what is multiplied up by squaring is
the power (`Exact.power_eq`).

A number is rounded to the nearest whole one (`Exact.abs_nearest_sub_le`), and rounding keeps the
order and the whole numbers (`Exact.nearest_mono`, `Exact.nearest_intCast`). So what lies between
two rounded numbers is within a half of what lies between the numbers themselves
(`Exact.abs_sub_between_le`).
-/

namespace SceneScript

namespace Exact

/-- The nearest whole number, halves going away from zero. -/
def nearest (x : ℚ) : Int := if 0 ≤ x then ⌊x + 1 / 2⌋ else ⌈x - 1 / 2⌉

/-- The whole part, toward zero. -/
def whole (x : ℚ) : Int := if 0 ≤ x then ⌊x⌋ else ⌈x⌉

end Exact

/-- Exact arithmetic. -/
instance exactScalar : Scalar ℚ where
  le a b := decide (a ≤ b)
  lt a b := decide (a < b)
  ofInt n := n
  round x := Exact.nearest x
  toInt := Exact.whole
  isFinite _ := true
  sortsBefore a b := decide (a ≤ b)

namespace Exact

variable {x y low high : ℚ} {n : Int}

/-! ## Rounding -/

@[simp] theorem whole_intCast (n : Int) : whole n = n := by
  rw [whole]
  split
  · exact Int.floor_intCast n
  · exact Int.ceil_intCast n

theorem whole_of_nonneg (h : 0 ≤ x) : whole x = ⌊x⌋ := if_pos h

theorem whole_neg (x : ℚ) : whole (-x) = -whole x := by
  rw [whole, whole]
  rcases lt_trichotomy x 0 with h | rfl | h
  · rw [if_pos (by linarith), if_neg (by linarith), Int.floor_neg]
  · simp
  · rw [if_neg (by linarith), if_pos h.le, Int.ceil_neg]

theorem whole_mono (h : x ≤ y) : whole x ≤ whole y := by
  unfold whole
  split <;> split
  · exact Int.floor_le_floor h
  · linarith
  · exact (Int.ceil_le.2 (by push_cast; linarith)).trans (Int.floor_nonneg.2 (by assumption))
  · exact Int.ceil_le_ceil h

theorem abs_nearest_sub_le (x : ℚ) : |nearest x - x| ≤ 1 / 2 := by
  rw [nearest, abs_le]
  split
  · have h₁ := Int.floor_le (x + 1 / 2)
    have h₂ := Int.lt_floor_add_one (x + 1 / 2)
    constructor <;> linarith
  · have h₁ := Int.le_ceil (x - 1 / 2)
    have h₂ := Int.ceil_lt_add_one (x - 1 / 2)
    constructor <;> linarith

theorem nearest_mono (h : x ≤ y) : nearest x ≤ nearest y := by
  unfold nearest
  split <;> split
  · exact Int.floor_le_floor (by linarith)
  · linarith
  · have hx : ⌈x - 1 / 2⌉ ≤ 0 := Int.ceil_le.2 (by push_cast; linarith)
    have hy : 0 ≤ ⌊y + 1 / 2⌋ := Int.le_floor.2 (by push_cast; linarith)
    exact hx.trans hy
  · exact Int.ceil_le_ceil (by linarith)

@[simp] theorem nearest_intCast (n : Int) : nearest n = n := by
  have h := abs_le.1 (abs_nearest_sub_le n)
  have hlow : (-1 : ℚ) < (nearest n - n : Int) := by push_cast; linarith
  have hhigh : ((nearest n - n : Int) : ℚ) < 1 := by push_cast; linarith
  norm_cast at hlow hhigh
  omega

/-- A whole number between two that are rounded is within a half of one between them. -/
theorem abs_sub_between_le (h : low ≤ high) (hlow : nearest low ≤ n) (hhigh : n ≤ nearest high) :
    |n - max low (min high n)| ≤ 1 / 2 := by
  have h₁ := abs_le.1 (abs_nearest_sub_le low)
  have h₂ := abs_le.1 (abs_nearest_sub_le high)
  have hlow' : (nearest low : ℚ) ≤ n := Int.cast_le.2 hlow
  have hhigh' : (n : ℚ) ≤ nearest high := Int.cast_le.2 hhigh
  rw [abs_le]
  rcases le_total high n with hn | hn
  · rw [min_eq_left hn, max_eq_right h]
    constructor <;> linarith
  · rw [min_eq_right hn]
    rcases le_total low n with hn' | hn'
    · rw [max_eq_right hn']
      norm_num
    · rw [max_eq_left hn']
      constructor <;> linarith

/-! ## Reading formulas at rational numbers -/

theorem literal_zero : @OfNat.ofNat ℚ 0 Scalar.literal = 0 := Int.cast_zero

theorem literal_one : @OfNat.ofNat ℚ 1 Scalar.literal = 1 := Int.cast_one

theorem ofInt_eq (n : Int) : (Scalar.ofInt n : ℚ) = n := rfl

theorem round_eq (x : ℚ) : Scalar.round x = nearest x := rfl

theorem toInt_intCast (n : Int) : Scalar.toInt (n : ℚ) = n := whole_intCast n

theorem le_iff {a b : ℚ} : Scalar.instLE.le a b ↔ a ≤ b := decide_eq_true_iff

theorem lt_iff {a b : ℚ} : Scalar.instLT.lt a b ↔ a < b := decide_eq_true_iff

theorem sortsBefore_iff {a b : ℚ} : Scalar.sortsBefore a b = true ↔ a ≤ b := decide_eq_true_iff

theorem same_iff {a b : ℚ} : Scalar.same a b = true ↔ a = b := by
  rw [Scalar.same, Bool.and_eq_true]
  exact (and_congr le_iff le_iff).trans le_antisymm_iff.symm

theorem larger_eq (a b : ℚ) : Scalar.larger a b = max a b := by
  rw [Scalar.larger]
  split
  · next h => exact (max_eq_right (lt_iff.1 h).le).symm
  · next h =>
    rw [if_pos (le_iff.2 le_rfl)]
    exact (max_eq_left (not_lt.1 (mt lt_iff.2 h))).symm

theorem smaller_eq (a b : ℚ) : Scalar.smaller a b = min a b := by
  rw [Scalar.smaller]
  split
  · next h => exact (min_eq_right (lt_iff.1 h).le).symm
  · next h =>
    rw [if_pos (le_iff.2 le_rfl)]
    exact (min_eq_left (not_lt.1 (mt lt_iff.2 h))).symm

theorem clamp_eq (h : low ≤ high) (a : ℚ) : Scalar.clamp low high a = max low (min high a) := by
  rw [Scalar.clamp]
  split
  · next hlow => rw [max_eq_left (min_le_of_right_le (lt_iff.1 hlow).le)]
  · next hlow =>
    have hlow := not_lt.1 (mt lt_iff.2 hlow)
    split
    · next hhigh => rw [min_eq_left (lt_iff.1 hhigh).le, max_eq_right h]
    · next hhigh => rw [min_eq_right (not_lt.1 (mt lt_iff.2 hhigh)), max_eq_right hlow]

/-! ## Powers -/

theorem timesPower_eq (b a : ℚ) (n : Nat) : Scalar.timesPower b a n = b * a ^ n := by
  induction b, a, n using Scalar.timesPower.induct with
  | case1 b a n hlast =>
    rw [Scalar.timesPower, if_pos hlast]
    have hn : n = 0 ∨ n = 1 := by omega
    rcases hn with rfl | rfl <;> simp
  | case2 b a n b' hmore ih =>
    have hb : b' = b * a ^ (n % 2) := by
      rcases Nat.mod_two_eq_zero_or_one n with h | h <;> simp [b', h]
    calc Scalar.timesPower b a n
      _ = Scalar.timesPower b' (a * a) (n / 2) := by rw [Scalar.timesPower, if_neg hmore]; rfl
      _ = b * a ^ (n % 2) * (a * a) ^ (n / 2) := by rw [ih, hb]
      _ = b * a ^ n := by rw [← pow_two, ← pow_mul, mul_assoc, ← pow_add, Nat.mod_add_div]

/-- A power by squaring is the power. -/
theorem power_eq (a : ℚ) (n : Nat) : Scalar.power a n = a ^ n := by
  rw [Scalar.power, timesPower_eq, literal_one, one_mul]

end Exact

end SceneScript
