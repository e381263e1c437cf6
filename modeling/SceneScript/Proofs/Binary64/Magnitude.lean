import SceneScript.Proofs.Binary64.Whole
import SceneScript.Vector

/-!
# How large results of arithmetic are

Doubles of at most `2 ^ k` have sums of at most `2 ^ (k + 1)` and products of at most the product of
the two powers, for powers of two are doubles and rounding does not pass a double. So a formula is
computed without leaving the range of the doubles if its operands leave room enough
(`Vec3.IsWithin.cross`, `Vec3.IsWithin.dot`). Zero comes out exactly (`Vec3.IsZero`).
-/

namespace SceneScript

open Binary64

namespace Binary64

variable {x y : Float} {v : ℚ} {k l : Nat}

/-- A product with zero is zero. -/
theorem value_mul_eq_zero (hx : x.isFinite) (hy : y.isFinite) (h : value x = 0 ∨ value y = 0) :
    value (x * y) = 0 := by
  have hround := rounds_mul hx hy
  rw [mul_eq_zero.2 h] at hround
  exact hround.value_eq isRepresentable_zero

theorem value_add_eq_zero (hx : x.isFinite) (hy : y.isFinite) (hx0 : value x = 0)
    (hy0 : value y = 0) : value (x + y) = 0 := by
  have hround := rounds_add hx hy
  rw [hx0, hy0, add_zero] at hround
  exact hround.value_eq isRepresentable_zero

/-- A finite double of at most `2 ^ k`, without its sign. -/
structure IsWithin (k : Nat) (x : Float) : Prop where
  isFinite : x.isFinite
  abs_le : |value x| ≤ 2 ^ k

/-- A power of two below the range's end. -/
theorem two_pow_lt_overflow (hk : k ≤ 1023) : (2 : ℚ) ^ k < overflow := by
  have hlt := mul_zpow_lt_overflow (m := 2 ^ 52) (e := 971) (by norm_num) le_rfl
  calc (2 : ℚ) ^ k ≤ 2 ^ 1023 := pow_le_pow_right₀ (by norm_num) hk
    _ = (2 ^ 52 : Nat) * 2 ^ (971 : Nat) := by rw [Nat.cast_pow, Nat.cast_ofNat, ← pow_add]
    _ = (2 ^ 52 : Nat) * 2 ^ (971 : Int) := by rw [← zpow_natCast, Nat.cast_ofNat]
    _ < overflow := hlt

theorem isRepresentable_two_pow (hk : k ≤ 1023) : IsRepresentable (2 ^ k) := by
  refine ⟨?_, 1, k, by norm_num, by omega, by rw [Int.cast_one, one_mul, zpow_natCast]⟩
  rw [abs_of_pos (by positivity)]
  exact (two_pow_lt_overflow hk).le

/-- A double nearest to a number of at most `2 ^ k` is of at most `2 ^ k`. -/
theorem Rounds.isWithin (h : Rounds x v) (hv : |v| ≤ 2 ^ k) (hk : k ≤ 1023) : IsWithin k x := by
  have hpower := isRepresentable_two_pow hk
  obtain ⟨hlow, hhigh⟩ := abs_le.1 hv
  have habs : |value x| ≤ 2 ^ k := abs_le.2 ⟨h.le_value hpower.neg hlow, h.value_le hpower hhigh⟩
  exact ⟨isFinite_of_abs_lt h.isNaN (habs.trans_lt (two_pow_lt_overflow hk)), habs⟩

theorem isWithin_ofInt {m : Nat} (hm : m ≤ 2 ^ k) (hk : k ≤ 1023) : IsWithin k (ofInt m) := by
  refine (rounds_ofInt m).isWithin ?_ hk
  rw [Nat.abs_cast]
  exact_mod_cast hm

namespace IsWithin

theorem isNaN (h : IsWithin k x) : x.isNaN = false := isNaN_of_isFinite h.isFinite

theorem mono (h : IsWithin k x) (hkl : k ≤ l) : IsWithin l x :=
  ⟨h.isFinite, h.abs_le.trans (pow_le_pow_right₀ (by norm_num) hkl)⟩

theorem add (hx : IsWithin k x) (hy : IsWithin k y) (hk : k + 1 ≤ 1023) :
    IsWithin (k + 1) (x + y) := by
  refine (rounds_add hx.isFinite hy.isFinite).isWithin ?_ hk
  calc |value x + value y| ≤ |value x| + |value y| := abs_add_le _ _
    _ ≤ 2 ^ k + 2 ^ k := add_le_add hx.abs_le hy.abs_le
    _ = 2 ^ (k + 1) := by rw [pow_succ, mul_two]

theorem sub (hx : IsWithin k x) (hy : IsWithin k y) (hk : k + 1 ≤ 1023) :
    IsWithin (k + 1) (x - y) := by
  refine (rounds_sub hx.isFinite hy.isFinite).isWithin ?_ hk
  calc |value x - value y| ≤ |value x| + |value y| := abs_sub _ _
    _ ≤ 2 ^ k + 2 ^ k := add_le_add hx.abs_le hy.abs_le
    _ = 2 ^ (k + 1) := by rw [pow_succ, mul_two]

theorem mul (hx : IsWithin k x) (hy : IsWithin l y) (hkl : k + l ≤ 1023) :
    IsWithin (k + l) (x * y) := by
  refine (rounds_mul hx.isFinite hy.isFinite).isWithin ?_ hkl
  rw [abs_mul, pow_add]
  exact mul_le_mul hx.abs_le hy.abs_le (abs_nonneg _) (by positivity)

end IsWithin

end Binary64

namespace Vec3

variable {a b c : Vec3 Float} {k l : Nat}

/-- A vector whose coordinates are finite doubles of at most `2 ^ k`. -/
structure IsWithin (k : Nat) (a : Vec3 Float) : Prop where
  x : Binary64.IsWithin k a.x
  y : Binary64.IsWithin k a.y
  z : Binary64.IsWithin k a.z

theorem IsWithin.sub (ha : a.IsWithin k) (hb : b.IsWithin k) (hk : k + 1 ≤ 1023) :
    (a - b).IsWithin (k + 1) :=
  ⟨ha.x.sub hb.x hk, ha.y.sub hb.y hk, ha.z.sub hb.z hk⟩

theorem IsWithin.cross (ha : a.IsWithin k) (hb : b.IsWithin k) (hk : k + k + 1 ≤ 1023) :
    (a.cross b).IsWithin (k + k + 1) := by
  have hmul : k + k ≤ 1023 := by omega
  exact ⟨(ha.y.mul hb.z hmul).sub (hb.y.mul ha.z hmul) hk,
    (ha.z.mul hb.x hmul).sub (hb.z.mul ha.x hmul) hk,
    (ha.x.mul hb.y hmul).sub (hb.x.mul ha.y hmul) hk⟩

theorem IsWithin.dot (ha : a.IsWithin k) (hb : b.IsWithin l) (hkl : k + l + 2 ≤ 1023) :
    Binary64.IsWithin (k + l + 2) (a.dot b) := by
  have hmul : k + l ≤ 1023 := by omega
  exact ((ha.x.mul hb.x hmul).add (ha.y.mul hb.y hmul) (by omega)).add
    ((ha.z.mul hb.z hmul).mono (by omega)) hkl

/-- A vector whose coordinates are zero, with either sign. -/
structure IsZero (a : Vec3 Float) : Prop where
  x : value a.x = 0
  y : value a.y = 0
  z : value a.z = 0

theorem isZero_sub_self (ha : a.IsWithin k) : (a - a).IsZero :=
  ⟨value_sub_self ha.x.isFinite, value_sub_self ha.y.isFinite, value_sub_self ha.z.isFinite⟩

/-- The coordinates of a vector product are zero if in each the two products are equal. -/
theorem isZero_cross_of_eq (ha : a.IsWithin k) (hb : b.IsWithin k) (hk : k + k + 1 ≤ 1023)
    (hx : value (a.y * b.z) = value (b.y * a.z)) (hy : value (a.z * b.x) = value (b.z * a.x))
    (hz : value (a.x * b.y) = value (b.x * a.y)) : (a.cross b).IsZero := by
  have hmul : k + k ≤ 1023 := by omega
  have sub_zero {x y : Float} (hx : Binary64.IsWithin (k + k) x) (hy : Binary64.IsWithin (k + k) y)
      (h : value x = value y) : value (x - y) = 0 := by
    have hround := rounds_sub hx.isFinite hy.isFinite
    rw [h, sub_self] at hround
    exact hround.value_eq isRepresentable_zero
  exact ⟨sub_zero (ha.y.mul hb.z hmul) (hb.y.mul ha.z hmul) hx,
    sub_zero (ha.z.mul hb.x hmul) (hb.z.mul ha.x hmul) hy,
    sub_zero (ha.x.mul hb.y hmul) (hb.x.mul ha.y hmul) hz⟩

/-- The vector product with a zero vector is zero. -/
theorem IsZero.cross (h : a.IsZero ∨ b.IsZero) (ha : a.IsWithin k) (hb : b.IsWithin k)
    (hk : k + k + 1 ≤ 1023) : (a.cross b).IsZero := by
  refine isZero_cross_of_eq ha hb hk ?_ ?_ ?_
  · rw [value_mul_eq_zero ha.y.isFinite hb.z.isFinite (h.imp IsZero.y IsZero.z),
      value_mul_eq_zero hb.y.isFinite ha.z.isFinite (h.symm.imp IsZero.y IsZero.z)]
  · rw [value_mul_eq_zero ha.z.isFinite hb.x.isFinite (h.imp IsZero.z IsZero.x),
      value_mul_eq_zero hb.z.isFinite ha.x.isFinite (h.symm.imp IsZero.z IsZero.x)]
  · rw [value_mul_eq_zero ha.x.isFinite hb.y.isFinite (h.imp IsZero.x IsZero.y),
      value_mul_eq_zero hb.x.isFinite ha.y.isFinite (h.symm.imp IsZero.x IsZero.y)]

/-- The vector product of a vector with itself is zero. -/
theorem isZero_cross_self (ha : a.IsWithin k) (hk : k + k + 1 ≤ 1023) : (a.cross a).IsZero :=
  isZero_cross_of_eq ha ha hk rfl rfl rfl

/-- The scalar product with a zero vector is zero. -/
theorem IsZero.value_dot (h : a.IsZero) (ha : a.IsWithin k) (hb : b.IsWithin l)
    (hkl : k + l + 1 ≤ 1023) : value (a.dot b) = 0 := by
  have hmul : k + l ≤ 1023 := by omega
  have hx := ha.x.mul hb.x hmul
  have hy := ha.y.mul hb.y hmul
  have hz := ha.z.mul hb.z hmul
  have hxy := value_add_eq_zero hx.isFinite hy.isFinite
    (value_mul_eq_zero ha.x.isFinite hb.x.isFinite (.inl h.x))
    (value_mul_eq_zero ha.y.isFinite hb.y.isFinite (.inl h.y))
  exact value_add_eq_zero (hx.add hy hkl).isFinite hz.isFinite hxy
    (value_mul_eq_zero ha.z.isFinite hb.z.isFinite (.inl h.z))

end Vec3

end SceneScript
