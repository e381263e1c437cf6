import SceneScript.Proofs.Binary64.Bits
import SceneScript.Proofs.Binary64.Value
import SceneScript.Proofs.Decimal.Shortest

/-!
# The numbers that read back as a double

A decimal reads back as a double when it lies between the middles of the gaps on both sides of it,
or is one of these middles and the significand is even (`Magnitude.Covers`). The decimal that a
double is written with does (`Magnitude.covers_shortest`): it was tried, or it is the double itself,
and zeros that are moved into the exponent make no other number of it.

What two doubles cover does not overlap. Where the gap between neighbours is the same on both sides
their significands differ by one, so only one of them is even; below a power of two, where it is
not, the neighbour has the greatest significand there is, which is odd (`Magnitude.high_le_low`). So
decimals tell doubles apart (`Magnitude.eq_of_covers`).
-/

namespace SceneScript.Decimal

open Binary64 (IsCanonical signBit signBit_iff_le zpow_pos_two)

/-! ## Fractions -/

namespace Fraction

variable {a b : Fraction}

/-- The number that a fraction stands for. -/
def value (a : Fraction) : ℚ := a.numerator / a.denominator

theorem denominator_scaled_pos (c : Nat) (i j : Int) : 0 < (scaled c i j).denominator :=
  Nat.mul_pos (Nat.pow_pos (by decide)) (Nat.pow_pos (by decide))

theorem value_scaled (c : Nat) (i j : Int) : (scaled c i j).value = c * 2 ^ i * 10 ^ j := by
  have hpow {b : ℚ} (hb : b ≠ 0) (i : Int) : b ^ i = b ^ i.toNat / b ^ (-i).toNat := by
    rw [← zpow_natCast, ← zpow_natCast, ← zpow_sub₀ hb]
    congr 1
    omega
  have htwo := hpow (b := 2) (by norm_num) i
  have hten := hpow (b := 10) (by norm_num) j
  rw [value, scaled, htwo, hten]
  simp only [Nat.pow_eq]
  push_cast
  rw [mul_assoc, mul_assoc, div_mul_div_comm, mul_div_assoc]

/-- Multiplying crosswise compares fractions by their values. -/
theorem compare_spec (ha : 0 < a.denominator) (hb : 0 < b.denominator) :
    (compare a b = .lt ↔ a.value < b.value) ∧ (compare a b = .eq ↔ a.value = b.value) ∧
      (compare a b = .gt ↔ b.value < a.value) := by
  have ha' : (0 : ℚ) < a.denominator := Nat.cast_pos.2 ha
  have hb' : (0 : ℚ) < b.denominator := Nat.cast_pos.2 hb
  rw [compare, Nat.compare_eq_lt, Nat.compare_eq_eq, Nat.compare_eq_gt, value, value,
    div_lt_div_iff₀ ha' hb', div_eq_div_iff ha'.ne' hb'.ne', div_lt_div_iff₀ hb' ha']
  exact ⟨by exact_mod_cast Iff.rfl, by exact_mod_cast Iff.rfl, by exact_mod_cast Iff.rfl⟩

end Fraction

/-! ## Decimals -/

/-- The number that a decimal stands for. -/
def value (d : Decimal) : ℚ := d.coefficient * 10 ^ d.exponent

/-- Zeros at the end of a coefficient stand for the same in the exponent. -/
theorem value_stripZeros (n : Nat) (d : Decimal) : (stripZeros n d).value = d.value := by
  induction n generalizing d with
  | zero => rfl
  | succ n ih =>
    rw [stripZeros]
    split
    · next hzero =>
      obtain ⟨k, hk⟩ := Nat.dvd_of_mod_eq_zero hzero
      rw [ih, value, value, hk, Nat.mul_div_cancel_left k (by decide), zpow_add₀ (by norm_num)]
      push_cast
      ring
    · rfl

namespace Magnitude

variable {x y : Magnitude} {d : Decimal} {q : ℚ}

/-! ## What a double covers -/

/-- The number that a double stands for, without its sign. -/
def value (x : Magnitude) : ℚ := x.significand * 2 ^ x.exponent

/-- The middle of the gap below a double. -/
def low (x : Magnitude) : ℚ :=
  (4 * x.significand - (if x.narrowBelow then 1 else 2) : Nat) * 2 ^ (x.exponent - 2)

/-- The middle of the gap above a double. -/
def high (x : Magnitude) : ℚ := (4 * x.significand + 2 : Nat) * 2 ^ (x.exponent - 2)

/-- A number rounds to a double, to nearest with ties to the even significand. -/
structure Covers (x : Magnitude) (q : ℚ) : Prop where
  above : x.low < q ∨ x.low = q ∧ x.significand % 2 = 0
  below : q < x.high ∨ q = x.high ∧ x.significand % 2 = 0

theorem covers_of_readsBack (h : x.readsBack d = true) : x.Covers d.value := by
  have hpos := Fraction.denominator_scaled_pos
  obtain ⟨-, hloweq, hlowgt⟩ := Fraction.compare_spec (hpos d.coefficient 0 d.exponent)
    (hpos (4 * x.significand - if x.narrowBelow then 1 else 2) (x.exponent - 2) 0)
  obtain ⟨hhighlt, hhigheq, -⟩ := Fraction.compare_spec (hpos d.coefficient 0 d.exponent)
    (hpos (4 * x.significand + 2) (x.exponent - 2) 0)
  simp only [Fraction.value_scaled, zpow_zero, mul_one] at hloweq hlowgt hhighlt hhigheq
  unfold readsBack at h
  dsimp only at h
  split at h
  · next hlow hhigh => exact ⟨.inl (hlowgt.1 hlow), .inl (hhighlt.1 hhigh)⟩
  · next hlow hhigh => exact ⟨.inr ⟨(hloweq.1 hlow).symm, by simpa using h⟩, .inl (hhighlt.1 hhigh)⟩
  · next hlow hhigh => exact ⟨.inl (hlowgt.1 hlow), .inr ⟨hhigheq.1 hhigh, by simpa using h⟩⟩
  · cases h

/-- A double covers itself. -/
theorem covers_value (x : Magnitude) : x.Covers x.value := by
  have hpow := zpow_pos_two (x.exponent - 2)
  have hfour : (2 : ℚ) ^ x.exponent = 4 * 2 ^ (x.exponent - 2) := by
    rw [zpow_sub₀ (by norm_num)]
    ring
  have hvalue : x.value = (4 * x.significand : Nat) * 2 ^ (x.exponent - 2) := by
    rw [value, hfour]
    push_cast
    ring
  rw [hvalue]
  refine ⟨?_, .inl ((mul_lt_mul_iff_of_pos_right hpow).2 (Nat.cast_lt.2 (by omega)))⟩
  rcases Nat.eq_zero_or_pos x.significand with hzero | hpos
  · refine .inr ⟨?_, by omega⟩
    rw [low, hzero]
    simp
  · refine .inl ((mul_lt_mul_iff_of_pos_right hpow).2 (Nat.cast_lt.2 ?_))
    split <;> omega

/-- All digits of a double stand for it. -/
theorem value_exact (x : Magnitude) : x.exact.value = x.value := by
  rw [exact, Decimal.value, value]
  rcases le_or_gt 0 x.exponent with he | he
  · obtain ⟨k, hk⟩ := Int.eq_ofNat_of_zero_le he
    simp [hk]
  · obtain ⟨k, hk⟩ := Int.exists_eq_neg_ofNat he.le
    have hmin : min (-(k : Int)) 0 = -(k : Int) := min_eq_left (by omega)
    have hten : (10 : ℚ) ^ k = 5 ^ k * 2 ^ k := by rw [← mul_pow]; norm_num
    simp only [hk, Int.toNat_neg_natCast, neg_neg, Int.toNat_natCast, hmin, zpow_neg, zpow_natCast,
      hten, Nat.pow_eq]
    push_cast
    field_simp

/-- A double covers the decimal that it is written with. -/
theorem covers_shortest (x : Magnitude) (tie : Tie) : x.Covers (x.shortest tie).value := by
  obtain ⟨n, d, hshortest, hback | rfl⟩ := x.exists_shortest_eq tie
  · rw [hshortest, value_stripZeros]
    exact covers_of_readsBack hback
  · rw [hshortest, value_stripZeros, value_exact]
    exact x.covers_value

/-! ## Doubles side by side -/

/-- A significand and an exponent are those of a double, and the gap below is told as it is: it is
the narrower one at a power of two, but not at the least exponent. -/
structure IsDouble (x : Magnitude) : Prop where
  canonical : IsCanonical x.significand x.exponent
  narrowBelow : x.narrowBelow = true ↔ x.significand = 2 ^ 52 ∧ -1074 < x.exponent

theorem toNat_scale (bits : UInt64) :
    ((bits >>> 52) &&& 0x7ff).toNat = bits.toNat / 2 ^ 52 % 2 ^ 11 := by
  rw [UInt64.toNat_and, UInt64.toNat_shiftRight, Nat.shiftRight_eq_div_pow]
  exact Nat.and_two_pow_sub_one_eq_mod _ 11

theorem toNat_fraction (bits : UInt64) :
    (bits &&& 0xfffffffffffff).toNat = bits.toNat % 2 ^ 52 := by
  rw [UInt64.toNat_and]
  exact Nat.and_two_pow_sub_one_eq_mod _ 52

/-- The bits of finite doubles make doubles. -/
theorem isDouble_ofBits {bits : UInt64} (h : bits.toNat / 2 ^ 52 % 2 ^ 11 < 2047) :
    (ofBits bits).IsDouble := by
  have hfraction : bits.toNat % 2 ^ 52 < 2 ^ 52 := Nat.mod_lt _ (by decide)
  unfold ofBits
  dsimp only
  rw [toNat_scale, toNat_fraction]
  generalize bits.toNat / 2 ^ 52 % 2 ^ 11 = scale at h
  generalize bits.toNat % 2 ^ 52 = fraction at hfraction
  split
  · next hzero => exact ⟨⟨by dsimp only; omega, le_rfl, .inr rfl⟩, by simp⟩
  · next hpos =>
    refine ⟨⟨by dsimp only; omega, by dsimp only; omega, .inl (by dsimp only; omega)⟩, ?_⟩
    simp only [Bool.and_eq_true, beq_iff_eq, decide_eq_true_eq]
    omega

/-- The sign bit and the magnitude tell a double. -/
theorem eq_of_ofBits_toBits {x y : Float} (hsign : signBit x = signBit y)
    (h : ofBits x.toBits = ofBits y.toBits) : x = y := by
  have hx := x.toBits.toNat_lt
  have hy := y.toBits.toNat_lt
  rw [Bool.eq_iff_iff, signBit_iff_le, signBit_iff_le] at hsign
  simp only [ofBits, toNat_fraction, toNat_scale] at h
  rw [← Float.toBits_inj, ← UInt64.toNat_inj]
  split at h <;> split at h <;> rw [Magnitude.mk.injEq] at h <;> omega

/-- A double ends where a greater one begins, or before. If they meet, one of the significands is
odd. -/
theorem high_le_low (hx : x.IsDouble) (hy : y.IsDouble)
    (hlt : x.exponent < y.exponent ∨ x.exponent = y.exponent ∧ x.significand < y.significand) :
    x.high < y.low ∨ x.high = y.low ∧ (x.significand % 2 = 1 ∨ y.significand % 2 = 1) := by
  have hpow := zpow_pos_two (x.exponent - 2)
  obtain ⟨k, hk⟩ : ∃ k : Nat, y.exponent = x.exponent + k :=
    ⟨(y.exponent - x.exponent).toNat, by omega⟩
  -- both ends as multiples of one power of two
  have hlow : y.low = ((4 * y.significand - if y.narrowBelow then 1 else 2) * 2 ^ k : Nat) *
      2 ^ (x.exponent - 2) := by
    rw [low, hk, show x.exponent + k - 2 = k + (x.exponent - 2) by omega,
      zpow_add₀ (by norm_num), zpow_natCast, ← mul_assoc]
    push_cast
    rfl
  rw [hlow, high, mul_lt_mul_iff_of_pos_right hpow, mul_left_inj' hpow.ne', Nat.cast_lt,
    Nat.cast_inj]
  rcases hlt with hexp | ⟨hexp, hsig⟩
  · have hleast := hx.canonical.least
    have hm := hx.canonical.lt
    have hfull : 2 ^ 52 ≤ y.significand := hy.canonical.full.resolve_right (by omega)
    have hbegin : 2 ^ 54 - 1 ≤ 4 * y.significand - if y.narrowBelow then 1 else 2 := by
      rcases hfull.eq_or_lt with heq | hlt
      · rw [if_pos (hy.narrowBelow.2 ⟨heq.symm, by omega⟩), ← heq]
        norm_num
      · split <;> omega
    have hpow : 2 ^ 1 ≤ 2 ^ k := Nat.pow_le_pow_right (by decide) (by omega)
    have hscaled := Nat.mul_le_mul hbegin hpow
    omega
  · obtain rfl : k = 0 := by omega
    rw [pow_zero, mul_one]
    split <;> omega

/-- What one double covers no other one does. -/
theorem eq_of_covers (hx : x.IsDouble) (hy : y.IsDouble) (hxq : x.Covers q) (hyq : y.Covers q) :
    x = y := by
  -- a greater double begins where a smaller one ends, so both would have to be even there
  have apart {x y : Magnitude} (hx : x.IsDouble) (hy : y.IsDouble) (hxq : x.Covers q)
      (hyq : y.Covers q) : ¬ (x.exponent < y.exponent ∨
        x.exponent = y.exponent ∧ x.significand < y.significand) := by
    intro hlt
    have hend : q ≤ x.high := hxq.below.elim le_of_lt fun h => h.1.le
    have hbegin : y.low ≤ q := hyq.above.elim le_of_lt fun h => h.1.le
    rcases high_le_low hx hy hlt with hgap | ⟨hmeet, hodd⟩
    · exact absurd (hend.trans_lt hgap) hbegin.not_gt
    · have hq : q = x.high := le_antisymm hend (hmeet ▸ hbegin)
      have hxeven := (hxq.below.resolve_left (hq ▸ lt_irrefl q)).2
      have hyeven := (hyq.above.resolve_left (by rw [← hmeet, hq]; exact lt_irrefl _)).2
      omega
  have hxy := apart hx hy hxq hyq
  have hyx := apart hy hx hyq hxq
  have hexp : x.exponent = y.exponent := by omega
  have hsig : x.significand = y.significand := by omega
  have hnarrow : x.narrowBelow = y.narrowBelow := by
    rw [Bool.eq_iff_iff, hx.narrowBelow, hy.narrowBelow, hexp, hsig]
  cases x
  cases y
  congr

end Magnitude

end SceneScript.Decimal
