import Mathlib.Tactic.FieldSimp
import Mathlib.Tactic.Linarith
import SceneScript.Proofs.Binary64.Rounding

/-!
# Arithmetic on doubles

The sum, the difference, the product and the quotient of two finite doubles are the doubles nearest
to those of their values (`rounds_add`, `rounds_sub`, `rounds_mul`, `rounds_div`). A function that
multiplies every finite double by the same positive number, to nearest, and keeps the infinities
(`Scales`), keeps the order (`Scales.mono`): multiplication and division by a positive double are
such functions (`scales_mul`, `scales_div`).
-/

namespace SceneScript.Binary64

open Float.Model (UnpackedFloat totalExponent)
open Float.Model.Format (binary64)
open Float.Model.UnpackedFloat

variable {x y c : Float} {s s' : Sign} {a b : ℚ}

/-! ## Products -/

theorem signed_mul_signed (s s' : Sign) (a b : ℚ) :
    signed s a * signed s' b = signed (s * s') (a * b) := by
  cases s <;> cases s'
  · exact neg_mul_neg a b
  · exact neg_mul a b
  · exact mul_neg a b
  · rfl

theorem signed_div_signed (s s' : Sign) (a b : ℚ) :
    signed s a / signed s' b = signed (s / s') (a / b) := by
  cases s <;> cases s'
  · exact neg_div_neg_eq a b
  · exact neg_div b a
  · exact div_neg a
  · rfl

/-- A zero is nearest to zero. -/
theorem rounds_zero (s : Sign) : Rounds (.ofModel (.pack (.zero s))) 0 := by
  have hzero : IsDouble (.zero s) := trivial
  refine ⟨isNaN_pack_isDouble hzero, fun q _ => ?_⟩
  rw [value_pack_isDouble hzero, unpackedValue, sub_zero, abs_zero]
  exact abs_nonneg _

/-- The product of finite doubles is the double nearest to the product of their values. -/
theorem rounds_mul (hx : x.isFinite) (hy : y.isFinite) : Rounds (x * y) (value x * value y) := by
  have hdx : IsDouble x.toModel.unpack := isDouble_unpack _
  have hdy : IsDouble y.toModel.unpack := isDouble_unpack _
  change x.toModel.unpack.isFinite at hx
  change y.toModel.unpack.isFinite at hy
  change Rounds (.ofModel (.pack (UnpackedFloat.mul binary64 x.toModel.unpack y.toModel.unpack)))
    (unpackedValue x.toModel.unpack * unpackedValue y.toModel.unpack)
  generalize x.toModel.unpack = u at *
  generalize y.toModel.unpack = w at *
  rcases u with _ | _ | s | ⟨s, m, e, hm⟩ <;> rcases w with _ | _ | s' | ⟨s', m', e', hm'⟩ <;>
    simp only [UnpackedFloat.isFinite, Bool.false_eq_true] at hx hy
  · rw [unpackedValue, zero_mul]
    exact rounds_zero _
  · rw [unpackedValue, zero_mul]
    exact rounds_zero _
  · rw [unpackedValue, unpackedValue, mul_zero]
    exact rounds_zero _
  · have hfine : 2 ^ 52 ≤ m * m' ∨ e + e' ≤ -1074 := by
      rcases hdx.1.full with hfull | rfl
      · exact .inl (hfull.trans (Nat.le_mul_of_pos_right m hm'))
      · rcases hdy.1.full with hfull | rfl
        · exact .inl (hfull.trans (Nat.le_mul_of_pos_left m' hm))
        · exact .inr (by norm_num)
    have hval : signed s (m * 2 ^ e) * signed s' (m' * 2 ^ e') =
        signed (s * s') ((m * m' : Nat) * 2 ^ (e + e')) := by
      rw [signed_mul_signed, Nat.cast_mul, zpow_add₀ (by norm_num)]
      congr 1
      ring
    rw [unpackedValue, unpackedValue, hval]
    exact rounds_pack_roundWithAccuracy hfine (keeps_exact _) _

/-! ## Quotients -/

/-- The remainder tells where a quotient lies after its whole part. -/
theorem keeps_quotient (n : Nat) {d : Nat} (hd : 0 < d) :
    Keeps (.ofMantissaAndAccuracy (n / d) (accuracyOfFraction (n % d) d)) (n / d : ℚ) := by
  have hd' : (0 : ℚ) < d := Nat.cast_pos.2 hd
  have hsplit : (n : ℚ) / d = (n / d : Nat) + ((n % d : Nat) : ℚ) / d := by
    have hn : (n : ℚ) = d * (n / d : Nat) + (n % d : Nat) := mod_cast (Nat.div_add_mod n d).symm
    field_simp
    exact hn
  rw [hsplit, accuracyOfFraction]
  generalize n / d = k
  have hr : n % d < d := Nat.mod_lt n hd
  generalize n % d = r at *
  have hr' : (r : ℚ) / d < 1 := (div_lt_one hd').2 (mod_cast hr)
  split
  · next hzero => simp [Keeps, ExtendedMantissa.ofMantissaAndAccuracy, hzero]
  · next hne =>
    have hpos : 0 < (r : ℚ) / d := div_pos (Nat.cast_pos.2 (Nat.pos_of_ne_zero hne)) hd'
    rcases lt_trichotomy (2 * r) d with hlt | heq | hgt
    · have hhalf : (r : ℚ) / d < 1 / 2 := by
        rw [div_lt_div_iff₀ hd' (by norm_num)]
        norm_cast
        omega
      rw [compare_lt_iff_lt.2 hlt]
      exact ⟨lt_add_of_pos_right _ hpos, (add_lt_add_iff_left _).2 hhalf⟩
    · have hhalf : (r : ℚ) / d = 1 / 2 := by
        rw [div_eq_div_iff hd'.ne' (by norm_num)]
        norm_cast
        omega
      rw [compare_eq_iff_eq.2 heq, hhalf]
      rfl
    · have hhalf : 1 / 2 < (r : ℚ) / d := by
        rw [div_lt_div_iff₀ (by norm_num) hd']
        norm_cast
        omega
      rw [compare_gt_iff_gt.2 hgt]
      exact ⟨(add_lt_add_iff_left _).2 hhalf, (add_lt_add_iff_left _).2 hr'⟩

/-- A quotient is found to enough bits, or down to the least exponent. -/
theorem divCore_fine {m m' : Nat} (e e' : Int) (hm : 0 < m) (hlt : m < 2 ^ 53) (hm' : 0 < m') :
    2 ^ 52 ≤ (divCore binary64 m e m' e').1 ∨ (divCore binary64 m e m' e').2.1 ≤ -1074 := by
  have hlog : m.log2 ≤ 52 := Nat.lt_succ_iff.1 ((Nat.log2_lt hm.ne').2 hlt)
  have htarget : binary64.targetExponent (totalExponent m e - totalExponent m' e') =
      max (m.log2 - m'.log2 + e - e' - 53) (-1074) := by
    rw [totalExponent, totalExponent, Float.Model.Format.targetExponent]
    change max ((m.log2 : Int) + 1 + e - (m'.log2 + 1 + e') - 53) (-1074) = _
    congr 1
    omega
  rw [divCore, htarget]
  dsimp only
  refine or_iff_not_imp_right.2 fun hleast => ?_
  obtain ⟨n, hn⟩ : ∃ n : Nat,
      e - e' - min (e - e') (max (m.log2 - m'.log2 + e - e' - 53) (-1074)) = n :=
    Int.eq_ofNat_of_zero_le (by omega)
  rw [hn, Int.toNat_natCast, Nat.le_div_iff_mul_le hm', Nat.shiftLeft_eq]
  have hself : 2 ^ m.log2 ≤ m := Nat.log2_self_le hm.ne'
  calc 2 ^ 52 * m' ≤ 2 ^ 52 * 2 ^ (m'.log2 + 1) := Nat.mul_le_mul_left _ Nat.lt_log2_self.le
    _ = 2 ^ m.log2 * 2 ^ n := by
      rw [← pow_add, ← pow_add]
      congr 1
      omega
    _ ≤ m * 2 ^ n := Nat.mul_le_mul_right _ hself

/-- What a quotient is found to keeps it. -/
theorem divCore_keeps (m : Nat) (e e' : Int) {m' : Nat} (hm' : 0 < m') :
    ∃ v, Keeps (.ofMantissaAndAccuracy (divCore binary64 m e m' e').1
        (divCore binary64 m e m' e').2.2) v ∧
      v * 2 ^ (divCore binary64 m e m' e').2.1 = (m / m' : ℚ) * 2 ^ (e - e') := by
  rw [divCore]
  dsimp only
  set t := min (e - e')
    (binary64.targetExponent (totalExponent m e - totalExponent m' e')) with ht
  obtain ⟨n, hn⟩ : ∃ n : Nat, e - e' - t = n := Int.eq_ofNat_of_zero_le (by omega)
  rw [hn, Int.toNat_natCast]
  refine ⟨_, keeps_quotient _ hm', ?_⟩
  rw [Nat.shiftLeft_eq, show e - e' = n + t by omega, zpow_add₀ (by norm_num), zpow_natCast]
  push_cast
  ring

/-- The quotient of finite doubles is the double nearest to the quotient of their values. -/
theorem rounds_div (hx : x.isFinite) (hy : y.isFinite) (hne : value y ≠ 0) :
    Rounds (x / y) (value x / value y) := by
  have hdx : IsDouble x.toModel.unpack := isDouble_unpack _
  change x.toModel.unpack.isFinite at hx
  change y.toModel.unpack.isFinite at hy
  change unpackedValue y.toModel.unpack ≠ 0 at hne
  change Rounds (.ofModel (.pack (UnpackedFloat.div binary64 x.toModel.unpack y.toModel.unpack)))
    (unpackedValue x.toModel.unpack / unpackedValue y.toModel.unpack)
  generalize x.toModel.unpack = u at *
  generalize y.toModel.unpack = w at *
  rcases u with _ | _ | s | ⟨s, m, e, hm⟩ <;> rcases w with _ | _ | s' | ⟨s', m', e', hm'⟩ <;>
    simp only [UnpackedFloat.isFinite, Bool.false_eq_true] at hx hy
  · exact absurd rfl hne
  · rw [unpackedValue, zero_div]
    exact rounds_zero _
  · exact absurd rfl hne
  · have hval : signed s (m * 2 ^ e) / signed s' (m' * 2 ^ e') =
        signed (s / s') ((m / m' : ℚ) * 2 ^ (e - e')) := by
      rw [signed_div_signed, zpow_sub₀ (by norm_num)]
      congr 1
      field_simp
    obtain ⟨v, hkeeps, hv⟩ := divCore_keeps m e e' hm'
    rw [unpackedValue, unpackedValue, hval, ← hv]
    exact rounds_pack_roundWithAccuracy (divCore_fine e e' hm hdx.1.lt hm') hkeeps _

/-! ## Sums -/

/-- A double is the one nearest to its value. -/
theorem rounds_pack_isDouble {u : UnpackedFloat} (hu : IsDouble u) (hn : u.isNaN = false) :
    Rounds (.ofModel (.pack u)) (unpackedValue u) := by
  refine ⟨(isNaN_pack_isDouble hu).trans hn, fun q _ => ?_⟩
  rw [value_pack_isDouble hu, sub_self, abs_zero]
  exact abs_nonneg _

/-- A mantissa keeps its value at a smaller exponent. -/
theorem decreaseExponent_eq (m : Nat) (e t : Int) :
    ((decreaseExponent m e t).1 : ℚ) * 2 ^ (decreaseExponent m e t).2 = m * 2 ^ e := by
  rw [decreaseExponent]
  dsimp only
  rw [Nat.shiftLeft_eq, zpow_sub₀ (by norm_num), zpow_natCast]
  push_cast
  field_simp

/-- A mantissa with an exponent is rounded to the nearest double. -/
theorem rounds_round {m : Nat} (e : Int) (hm : 0 < m) (s : Sign) :
    Rounds (.ofModel (.pack (UnpackedFloat.round binary64 s m e))) (signed s (m * 2 ^ e)) := by
  rw [UnpackedFloat.round, targetExponent_eq, ← decreaseExponent_eq m e]
  refine rounds_pack_roundWithAccuracy ?_ (keeps_exact _) s
  have hself : 2 ^ m.log2 ≤ m := Nat.log2_self_le hm.ne'
  rcases Int.le_total (-1074) (m.log2 + e - 52) with ht | ht
  · left
    rw [max_eq_left ht, Nat.shiftLeft_eq]
    calc 2 ^ 52 ≤ 2 ^ (m.log2 + (e - (m.log2 + e - 52)).toNat) :=
          Nat.pow_le_pow_right (by norm_num) (by omega)
      _ = 2 ^ m.log2 * 2 ^ (e - (m.log2 + e - 52)).toNat := pow_add _ _ _
      _ ≤ m * 2 ^ (e - (m.log2 + e - 52)).toNat := Nat.mul_le_mul_right _ hself
  · right
    rw [max_eq_right ht]
    omega

/-- A signed mantissa with an exponent is rounded to the nearest double. -/
theorem rounds_normalize (k e : Int) (s : Sign) :
    Rounds (.ofModel (.pack (UnpackedFloat.normalize binary64 k e s))) (k * 2 ^ e) := by
  rw [UnpackedFloat.normalize]
  rcases Int.lt_trichotomy k 0 with hk | rfl | hk
  · have h := rounds_round e (m := (-k).toNat) (by omega) .negative
    have hcast : (((-k).toNat : Nat) : ℚ) = -k := by
      rw [← Int.cast_natCast, Int.toNat_of_nonneg (by omega), Int.cast_neg]
    rw [signed, hcast, neg_mul, neg_neg] at h
    rw [Int.compare_eq_lt.2 hk]
    exact h
  · rw [Int.cast_zero, zero_mul]
    exact rounds_zero s
  · have h := rounds_round e (m := k.toNat) (by omega) .positive
    have hcast : ((k.toNat : Nat) : ℚ) = k := by
      rw [← Int.cast_natCast, Int.toNat_of_nonneg (by omega)]
    rw [signed, hcast] at h
    rw [Int.compare_eq_gt.2 hk]
    exact h

/-- A signed mantissa keeps its value at a smaller exponent. -/
theorem apply_decreaseExponent (s : Sign) (m : Nat) {e t : Int} (ht : t ≤ e) :
    ((s.apply (decreaseExponent m e t).1 : Int) : ℚ) * 2 ^ t = signed s (m * 2 ^ e) := by
  have he : (decreaseExponent m e t).2 = t := by
    rw [decreaseExponent]
    dsimp only
    omega
  have h := decreaseExponent_eq m e t
  rw [he] at h
  cases s with
  | positive =>
    rw [signed, ← h]
    rfl
  | negative =>
    rw [signed, ← h, ← neg_mul]
    exact congrArg (· * (2 : ℚ) ^ t) (Int.cast_neg _)

/-- The sum of finite doubles is the double nearest to the sum of their values. -/
theorem rounds_add (hx : x.isFinite) (hy : y.isFinite) : Rounds (x + y) (value x + value y) := by
  have hdx : IsDouble x.toModel.unpack := isDouble_unpack _
  have hdy : IsDouble y.toModel.unpack := isDouble_unpack _
  change x.toModel.unpack.isFinite at hx
  change y.toModel.unpack.isFinite at hy
  change Rounds (.ofModel (.pack (UnpackedFloat.add binary64 x.toModel.unpack y.toModel.unpack)))
    (unpackedValue x.toModel.unpack + unpackedValue y.toModel.unpack)
  generalize x.toModel.unpack = u at *
  generalize y.toModel.unpack = w at *
  rcases u with _ | _ | s | ⟨s, m, e, hm⟩ <;> rcases w with _ | _ | s' | ⟨s', m', e', hm'⟩ <;>
    simp only [UnpackedFloat.isFinite, Bool.false_eq_true] at hx hy
  · rw [unpackedValue, unpackedValue, add_zero, UnpackedFloat.add]
    split <;> exact rounds_zero _
  · rw [show unpackedValue (.zero s) = 0 from rfl, zero_add]
    exact rounds_pack_isDouble hdy rfl
  · rw [show unpackedValue (.zero s') = 0 from rfl, add_zero]
    exact rounds_pack_isDouble hdx rfl
  · have h := rounds_normalize
      (s.apply (decreaseExponent m e (min e e')).1 + s'.apply (decreaseExponent m' e' (min e e')).1)
      (min e e') .positive
    rw [Int.cast_add, add_mul, apply_decreaseExponent s m (min_le_left e e'),
      apply_decreaseExponent s' m' (min_le_right e e')] at h
    exact h

/-- The difference of finite doubles is the double nearest to the difference of their values. -/
theorem rounds_sub (hx : x.isFinite) (hy : y.isFinite) : Rounds (x - y) (value x - value y) := by
  have hdx : IsDouble x.toModel.unpack := isDouble_unpack _
  have hdy : IsDouble y.toModel.unpack := isDouble_unpack _
  change x.toModel.unpack.isFinite at hx
  change y.toModel.unpack.isFinite at hy
  change Rounds (.ofModel (.pack (UnpackedFloat.sub binary64 x.toModel.unpack y.toModel.unpack)))
    (unpackedValue x.toModel.unpack - unpackedValue y.toModel.unpack)
  generalize x.toModel.unpack = u at *
  generalize y.toModel.unpack = w at *
  rcases u with _ | _ | s | ⟨s, m, e, hm⟩ <;> rcases w with _ | _ | s' | ⟨s', m', e', hm'⟩ <;>
    simp only [UnpackedFloat.isFinite, Bool.false_eq_true] at hx hy
  · rw [unpackedValue, unpackedValue, sub_zero, UnpackedFloat.sub]
    split <;> exact rounds_zero _
  · have hneg : IsDouble (.finite (-s') m' e' hm') := hdy
    have hval : unpackedValue (.zero s) - unpackedValue (.finite s' m' e' hm') =
        unpackedValue (.finite (-s') m' e' hm') := by
      rw [show unpackedValue (.zero s) = 0 from rfl, zero_sub]
      cases s'
      · exact neg_neg _
      · rfl
    rw [hval]
    exact rounds_pack_isDouble hneg rfl
  · rw [show unpackedValue (.zero s') = 0 from rfl, sub_zero]
    exact rounds_pack_isDouble hdx rfl
  · have h := rounds_normalize
      (s.apply (decreaseExponent m e (min e e')).1 - s'.apply (decreaseExponent m' e' (min e e')).1)
      (min e e') .positive
    rw [Int.cast_sub, sub_mul, apply_decreaseExponent s m (min_le_left e e'),
      apply_decreaseExponent s' m' (min_le_right e e')] at h
    exact h
/-- A double less itself has the value zero. -/
theorem value_sub_self (hx : x.isFinite) : value (x - x) = 0 := by
  have h := rounds_sub hx hx
  rw [sub_self] at h
  exact h.value_eq isRepresentable_zero

/-! ## Scaling -/

/-- A function multiplies finite doubles by `r` to nearest and keeps the infinities. -/
structure Scales (f : Float → Float) (r : ℚ) : Prop where
  rounds : ∀ x : Float, x.isFinite → Rounds (f x) (value x * r)
  infinity : ∀ (x : Float) (s : Sign), x.toModel.unpack = .infinity s →
    (f x).toModel.unpack = .infinity s

/-- A number is finite or an infinity. -/
theorem isFinite_or_infinity (hx : x.isNaN = false) :
    x.isFinite ∨ ∃ s, x.toModel.unpack = .infinity s := by
  change x.toModel.unpack.isNaN = false at hx
  change x.toModel.unpack.isFinite ∨ _
  rcases hu : x.toModel.unpack with s | _ | s | ⟨s, m, e, hm⟩
  · exact .inr ⟨s, rfl⟩
  · rw [hu] at hx
    contradiction
  · exact .inl rfl
  · exact .inl rfl

/-- Finite doubles lie strictly between the infinities. -/
theorem abs_value_lt (hx : x.isFinite) : |value x| < overflow := by
  have hdx : IsDouble x.toModel.unpack := isDouble_unpack _
  change x.toModel.unpack.isFinite at hx
  rw [value]
  rcases hu : x.toModel.unpack with s | _ | s | ⟨s, m, e, hm⟩ <;> rw [hu] at hx hdx
  · contradiction
  · contradiction
  · rw [unpackedValue, abs_zero]
    exact overflow_pos
  · exact (abs_signed s hdx.bounds.1.le).trans_lt hdx.bounds.2

theorem isNaN_of_isFinite (hx : x.isFinite) : x.isNaN = false := by
  change x.toModel.unpack.isFinite at hx
  change x.toModel.unpack.isNaN = false
  cases hu : x.toModel.unpack with
  | notANumber =>
    rw [hu] at hx
    contradiction
  | zero | infinity | finite => rfl

/-- A number that lies strictly between the infinities is finite. -/
theorem isFinite_of_abs_lt (hx : x.isNaN = false) (h : |value x| < overflow) : x.isFinite := by
  refine (isFinite_or_infinity hx).resolve_right ?_
  rintro ⟨s, hs⟩
  rw [value, hs, unpackedValue, abs_signed s overflow_pos.le] at h
  exact lt_irrefl _ h

theorem value_of_infinity (hx : x.toModel.unpack = .infinity s) : value x = signed s overflow :=
  congrArg unpackedValue hx

theorem isNaN_of_infinity (hx : x.toModel.unpack = .infinity s) : x.isNaN = false :=
  congrArg UnpackedFloat.isNaN hx

/-- Numbers that stand at one place are the same, or they are zeros. -/
theorem eq_or_unpackedValue_eq_zero {u w : UnpackedFloat} (hu : u.isNaN = false)
    (hw : w.isNaN = false) (h : standing u = standing w) : u = w ∨ unpackedValue u = 0 := by
  rcases u with (_ | _) | _ | _ | ⟨_ | _, m₁, e₁, _⟩ <;>
    rcases w with (_ | _) | _ | _ | ⟨_ | _, m₂, e₂, _⟩ <;>
    simp_all [standing, unpackedValue, UnpackedFloat.isNaN]

/-- Numbers of one value are the same, or they are zeros. -/
theorem eq_or_value_eq_zero (hx : x.isNaN = false) (hy : y.isNaN = false)
    (h : value x = value y) : x = y ∨ value x = 0 := by
  have hlevel : level x = level y :=
    le_antisymm (le_iff.1 (le_iff_value.2 ⟨hx, hy, h.le⟩)).2.2
      (le_iff.1 (le_iff_value.2 ⟨hy, hx, h.ge⟩)).2.2
  refine (eq_or_unpackedValue_eq_zero hx hy hlevel).imp_left fun hunpack => ?_
  obtain ⟨⟨bx, hbx⟩⟩ := x
  obtain ⟨⟨by', hby⟩⟩ := y
  obtain rfl := UInt64.toBitVec_inj.1 ((unpack_inj_of_valid hbx hby).1 hunpack)
  rfl

theorem Scales.isNaN {f : Float → Float} {r : ℚ} (hf : Scales f r) (hx : x.isNaN = false) :
    (f x).isNaN = false := by
  rcases isFinite_or_infinity hx with hfin | ⟨s, hs⟩
  · exact (hf.rounds x hfin).isNaN
  · exact isNaN_of_infinity (hf.infinity x s hs)

/-- Scaling by a positive number keeps the order. -/
theorem Scales.mono {f : Float → Float} {r : ℚ} (hf : Scales f r) (hr : 0 < r) (h : x ≤ y) :
    f x ≤ f y := by
  obtain ⟨hx, hy, hle⟩ := le_iff_value.1 h
  refine le_iff_value.2 ⟨hf.isNaN hx, hf.isNaN hy, ?_⟩
  have hover := overflow_pos
  rcases isFinite_or_infinity hx with hxfin | ⟨_ | _, hxs⟩
  · rcases isFinite_or_infinity hy with hyfin | ⟨_ | _, hys⟩
    · rcases hle.lt_or_eq with hlt | heq
      · exact (hf.rounds x hxfin).value_mono (hf.rounds y hyfin) (mul_lt_mul_of_pos_right hlt hr)
      · rcases eq_or_value_eq_zero hx hy heq with rfl | hzero
        · exact le_rfl
        · -- zeros of different signs are scaled to zeros
          have hfx := hf.rounds x hxfin
          have hfy := hf.rounds y hyfin
          rw [hzero, zero_mul] at hfx
          rw [← heq, hzero, zero_mul] at hfy
          rw [hfx.value_eq isRepresentable_zero, hfy.value_eq isRepresentable_zero]
    · have hbelow := (abs_lt.1 (abs_value_lt hxfin)).1
      rw [value_of_infinity hys] at hle
      exact absurd hle hbelow.not_ge
    · rw [value_of_infinity (hf.infinity y _ hys)]
      exact (abs_le.1 (isRepresentable_value (f x)).1).2
  · rw [value_of_infinity (hf.infinity x _ hxs)]
    exact (abs_le.1 (isRepresentable_value (f y)).1).1
  · -- nothing but itself is above the greatest infinity
    rcases isFinite_or_infinity hy with hyfin | ⟨_ | _, hys⟩
    · have habove := (abs_lt.1 (abs_value_lt hyfin)).2
      rw [value_of_infinity hxs] at hle
      exact absurd hle habove.not_ge
    · rw [value_of_infinity hxs, value_of_infinity hys, signed, signed] at hle
      linarith
    · rw [value_of_infinity (hf.infinity x _ hxs), value_of_infinity (hf.infinity y _ hys)]

/-- What has a positive value is positive. -/
theorem exists_finite_positive (hc : c.isFinite) (hpos : 0 < value c) :
    ∃ m e hm, c.toModel.unpack = .finite .positive m e hm := by
  have hdc : IsDouble c.toModel.unpack := isDouble_unpack _
  change c.toModel.unpack.isFinite at hc
  change 0 < unpackedValue c.toModel.unpack at hpos
  rcases hu : c.toModel.unpack with s | _ | s | ⟨_ | _, m, e, hm⟩ <;> rw [hu] at hc hpos hdc
  · contradiction
  · contradiction
  · exact absurd hpos (lt_irrefl 0)
  · exact absurd hpos (neg_nonpos.2 hdc.bounds.1.le).not_gt
  · exact ⟨m, e, hm, rfl⟩

/-- Multiplying by a positive double scales. -/
theorem scales_mul (hc : c.isFinite) (hpos : 0 < value c) : Scales (· * c) (value c) := by
  refine ⟨fun x hx => rounds_mul hx hc, fun x s hx => ?_⟩
  obtain ⟨m, e, hm, hcu⟩ := exists_finite_positive hc hpos
  change (Float.Model.pack
    (UnpackedFloat.mul binary64 x.toModel.unpack c.toModel.unpack)).unpack = _
  rw [hx, hcu]
  cases s <;> exact unpack_pack (u := .infinity _) trivial

/-- Dividing by a positive double scales. -/
theorem scales_div (hc : c.isFinite) (hpos : 0 < value c) : Scales (· / c) (value c)⁻¹ := by
  refine ⟨fun x hx => ?_, fun x s hx => ?_⟩
  · rw [← div_eq_mul_inv]
    exact rounds_div hx hc hpos.ne'
  · obtain ⟨m, e, hm, hcu⟩ := exists_finite_positive hc hpos
    change (Float.Model.pack
      (UnpackedFloat.div binary64 x.toModel.unpack c.toModel.unpack)).unpack = _
    rw [hx, hcu]
    cases s <;> exact unpack_pack (u := .infinity _) trivial

end SceneScript.Binary64
