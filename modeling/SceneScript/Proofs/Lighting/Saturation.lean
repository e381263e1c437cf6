import SceneScript.Proofs.Lighting.Channels

/-!
# Sums that stop at an end

The terms of a channel are integers of 64 bits, and so are their sums: one that passes an end of the
range stops there. The light from everywhere and the scattered light are added first. If that sum
stops at the greatest integer, the mirrored light is taken off from too little. At the other end
there is no harm, because nothing brings a sum from there up to a color again.

What got lost shows only if the mirrored light takes off all of the greatest integer, and then it is
the least integer, because no double is read as a number just above that one
(`Binary64.toInt_eq_minInt_or`). So there is one case in which a channel differs from the exact sum
brought into the range of a byte, and it is dark then (`shade_eq_exact_iff`). A profile whose
coefficient for mirrored light is not below zero never comes to it.
-/

namespace SceneScript

namespace Lighting

open Binary64

/-! ## Three integers -/

section Sums

variable {a d s : Int}

/-- Above the gap, it makes no difference to a byte that sums stop at an end. -/
theorem clamp_boundedSum (hlow : minInt + 2 ^ 10 ≤ s) (hhigh : s ≤ maxInt) :
    max 0 (min 255 (boundedSum (boundedSum a d) s)) = max 0 (min 255 (a + d + s)) := by
  simp only [boundedSum, minInt, maxInt] at *
  omega

/-- The least integer takes off all that the other two can come to within the range, but not all
that they can come to. -/
theorem clamp_boundedSum_minInt : max 0 (min 255 (boundedSum (boundedSum a d) minInt)) = 0 ∧
    (0 < max 0 (min 255 (a + d + minInt)) ↔ 2 ^ 63 < a + d) := by
  simp only [boundedSum, minInt, maxInt]
  omega

/-- The one case in which it shows that sums stop at an end. -/
theorem clamp_boundedSum_eq_iff (hgap : s = minInt ∨ minInt + 2 ^ 10 ≤ s) (hhigh : s ≤ maxInt) :
    max 0 (min 255 (boundedSum (boundedSum a d) s)) = max 0 (min 255 (a + d + s)) ↔
      ¬ (2 ^ 63 < a + d ∧ s = minInt) := by
  rcases hgap with rfl | hlow
  · obtain ⟨hdark, hiff⟩ := clamp_boundedSum_minInt (a := a) (d := d)
    have hnonneg : 0 ≤ max 0 (min 255 (a + d + minInt)) := le_max_left _ _
    rw [hdark, ← hiff, and_iff_left rfl, not_lt, hnonneg.ge_iff_eq', eq_comm]
  · have hne : s ≠ minInt := by omega
    exact iff_of_true (clamp_boundedSum hlow hhigh) fun h => hne h.2

end Sums

/-! ## The mirrored light -/

theorem not_timesPower_lt_zero (b a : Float) (n : Nat) (hb : ¬ b < 0.0) (ha : ¬ a < 0.0) :
    ¬ Scalar.timesPower b a n < 0.0 := by
  have hnext {b a : Float} (n : Nat) (hb : ¬ b < 0.0) (ha : ¬ a < 0.0) :
      ¬ (if n % 2 = 1 then b * a else b) < 0.0 := by
    split
    · exact not_lt_zero_mul hb ha
    · exact hb
  induction b, a, n using Scalar.timesPower.induct with
  | case1 b a n hlast =>
    rw [Scalar.timesPower, if_pos hlast]
    exact hnext n hb ha
  | case2 b a n _ hmore ih =>
    rw [Scalar.timesPower, if_neg hmore]
    exact ih (hnext n hb ha) (not_lt_zero_mul ha ha)

/-- A power of what is not below zero is not below zero. -/
theorem not_power_lt_zero {a : Float} (n : Nat) (ha : ¬ a < 0.0) : ¬ Scalar.power a n < 0.0 :=
  not_timesPower_lt_zero _ a n (by decide) ha

theorem not_mirrored_lt_zero (n location view : Vec3 Float) : ¬ mirrored n location view < 0.0 := by
  refine not_power_lt_zero glossExponent ?_
  have hzero : ¬ (0.0 : Float) < 0.0 := by rw [lt_zero_iff, value_zero]; simp
  rw [Scalar.larger]
  split_ifs with hneg
  · exact hzero
  · exact fun h => hneg (decide_eq_true h)
  · exact hzero

/-- A coefficient that is not below zero takes no light away. -/
theorem litTerm_nonneg {k strength : Float} (light : UInt8) (hk : ¬ k < 0.0)
    (hstrength : ¬ strength < 0.0) : 0 ≤ litTerm light k strength := by
  have hlight : ¬ Float.ofNat light.toNat < 0.0 := by
    have hvalue : value (Float.ofNat light.toNat) = light.toNat :=
      value_ofInt (light.toNat_lt.trans (by norm_num))
    rw [lt_zero_iff, hvalue]
    exact fun h => h.2.not_ge (Nat.cast_nonneg _)
  by_contra hneg
  exact not_lt_zero_mul (not_lt_zero_mul hlight hk) hstrength (lt_zero_of_toInt (not_le.1 hneg))

/-! ## Shaded colors -/

/-- A channel of a shaded color is the exact sum of its terms, brought into the range of a byte,
unless the first two come to more than `2 ^ 63` and the mirrored light is the least integer. In that
case it is dark, though the exact sum is not. A coefficient for mirrored light that is not below
zero excludes this. -/
theorem shade_eq_exact_iff (i : Channel) (l : Lighting) (normal : Vec3 Float) (k : Reflectance) :
    let n := normal.normalize
    let a := i.ofVec (ambientTerm l.ambient k)
    let d := i.ofVec (diffuseTerm l.light k n)
    let s := i.ofVec (specularTerm l.light k n l.view)
    let shown : Int := (i.ofColor (l.shade normal k)).toNat
    let exact : Int := max 0 (min 255 (a + d + s))
    (shown = exact ↔ ¬ (2 ^ 63 < a + d ∧ s = minInt)) ∧
      (2 ^ 63 < a + d ∧ s = minInt → shown = 0 ∧ 0 < exact) ∧
      (¬ i.ofVec k.specular < 0.0 → shown = exact) := by
  intro n a d s shown exact
  have hshown : shown = max 0 (min 255 (boundedSum (boundedSum a d) s)) := by
    have hchannel : i.ofColor (l.shade normal k) =
        Color.channel (boundedSum (boundedSum a d) s) := by
      cases i <;> rfl
    rw [← Color.toNat_channel, ← hchannel]
  have hs : s = litTerm (i.ofColor l.light.color) (i.ofVec k.specular)
      (mirrored n l.light.location l.view) := by
    cases i <;> rfl
  have hiff : shown = exact ↔ ¬ (2 ^ 63 < a + d ∧ s = minInt) := by
    rw [hshown]
    exact clamp_boundedSum_eq_iff (hs ▸ toInt_eq_minInt_or _) (hs ▸ toInt_le_maxInt _)
  refine ⟨hiff, ?_, fun hk => hiff.2 fun h => ?_⟩
  · rintro ⟨hlarge, hleast⟩
    obtain ⟨hdark, hpos⟩ := clamp_boundedSum_minInt (a := a) (d := d)
    rw [hshown]
    simp only [exact, hleast]
    exact ⟨hdark, hpos.2 hlarge⟩
  · have hnonneg : 0 ≤ s := hs ▸ litTerm_nonneg (i.ofColor l.light.color) hk
      (not_mirrored_lt_zero n l.light.location l.view)
    exact absurd (h.2 ▸ hnonneg) (by decide)

/-- Coefficients so large that each term lies at an end of the range: the surface is dark where the
mirrored light is taken off, and white where it is added. -/
theorem shade_eq_exact_iff_huge :
    let white : Color := .gray 255
    let up : Vec3 Float := ⟨0.0, 0.0, 1.0⟩
    let huge : Vec3 Float := ⟨1e300, 1e300, 1e300⟩
    let l : Lighting := ⟨white, ⟨up, white⟩, up, .standard⟩
    let taken : Reflectance := ⟨huge, huge, ⟨-1e300, -1e300, -1e300⟩⟩
    let added : Reflectance := ⟨huge, huge, huge⟩
    (2 ^ 63 < maxInt + maxInt ∧ specularTerm l.light taken up.normalize l.view =
      ⟨minInt, minInt, minInt⟩) ∧ ¬ added.specular.x < 0.0 ∧
      ((l.shade up taken).red.toNat : Int) = 0 ∧ ((l.shade up added).red.toNat : Int) = 255 := by
  intro white up huge l taken added
  obtain ⟨-, hdark, -⟩ := shade_eq_exact_iff .red l up taken
  obtain ⟨-, -, hexact⟩ := shade_eq_exact_iff .red l up added
  have hpositive : ¬ added.specular.x < 0.0 := by decide +kernel
  refine ⟨by decide +kernel, hpositive, (hdark ?_).1, (hexact hpositive).trans ?_⟩
  · decide +kernel
  · decide +kernel

/-- The exact sum of these terms is far above a byte, so the surface would be white; it is black. -/
theorem shade_dark_though_sum_is_bright :
    let white : Color := .gray 255
    let up : Vec3 Float := ⟨0.0, 0.0, 1.0⟩
    let huge : Vec3 Float := ⟨1e300, 1e300, 1e300⟩
    let l : Lighting := ⟨white, ⟨up, white⟩, up, .standard⟩
    let k : Reflectance := ⟨huge, huge, ⟨-1e300, -1e300, -1e300⟩⟩
    ambientTerm l.ambient k = ⟨maxInt, maxInt, maxInt⟩ ∧
      diffuseTerm l.light k up.normalize = ⟨maxInt, maxInt, maxInt⟩ ∧
      specularTerm l.light k up.normalize l.view = ⟨minInt, minInt, minInt⟩ ∧
      max 0 (min 255 (maxInt + maxInt + minInt)) = 255 ∧ l.shade up k = .gray 0 := by
  decide +kernel

end Lighting

end SceneScript
