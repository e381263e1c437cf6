import Mathlib.Tactic.LinearCombination
import SceneScript.Proofs.Raster.Exact
import SceneScript.Raster.Fill

/-!
# The sides of a triangle

A row of a triangle lies between the long side, from the lowest corner to the highest, and the two
short sides. In exact arithmetic it is known what lies between them: the points that the closed
triangle has at that height, which are the means of its corners (`Triangle.Covers`). Where the sides
stand there are points of the triangle (`Triangle.covers_long`, `Triangle.covers_short`), and so is
all between them (`Triangle.Covers.between`). On the other hand a point stands off the long side by
as much as the middle corner weighs in it, and the short sides are where that weight is as large as
it can be (`Triangle.exists_short`), so no point lies beyond them (`Triangle.Covers.between_sides`).

Above the highest corner and below the lowest one the sides stand where they do at that corner.
-/

namespace SceneScript

/-! ## Parts of a way -/

/-- A part of the way from one number to another stays in an interval that holds both. -/
theorem part_mem {l h p q r : ℚ} (hp : l ≤ p ∧ p ≤ h) (hq : l ≤ q ∧ q ≤ h) (hr : 0 ≤ r)
    (hr' : r ≤ 1) : l ≤ p + (q - p) * r ∧ p + (q - p) * r ≤ h := by
  have hmean : p + (q - p) * r = (1 - r) * p + r * q := by ring
  have hrest : 0 ≤ 1 - r := sub_nonneg.2 hr'
  have hl : (1 - r) * l + r * l = l := by ring
  have hh : (1 - r) * h + r * h = h := by ring
  rw [hmean]
  constructor
  · rw [← hl]
    exact add_le_add (mul_le_mul_of_nonneg_left hp.1 hrest) (mul_le_mul_of_nonneg_left hq.1 hr)
  · rw [← hh]
    exact add_le_add (mul_le_mul_of_nonneg_left hp.2 hrest) (mul_le_mul_of_nonneg_left hq.2 hr)

/-- Of two points that stand off a third to one side, the one that stands off less is between. -/
theorem between_of_offsets {d l p q v v' k : ℚ} (hd : 0 < d) (hv : 0 ≤ v) (hvv' : v ≤ v')
    (hp : d * (p - l) = v * k) (hq : d * (q - l) = v' * k) : min l q ≤ p ∧ p ≤ max l q := by
  have hrest : d * (q - p) = (v' - v) * k := by linear_combination hq - hp
  have hvv' : 0 ≤ v' - v := sub_nonneg.2 hvv'
  rcases le_total 0 k with hk | hk
  · have hlp : 0 ≤ p - l := nonneg_of_mul_nonneg_right (hp ▸ mul_nonneg hv hk) hd
    have hpq : 0 ≤ q - p := nonneg_of_mul_nonneg_right (hrest ▸ mul_nonneg hvv' hk) hd
    exact ⟨min_le_of_left_le (sub_nonneg.1 hlp), le_max_of_le_right (sub_nonneg.1 hpq)⟩
  · have hlp : p - l ≤ 0 :=
      nonpos_of_mul_nonpos_right (hp ▸ mul_nonpos_of_nonneg_of_nonpos hv hk) hd
    have hpq : q - p ≤ 0 :=
      nonpos_of_mul_nonpos_right (hrest ▸ mul_nonpos_of_nonneg_of_nonpos hvv' hk) hd
    exact ⟨min_le_of_right_le (sub_nonpos.1 hpq), le_max_of_le_left (sub_nonpos.1 hlp)⟩

/-! ## Edges at a height -/

namespace Edge

/-- How much of an edge lies below a height: all of it or nothing beyond its ends, and nothing if it
is level. -/
def share (e : Edge (Vec3 ℚ)) (y : ℚ) : ℚ :=
  if e.finish.y = e.start.y then 0
  else max 0 (min 1 ((y - e.start.y) / (e.finish.y - e.start.y)))

variable {e : Edge (Vec3 ℚ)} {y : ℚ}

theorem share_nonneg (e : Edge (Vec3 ℚ)) (y : ℚ) : 0 ≤ e.share y := by
  rw [share]
  split
  · exact le_rfl
  · exact le_max_left ..

theorem share_le_one (e : Edge (Vec3 ℚ)) (y : ℚ) : e.share y ≤ 1 := by
  rw [share]
  split
  · exact zero_le_one
  · exact max_le zero_le_one (min_le_left ..)

/-- Where an edge stands, and how deep, by its share. -/
theorem atHeight_eq (e : Edge (Vec3 ℚ)) (y : ℚ) :
    e.atHeight y = (e.start.x + (e.finish.x - e.start.x) * e.share y,
      e.start.z + (e.finish.z - e.start.z) * e.share y) := by
  have hlevel : Scalar.same (e.finish.y - e.start.y) (@OfNat.ofNat ℚ 0 Scalar.literal) = true ↔
      e.finish.y = e.start.y := by
    rw [Exact.literal_zero, Exact.same_iff, sub_eq_zero]
  rw [atHeight, share]
  by_cases h : e.finish.y = e.start.y
  · rw [if_pos (hlevel.2 h), if_pos h, mul_zero, mul_zero, add_zero, add_zero]
  · rw [if_neg (mt hlevel.1 h), if_neg h, Exact.literal_zero, Exact.literal_one,
      Exact.clamp_eq zero_le_one]

/-- The share of an edge that does not go down ends at the height, or at the nearer end. -/
theorem height_share (h : e.start.y ≤ e.finish.y) (y : ℚ) :
    e.start.y + (e.finish.y - e.start.y) * e.share y = max e.start.y (min e.finish.y y) := by
  rw [share]
  split
  · next hlevel => rw [hlevel, mul_zero, add_zero, max_eq_left (min_le_left ..)]
  · next hlevel =>
    have hrise : 0 < e.finish.y - e.start.y := sub_pos.2 (lt_of_le_of_ne h (Ne.symm hlevel))
    rw [mul_max_of_nonneg _ _ hrise.le, mul_min_of_nonneg _ _ hrise.le, mul_div_cancel₀ _ hrise.ne',
      mul_zero, mul_one, ← max_add_add_left, ← min_add_add_left]
    simp

end Edge

namespace Triangle

/-! ## The order of the corners -/

section

variable {α : Type} [Scalar α]

/-- What does not depend on the order of the corners holds of the ordered corners. -/
theorem byHeight_iff {P : Triangle (Vec3 α) → Prop} (h : ∀ a b c, P ⟨a, b, c⟩ → P ⟨b, a, c⟩)
    (h' : ∀ a b c, P ⟨a, b, c⟩ → P ⟨a, c, b⟩) (t : Triangle (Vec3 α)) : P t.byHeight ↔ P t := by
  have hi {a b c} : P ⟨b, a, c⟩ ↔ P ⟨a, b, c⟩ := ⟨h _ _ _, h _ _ _⟩
  have hi' {a b c} : P ⟨a, c, b⟩ ↔ P ⟨a, b, c⟩ := ⟨h' _ _ _, h' _ _ _⟩
  obtain ⟨a, b, c⟩ := t
  -- the third corner is put in its place among the two that are in order
  have third {p q : Vec3 α} (hpq : P ⟨p, q, c⟩ ↔ P ⟨a, b, c⟩) :
      P (if Scalar.sortsBefore q.y c.y = true then ⟨p, q, c⟩
        else if Scalar.sortsBefore p.y c.y = true then ⟨p, c, q⟩ else ⟨c, p, q⟩) ↔
        P ⟨a, b, c⟩ := by
    split
    · exact hpq
    split
    · exact hi'.trans hpq
    · exact (hi.trans hi').trans hpq
  rw [byHeight]
  by_cases hab : Scalar.sortsBefore a.y b.y = true
  · simp only [hab, if_true]
    exact third Iff.rfl
  · simp only [hab, Bool.false_eq_true, if_false]
    exact third hi

/-- The ordered corners are the corners. -/
theorem corners_byHeight (t : Triangle (Vec3 α)) : t.byHeight.corners.Perm t.corners := by
  refine (byHeight_iff (P := fun s => s.corners.Perm t.corners) ?_ ?_ t).2 (.refl _)
  · exact fun a b c h => (List.Perm.swap ..).trans h
  · exact fun a b c h => ((List.Perm.swap ..).cons a).trans h

/-- The ordered corners are in the order of their heights, as these are ranked. -/
theorem ranks_byHeight {β : Type} [LinearOrder β] {ρ : α → β}
    (hρ : ∀ p q : α, Scalar.sortsBefore p q = true ↔ ρ p ≤ ρ q)
    (t : Triangle (Vec3 α)) :
    ρ t.byHeight.a.y ≤ ρ t.byHeight.b.y ∧ ρ t.byHeight.b.y ≤ ρ t.byHeight.c.y := by
  obtain ⟨a, b, c⟩ := t
  have third {p q : Vec3 α} (hpq : ρ p.y ≤ ρ q.y) :
      let s : Triangle (Vec3 α) := if Scalar.sortsBefore q.y c.y = true then ⟨p, q, c⟩
        else if Scalar.sortsBefore p.y c.y = true then ⟨p, c, q⟩ else ⟨c, p, q⟩
      ρ s.a.y ≤ ρ s.b.y ∧ ρ s.b.y ≤ ρ s.c.y := by
    simp only [hρ]
    split
    · next h => exact ⟨hpq, h⟩
    · next h =>
      split
      · next h' => exact ⟨h', (not_le.1 h).le⟩
      · next h' => exact ⟨(not_le.1 h').le, hpq⟩
  rw [byHeight]
  by_cases hab : Scalar.sortsBefore a.y b.y = true
  · simp only [hab, if_true]
    exact third ((hρ _ _).1 hab)
  · simp only [hab, Bool.false_eq_true, if_false]
    exact third (not_le.1 (mt (hρ _ _).2 hab)).le

/-- The corners are all of one height in either order. -/
theorem level_byHeight_iff (t : Triangle (Vec3 α)) :
    t.byHeight.a.y = t.byHeight.b.y ∧ t.byHeight.b.y = t.byHeight.c.y ↔
      t.a.y = t.b.y ∧ t.b.y = t.c.y := by
  refine byHeight_iff (P := fun t => t.a.y = t.b.y ∧ t.b.y = t.c.y) ?_ ?_ t
  · rintro a b c ⟨hab, hbc⟩
    exact ⟨hab.symm, hab.trans hbc⟩
  · rintro a b c ⟨hab, hbc⟩
    exact ⟨hab.trans hbc, hbc.symm⟩

/-- Where the long side of a triangle with ordered corners stands, and how deep. -/
def long (t : Triangle (Vec3 α)) (y : α) : α × α := Edge.atHeight ⟨t.a, t.c⟩ y

open Scalar in
/-- Where the short sides of a triangle with ordered corners stand, and how deep. -/
def short (t : Triangle (Vec3 α)) (y : α) : α × α :=
  if y < t.b.y then Edge.atHeight ⟨t.a, t.b⟩ y else Edge.atHeight ⟨t.b, t.c⟩ y

end

/-! ## Points of a triangle -/

/-- A point of the picture's plane lies in the closed triangle: it is a mean of the corners by
weights of which none is negative. -/
def Covers (t : Triangle (Vec3 ℚ)) (x y : ℚ) : Prop :=
  ∃ u v w : ℚ, 0 ≤ u ∧ 0 ≤ v ∧ 0 ≤ w ∧ u + v + w = 1 ∧
    x = u * t.a.x + v * t.b.x + w * t.c.x ∧ y = u * t.a.y + v * t.b.y + w * t.c.y

/-- The corners are named from the lowest to the highest, and there is some height between them. -/
structure Rises (t : Triangle (Vec3 ℚ)) : Prop where
  lower : t.a.y ≤ t.b.y
  upper : t.b.y ≤ t.c.y
  whole : t.a.y < t.c.y

variable {t : Triangle (Vec3 ℚ)} {x y u v w : ℚ} {e : Edge (Vec3 ℚ)}

theorem covers_a (t : Triangle (Vec3 ℚ)) : t.Covers t.a.x t.a.y :=
  ⟨1, 0, 0, zero_le_one, le_rfl, le_rfl, by norm_num, by ring, by ring⟩

theorem covers_b (t : Triangle (Vec3 ℚ)) : t.Covers t.b.x t.b.y :=
  ⟨0, 1, 0, le_rfl, zero_le_one, le_rfl, by norm_num, by ring, by ring⟩

theorem covers_c (t : Triangle (Vec3 ℚ)) : t.Covers t.c.x t.c.y :=
  ⟨0, 0, 1, le_rfl, le_rfl, zero_le_one, by norm_num, by ring, by ring⟩

/-- What lies on the way from one point of a triangle to another lies in it. -/
theorem Covers.part {x₁ y₁ x₂ y₂ r : ℚ} (h₁ : t.Covers x₁ y₁) (h₂ : t.Covers x₂ y₂) (hr : 0 ≤ r)
    (hr' : r ≤ 1) : t.Covers (x₁ + (x₂ - x₁) * r) (y₁ + (y₂ - y₁) * r) := by
  obtain ⟨u₁, v₁, w₁, hu₁, hv₁, hw₁, hsum₁, hx₁, hy₁⟩ := h₁
  obtain ⟨u₂, v₂, w₂, hu₂, hv₂, hw₂, hsum₂, hx₂, hy₂⟩ := h₂
  have hrest : 0 ≤ 1 - r := sub_nonneg.2 hr'
  refine ⟨(1 - r) * u₁ + r * u₂, (1 - r) * v₁ + r * v₂, (1 - r) * w₁ + r * w₂,
    add_nonneg (mul_nonneg hrest hu₁) (mul_nonneg hr hu₂),
    add_nonneg (mul_nonneg hrest hv₁) (mul_nonneg hr hv₂),
    add_nonneg (mul_nonneg hrest hw₁) (mul_nonneg hr hw₂), ?_, ?_, ?_⟩
  · linear_combination (1 - r) * hsum₁ + r * hsum₂
  · linear_combination (1 - r) * hx₁ + r * hx₂
  · linear_combination (1 - r) * hy₁ + r * hy₂

/-- What lies between two points of one height lies in the triangle. -/
theorem Covers.between {x₁ x₂ : ℚ} (h₁ : t.Covers x₁ y) (h₂ : t.Covers x₂ y) (hx : x₁ ≤ x)
    (hx' : x ≤ x₂) : t.Covers x y := by
  rcases eq_or_lt_of_le (hx.trans hx') with rfl | hlt
  · rwa [le_antisymm hx' hx]
  · have hpos : 0 < x₂ - x₁ := sub_pos.2 hlt
    have h := h₁.part h₂ (div_nonneg (sub_nonneg.2 hx) hpos.le)
      ((div_le_one hpos).2 (sub_le_sub_right hx' x₁))
    rwa [mul_div_cancel₀ _ hpos.ne', sub_self, zero_mul, add_zero, add_sub_cancel] at h

/-- A point of an edge between points of a triangle lies in the triangle, at the height that is
asked for or at that of the nearer end. -/
theorem covers_atHeight (hs : t.Covers e.start.x e.start.y) (hf : t.Covers e.finish.x e.finish.y)
    (h : e.start.y ≤ e.finish.y) (y : ℚ) :
    t.Covers (e.atHeight y).1 (max e.start.y (min e.finish.y y)) := by
  rw [Edge.atHeight_eq, ← Edge.height_share h]
  exact hs.part hf (e.share_nonneg y) (e.share_le_one y)

/-- The corners may be named in any order. -/
theorem covers_byHeight (t : Triangle (Vec3 ℚ)) : t.byHeight.Covers x y ↔ t.Covers x y := by
  refine byHeight_iff (P := fun t => t.Covers x y) ?_ ?_ t
  · rintro a b c ⟨u, v, w, hu, hv, hw, hsum, hx, hy⟩
    refine ⟨v, u, w, hv, hu, hw, ?_, ?_, ?_⟩ <;> dsimp only at * <;> linarith
  · rintro a b c ⟨u, v, w, hu, hv, hw, hsum, hx, hy⟩
    refine ⟨u, w, v, hu, hw, hv, ?_, ?_, ?_⟩ <;> dsimp only at * <;> linarith

/-- Unless all corners are at one height, the ordered ones rise. -/
theorem rises_byHeight (h : ¬ (t.a.y = t.b.y ∧ t.b.y = t.c.y)) : t.byHeight.Rises := by
  obtain ⟨hlower, hupper⟩ := ranks_byHeight (ρ := id) (fun _ _ => Exact.sortsBefore_iff) t
  dsimp only [id] at hlower hupper
  have hne := mt (level_byHeight_iff t).1 h
  refine ⟨hlower, hupper, lt_of_le_of_ne (hlower.trans hupper) fun heq => hne ?_⟩
  exact ⟨le_antisymm hlower (hupper.trans heq.ge), le_antisymm hupper (heq.ge.trans hlower)⟩

/-! ## The two sides of a row -/

/-- The height of a triangle that is nearest to a height. -/
def nearestHeight (t : Triangle (Vec3 ℚ)) (y : ℚ) : ℚ := max t.a.y (min t.c.y y)

theorem covers_long (ht : t.Rises) (y : ℚ) : t.Covers (t.long y).1 (t.nearestHeight y) :=
  covers_atHeight t.covers_a t.covers_c ht.whole.le y

theorem covers_short (ht : t.Rises) (y : ℚ) : t.Covers (t.short y).1 (t.nearestHeight y) := by
  rw [short, nearestHeight]
  split
  · next hb =>
    have hb := Exact.lt_iff.1 hb
    have heq : max t.a.y (min t.c.y y) = max t.a.y (min t.b.y y) := by
      rw [min_eq_right (hb.le.trans ht.upper), min_eq_right hb.le]
    rw [heq]
    exact covers_atHeight t.covers_a t.covers_b ht.lower y
  · next hb =>
    have hmid : t.b.y ≤ min t.c.y y := le_min ht.upper (not_lt.1 (mt Exact.lt_iff.2 hb))
    have heq : max t.a.y (min t.c.y y) = max t.b.y (min t.c.y y) := by
      rw [max_eq_right (ht.lower.trans hmid), max_eq_right hmid]
    rw [heq]
    exact covers_atHeight t.covers_b t.covers_c ht.upper y

/-- Twice the area of the triangle, negative if the middle corner is on the left. -/
def doubleArea (t : Triangle (Vec3 ℚ)) : ℚ :=
  (t.c.y - t.a.y) * (t.b.x - t.a.x) - (t.c.x - t.a.x) * (t.b.y - t.a.y)

/-- How far a point stands off the long side is told by the weight of the middle corner. -/
theorem offset_of_weights (hsum : u + v + w = 1) (hy : y = u * t.a.y + v * t.b.y + w * t.c.y)
    {s : ℚ} (hs : t.a.y + (t.c.y - t.a.y) * s = y) :
    (t.c.y - t.a.y) * (u * t.a.x + v * t.b.x + w * t.c.x - (t.a.x + (t.c.x - t.a.x) * s)) =
      v * t.doubleArea := by
  obtain rfl : u = 1 - v - w := by linarith
  rw [doubleArea]
  linear_combination (t.a.x - t.c.x) * hs + (t.a.x - t.c.x) * hy

/-- Where the short sides stand, by weights of which that of the middle corner is as large as any
point of this height has. -/
theorem exists_short (ht : t.Rises) (hy : t.a.y ≤ y) (hy' : y ≤ t.c.y) :
    ∃ u v w, u + v + w = 1 ∧ (t.short y).1 = u * t.a.x + v * t.b.x + w * t.c.x ∧
      y = u * t.a.y + v * t.b.y + w * t.c.y ∧
      ∀ u' v' w', 0 ≤ u' → 0 ≤ w' → u' + v' + w' = 1 →
        y = u' * t.a.y + v' * t.b.y + w' * t.c.y → v' ≤ v := by
  rw [short]
  split
  · next hb =>
    have hb := Exact.lt_iff.1 hb
    have hs := Edge.height_share (e := ⟨t.a, t.b⟩) ht.lower y
    rw [min_eq_right hb.le, max_eq_right hy] at hs
    rw [Edge.atHeight_eq]
    generalize Edge.share _ y = s at hs ⊢
    refine ⟨1 - s, s, 0, by ring, by ring, by linear_combination -hs, ?_⟩
    intro u' v' w' hu hw hsum h
    have hpos : 0 < t.b.y - t.a.y := sub_pos.2 (hy.trans_lt hb)
    have hrest : 0 ≤ w' * (t.c.y - t.a.y) := mul_nonneg hw (sub_nonneg.2 ht.whole.le)
    refine le_of_mul_le_mul_left ?_ hpos
    obtain rfl : u' = 1 - v' - w' := by linarith
    linarith
  · next hb =>
    have hb := not_lt.1 (mt Exact.lt_iff.2 hb)
    rw [Edge.atHeight_eq]
    rcases eq_or_lt_of_le ht.upper with hlevel | hlt
    · -- a level side stands where it starts, and that is the middle corner
      have hs : Edge.share ⟨t.b, t.c⟩ y = 0 := if_pos hlevel.symm
      rw [hs]
      refine ⟨0, 1, 0, by ring, by ring, by linarith, fun u' v' w' hu hw hsum _ => by linarith⟩
    · have hs := Edge.height_share (e := ⟨t.b, t.c⟩) ht.upper y
      rw [min_eq_right hy', max_eq_right hb] at hs
      generalize Edge.share _ y = s at hs ⊢
      refine ⟨0, 1 - s, s, by ring, by ring, by linear_combination -hs, ?_⟩
      intro u' v' w' hu hw hsum h
      have hrest : 0 ≤ u' * (t.c.y - t.a.y) := mul_nonneg hu (sub_nonneg.2 ht.whole.le)
      refine le_of_mul_le_mul_left ?_ (sub_pos.2 hlt)
      obtain rfl : w' = 1 - u' - v' := by linarith
      linarith

/-- No point of a triangle is lower than the lowest corner or higher than the highest. -/
theorem Covers.height_mem (ht : t.Rises) (h : t.Covers x y) : t.a.y ≤ y ∧ y ≤ t.c.y := by
  obtain ⟨u, v, w, hu, hv, hw, hsum, -, hy⟩ := h
  have hba := mul_nonneg hv (sub_nonneg.2 ht.lower)
  have hca := mul_nonneg hw (sub_nonneg.2 ht.whole.le)
  have hac := mul_nonneg hu (sub_nonneg.2 ht.whole.le)
  have hbc := mul_nonneg hv (sub_nonneg.2 ht.upper)
  constructor
  · obtain rfl : u = 1 - v - w := by linarith
    linarith
  · obtain rfl : w = 1 - u - v := by linarith
    linarith

/-- The points of a triangle at one height lie between its sides. -/
theorem Covers.between_sides (ht : t.Rises) (h : t.Covers x y) :
    min (t.long y).1 (t.short y).1 ≤ x ∧ x ≤ max (t.long y).1 (t.short y).1 := by
  obtain ⟨hlow, hhigh⟩ := h.height_mem ht
  obtain ⟨u, v, w, hu, hv, hw, hsum, hx, hy⟩ := h
  obtain ⟨u', v', w', hsum', hx', hy', hmost⟩ := exists_short ht hlow hhigh
  have hvv' : v ≤ v' := hmost u v w hu hw hsum hy
  have hs := Edge.height_share (e := ⟨t.a, t.c⟩) ht.whole.le y
  rw [min_eq_right hhigh, max_eq_right hlow] at hs
  have hoff := offset_of_weights hsum hy hs
  have hoff' := offset_of_weights hsum' hy' hs
  have hpos : 0 < t.c.y - t.a.y := sub_pos.2 ht.whole
  rw [long, Edge.atHeight_eq, hx', hx]
  exact between_of_offsets hpos hv hvv' hoff hoff'

/-! ## Depths -/

/-- The smallest depth of a corner. -/
def leastDepth (t : Triangle (Vec3 ℚ)) : ℚ := min t.a.z (min t.b.z t.c.z)

/-- The largest depth of a corner. -/
def greatestDepth (t : Triangle (Vec3 ℚ)) : ℚ := max t.a.z (max t.b.z t.c.z)

/-- A depth between those of the corners. -/
def IsDepth (t : Triangle (Vec3 ℚ)) (z : ℚ) : Prop := t.leastDepth ≤ z ∧ z ≤ t.greatestDepth

theorem leastDepth_byHeight (t : Triangle (Vec3 ℚ)) : t.byHeight.leastDepth = t.leastDepth := by
  refine (byHeight_iff (P := fun s => s.leastDepth = t.leastDepth) ?_ ?_ t).2 rfl
  · intro a b c h
    exact (min_left_comm ..).trans h
  · intro a b c h
    exact (congrArg (min a.z) (min_comm ..)).trans h

theorem greatestDepth_byHeight (t : Triangle (Vec3 ℚ)) :
    t.byHeight.greatestDepth = t.greatestDepth := by
  refine (byHeight_iff (P := fun s => s.greatestDepth = t.greatestDepth) ?_ ?_ t).2 rfl
  · intro a b c h
    exact (max_left_comm ..).trans h
  · intro a b c h
    exact (congrArg (max a.z) (max_comm ..)).trans h

theorem isDepth_corners (t : Triangle (Vec3 ℚ)) :
    t.IsDepth t.a.z ∧ t.IsDepth t.b.z ∧ t.IsDepth t.c.z := by
  simp [IsDepth, leastDepth, greatestDepth]

theorem isDepth_atHeight (hs : t.IsDepth e.start.z) (hf : t.IsDepth e.finish.z) (y : ℚ) :
    t.IsDepth (e.atHeight y).2 := by
  rw [Edge.atHeight_eq]
  exact part_mem hs hf (e.share_nonneg y) (e.share_le_one y)

theorem isDepth_long (t : Triangle (Vec3 ℚ)) (y : ℚ) : t.IsDepth (t.long y).2 :=
  isDepth_atHeight t.isDepth_corners.1 t.isDepth_corners.2.2 y

theorem isDepth_short (t : Triangle (Vec3 ℚ)) (y : ℚ) : t.IsDepth (t.short y).2 := by
  obtain ⟨ha, hb, hc⟩ := t.isDepth_corners
  rw [short]
  split
  · exact isDepth_atHeight ha hb y
  · exact isDepth_atHeight hb hc y

end Triangle

end SceneScript
