import Mathlib.Data.List.Nodup
import SceneScript.Proofs.Raster.Sides

/-!
# Filled triangles

The fragments of a triangle are told row by row, each row from one side of the triangle to the other
and each cell once (`Triangle.nodup_fragments`). In exact arithmetic they fill the triangle
(`Triangle.Fills`): no cell of the picture is left out whose point lies in the triangle, none is
painted that the triangle comes no nearer to than half a cell, and no depth is beyond those of the
corners.

Rows and columns are rounded, so a row may be a half above or below the triangle. The sides stand
then where they do at the nearest corner, and the row stays as near to the triangle as it is.
-/

namespace SceneScript

/-- The cell that a fragment covers. -/
def Fragment.cell {α : Type} (f : Fragment α) : Int × Int := (f.x, f.y)

/-! ## Intervals -/

theorem mem_interval {first last x : Int} : x ∈ interval first last ↔ first ≤ x ∧ x ≤ last := by
  rw [interval, List.mem_map]
  constructor
  · rintro ⟨i, hi, rfl⟩
    have := List.mem_range.1 hi
    omega
  · rintro ⟨hfirst, hlast⟩
    exact ⟨(x - first).toNat, List.mem_range.2 (by omega), by omega⟩

theorem interval_eq_nil {first last : Int} (h : last < first) : interval first last = [] := by
  rw [interval, show (last + 1 - first).toNat = 0 by omega]
  rfl

theorem nodup_interval (first last : Int) : (interval first last).Nodup := by
  refine List.nodup_range.map fun i j h => ?_
  have h : first + (i : Int) = first + (j : Int) := h
  omega

namespace Triangle

/-! ## Cells -/

section

variable {α : Type} [Scalar α]

/-- A row has fragments of its own height only, and covers no cell twice. -/
theorem rowBetween_cells (width : Nat) (y : Int) (left right : α × α) :
    (∀ f ∈ rowBetween width y left right, f.y = y) ∧
      ((rowBetween width y left right).map Fragment.cell).Nodup := by
  rw [rowBetween]
  split
  · exact ⟨nofun, List.nodup_nil⟩
  · constructor
    · intro f hf
      obtain ⟨x, -, rfl⟩ := List.mem_map.1 hf
      rfl
    · rw [List.map_map]
      exact (nodup_interval _ _).map fun x x' h => (Prod.mk.inj h).1

open Scalar in
/-- A row reaches from one of the sides to the other. -/
theorem row_eq (width : Nat) (t : Triangle (Vec3 α)) (y : Int) :
    t.row width y =
      if (t.long (ofInt y)).1 ≤ (t.short (ofInt y)).1
      then rowBetween width y (t.long (ofInt y)) (t.short (ofInt y))
      else rowBetween width y (t.short (ofInt y)) (t.long (ofInt y)) := rfl

theorem row_cells (width : Nat) (t : Triangle (Vec3 α)) (y : Int) :
    (∀ f ∈ t.row width y, f.y = y) ∧ ((t.row width y).map Fragment.cell).Nodup := by
  rw [row_eq]
  split <;> exact rowBetween_cells ..

/-- A triangle covers no cell twice. -/
theorem nodup_fragments (width height : Nat) (t : Triangle (Vec3 α)) :
    ((t.fragments width height).map Fragment.cell).Nodup := by
  rw [fragments, List.map_flatMap, List.nodup_flatMap]
  refine ⟨fun y _ => (row_cells width _ y).2, ?_⟩
  refine (nodup_interval _ _).imp fun {y y'} hne => ?_
  -- cells of two rows differ in their height
  intro c hc hc'
  obtain ⟨f, hf, rfl⟩ := List.mem_map.1 hc
  obtain ⟨f', hf', heq⟩ := List.mem_map.1 hc'
  have hy := (row_cells width _ y).1 f hf
  have hy' := (row_cells width _ y').1 f' hf'
  exact hne (hy.symm.trans ((Prod.mk.inj heq).2.symm.trans hy'))

end

variable {t : Triangle (Vec3 ℚ)}

/-! ## Rows -/

variable {width height : Nat} {left right : ℚ × ℚ} {f : Fragment ℚ} {n : Int}

/-- How far a column is on the way from one to another, as a part of the way. -/
def partOfWay (first last x : Int) : ℚ := if first < last then (x - first) / (last - first) else 0

/-- Each column of the picture between the rounded ends of a row has a fragment, whose depth is as
far on the way from one end's to the other's as the column is. -/
theorem rowBetween_eq (width : Nat) (n : Int) (left right : ℚ × ℚ) :
    rowBetween width n left right =
      (interval (max (Exact.nearest left.1) 0) (min (Exact.nearest right.1) (width - 1))).map
        fun x => ⟨x, n, left.2 + (right.2 - left.2) *
          partOfWay (Exact.nearest left.1) (Exact.nearest right.1) x⟩ := by
  have hfirst : max (Exact.nearest left.1 : ℚ) 0 = (max (Exact.nearest left.1) 0 : Int) := by
    rw [Int.cast_max, Int.cast_zero]
  have hlast : min (Exact.nearest right.1 : ℚ) ((width : Int) - 1) =
      (min (Exact.nearest right.1) (width - 1) : Int) := by
    rw [Int.cast_min, Int.cast_sub, Int.cast_one]
  rw [rowBetween]
  simp only [Exact.larger_eq, Exact.smaller_eq, Exact.literal_zero, Exact.literal_one,
    Exact.round_eq, Exact.ofInt_eq, Exact.lt_iff, hfirst, hlast, Exact.toInt_intCast, Int.cast_lt]
  split
  · next h => rw [interval_eq_nil h, List.map_nil]
  · refine List.map_congr_left fun x _ => ?_
    rw [partOfWay]
    split
    · rw [div_mul_eq_mul_div, mul_div_assoc]
    · rw [mul_zero, zero_mul]

theorem partOfWay_mem {first last x : Int} (h : first ≤ x) (h' : x ≤ last) :
    0 ≤ partOfWay first last x ∧ partOfWay first last x ≤ 1 := by
  rw [partOfWay]
  split
  · next hlt =>
    have hpos : (0 : ℚ) < last - first := sub_pos.2 (Int.cast_lt.2 hlt)
    exact ⟨div_nonneg (sub_nonneg.2 (Int.cast_le.2 h)) hpos.le,
      (div_le_one hpos).2 (sub_le_sub_right (Int.cast_le.2 h') _)⟩
  · exact ⟨le_rfl, zero_le_one⟩

/-- A row reaches from one side to the other, from the left to the right. -/
theorem exists_row_eq (width : Nat) (t : Triangle (Vec3 ℚ)) (n : Int) :
    ∃ left right : ℚ × ℚ, t.row width n = rowBetween width n left right ∧ left.1 ≤ right.1 ∧
      (left = t.long n ∧ right = t.short n ∨ left = t.short n ∧ right = t.long n) := by
  rw [row_eq]
  split
  · next h => exact ⟨_, _, rfl, Exact.le_iff.1 h, .inl ⟨rfl, rfl⟩⟩
  · next h => exact ⟨_, _, rfl, (not_le.1 (mt Exact.le_iff.2 h)).le, .inr ⟨rfl, rfl⟩⟩

/-- A fragment of a row stands in the picture, within half a column of a point of the triangle, and
is as deep as some point between the corners. -/
theorem sound_row (ht : t.Rises) (hf : f ∈ t.row width n) :
    f.y = n ∧ 0 ≤ f.x ∧ f.x < width ∧
      (∃ x, t.Covers x (t.nearestHeight n) ∧ |f.x - x| ≤ 1 / 2) ∧ t.IsDepth f.depth := by
  obtain ⟨left, right, hrow, hle, hsides⟩ := exists_row_eq width t n
  rw [hrow, rowBetween_eq] at hf
  obtain ⟨x, hx, rfl⟩ := List.mem_map.1 hf
  obtain ⟨hfirst, hlast⟩ := mem_interval.1 hx
  have hleft : Exact.nearest left.1 ≤ x := by omega
  have hright : x ≤ Exact.nearest right.1 := by omega
  have hcovers : t.Covers left.1 (t.nearestHeight n) ∧ t.Covers right.1 (t.nearestHeight n) := by
    rcases hsides with ⟨rfl, rfl⟩ | ⟨rfl, rfl⟩
    · exact ⟨covers_long ht n, covers_short ht n⟩
    · exact ⟨covers_short ht n, covers_long ht n⟩
  have hdepths : t.IsDepth left.2 ∧ t.IsDepth right.2 := by
    rcases hsides with ⟨rfl, rfl⟩ | ⟨rfl, rfl⟩
    · exact ⟨t.isDepth_long n, t.isDepth_short n⟩
    · exact ⟨t.isDepth_short n, t.isDepth_long n⟩
  have hpart := partOfWay_mem hleft hright
  refine ⟨rfl, by dsimp only; omega, by dsimp only; omega, ⟨max left.1 (min right.1 x), ?_, ?_⟩,
    part_mem hdepths.1 hdepths.2 hpart.1 hpart.2⟩
  · exact hcovers.1.between hcovers.2 (le_max_left ..) (max_le hle (min_le_left ..))
  · exact Exact.abs_sub_between_le hle hleft hright

/-- A cell of the picture that the triangle covers has a fragment in its row. -/
theorem exists_mem_row (ht : t.Rises) {x : Int} (h : t.Covers x n) (hx : 0 ≤ x) (hx' : x < width) :
    ∃ f ∈ t.row width n, f.cell = (x, n) := by
  obtain ⟨left, right, hrow, hle, hsides⟩ := exists_row_eq width t n
  have hbetween : left.1 ≤ x ∧ (x : ℚ) ≤ right.1 := by
    have h := h.between_sides ht
    rcases hsides with ⟨rfl, rfl⟩ | ⟨rfl, rfl⟩
    · rwa [min_eq_left hle, max_eq_right hle] at h
    · rwa [min_eq_right hle, max_eq_left hle] at h
  have hleft : Exact.nearest left.1 ≤ x := by
    simpa using Exact.nearest_mono hbetween.1
  have hright : x ≤ Exact.nearest right.1 := by
    simpa using Exact.nearest_mono hbetween.2
  rw [hrow, rowBetween_eq]
  exact ⟨_, List.mem_map.2 ⟨x, mem_interval.2 ⟨by omega, by omega⟩, rfl⟩, rfl⟩

/-! ## Whole triangles -/

/-- The rows of a triangle are those of the picture between its rounded lowest and highest
corners. -/
theorem fragments_eq (width height : Nat) (t : Triangle (Vec3 ℚ)) :
    t.fragments width height =
      (interval (max 0 (Exact.nearest t.byHeight.a.y))
        (min (height - 1) (Exact.nearest t.byHeight.c.y))).flatMap (t.byHeight.row width) := by
  rw [fragments]
  simp only [Exact.round_eq, Exact.toInt_intCast]

/-- Fragments fill a triangle in a picture of the given size. -/
structure Fills (t : Triangle (Vec3 ℚ)) (width height : Nat) (fs : List (Fragment ℚ)) : Prop where
  inPicture : ∀ f ∈ fs, 0 ≤ f.x ∧ f.x < width ∧ 0 ≤ f.y ∧ f.y < height
  /-- No cell is painted twice. -/
  nodup : (fs.map Fragment.cell).Nodup
  /-- Every cell of the picture whose point lies in the triangle is painted. -/
  complete : ∀ x y : Int, 0 ≤ x → x < width → 0 ≤ y → y < height → t.Covers x y →
    (x, y) ∈ fs.map Fragment.cell
  /-- Every cell that is painted has a point of the triangle within half a cell of its own. -/
  sound : ∀ f ∈ fs, ∃ x y, t.Covers x y ∧ |f.x - x| ≤ 1 / 2 ∧ |f.y - y| ≤ 1 / 2
  isDepth : ∀ f ∈ fs, t.IsDepth f.depth

/-- The fragments of a triangle fill it, unless its corners are all at one height. -/
theorem fills_fragments (width height : Nat) (h : ¬ (t.a.y = t.b.y ∧ t.b.y = t.c.y)) :
    t.Fills width height (t.fragments width height) := by
  have ht := rises_byHeight h
  have hrow {f : Fragment ℚ} (hf : f ∈ t.fragments width height) : ∃ n : Int,
      f ∈ t.byHeight.row width n ∧ 0 ≤ n ∧ n < height ∧
        Exact.nearest t.byHeight.a.y ≤ n ∧ n ≤ Exact.nearest t.byHeight.c.y := by
    rw [fragments_eq] at hf
    obtain ⟨n, hn, hf⟩ := List.mem_flatMap.1 hf
    obtain ⟨hlow, hhigh⟩ := mem_interval.1 hn
    exact ⟨n, hf, by omega, by omega, by omega, by omega⟩
  refine ⟨fun f hf => ?_, nodup_fragments width height t, fun x y hx hx' hy hy' hc => ?_,
    fun f hf => ?_, fun f hf => ?_⟩
  · obtain ⟨n, hf, hn, hn', -⟩ := hrow hf
    obtain ⟨rfl, hx, hx', -⟩ := sound_row ht hf
    exact ⟨hx, hx', hn, hn'⟩
  · have hc := (covers_byHeight t).2 hc
    have hbounds := hc.height_mem ht
    obtain ⟨f, hf, hcell⟩ := exists_mem_row ht hc hx hx'
    have hlow : Exact.nearest t.byHeight.a.y ≤ y := by
      simpa using Exact.nearest_mono hbounds.1
    have hhigh : y ≤ Exact.nearest t.byHeight.c.y := by
      simpa using Exact.nearest_mono hbounds.2
    rw [fragments_eq, ← hcell]
    refine List.mem_map_of_mem (List.mem_flatMap.2 ⟨y, mem_interval.2 ⟨?_, ?_⟩, hf⟩) <;> omega
  · obtain ⟨n, hf, -, -, hlow, hhigh⟩ := hrow hf
    obtain ⟨rfl, -, -, ⟨x, hc, hx⟩, -⟩ := sound_row ht hf
    exact ⟨x, _, (covers_byHeight t).1 hc, hx, Exact.abs_sub_between_le ht.whole.le hlow hhigh⟩
  · obtain ⟨n, hf, -⟩ := hrow hf
    obtain ⟨-, -, -, -, hz⟩ := sound_row ht hf
    rwa [IsDepth, leastDepth_byHeight, greatestDepth_byHeight] at hz

/-- A triangle whose lowest side is level and half a row up, and that reaches past all four sides of
the picture but one. -/
theorem fills_fragments_clipped :
    ¬ ((1 / 2 : ℚ) = 1 / 2 ∧ (1 / 2 : ℚ) = 7) ∧
      (⟨⟨-2, 1 / 2, 0⟩, ⟨5, 1 / 2, 4⟩, ⟨5 / 2, 7, 1⟩⟩ : Triangle (Vec3 ℚ)).Fills 4 5
        ((⟨⟨-2, 1 / 2, 0⟩, ⟨5, 1 / 2, 4⟩, ⟨5 / 2, 7, 1⟩⟩ : Triangle (Vec3 ℚ)).fragments 4 5) :=
  have h : ¬ ((1 / 2 : ℚ) = 1 / 2 ∧ (1 / 2 : ℚ) = 7) := by norm_num
  ⟨h, fills_fragments 4 5 h⟩

end Triangle

end SceneScript
