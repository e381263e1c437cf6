import Mathlib.Algebra.BigOperators.Group.List.Basic
import Mathlib.Tactic.Ring
import SceneScript.Proofs.Shape.Surfaces

/-!
# Spheres close up

All places at either pole of a sphere are one point in space (`spherePoint_eq_iff`), so the grid is
told apart from the points that it stands for (`joinPoles`). Joined there, the sphere has no crack
and no inside-out triangle: every half-edge has its twin (`sphereTwin`). Inside of a slice this is
the other half of the patch, or the next patch; across the border of two slices it is in the slice
before or after. Where a triangle is left out at a pole, its two neighbours meet each other instead.

In a sphere of three slices or more an edge tells which half-edge goes along it (`sphereHalfEdge`),
so none is passed along twice. With two slices the ring between the poles is a single line, which
both slices pass along in both directions.
-/

namespace SceneScript.Shape

/-- All places of the first pole are taken as one, and all places of the other pole as one. -/
def joinPoles (n : Nat) (place : Place) : Place :=
  if place.2 = 0 then (0, 0) else if place.2 = n then (0, n) else place

/-- The sphere with its places joined at the poles. -/
def joinedSphere (n : Nat) : List (Triangle Place) :=
  (sphereMesh n).map (Triangle.map (joinPoles n))

variable {n i j : Nat} {leg : Leg} {h : HalfEdge}

/-! ## The grid -/

/-- Every corner of a sphere is a place of its grid. -/
theorem corners_sphereMesh {t : Triangle Place} (ht : t ∈ sphereMesh n) :
    ∀ p ∈ t.corners, p.1 < n ∧ p.2 ≤ n := by
  obtain ⟨i, hi, ht⟩ := List.mem_flatMap.1 ht
  obtain ⟨j, hj, ht⟩ := List.mem_flatMap.1 ht
  rw [List.mem_range] at hi hj
  have hn := next_lt hi
  -- either half of a patch has its corners in this slice and the next
  have hcorners : t = ⟨(i, j), (i, j + 1), ((i + 1) % n, j + 1)⟩ ∨
      t = ⟨(i, j), ((i + 1) % n, j + 1), ((i + 1) % n, j)⟩ := by
    rcases List.mem_append.1 ht with ht | ht
    · split at ht
      · cases ht
      · exact .inl (List.mem_singleton.1 ht)
    · split at ht
      · cases ht
      · exact .inr (List.mem_singleton.1 ht)
  rcases hcorners with rfl | rfl
  · simp only [Triangle.corners, List.forall_mem_cons]
    exact ⟨⟨hi, by omega⟩, ⟨hi, hj⟩, ⟨hn, hj⟩, nofun⟩
  · simp only [Triangle.corners, List.forall_mem_cons]
    exact ⟨⟨hi, by omega⟩, ⟨hn, hj⟩, ⟨hn, by omega⟩, nofun⟩

theorem sum_all_but_last (m : Nat) :
    ((List.range (m + 1)).map fun j => if j + 1 = m + 1 then 0 else 1).sum = m := by
  have hrest : (List.range m).map (fun j => if j + 1 = m + 1 then 0 else 1) =
      (List.range m).map fun _ => 1 := by
    refine List.map_congr_left fun j hj => if_neg ?_
    have := List.mem_range.1 hj
    omega
  rw [List.range_succ, List.map_append, List.sum_append, hrest]
  simp

theorem sum_all_but_first (m : Nat) :
    ((List.range (m + 1)).map fun j => if j = 0 then 0 else 1).sum = m := by
  rw [List.range_succ_eq_map]
  simp [Function.comp_def]

/-- Each slice has two triangles at every step, but one at each of the poles. -/
theorem length_sphereMesh (n : Nat) : (sphereMesh n).length = 2 * n * (n - 1) := by
  cases n with
  | zero => rfl
  | succ m =>
    simp only [sphereMesh, List.length_flatMap, List.length_append, apply_ite List.length,
      List.length_nil, List.length_singleton, List.sum_map_add, sum_all_but_last,
      sum_all_but_first, List.map_const', List.sum_replicate_nat, List.length_range]
    rw [Nat.add_sub_cancel]
    ring

/-- There is no sphere of less than two slices. -/
theorem sphereMesh_eq_nil (hn : n < 2) : sphereMesh n = [] := by
  have hlen := length_sphereMesh n
  have hzero : n = 0 ∨ n = 1 := by omega
  rcases hzero with rfl | rfl <;> exact List.eq_nil_of_length_eq_zero hlen

/-! ## Half-edges -/

/-- The legs of patch `j` of a slice. At either pole one half of the patch is left out. -/
def sphereLegs (n j : Nat) : List Leg :=
  (if j + 1 = n then [] else [.ab, .bc, .ca]) ++ (if j = 0 then [] else [.ac, .cd, .da])

/-- The half-edges of a sphere. -/
def sphereHalfEdges (n : Nat) : List HalfEdge := halfEdges n (sphereLegs n)

/-- The edge of a sphere that a half-edge goes along. -/
def sphereEdge (n : Nat) : HalfEdge → Edge Place
  | ⟨(i, j), leg⟩ =>
    (leg.edge (i, j) (i, j + 1) ((i + 1) % n, j + 1) ((i + 1) % n, j)).map (joinPoles n)

/-- The sides of a sphere are those that its half-edges go along. -/
theorem sides_joinedSphere (n : Nat) :
    sides (joinedSphere n) = (sphereHalfEdges n).map (sphereEdge n) := by
  rw [sides, joinedSphere, sphereMesh, sphereHalfEdges, halfEdges, List.flatMap_map,
    List.flatMap_assoc, List.map_flatMap]
  refine congrArg List.flatten (List.map_congr_left fun i _ => ?_)
  dsimp only
  rw [List.flatMap_assoc, List.map_flatMap]
  refine congrArg List.flatten (List.map_congr_left fun j _ => ?_)
  rw [sphereLegs]
  split <;> split <;> rfl

/-- A half-edge is on the near half of its patch, but for the last patch of a slice, or on the far
half, but for the first patch. -/
theorem mem_sphereHalfEdges : ⟨(i, j), leg⟩ ∈ sphereHalfEdges n ↔ i < n ∧ j < n ∧
    (leg ∈ [Leg.ab, .bc, .ca] ∧ j + 1 ≠ n ∨ leg ∈ [Leg.ac, .cd, .da] ∧ j ≠ 0) := by
  rw [sphereHalfEdges, mem_halfEdges, sphereLegs, List.mem_append]
  refine and_congr_right fun _ => and_congr_right fun _ => or_congr ?_ ?_
  · split <;> simp_all
  · split <;> simp_all

theorem nodup_sphereHalfEdges (n : Nat) : (sphereHalfEdges n).Nodup := by
  refine nodup_halfEdges fun j => ?_
  rw [sphereLegs]
  split <;> split <;> decide

/-! ## Twins -/

/-- The half-edge along the same edge of a sphere that leads the other way. -/
def sphereTwin (n : Nat) : HalfEdge → HalfEdge
  | ⟨(i, j), .ab⟩ => ⟨(before n i, j), if j = 0 then .ca else .cd⟩
  | ⟨(i, j), .bc⟩ => ⟨(i, j + 1), .da⟩
  | ⟨(i, j), .ca⟩ => if j = 0 then ⟨((i + 1) % n, j), .ab⟩ else ⟨(i, j), .ac⟩
  | ⟨(i, j), .ac⟩ => if j + 1 = n then ⟨(before n i, j), .cd⟩ else ⟨(i, j), .ca⟩
  | ⟨(i, j), .cd⟩ => ⟨((i + 1) % n, j), if j + 1 = n then .ac else .ab⟩
  | ⟨(i, j), .da⟩ => ⟨(i, j - 1), .bc⟩

/-- The twin of a half-edge is not on a triangle that is left out. -/
theorem sphereTwin_mem (hh : h ∈ sphereHalfEdges n) : sphereTwin n h ∈ sphereHalfEdges n := by
  obtain ⟨⟨i, j⟩, leg⟩ := h
  obtain ⟨hi, hj, hleg⟩ := mem_sphereHalfEdges.1 hh
  have hb := before_lt hi
  have hn := next_lt hi
  cases leg <;> grind [sphereTwin, mem_sphereHalfEdges]

theorem sphereTwin_sphereTwin (hh : h ∈ sphereHalfEdges n) : sphereTwin n (sphereTwin n h) = h := by
  obtain ⟨⟨i, j⟩, leg⟩ := h
  obtain ⟨hi, hj, hleg⟩ := mem_sphereHalfEdges.1 hh
  have hb := before_next hi
  have hn := next_before hi
  cases leg <;> grind [sphereTwin]

theorem sphereEdge_sphereTwin (hh : h ∈ sphereHalfEdges n) :
    sphereEdge n (sphereTwin n h) = (sphereEdge n h).reverse := by
  obtain ⟨⟨i, j⟩, leg⟩ := h
  obtain ⟨hi, hj, hleg⟩ := mem_sphereHalfEdges.1 hh
  have hb := before_next hi
  have hn := next_before hi
  cases leg <;> grind [sphereTwin, sphereEdge, Leg.edge, Edge.map, Edge.reverse, joinPoles]

/-- No half-edge ends where it starts, since the next slice is another one. -/
theorem sphereEdge_start_ne (hn : 2 ≤ n) (hh : h ∈ sphereHalfEdges n) :
    (sphereEdge n h).start ≠ (sphereEdge n h).finish := by
  obtain ⟨⟨i, j⟩, leg⟩ := h
  obtain ⟨hi, hj, hleg⟩ := mem_sphereHalfEdges.1 hh
  have hne := next_ne hn hi
  cases leg <;> grind [sphereEdge, Leg.edge, Edge.map, joinPoles]

/-- A sphere closes up. -/
theorem closesUp_joinedSphere (hn : 2 ≤ n) : ClosesUp (joinedSphere n) where
  distinct := by
    refine distinct_of_sides fun e he => ?_
    rw [sides_joinedSphere] at he
    obtain ⟨h, hh, rfl⟩ := List.mem_map.1 he
    exact sphereEdge_start_ne hn hh
  balanced := by
    intro e
    rw [sides_joinedSphere]
    exact count_reverse_of_twin (sphereTwin n) (nodup_sphereHalfEdges n)
      (fun _ => sphereTwin_mem) (fun _ => sphereTwin_sphereTwin) (fun _ => sphereEdge_sphereTwin) e

/-! ## Single edges -/

/-- The half-edge of a sphere of three slices or more that goes along an edge: up the rows or down
or along one, and straight or across the patch. -/
def sphereHalfEdge (n : Nat) (e : Edge Place) : HalfEdge :=
  if e.start.2 < e.finish.2 then
    if e.start.2 = 0 then ⟨(e.finish.1, 0), .ab⟩
    else if e.finish.2 = n ∨ e.start.1 ≠ e.finish.1 then ⟨e.start, .ac⟩
    else ⟨e.start, .ab⟩
  else if e.finish.2 < e.start.2 then
    if e.finish.2 = 0 then ⟨(before n e.start.1, 0), .ca⟩
    else if e.start.2 = n ∨ e.start.1 = e.finish.1 then ⟨(before n e.finish.1, e.finish.2), .cd⟩
    else ⟨e.finish, .ca⟩
  else if e.finish.1 = (e.start.1 + 1) % n then ⟨(e.start.1, e.start.2 - 1), .bc⟩
  else ⟨e.finish, .da⟩

/-- With three slices or more the slice before is not the one after, so an edge tells its
half-edge. -/
theorem sphereHalfEdge_sphereEdge (hn : 3 ≤ n) (hh : h ∈ sphereHalfEdges n) :
    sphereHalfEdge n (sphereEdge n h) = h := by
  obtain ⟨⟨i, j⟩, leg⟩ := h
  obtain ⟨hi, hj, hleg⟩ := mem_sphereHalfEdges.1 hh
  have hne := next_ne (by omega) hi
  have hne' := next_next_ne hn hi
  have hb := before_next hi
  cases leg <;> grind [sphereHalfEdge, sphereEdge, Leg.edge, Edge.map, joinPoles]

theorem nodup_sides_joinedSphere (hn : 3 ≤ n) : (sides (joinedSphere n)).Nodup := by
  rw [sides_joinedSphere]
  refine (nodup_sphereHalfEdges n).map_on fun h hh h' hh' heq => ?_
  rw [← sphereHalfEdge_sphereEdge hn hh, heq, sphereHalfEdge_sphereEdge hn hh']

/-- A sphere of two slices or more has two triangles for each step of each slice but one, with their
corners on its grid. With its places joined at the poles it closes up, and if it has three slices or
more it passes along no edge twice. Of less than two slices there is nothing. -/
theorem sphere_closesUp (n : Nat) (center : Vec3 Float) (radius : Float) :
    (n < 2 → sphere center radius n = []) ∧
    (2 ≤ n →
      sphere center radius n = (sphereMesh n).map (Triangle.map (spherePoint center radius n)) ∧
      (sphere center radius n).length = 2 * n * (n - 1) ∧
      (∀ t ∈ sphereMesh n, ∀ p ∈ t.corners, p.1 < n ∧ p.2 ≤ n) ∧
      ClosesUp (joinedSphere n) ∧
      (3 ≤ n → ∀ e ∈ sides (joinedSphere n), (sides (joinedSphere n)).count e = 1)) := by
  refine ⟨fun hn => ?_, fun hn => ⟨rfl, ?_, fun t => corners_sphereMesh, closesUp_joinedSphere hn,
    fun hn e he => List.count_eq_one_of_mem (nodup_sides_joinedSphere hn) he⟩⟩
  · rw [sphere, sphereMesh_eq_nil hn, List.map_nil]
  · rw [sphere, List.length_map, length_sphereMesh]

/-- A sphere of three slices has twelve triangles, three of them at each pole. -/
theorem sphere_closesUp_three :
    (sphere ⟨1.0, 2.0, 3.0⟩ 5.0 1 = []) ∧ (sphere ⟨1.0, 2.0, 3.0⟩ 5.0 3).length = 12 ∧
      ClosesUp (joinedSphere 3) ∧
      ⟨(0, 0), (2, 1)⟩ ∈ sides (joinedSphere 3) ∧
      (sides (joinedSphere 3)).count ⟨(0, 0), (2, 1)⟩ = 1 := by
  obtain ⟨-, hlen, -, hclosed, hone⟩ := (sphere_closesUp 3 ⟨1.0, 2.0, 3.0⟩ 5.0).2 (by decide)
  have hmem : (⟨(0, 0), (2, 1)⟩ : Edge Place) ∈ sides (joinedSphere 3) := by decide
  exact ⟨(sphere_closesUp 1 _ _).1 (by decide), hlen, hclosed, hmem, hone (by decide) _ hmem⟩

end SceneScript.Shape
