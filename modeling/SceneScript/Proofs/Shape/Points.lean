import Mathlib.Analysis.SpecialFunctions.Trigonometric.Angle
import SceneScript.Proofs.Shape.Cubics
import SceneScript.Proofs.Shape.Sphere
import SceneScript.Proofs.Shape.Torus

/-!
# The points of round shapes

The points of a grid may be listed row after row, and then a place is told by its index in the list
(`getElem?_gridPoints`). So a sphere and a torus are made of the points at the indices of their
corners (`sphere_eq_indexed`, `torus_eq_indexed`), over doubles as over any numbers.

What points these are is seen where a turn is exact, over the real numbers. They lie on the sphere
and on the torus (`spherePoint_on_sphere`, `torusPoint_on_torus`). All places at a pole of a sphere
are one point, and no other two places are (`spherePoint_eq_iff`), so the points are joined just as
`joinPoles` joins the places. On a torus whose tube leaves a hole no two places are one point
(`torusPoint_injOn`). Both solids therefore close up in space as their grids do (`closesUp_sphere`,
`closesUp_torus`), and a circle does too (`circle_closes`).
-/

namespace SceneScript.Shape

/-! ## Places and indices -/

section Grid

variable {P : Type} {rows columns : Nat} {p : Place}

/-- The index of a place when the rows of a grid are listed one after the other. -/
def gridIndex (columns : Nat) (p : Place) : Nat := p.1 * columns + p.2

/-- What stands at the places of a grid, row after row. -/
def gridPoints (rows columns : Nat) (f : Place → P) : List P :=
  (List.range rows).flatMap fun i => (List.range columns).map fun j => f (i, j)

theorem gridPoints_succ (rows columns : Nat) (f : Place → P) :
    gridPoints (rows + 1) columns f =
      gridPoints rows columns f ++ (List.range columns).map fun j => f (rows, j) := by
  rw [gridPoints, List.range_succ, List.flatMap_append, List.flatMap_singleton]
  rfl

theorem length_gridPoints (rows columns : Nat) (f : Place → P) :
    (gridPoints rows columns f).length = rows * columns := by
  induction rows with
  | zero => exact (Nat.zero_mul columns).symm
  | succ rows ih =>
    rw [gridPoints_succ, List.length_append, ih, List.length_map, List.length_range, Nat.succ_mul]

/-- At the index of a place stands what belongs to it. -/
theorem getElem?_gridPoints (hp : p.1 < rows ∧ p.2 < columns) (f : Place → P) :
    (gridPoints rows columns f)[gridIndex columns p]? = some (f p) := by
  obtain ⟨i, j⟩ := p
  obtain ⟨hi, hj⟩ := hp
  induction rows with
  | zero => cases hi
  | succ rows ih =>
    rw [gridPoints_succ]
    rcases Nat.lt_succ_iff_lt_or_eq.1 hi with hi | rfl
    · -- the place is in one of the rows before
      have hlt : gridIndex columns (i, j) < (gridPoints rows columns f).length := by
        rw [length_gridPoints]
        calc i * columns + j < (i + 1) * columns := by rw [Nat.succ_mul]; omega
          _ ≤ rows * columns := Nat.mul_le_mul_right _ hi
      rw [List.getElem?_append_left hlt, ih hi]
    · have hle : (gridPoints i columns f).length ≤ gridIndex columns (i, j) := by
        rw [length_gridPoints]
        exact Nat.le_add_right _ _
      rw [List.getElem?_append_right hle, length_gridPoints, gridIndex, Nat.add_sub_cancel_left]
      simp [hj]

/-- Corners are the points at their indices. -/
theorem map_some_eq_indexed {mesh : List (Triangle Place)}
    (hmesh : ∀ t ∈ mesh, ∀ p ∈ t.corners, p.1 < rows ∧ p.2 < columns) (f : Place → P) :
    (mesh.map (Triangle.map f)).map (Triangle.map some) =
      mesh.map (Triangle.map fun p => (gridPoints rows columns f)[gridIndex columns p]?) := by
  rw [List.map_map]
  refine List.map_congr_left fun t ht => ?_
  have hcorner {p : Place} (hp : p ∈ t.corners) :=
    (getElem?_gridPoints (hmesh t ht p hp) f).symm
  simp only [Function.comp_apply, Triangle.map, Triangle.mk.injEq]
  exact ⟨hcorner (.head _), hcorner (.tail _ (.head _)), hcorner (.tail _ (.tail _ (.head _)))⟩

end Grid

section Indexed

variable {α : Type} [Circular α]

/-- A sphere is made of the points of `n` half circles, which have `n + 1` points each. -/
theorem sphere_eq_indexed (center : Vec3 α) (radius : α) (n : Nat) :
    (sphere center radius n).map (Triangle.map some) =
      (sphereMesh n).map (Triangle.map fun p =>
        (gridPoints n (n + 1) (spherePoint center radius n))[gridIndex (n + 1) p]?) :=
  map_some_eq_indexed (fun _ ht p hp =>
    (corners_sphereMesh ht p hp).imp_right Nat.lt_succ_of_le) _

/-- A torus is made of the points of `n` circles around the tube, which have `n` points each. -/
theorem torus_eq_indexed (center : Vec3 α) (minor major : α) (n : Nat) :
    (torus center minor major n).map (Triangle.map some) =
      (torusMesh n).map (Triangle.map fun p =>
        (gridPoints n n (torusPoint center minor major n))[gridIndex n p]?) :=
  map_some_eq_indexed (fun _ ht => corners_torusMesh ht) _

end Indexed

/-! ## Exact turns -/

open Real

/-- Exact turns. -/
noncomputable instance exactCircular : Circular ℝ where
  ofNat n := n
  halfTurn := π
  fullTurn := π + π
  cos := Real.cos
  sin := Real.sin

variable {n i j : Nat} {p q : Place} {center : Vec3 ℝ} {radius minor major : ℝ}

/-- The direction after a step of a turn tells the step. -/
theorem eq_of_turn (hi : i < n) (hj : j < n) (hcos : cos (2 * π * i / n) = cos (2 * π * j / n))
    (hsin : sin (2 * π * i / n) = sin (2 * π * j / n)) : i = j := by
  obtain ⟨k, hk⟩ := Angle.angle_eq_iff_two_pi_dvd_sub.1 (Angle.cos_sin_inj hcos hsin)
  have hn : (n : ℝ) ≠ 0 := Nat.cast_ne_zero.2 (by omega)
  have hsteps : (i : ℝ) = j + n * k := by
    field_simp at hk
    linarith
  have hsteps' : (i : ℤ) = j + n * k := by exact_mod_cast hsteps
  have hmod : (i : ℤ) % n = j % n := by rw [hsteps', Int.add_mul_emod_self_left]
  rw [Int.emod_eq_of_lt (by omega) (by omega), Int.emod_eq_of_lt (by omega) (by omega)] at hmod
  omega

/-- The steps of half a turn lead from one pole to the other. -/
theorem halfTurn_mem_Icc (hn : 0 < n) (hj : j ≤ n) : π * j / n ∈ Set.Icc 0 π := by
  have hn' : (0 : ℝ) < n := Nat.cast_pos.2 hn
  have hj' : (j : ℝ) ≤ n := Nat.cast_le.2 hj
  refine ⟨by positivity, ?_⟩
  rw [div_le_iff₀ hn']
  exact mul_le_mul_of_nonneg_left hj' pi_pos.le

/-- How far along the axis a step of half a turn is tells the step. -/
theorem eq_of_halfTurn (hn : 0 < n) (hi : i ≤ n) (hj : j ≤ n)
    (hcos : cos (π * i / n) = cos (π * j / n)) : i = j := by
  have h := injOn_cos (halfTurn_mem_Icc hn hi) (halfTurn_mem_Icc hn hj) hcos
  have hn' : (n : ℝ) ≠ 0 := Nat.cast_ne_zero.2 (by omega)
  field_simp at h
  exact_mod_cast h

/-- Between the poles a half circle is away from the axis. -/
theorem sin_halfTurn_pos (h0 : 0 < j) (hj : j < n) : 0 < sin (π * j / n) := by
  have hn : (0 : ℝ) < n := Nat.cast_pos.2 (by omega)
  have hj' : (j : ℝ) < n := Nat.cast_lt.2 hj
  have h0' : (0 : ℝ) < j := Nat.cast_pos.2 h0
  refine sin_pos_of_pos_of_lt_pi (by positivity) ?_
  rw [div_lt_iff₀ hn]
  exact mul_lt_mul_of_pos_left hj' pi_pos

/-! ## Spheres -/

theorem spherePoint_eq (center : Vec3 ℝ) (radius : ℝ) (n : Nat) (p : Place) :
    spherePoint center radius n p =
      ⟨radius * cos (π * p.2 / n) + center.x,
        radius * sin (π * p.2 / n) * cos (2 * π * p.1 / n) + center.y,
        radius * sin (π * p.2 / n) * sin (2 * π * p.1 / n) + center.z⟩ := by
  rw [two_mul]
  rfl

/-- All points of a sphere are at the distance of its radius. -/
theorem spherePoint_on_sphere (center : Vec3 ℝ) (radius : ℝ) (n : Nat) (p : Place) :
    let point := spherePoint center radius n p
    (point.x - center.x) ^ 2 + (point.y - center.y) ^ 2 + (point.z - center.z) ^ 2 =
      radius ^ 2 := by
  have hphi := sin_sq_add_cos_sq (2 * π * p.1 / n)
  have htheta := sin_sq_add_cos_sq (π * p.2 / n)
  rw [spherePoint_eq]
  linear_combination radius ^ 2 * sin (π * p.2 / n) ^ 2 * hphi + radius ^ 2 * htheta

/-- The places at the start of the half circles are the pole on the right. -/
theorem spherePoint_start (center : Vec3 ℝ) (radius : ℝ) (n i : Nat) :
    spherePoint center radius n (i, 0) = ⟨radius + center.x, center.y, center.z⟩ := by
  simp [spherePoint_eq]

/-- The places at the end of the half circles are the pole on the left. -/
theorem spherePoint_finish (center : Vec3 ℝ) (radius : ℝ) (hn : 0 < n) (i : Nat) :
    spherePoint center radius n (i, n) = ⟨-radius + center.x, center.y, center.z⟩ := by
  have hn' : (n : ℝ) ≠ 0 := Nat.cast_ne_zero.2 (by omega)
  simp [spherePoint_eq, mul_div_cancel_right₀ π hn']

/-- Joined places are one point. -/
theorem spherePoint_joinPoles (center : Vec3 ℝ) (radius : ℝ) (hn : 0 < n) (p : Place) :
    spherePoint center radius n (joinPoles n p) = spherePoint center radius n p := by
  obtain ⟨i, j⟩ := p
  rw [joinPoles]
  split
  · next h =>
    obtain rfl : j = 0 := h
    rw [spherePoint_start, spherePoint_start]
  · split
    · next h =>
      obtain rfl : j = n := h
      rw [spherePoint_finish center radius hn, spherePoint_finish center radius hn]
    · rfl

/-- Two places of a sphere are one point if they are joined at a pole, and no other two are. -/
theorem spherePoint_eq_iff (hradius : radius ≠ 0) (hp : p.1 < n ∧ p.2 ≤ n)
    (hq : q.1 < n ∧ q.2 ≤ n) :
    spherePoint center radius n p = spherePoint center radius n q ↔
      joinPoles n p = joinPoles n q := by
  have hn : 0 < n := by omega
  refine ⟨fun h => ?_, fun h => ?_⟩
  · rw [spherePoint_eq, spherePoint_eq, Vec3.mk.injEq, add_left_inj, add_left_inj, add_left_inj,
      mul_right_inj' hradius] at h
    obtain ⟨hx, hy, hz⟩ := h
    obtain ⟨i, j⟩ := p
    obtain ⟨k, l⟩ := q
    obtain rfl : j = l := eq_of_halfTurn hn hp.2 hq.2 hx
    -- away from the poles a point also tells how far around it is
    by_cases h0 : j = 0
    · simp [joinPoles, h0]
    by_cases hend : j = n
    · simp [joinPoles, hend]
    have hpos : radius * sin (π * j / n) ≠ 0 :=
      mul_ne_zero hradius (sin_halfTurn_pos (by omega) (by omega)).ne'
    obtain rfl : i = k :=
      eq_of_turn hp.1 hq.1 (mul_left_cancel₀ hpos hy) (mul_left_cancel₀ hpos hz)
    rfl
  · rw [← spherePoint_joinPoles center radius hn p, h, spherePoint_joinPoles center radius hn]

/-- In space it makes no difference that places are joined. -/
theorem sphere_eq_joined (center : Vec3 ℝ) (radius : ℝ) (hn : 0 < n) :
    sphere center radius n =
      (joinedSphere n).map (Triangle.map (spherePoint center radius n)) := by
  rw [sphere, joinedSphere, List.map_map]
  refine List.map_congr_left fun t _ => ?_
  simp only [Function.comp_apply, Triangle.map, spherePoint_joinPoles center radius hn]

/-- A corner of the joined sphere is joined from a place of the grid. -/
theorem exists_joinPoles_eq (h : ∃ t ∈ joinedSphere n, p ∈ t.corners) :
    ∃ q : Place, (q.1 < n ∧ q.2 ≤ n) ∧ joinPoles n q = p := by
  obtain ⟨t, ht, hp⟩ := h
  obtain ⟨u, hu, rfl⟩ := List.mem_map.1 ht
  obtain ⟨q, hq, rfl⟩ : ∃ q ∈ u.corners, joinPoles n q = p := List.mem_map.1 hp
  exact ⟨q, corners_sphereMesh hu q hq, rfl⟩

/-- A sphere closes up in space. -/
theorem closesUp_sphere [DecidableEq (Vec3 ℝ)] (hn : 2 ≤ n) (hradius : radius ≠ 0) :
    ClosesUp (sphere center radius n) := by
  have hn' : 0 < n := by omega
  rw [sphere_eq_joined center radius hn']
  refine (closesUp_joinedSphere hn).map ?_
  -- corners that are one point are joined from places that are joined
  intro p hp q hq h
  obtain ⟨p', hp', rfl⟩ := exists_joinPoles_eq hp
  obtain ⟨q', hq', rfl⟩ := exists_joinPoles_eq hq
  rw [spherePoint_joinPoles center radius hn', spherePoint_joinPoles center radius hn'] at h
  exact (spherePoint_eq_iff hradius hp' hq').1 h

/-! ## Tori -/

theorem torusPoint_eq (center : Vec3 ℝ) (minor major : ℝ) (n : Nat) (p : Place) :
    torusPoint center minor major n p =
      ⟨cos (2 * π * p.1 / n) * (minor * cos (2 * π * p.2 / n) + major) + center.x,
        minor * sin (2 * π * p.2 / n) + center.y,
        -sin (2 * π * p.1 / n) * (minor * cos (2 * π * p.2 / n) + major) + center.z⟩ := by
  rw [two_mul]
  rfl

/-- A tube that is thinner than the ring stays on one side of the axis. -/
theorem ring_pos (hminor : 0 < minor) (hmajor : minor < major) (theta : ℝ) :
    0 < minor * cos theta + major := by
  have h : minor * -1 ≤ minor * cos theta :=
    mul_le_mul_of_nonneg_left (neg_one_le_cos theta) hminor.le
  linarith

/-- All points of a torus are at the distance `minor` from the ring. -/
theorem torusPoint_on_torus (hminor : 0 < minor) (hmajor : minor < major) (center : Vec3 ℝ)
    (n : Nat) (p : Place) :
    let point := torusPoint center minor major n p
    (√((point.x - center.x) ^ 2 + (point.z - center.z) ^ 2) - major) ^ 2 +
      (point.y - center.y) ^ 2 = minor ^ 2 := by
  intro point
  have hring : (point.x - center.x) ^ 2 + (point.z - center.z) ^ 2 =
      (minor * cos (2 * π * p.2 / n) + major) ^ 2 := by
    have hphi := sin_sq_add_cos_sq (2 * π * p.1 / n)
    simp only [point, torusPoint_eq]
    linear_combination (minor * cos (2 * π * p.2 / n) + major) ^ 2 * hphi
  have htheta := sin_sq_add_cos_sq (2 * π * p.2 / n)
  rw [hring, sqrt_sq (ring_pos hminor hmajor _).le]
  simp only [point, torusPoint_eq]
  linear_combination minor ^ 2 * htheta

/-- A point tells how far it is from the axis. -/
theorem eq_of_polar {r r' phi phi' : ℝ} (hr : 0 < r) (hr' : 0 < r')
    (hx : cos phi * r = cos phi' * r') (hz : -sin phi * r = -sin phi' * r') : r = r' := by
  have hphi := sin_sq_add_cos_sq phi
  have hphi' := sin_sq_add_cos_sq phi'
  refine (sq_eq_sq₀ hr.le hr'.le).1 ?_
  linear_combination r' ^ 2 * hphi' - r ^ 2 * hphi + (cos phi * r + cos phi' * r') * hx -
    (sin phi * r + sin phi' * r') * hz

/-- No two places of a torus with a hole are one point. -/
theorem torusPoint_injOn (hminor : 0 < minor) (hmajor : minor < major) :
    {p : Place | p.1 < n ∧ p.2 < n}.InjOn (torusPoint center minor major n) := by
  rintro ⟨i, j⟩ ⟨hi, hj⟩ ⟨k, l⟩ ⟨hk, hl⟩ h
  rw [torusPoint_eq, torusPoint_eq, Vec3.mk.injEq, add_left_inj, add_left_inj, add_left_inj,
    mul_right_inj' hminor.ne'] at h
  obtain ⟨hx, hsin, hz⟩ := h
  have hpos := ring_pos hminor hmajor (2 * π * j / n)
  have hpos' := ring_pos hminor hmajor (2 * π * l / n)
  -- the distance from the axis tells the cosine around the tube
  have hring := eq_of_polar hpos hpos' hx hz
  have hcos : cos (2 * π * j / n) = cos (2 * π * l / n) :=
    mul_left_cancel₀ hminor.ne' (add_right_cancel hring)
  obtain rfl : j = l := eq_of_turn hj hl hcos hsin
  obtain rfl : i = k := eq_of_turn hi hk (mul_right_cancel₀ hpos.ne' hx)
    (neg_injective (mul_right_cancel₀ hpos.ne' hz))
  rfl

/-- A torus closes up in space. -/
theorem closesUp_torus [DecidableEq (Vec3 ℝ)] (hn : 2 ≤ n) (hminor : 0 < minor)
    (hmajor : minor < major) : ClosesUp (torus center minor major n) := by
  refine (closesUp_torusMesh hn).map ((torusPoint_injOn hminor hmajor).mono ?_)
  rintro p ⟨t, ht, hp⟩
  exact corners_torusMesh ht p hp

/-! ## Circles -/

theorem circlePoint_eq (center : Vec3 ℝ) (radius : ℝ) (n i : Nat) :
    circlePoint center radius n i =
      ⟨center.x + radius * cos (2 * π * i / n), center.y + radius * sin (2 * π * i / n),
        center.z⟩ := by
  rw [two_mul]
  rfl

/-- All points of a circle are at its height and at the distance of its radius. -/
theorem circlePoint_on_circle (center : Vec3 ℝ) (radius : ℝ) (n i : Nat) :
    let point := circlePoint center radius n i
    (point.x - center.x) ^ 2 + (point.y - center.y) ^ 2 = radius ^ 2 ∧ point.z = center.z := by
  have hturn := sin_sq_add_cos_sq (2 * π * i / n)
  rw [circlePoint_eq]
  refine ⟨?_, rfl⟩
  linear_combination radius ^ 2 * hturn

/-- After a whole turn a circle is where it started. -/
theorem circlePoint_turn (center : Vec3 ℝ) (radius : ℝ) (hn : 0 < n) :
    circlePoint center radius n n = circlePoint center radius n 0 := by
  have hn' : (n : ℝ) ≠ 0 := Nat.cast_ne_zero.2 (by omega)
  simp [circlePoint_eq, mul_div_cancel_right₀ (2 * π) hn']

/-- A circle is an edge for each step, one behind the other, and the last leads back to where the
first starts. -/
theorem circle_closes (center : Vec3 ℝ) (radius : ℝ) (hn : 0 < n) :
    (circle center radius n).length = n ∧
      (circle center radius n).IsChain (fun e e' => e.finish = e'.start) ∧
      ∃ first last, (circle center radius n)[0]? = some first ∧
        (circle center radius n)[n - 1]? = some last ∧ last.finish = first.start := by
  refine ⟨?_, Edge.isChain_chain _, _, _, Edge.getElem?_chain_map_range _ hn,
    Edge.getElem?_chain_map_range _ (Nat.sub_lt hn Nat.one_pos), ?_⟩
  · rw [circle, Edge.length_chain, List.length_map, List.length_range, Nat.add_sub_cancel]
  · rw [Nat.sub_add_cancel hn]
    exact circlePoint_turn center radius hn

end SceneScript.Shape
