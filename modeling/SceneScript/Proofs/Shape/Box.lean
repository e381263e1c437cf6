import Mathlib.Algebra.BigOperators.Group.List.Basic
import Mathlib.Tactic.Linarith
import Mathlib.Tactic.Positivity
import Mathlib.Tactic.Ring
import SceneScript.Proofs.Raster.Exact
import SceneScript.Proofs.Shape.Surfaces
import SceneScript.Shape.Box

/-!
# Boxes face outward and close up

In exact arithmetic all points of a triangle are at one height along its normal, so the normal is
measured against the centroid or against a corner alike (`Triangle.dot_centroid`). The halves of a
parallelogram have the same normal (`Triangle.normal_of_mem_halves`), and the centre of a box lies
half of the volume below each of its faces, as the normals measure it (`dot_normal_box`). So all of
them point outward.

The signed volume of a mesh adds up the pyramids between its triangles and the origin. Where the
normals add up to zero any other point does as well (`signedVolume_eq`), and from its centre a box
has twelve equal pyramids.

Which corners are joined is told apart from where they lie (`boxMesh`, `boxPoint`). The corners of a
box that has an extent in each direction lie in different places, so the box closes up because the
mesh does (`ClosesUp.map`).
-/

namespace SceneScript

/-! ## Vectors in exact arithmetic -/

namespace Vec3

/-- The vector whose coordinates are zero. -/
instance : Zero (Vec3 ℚ) := ⟨⟨0, 0, 0⟩⟩

variable (a b : Vec3 ℚ)

theorem zero_eq : (0 : Vec3 ℚ) = ⟨0, 0, 0⟩ := rfl

theorem add_eq : a + b = ⟨a.x + b.x, a.y + b.y, a.z + b.z⟩ := rfl

theorem sub_eq : a - b = ⟨a.x - b.x, a.y - b.y, a.z - b.z⟩ := rfl

theorem dot_eq : a.dot b = a.x * b.x + a.y * b.y + a.z * b.z := rfl

theorem cross_eq : a.cross b =
    ⟨a.y * b.z - b.y * a.z, a.z * b.x - b.z * a.x, a.x * b.y - b.x * a.y⟩ := rfl

end Vec3

namespace Triangle

variable {t : Triangle (Vec3 ℚ)} {a b c d o : Vec3 ℚ}

/-- The mean of the corners. -/
def centroid (t : Triangle (Vec3 ℚ)) : Vec3 ℚ := (t.a + t.b + t.c).scale (1 / 3)

/-- Along its normal a triangle is as high at its centroid as at its first corner. -/
theorem dot_centroid (t : Triangle (Vec3 ℚ)) (o : Vec3 ℚ) :
    t.normal.dot (t.centroid - o) = t.normal.dot (t.a - o) := by
  simp only [normal, Vec3.normal, centroid, Vec3.scale, Vec3.dot_eq, Vec3.cross_eq, Vec3.sub_eq,
    Vec3.add_eq]
  ring

/-- The triple product of the corners is the height of the triangle above the origin. -/
theorem dot_cross (t : Triangle (Vec3 ℚ)) : t.a.dot (t.b.cross t.c) = t.normal.dot t.a := by
  simp only [normal, Vec3.normal, Vec3.dot_eq, Vec3.cross_eq, Vec3.sub_eq]
  ring

/-- The halves of a parallelogram have the normal that its sides span. -/
theorem normal_of_mem_halves (h : a + c = b + d) (ht : t ∈ halves a b c d) :
    t.normal = (b - a).cross (d - a) := by
  rw [Vec3.add_eq, Vec3.add_eq, Vec3.mk.injEq] at h
  obtain ⟨hx, hy, hz⟩ := h
  have hc : c = ⟨b.x + d.x - a.x, b.y + d.y - a.y, b.z + d.z - a.z⟩ := by
    rw [← hx, ← hy, ← hz]
    simp only [add_sub_cancel_left]
  subst hc
  simp only [halves, List.mem_cons, List.not_mem_nil, or_false] at ht
  rcases ht with rfl | rfl
  all_goals
    simp only [normal, Vec3.normal, Vec3.cross_eq, Vec3.sub_eq, Vec3.mk.injEq]
    refine ⟨?_, ?_, ?_⟩ <;> ring

/-- Both halves of a parallelogram are as high as the corner that they begin at. -/
theorem dot_of_mem_halves (h : a + c = b + d) (o : Vec3 ℚ) (ht : t ∈ halves a b c d) :
    t.normal.dot (t.centroid - o) = ((b - a).cross (d - a)).dot (a - o) := by
  have hcorner : t.a = a := by
    simp only [halves, List.mem_cons, List.not_mem_nil, or_false] at ht
    rcases ht with rfl | rfl <;> rfl
  rw [dot_centroid, normal_of_mem_halves h ht, hcorner]

end Triangle

namespace Shape

open Triangle (halves)

/-! ## Volumes -/

/-- The volume that a mesh encloses, counted negative where its triangles face inward: a sixth of
the triple products of the corners. -/
def signedVolume (mesh : List (Triangle (Vec3 ℚ))) : ℚ :=
  1 / 6 * (mesh.map fun t => t.a.dot (t.b.cross t.c)).sum

/-- A volume is the same seen from any point, if the normals add up to zero. -/
theorem signedVolume_eq {mesh : List (Triangle (Vec3 ℚ))}
    (h : (mesh.map Triangle.normal).sum = 0) (o : Vec3 ℚ) :
    signedVolume mesh = 1 / 6 * (mesh.map fun t => t.normal.dot (t.centroid - o)).sum := by
  have hsum (mesh : List (Triangle (Vec3 ℚ))) :
      (mesh.map fun t => t.normal.dot (t.centroid - o)).sum =
        (mesh.map fun t => t.a.dot (t.b.cross t.c)).sum -
          ((mesh.map Triangle.normal).sum).dot o := by
    induction mesh with
    | nil => simp [Vec3.dot_eq, Vec3.zero_eq]
    | cons t mesh ih =>
      rw [List.map_cons, List.map_cons, List.map_cons, List.sum_cons, List.sum_cons, List.sum_cons,
        ih, Triangle.dot_centroid, Triangle.dot_cross]
      simp only [Vec3.dot_eq, Vec3.sub_eq, Vec3.add_eq]
      ring
  have hzero : Vec3.dot 0 o = 0 := by simp [Vec3.dot_eq, Vec3.zero_eq]
  rw [signedVolume, hsum, h, hzero, sub_zero]

/-! ## Corners and faces of a box -/

/-- A corner of a box, by the three faces that it is on. -/
structure BoxCorner where
  right : Bool
  below : Bool
  behind : Bool
deriving DecidableEq

/-- The triangles of a box, by its corners. -/
def boxMesh : List (Triangle BoxCorner) :=
  let ltf : BoxCorner := ⟨false, false, false⟩
  let lbf : BoxCorner := ⟨false, true, false⟩
  let rbf : BoxCorner := ⟨true, true, false⟩
  let rtf : BoxCorner := ⟨true, false, false⟩
  let ltb : BoxCorner := ⟨false, false, true⟩
  let lbb : BoxCorner := ⟨false, true, true⟩
  let rbb : BoxCorner := ⟨true, true, true⟩
  let rtb : BoxCorner := ⟨true, false, true⟩
  halves ltf lbf rbf rtf ++ halves rtb rbb lbb ltb ++ halves rtf rbf rbb rtb ++
    halves ltb lbb lbf ltf ++ halves ltb ltf rtf rtb ++ halves lbf lbb rbb rbf

variable (corner size : Vec3 ℚ)

/-- Where a corner of a box lies. -/
def boxPoint (c : BoxCorner) : Vec3 ℚ :=
  ⟨if c.right then corner.x + size.x else corner.x, if c.below then corner.y - size.y else corner.y,
    if c.behind then corner.z - size.z else corner.z⟩

/-- A box is its mesh with the corners where they lie. -/
theorem box_eq_map : box corner size = boxMesh.map (Triangle.map (boxPoint corner size)) := rfl

/-- The middle of a box. -/
def boxCentre : Vec3 ℚ :=
  ⟨corner.x + size.x / 2, corner.y - size.y / 2, corner.z - size.z / 2⟩

/-- The centre of a box lies below each triangle by half of the volume, as normals measure it. -/
theorem dot_normal_box : ∀ t ∈ box corner size,
    t.normal.dot (t.centroid - boxCentre corner size) = size.x * size.y * size.z / 2 := by
  have face {a b c d : BoxCorner} {t : Triangle (Vec3 ℚ)}
      (hplane : boxPoint corner size a + boxPoint corner size c =
        boxPoint corner size b + boxPoint corner size d)
      (hheight : ((boxPoint corner size b - boxPoint corner size a).cross
        (boxPoint corner size d - boxPoint corner size a)).dot
          (boxPoint corner size a - boxCentre corner size) = size.x * size.y * size.z / 2)
      (ht : t ∈ (halves a b c d).map (Triangle.map (boxPoint corner size))) :
      t.normal.dot (t.centroid - boxCentre corner size) = size.x * size.y * size.z / 2 :=
    (Triangle.dot_of_mem_halves hplane _ ht).trans hheight
  intro t ht
  simp only [box_eq_map, boxMesh, List.map_append, List.mem_append] at ht
  rcases ht with ((((ht | ht) | ht) | ht) | ht) | ht
  all_goals
    refine face ?_ ?_ ht
    · simp [boxPoint, Vec3.add_eq, add_comm]
    · simp only [boxPoint, boxCentre, Vec3.dot_eq, Vec3.cross_eq, Vec3.sub_eq, if_true,
        Bool.false_eq_true, if_false]
      ring

theorem sum_normal_box : ((box corner size).map Triangle.normal).sum = 0 := by
  simp only [box_eq_map, boxMesh, halves, List.cons_append, List.nil_append, List.map_cons,
    List.map_nil, List.sum_cons, List.sum_nil, Triangle.map, Triangle.normal, Vec3.normal, boxPoint,
    Vec3.cross_eq, Vec3.sub_eq, Vec3.add_eq, Vec3.zero_eq, Vec3.mk.injEq, if_true,
    Bool.false_eq_true, if_false]
  refine ⟨?_, ?_, ?_⟩ <;> ring

/-! ## Closing up -/

/-- The mesh of a box has no gap: each of its sides is the side of another triangle the other way
round. -/
theorem closesUp_boxMesh : ClosesUp boxMesh where
  distinct := by decide
  balanced := count_reverse_iff_perm.2 (by decide)

variable {corner size : Vec3 ℚ}

/-- Different corners lie in different places. -/
theorem boxPoint_injective (hx : 0 < size.x) (hy : 0 < size.y) (hz : 0 < size.z) :
    Function.Injective (boxPoint corner size) := by
  have told {u v : ℚ} (huv : u ≠ v) {b b' : Bool}
      (h : (if b then u else v) = if b' then u else v) : b = b' := by
    cases b <;> cases b' <;> simp_all
  intro c c' h
  rw [boxPoint, boxPoint, Vec3.mk.injEq] at h
  obtain ⟨hright, hbelow, hbehind⟩ := h
  rw [BoxCorner.mk.injEq]
  exact ⟨told (by linarith) hright, told (by linarith) hbelow, told (by linarith) hbehind⟩

/-- A box whose sizes are positive has twelve triangles, all of which face away from its centre.
Their normals add up to zero, what they enclose has the volume of the box, and the box closes up. -/
theorem box_faces_outward (corner : Vec3 ℚ) (hx : 0 < size.x) (hy : 0 < size.y) (hz : 0 < size.z) :
    (box corner size).length = 12 ∧
      (∀ t ∈ box corner size, 0 < t.normal.dot (t.centroid - boxCentre corner size)) ∧
      ((box corner size).map Triangle.normal).sum = 0 ∧
      signedVolume (box corner size) = size.x * size.y * size.z ∧
      ClosesUp (box corner size) := by
  have hnormals := sum_normal_box corner size
  have hheight := dot_normal_box corner size
  refine ⟨rfl, fun t ht => ?_, hnormals, ?_,
    closesUp_boxMesh.map (boxPoint_injective hx hy hz).injOn⟩
  · rw [hheight t ht]
    positivity
  · -- from the centre every triangle has the same share of the volume
    rw [signedVolume_eq hnormals (boxCentre corner size), List.map_congr_left hheight,
      List.map_const', List.sum_replicate, show (box corner size).length = 12 from rfl]
    ring

/-- A box that is twice as high as it is wide, with corners on both sides of the origin. -/
theorem box_faces_outward_brick :
    let corner : Vec3 ℚ := ⟨-1, 1, 3 / 2⟩
    let size : Vec3 ℚ := ⟨2, 4, 1 / 2⟩
    (0 < size.x ∧ 0 < size.y ∧ 0 < size.z) ∧ (box corner size).length = 12 ∧
      (∀ t ∈ box corner size, 0 < t.normal.dot (t.centroid - boxCentre corner size)) ∧
      ((box corner size).map Triangle.normal).sum = 0 ∧ signedVolume (box corner size) = 4 ∧
      ClosesUp (box corner size) := by
  intro corner size
  have hx : 0 < size.x := by norm_num [size]
  have hy : 0 < size.y := by norm_num [size]
  have hz : 0 < size.z := by norm_num [size]
  obtain ⟨hlength, houtward, hnormals, hvolume, hcloses⟩ := box_faces_outward corner hx hy hz
  exact ⟨⟨hx, hy, hz⟩, hlength, houtward, hnormals, hvolume.trans (by norm_num [size]), hcloses⟩

end Shape

end SceneScript
