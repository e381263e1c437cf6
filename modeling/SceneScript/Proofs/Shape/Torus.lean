import Mathlib.Tactic.Ring
import SceneScript.Proofs.Shape.Surfaces

/-!
# Tori close up

The grid of a torus goes round in a ring both ways, so all of its patches are alike: each has the
two halves that a patch has, and the patch of a place is joined to those before and after it around
the ring and around the tube. Every half-edge has its twin in one of these or in its own patch
(`torusTwin`), and from each place of the grid six half-edges lead away (`leaving`).

In a ring of three places or more the place before is not the one after, so an edge tells which
half-edge goes along it (`torusHalfEdge`), and none is passed along twice.
-/

namespace SceneScript.Shape

variable {n i j : Nat} {leg : Leg} {h : HalfEdge} {p : Place}

/-! ## The grid -/

/-- The triangles of a torus are the halves of its patches. -/
theorem mem_torusMesh {t : Triangle Place} : t ∈ torusMesh n ↔ ∃ i < n, ∃ j < n,
    t = ⟨(i, j), ((i + 1) % n, j), ((i + 1) % n, (j + 1) % n)⟩ ∨
      t = ⟨(i, j), ((i + 1) % n, (j + 1) % n), (i, (j + 1) % n)⟩ := by
  simp [torusMesh, Triangle.halves]

/-- Every corner of a torus is a place of its grid. -/
theorem corners_torusMesh {t : Triangle Place} (ht : t ∈ torusMesh n) :
    ∀ p ∈ t.corners, p.1 < n ∧ p.2 < n := by
  obtain ⟨i, hi, j, hj, rfl | rfl⟩ := mem_torusMesh.1 ht
  · simp only [Triangle.corners, List.forall_mem_cons]
    exact ⟨⟨hi, hj⟩, ⟨next_lt hi, hj⟩, ⟨next_lt hi, next_lt hj⟩, nofun⟩
  · simp only [Triangle.corners, List.forall_mem_cons]
    exact ⟨⟨hi, hj⟩, ⟨next_lt hi, next_lt hj⟩, ⟨hi, next_lt hj⟩, nofun⟩

/-- There are two triangles for each place of the grid. -/
theorem length_torusMesh (n : Nat) : (torusMesh n).length = 2 * n * n := by
  simp only [torusMesh, Triangle.halves, List.length_flatMap, List.length_cons, List.length_nil,
    List.map_const', List.sum_replicate_nat, List.length_range]
  ring

/-! ## Half-edges -/

/-- The half-edges of a torus: every patch has both of its halves. -/
def torusHalfEdges (n : Nat) : List HalfEdge := halfEdges n fun _ => [.ab, .bc, .ca, .ac, .cd, .da]

/-- The edge of a torus that a half-edge goes along. -/
def torusEdge (n : Nat) : HalfEdge → Edge Place
  | ⟨(i, j), leg⟩ => leg.edge (i, j) ((i + 1) % n, j) ((i + 1) % n, (j + 1) % n) (i, (j + 1) % n)

theorem mem_torusHalfEdges : ⟨(i, j), leg⟩ ∈ torusHalfEdges n ↔ i < n ∧ j < n := by
  rw [torusHalfEdges, mem_halfEdges]
  cases leg <;> simp

theorem nodup_torusHalfEdges (n : Nat) : (torusHalfEdges n).Nodup :=
  nodup_halfEdges fun _ => by decide

/-- The sides of a torus are those that its half-edges go along. -/
theorem sides_torusMesh (n : Nat) : sides (torusMesh n) = (torusHalfEdges n).map (torusEdge n) := by
  rw [sides, torusMesh, torusHalfEdges, halfEdges, List.flatMap_assoc, List.map_flatMap]
  refine congrArg List.flatten (List.map_congr_left fun i _ => ?_)
  dsimp only
  rw [List.flatMap_assoc, List.map_flatMap]
  rfl

/-! ## Twins -/

/-- The half-edge along the same edge of a torus that leads the other way. -/
def torusTwin (n : Nat) : HalfEdge → HalfEdge
  | ⟨(i, j), .ab⟩ => ⟨(i, before n j), .cd⟩
  | ⟨(i, j), .bc⟩ => ⟨((i + 1) % n, j), .da⟩
  | ⟨(i, j), .ca⟩ => ⟨(i, j), .ac⟩
  | ⟨(i, j), .ac⟩ => ⟨(i, j), .ca⟩
  | ⟨(i, j), .cd⟩ => ⟨(i, (j + 1) % n), .ab⟩
  | ⟨(i, j), .da⟩ => ⟨(before n i, j), .bc⟩

theorem torusTwin_mem (hh : h ∈ torusHalfEdges n) : torusTwin n h ∈ torusHalfEdges n := by
  obtain ⟨⟨i, j⟩, leg⟩ := h
  obtain ⟨hi, hj⟩ := mem_torusHalfEdges.1 hh
  cases leg with
  | ab => exact mem_torusHalfEdges.2 ⟨hi, before_lt hj⟩
  | bc => exact mem_torusHalfEdges.2 ⟨next_lt hi, hj⟩
  | ca | ac => exact mem_torusHalfEdges.2 ⟨hi, hj⟩
  | cd => exact mem_torusHalfEdges.2 ⟨hi, next_lt hj⟩
  | da => exact mem_torusHalfEdges.2 ⟨before_lt hi, hj⟩

theorem torusTwin_torusTwin (hh : h ∈ torusHalfEdges n) : torusTwin n (torusTwin n h) = h := by
  obtain ⟨⟨i, j⟩, leg⟩ := h
  obtain ⟨hi, hj⟩ := mem_torusHalfEdges.1 hh
  cases leg <;> simp [torusTwin, before_next, next_before, hi, hj]

theorem torusEdge_torusTwin (hh : h ∈ torusHalfEdges n) :
    torusEdge n (torusTwin n h) = (torusEdge n h).reverse := by
  obtain ⟨⟨i, j⟩, leg⟩ := h
  obtain ⟨hi, hj⟩ := mem_torusHalfEdges.1 hh
  cases leg <;> simp [torusTwin, torusEdge, Leg.edge, Edge.reverse, next_before, hi, hj]

/-- No half-edge ends where it starts, since the next place of a ring is another one. -/
theorem torusEdge_start_ne (hn : 2 ≤ n) (hh : h ∈ torusHalfEdges n) :
    (torusEdge n h).start ≠ (torusEdge n h).finish := by
  obtain ⟨⟨i, j⟩, leg⟩ := h
  obtain ⟨hi, hj⟩ := mem_torusHalfEdges.1 hh
  have hi' := next_ne hn hi
  have hj' := next_ne hn hj
  cases leg <;> simp [torusEdge, Leg.edge, hi', hj', hi'.symm, hj'.symm]

/-- A torus closes up. -/
theorem closesUp_torusMesh (hn : 2 ≤ n) : ClosesUp (torusMesh n) where
  distinct := by
    refine distinct_of_sides fun e he => ?_
    rw [sides_torusMesh] at he
    obtain ⟨h, hh, rfl⟩ := List.mem_map.1 he
    exact torusEdge_start_ne hn hh
  balanced := by
    intro e
    rw [sides_torusMesh]
    exact count_reverse_of_twin (torusTwin n) (nodup_torusHalfEdges n)
      (fun _ => torusTwin_mem) (fun _ => torusTwin_torusTwin) (fun _ => torusEdge_torusTwin) e

/-! ## Single edges -/

/-- The half-edge of a torus of three steps or more that goes along an edge: around the ring, around
the tube or across the patch, and onward or back. -/
def torusHalfEdge (n : Nat) (e : Edge Place) : HalfEdge :=
  if e.finish.2 = e.start.2 then
    if e.finish.1 = (e.start.1 + 1) % n then ⟨e.start, .ab⟩
    else ⟨(e.finish.1, before n e.start.2), .cd⟩
  else if e.finish.1 = e.start.1 then
    if e.finish.2 = (e.start.2 + 1) % n then ⟨(before n e.start.1, e.start.2), .bc⟩
    else ⟨e.finish, .da⟩
  else if e.finish.1 = (e.start.1 + 1) % n then ⟨e.start, .ac⟩
  else ⟨e.finish, .ca⟩

/-- With three steps or more the place before is not the one after, so an edge tells its
half-edge. -/
theorem torusHalfEdge_torusEdge (hn : 3 ≤ n) (hh : h ∈ torusHalfEdges n) :
    torusHalfEdge n (torusEdge n h) = h := by
  obtain ⟨⟨i, j⟩, leg⟩ := h
  obtain ⟨hi, hj⟩ := mem_torusHalfEdges.1 hh
  have hi₁ := next_ne (by omega) hi
  have hj₁ := next_ne (by omega) hj
  have hi₂ := (next_next_ne hn hi).symm
  have hj₂ := (next_next_ne hn hj).symm
  cases leg <;>
    simp [torusHalfEdge, torusEdge, Leg.edge, before_next, hi, hj, hi₁, hj₁, hi₁.symm, hj₁.symm,
      hi₂, hj₂, -Nat.mod_add_mod]

theorem nodup_sides_torusMesh (hn : 3 ≤ n) : (sides (torusMesh n)).Nodup := by
  rw [sides_torusMesh]
  refine (nodup_torusHalfEdges n).map_on fun h hh h' hh' heq => ?_
  rw [← torusHalfEdge_torusEdge hn hh, heq, torusHalfEdge_torusEdge hn hh']

/-! ## The triangles at a place -/

/-- The half-edges that lead away from a place: each leg of one patch. -/
def leaving (n : Nat) (p : Place) : List HalfEdge :=
  [⟨p, .ab⟩, ⟨(before n p.1, p.2), .bc⟩, ⟨(before n p.1, before n p.2), .ca⟩, ⟨p, .ac⟩,
    ⟨(before n p.1, before n p.2), .cd⟩, ⟨(p.1, before n p.2), .da⟩]

theorem mem_leaving (hp : p.1 < n ∧ p.2 < n) :
    h ∈ leaving n p ↔ h ∈ torusHalfEdges n ∧ (torusEdge n h).start = p := by
  obtain ⟨k, l⟩ := p
  obtain ⟨⟨i, j⟩, leg⟩ := h
  obtain ⟨hk, hl⟩ := hp
  rw [mem_torusHalfEdges]
  have hplace {m q : Nat} (hq : q < n) : m = before n q ↔ m < n ∧ (m + 1) % n = q := by
    constructor
    · rintro rfl
      exact ⟨before_lt hq, next_before hq⟩
    · rintro ⟨hm, rfl⟩
      exact (before_next hm).symm
  cases leg <;> simp [leaving, torusEdge, Leg.edge, hplace hk, hplace hl] <;> grind

/-- As many half-edges lead away from a place as there are triangles with a corner there. -/
theorem countP_corners (p : Place) {mesh : List (Triangle Place)}
    (hmesh : ∀ t ∈ mesh, t.a ≠ t.b ∧ t.b ≠ t.c ∧ t.c ≠ t.a) :
    mesh.countP (p ∈ ·.corners) = (sides mesh).countP (·.start = p) := by
  induction mesh with
  | nil => rfl
  | cons t mesh ih =>
    obtain ⟨hab, hbc, hca⟩ := hmesh t List.mem_cons_self
    have ht : t.sides.countP (·.start = p) = if p ∈ t.corners then 1 else 0 := by
      simp only [Triangle.sides, Triangle.corners, List.countP_cons, List.countP_nil,
        List.mem_cons, List.not_mem_nil, or_false, decide_eq_true_eq]
      grind
    rw [List.countP_cons, ih fun t ht => hmesh t (List.mem_cons_of_mem _ ht), sides, sides,
      List.flatMap_cons, List.countP_append, ht, Nat.add_comm]
    simp only [decide_eq_true_eq]

/-- Six triangles meet at each place. -/
theorem countP_torusMesh (hn : 2 ≤ n) (hp : p.1 < n ∧ p.2 < n) :
    (torusMesh n).countP (p ∈ ·.corners) = 6 := by
  have hleaving : (leaving n p).Perm
      ((torusHalfEdges n).filter fun h => (torusEdge n h).start = p) := by
    refine (List.perm_ext_iff_of_nodup ?_ ((nodup_torusHalfEdges n).filter _)).2 fun h => ?_
    · simp [leaving]
    · rw [mem_leaving hp, List.mem_filter, decide_eq_true_eq]
  rw [countP_corners p (closesUp_torusMesh hn).distinct, sides_torusMesh, List.countP_map,
    List.countP_eq_length_filter]
  exact hleaving.length_eq.symm

/-- A torus of three steps or more each way has two triangles for each place of its grid, with their
corners on the grid; six of them meet at each place, none has two corners in one place, and each
edge that is passed along is passed along once one way and once the other. -/
theorem torus_closesUp (n : Nat) (hn : 3 ≤ n) (center : Vec3 Float) (minor major : Float) :
    torus center minor major n =
        (torusMesh n).map (Triangle.map (torusPoint center minor major n)) ∧
    (torus center minor major n).length = 2 * n * n ∧
    (∀ t ∈ torusMesh n, ∀ p ∈ t.corners, p.1 < n ∧ p.2 < n) ∧
    (∀ p : Place, p.1 < n ∧ p.2 < n → (torusMesh n).countP (p ∈ ·.corners) = 6) ∧
    (∀ t ∈ torusMesh n, t.a ≠ t.b ∧ t.b ≠ t.c ∧ t.c ≠ t.a) ∧
    ∀ e ∈ sides (torusMesh n),
      (sides (torusMesh n)).count e = 1 ∧ (sides (torusMesh n)).count e.reverse = 1 := by
  have hclosed : ClosesUp (torusMesh n) := closesUp_torusMesh (by omega)
  refine ⟨rfl, ?_, fun t => corners_torusMesh, fun p => countP_torusMesh (by omega),
    hclosed.distinct, fun e he => ?_⟩
  · rw [torus, List.length_map, length_torusMesh]
  · have hone := List.count_eq_one_of_mem (nodup_sides_torusMesh hn) he
    exact ⟨hone, (hclosed.balanced e).symm.trans hone⟩

/-- A torus of three steps each way, where each place is before and after every other. -/
theorem torus_closesUp_three :
    (torus ⟨1.0, 2.0, 3.0⟩ 2.0 6.0 3).length = 18 ∧
      (torusMesh 3).countP ((2, 0) ∈ ·.corners) = 6 ∧
      ⟨(2, 0), (0, 1)⟩ ∈ sides (torusMesh 3) ∧
      (sides (torusMesh 3)).count ⟨(0, 1), (2, 0)⟩ = 1 := by
  obtain ⟨-, hlen, -, hsix, -, hone⟩ := torus_closesUp 3 (by decide) ⟨1.0, 2.0, 3.0⟩ 2.0 6.0
  have hmem : (⟨(2, 0), (0, 1)⟩ : Edge Place) ∈ sides (torusMesh 3) := by decide
  exact ⟨hlen, hsix (2, 0) (by decide), hmem, (hone _ hmem).2⟩

end SceneScript.Shape
