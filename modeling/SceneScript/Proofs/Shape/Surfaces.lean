import Mathlib.Data.List.Count
import Mathlib.Data.List.Nodup
import Mathlib.Data.List.Perm.Basic
import Mathlib.Data.Set.Function
import SceneScript.Shape.Mesh

/-!
# Closed surfaces

The sides of a triangle are taken in the direction in which its corners go round. Where two
triangles meet the same way round, they pass along their common edge in opposite directions, so a
surface has no crack and no inside-out triangle when it passes along every edge as often one way as
the other (`ClosesUp`).

Round solids are made of patches with four corners, each cut into two triangles; a side of one of
these is told by its patch and by the two corners it leads between (`HalfEdge`). If every half-edge
has a twin that leads the other way, and is the twin of its twin, then the surface closes up
(`count_reverse_of_twin`).
-/

namespace SceneScript

variable {P Q : Type}

namespace Edge

/-- The edge in the other direction. -/
def reverse (e : Edge P) : Edge P := ⟨e.finish, e.start⟩

@[simp] theorem reverse_reverse (e : Edge P) : e.reverse.reverse = e := rfl

theorem reverse_injective : Function.Injective (reverse : Edge P → Edge P) := by
  intro e e' h
  rw [← e.reverse_reverse, h, e'.reverse_reverse]

end Edge

namespace Triangle

/-- The sides, in the direction in which the corners go round. -/
def sides (t : Triangle P) : List (Edge P) := [⟨t.a, t.b⟩, ⟨t.b, t.c⟩, ⟨t.c, t.a⟩]

end Triangle

namespace Shape

/-- The sides of all triangles of a surface. -/
def sides (mesh : List (Triangle P)) : List (Edge P) := mesh.flatMap Triangle.sides

/-- No triangle of a surface has lost a corner, and the surface passes along every edge as often one
way as the other. -/
structure ClosesUp [DecidableEq P] (mesh : List (Triangle P)) : Prop where
  distinct : ∀ t ∈ mesh, t.a ≠ t.b ∧ t.b ≠ t.c ∧ t.c ≠ t.a
  balanced : ∀ e, (sides mesh).count e = (sides mesh).count e.reverse

/-- A triangle whose sides all lead somewhere has three corners. -/
theorem distinct_of_sides {mesh : List (Triangle P)} (h : ∀ e ∈ sides mesh, e.start ≠ e.finish) :
    ∀ t ∈ mesh, t.a ≠ t.b ∧ t.b ≠ t.c ∧ t.c ≠ t.a := by
  intro t ht
  have hside {e : Edge P} (he : e ∈ t.sides) : e.start ≠ e.finish :=
    h e (List.mem_flatMap.2 ⟨t, ht, he⟩)
  exact ⟨hside (.head _), hside (.tail _ (.head _)), hside (.tail _ (.tail _ (.head _)))⟩

/-- Every edge is listed as often one way as the other if turning all of them round only changes
their order. -/
theorem count_reverse_iff_perm [DecidableEq P] {es : List (Edge P)} :
    (∀ e, es.count e = es.count e.reverse) ↔ (es.map Edge.reverse).Perm es := by
  have hcount (e : Edge P) : (es.map Edge.reverse).count e = es.count e.reverse := by
    conv_lhs => rw [← e.reverse_reverse]
    exact List.count_map_of_injective _ _ Edge.reverse_injective _
  rw [List.perm_iff_count]
  exact forall_congr' fun e => by rw [hcount, eq_comm]

/-- If every half-edge has a twin, the edges are passed along as often one way as the other. -/
theorem count_reverse_of_twin {H : Type} [DecidableEq P] {hs : List H} {edge : H → Edge P}
    (twin : H → H) (hnodup : hs.Nodup) (hmem : ∀ h ∈ hs, twin h ∈ hs)
    (htwin : ∀ h ∈ hs, twin (twin h) = h) (hedge : ∀ h ∈ hs, edge (twin h) = (edge h).reverse)
    (e : Edge P) : (hs.map edge).count e = (hs.map edge).count e.reverse := by
  have hinj : ∀ h ∈ hs, ∀ h' ∈ hs, twin h = twin h' → h = h' := by
    intro h hh h' hh' heq
    rw [← htwin h hh, heq, htwin h' hh']
  have hperm : (hs.map twin).Perm hs := by
    refine (List.perm_ext_iff_of_nodup (hnodup.map_on hinj) hnodup).2 fun h => ?_
    constructor
    · intro hh
      obtain ⟨h', hh', rfl⟩ := List.mem_map.1 hh
      exact hmem h' hh'
    · intro hh
      exact List.mem_map.2 ⟨twin h, hmem h hh, htwin h hh⟩
  have hreverse : (hs.map edge).map Edge.reverse = (hs.map twin).map edge := by
    rw [List.map_map, List.map_map]
    exact List.map_congr_left fun h hh => (hedge h hh).symm
  have hturned : ((hs.map edge).map Edge.reverse).Perm (hs.map edge) := by
    rw [hreverse]
    exact hperm.map edge
  exact count_reverse_iff_perm.2 hturned e

/-- A mesh that closes up does so wherever its corners lie, if no two of them lie in one place. -/
theorem ClosesUp.map [DecidableEq P] [DecidableEq Q] {mesh : List (Triangle P)} {f : P → Q}
    (h : ClosesUp mesh) (hf : {p | ∃ t ∈ mesh, p ∈ t.corners}.InjOn f) :
    ClosesUp (mesh.map (Triangle.map f)) where
  distinct := by
    intro t ht
    obtain ⟨u, hu, rfl⟩ := List.mem_map.1 ht
    obtain ⟨hab, hbc, hca⟩ := h.distinct u hu
    have ha : u.a ∈ u.corners := .head _
    have hb : u.b ∈ u.corners := .tail _ (.head _)
    have hc : u.c ∈ u.corners := .tail _ (.tail _ (.head _))
    exact ⟨hf.ne ⟨u, hu, ha⟩ ⟨u, hu, hb⟩ hab, hf.ne ⟨u, hu, hb⟩ ⟨u, hu, hc⟩ hbc,
      hf.ne ⟨u, hu, hc⟩ ⟨u, hu, ha⟩ hca⟩
  balanced := by
    have hsides : sides (mesh.map (Triangle.map f)) = (sides mesh).map (Edge.map f) := by
      rw [sides, sides, List.flatMap_map, List.map_flatMap]
      rfl
    have hperm := (count_reverse_iff_perm.1 h.balanced).map (Edge.map f)
    rw [List.map_map] at hperm
    rw [count_reverse_iff_perm, hsides, List.map_map]
    exact hperm

/-! ## Patches -/

/-- A side of one of the two halves of a patch, by the corners that it leads between. -/
inductive Leg where
  | ab
  | bc
  | ca
  | ac
  | cd
  | da
deriving DecidableEq

/-- The edge of a patch with corners `a`, `b`, `c`, `d` that a leg goes along. -/
def Leg.edge (a b c d : P) : Leg → Edge P
  | ab => ⟨a, b⟩
  | bc => ⟨b, c⟩
  | ca => ⟨c, a⟩
  | ac => ⟨a, c⟩
  | cd => ⟨c, d⟩
  | da => ⟨d, a⟩

/-- A leg of the patch of a place. -/
structure HalfEdge where
  place : Place
  leg : Leg
deriving DecidableEq

/-- The half-edges of a grid of `n` times `n` patches that have the given legs. -/
def halfEdges (n : Nat) (legs : Nat → List Leg) : List HalfEdge :=
  (List.range n).flatMap fun i =>
    (List.range n).flatMap fun j => (legs j).map fun leg => ⟨(i, j), leg⟩

variable {n i j : Nat} {legs : Nat → List Leg} {leg : Leg}

theorem mem_halfEdges : ⟨(i, j), leg⟩ ∈ halfEdges n legs ↔ i < n ∧ j < n ∧ leg ∈ legs j := by
  simp [halfEdges]

/-- If no patch has a leg twice, every half-edge is listed once. -/
theorem nodup_halfEdges (h : ∀ j, (legs j).Nodup) : (halfEdges n legs).Nodup := by
  have hrow (i : Nat) : ((List.range n).flatMap fun j =>
      (legs j).map fun leg => (⟨(i, j), leg⟩ : HalfEdge)).Nodup := by
    rw [List.nodup_flatMap]
    refine ⟨fun j _ => (h j).map fun _ _ heq => (HalfEdge.mk.inj heq).2, ?_⟩
    refine List.nodup_range.imp fun {j j'} hne => ?_
    intro e he he'
    obtain ⟨_, -, rfl⟩ := List.mem_map.1 he
    obtain ⟨_, -, heq⟩ := List.mem_map.1 he'
    exact hne (Prod.mk.inj (HalfEdge.mk.inj heq).1).2.symm
  rw [halfEdges, List.nodup_flatMap]
  refine ⟨fun i _ => hrow i, List.nodup_range.imp fun {i i'} hne => ?_⟩
  intro e he he'
  simp only [List.mem_flatMap, List.mem_map] at he he'
  obtain ⟨_, -, _, -, rfl⟩ := he
  obtain ⟨_, -, _, -, heq⟩ := he'
  exact hne (Prod.mk.inj (HalfEdge.mk.inj heq).1).1.symm

/-! ## Going round -/

/-- The place before `i` of `n` places in a ring. -/
def before (n i : Nat) : Nat := if i = 0 then n - 1 else i - 1

theorem next_eq (h : i < n) : (i + 1) % n = if i + 1 = n then 0 else i + 1 := by
  split
  · next heq => rw [heq, Nat.mod_self]
  · next hne => exact Nat.mod_eq_of_lt (by omega)

theorem next_lt (h : i < n) : (i + 1) % n < n := Nat.mod_lt _ (by omega)

theorem before_lt (h : i < n) : before n i < n := by
  rw [before]
  split <;> omega

theorem before_next (h : i < n) : before n ((i + 1) % n) = i := by
  rw [next_eq h, before]
  grind

theorem next_before (h : i < n) : (before n i + 1) % n = i := by
  rw [next_eq (before_lt h), before]
  grind

/-- In a ring of two places or more, the next one is another one. -/
theorem next_ne (hn : 2 ≤ n) (h : i < n) : (i + 1) % n ≠ i := by
  rw [next_eq h]
  split <;> omega

/-- In a ring of three places or more, the one after the next is another one too. -/
theorem next_next_ne (hn : 3 ≤ n) (h : i < n) : ((i + 1) % n + 1) % n ≠ i := by
  rw [next_eq (next_lt h), next_eq h]
  grind

end Shape

end SceneScript
