import Mathlib.Tactic.LinearCombination
import SceneScript.Proofs.Binary64.Bits
import SceneScript.Proofs.Raster.Filling

/-!
# Triangles with their corners in another order

The corners of a triangle are taken from the lowest to the highest, so the order that they are named
in matters only where two of them are of one height (`Triangle.byHeight_cases`). Then the long side
and a short side change places in each row. That makes no difference as long as one of them is seen
to be on the left, and none of them is the level side itself (`Triangle.IsSettled`).

In exact arithmetic only a level lowest side is left: below it, in the row that it is rounded to,
the short side stands where the level side starts, so one cell is painted where the whole side
should be. A level highest side is painted whole in the row above it.
-/

namespace SceneScript

namespace Triangle

open Framebuffer

/-! ## Orders of three corners -/

/-- Three in another order. -/
theorem perm_three {P : Type} {a b c x y z : P} (h : [x, y, z].Perm [a, b, c]) :
    x = a ∧ (y = b ∧ z = c ∨ y = c ∧ z = b) ∨ x = b ∧ (y = a ∧ z = c ∨ y = c ∧ z = a) ∨
      x = c ∧ (y = a ∧ z = b ∨ y = b ∧ z = a) := by
  have two {p q r s : P} (h : [p, q].Perm [r, s]) : p = r ∧ q = s ∨ p = s ∧ q = r := by
    have hp : p ∈ [r, s] := h.subset (List.mem_cons_self ..)
    rcases List.mem_pair.1 hp with rfl | rfl
    · exact .inl ⟨rfl, List.singleton_perm_singleton.1 ((List.perm_cons p).1 h)⟩
    · exact .inr ⟨rfl, List.singleton_perm_singleton.1
        ((List.perm_cons p).1 (h.trans (.swap ..)))⟩
  have hx : x ∈ [a, b, c] := h.subset (List.mem_cons_self ..)
  rcases List.mem_cons.1 hx with rfl | hx
  · exact .inl ⟨rfl, two ((List.perm_cons x).1 h)⟩
  rcases List.mem_pair.1 hx with rfl | rfl
  · exact .inr (.inl ⟨rfl, two ((List.perm_cons x).1 (h.trans (.swap ..)))⟩)
  · refine .inr (.inr ⟨rfl, two ((List.perm_cons x).1 (h.trans ?_))⟩)
    exact ((List.Perm.swap ..).cons a).trans (.swap ..)

section

variable {α β : Type} [Scalar α] [LinearOrder β] {ρ : α → β} {t t' : Triangle (Vec3 α)}
variable {width height : Nat} {y : Int}

/-- Only corners of one height can come in another order. -/
theorem byHeight_cases (hρ : ∀ p q : α, Scalar.sortsBefore p q = true ↔ ρ p ≤ ρ q)
    (hinj : Function.Injective ρ) (h : t'.corners.Perm t.corners)
    (hne : ¬ (t.a.y = t.b.y ∧ t.b.y = t.c.y)) :
    t'.byHeight = t.byHeight ∨
      t.byHeight.a.y = t.byHeight.b.y ∧
        t'.byHeight = ⟨t.byHeight.b, t.byHeight.a, t.byHeight.c⟩ ∨
      t.byHeight.b.y = t.byHeight.c.y ∧
        t'.byHeight = ⟨t.byHeight.a, t.byHeight.c, t.byHeight.b⟩ := by
  have hne' := mt (level_byHeight_iff t).1 hne
  have hperm := ((corners_byHeight t').trans h).trans (corners_byHeight t).symm
  obtain ⟨hlow, hhigh⟩ := ranks_byHeight hρ t
  obtain ⟨hlow', hhigh'⟩ := ranks_byHeight hρ t'
  generalize t.byHeight = s at *
  generalize t'.byHeight = s' at *
  obtain ⟨a, b, c⟩ := s
  obtain ⟨a', b', c'⟩ := s'
  have hall (h : ρ c.y ≤ ρ a.y) : False :=
    hne' ⟨hinj (le_antisymm hlow (hhigh.trans h)), hinj (le_antisymm hhigh (h.trans hlow))⟩
  rcases perm_three hperm with ⟨rfl, ⟨rfl, rfl⟩ | ⟨rfl, rfl⟩⟩ | ⟨rfl, ⟨rfl, rfl⟩ | ⟨rfl, rfl⟩⟩ |
    ⟨rfl, ⟨rfl, rfl⟩ | ⟨rfl, rfl⟩⟩
  · exact .inl rfl
  · exact .inr (.inr ⟨hinj (le_antisymm hhigh hhigh'), rfl⟩)
  · exact .inr (.inl ⟨hinj (le_antisymm hlow hlow'), rfl⟩)
  · exact (hall hhigh').elim
  · exact (hall hlow').elim
  · exact (hall (hlow'.trans hhigh')).elim

/-! ## Rows between sides in any order -/

open Scalar in
/-- Two sides are told apart at a height: one of them is on the left, or both are at one place. -/
def ToldApart (p q : α × α) : Prop := p = q ∨ (p.1 ≤ q.1 ↔ ¬ q.1 ≤ p.1)

open Scalar in
/-- The fragments of row `y` between two sides, whichever is on the left. -/
def rowAcross (width : Nat) (y : Int) (p q : α × α) : List (Fragment α) :=
  if p.1 ≤ q.1 then rowBetween width y p q else rowBetween width y q p

theorem row_eq_rowAcross (width : Nat) (t : Triangle (Vec3 α)) (y : Int) :
    t.row width y = rowAcross width y (t.long (Scalar.ofInt y)) (t.short (Scalar.ofInt y)) :=
  row_eq width t y

/-- A row between sides that are told apart is the same from either. -/
theorem rowAcross_comm {p q : α × α} (h : ToldApart p q) :
    rowAcross width y p q = rowAcross width y q p := by
  rcases h with rfl | h
  · rfl
  · rw [rowAcross, rowAcross]
    split <;> rename_i hpq
    · rw [if_neg (h.1 hpq)]
    · rw [if_pos (not_not.1 (mt h.2 hpq))]

open Scalar in
/-- A row of a triangle with ordered corners is settled: it does not matter which of two corners of
one height comes first. Where the lowest side is level, the row is not below it. Where the highest
side is level and the row is not below it, the other sides end there at the corners themselves. And
what stands to the sides of the row is told apart. -/
structure IsSettled (t : Triangle (Vec3 α)) (y : α) : Prop where
  lowest : t.a.y = t.b.y →
    ¬ y < t.b.y ∧ ToldApart (Edge.atHeight ⟨t.a, t.c⟩ y) (Edge.atHeight ⟨t.b, t.c⟩ y)
  highest : t.b.y = t.c.y →
    ToldApart (Edge.atHeight ⟨t.a, t.c⟩ y) (Edge.atHeight ⟨t.a, t.b⟩ y) ∧
      (¬ y < t.b.y → Edge.atHeight ⟨t.a, t.c⟩ y = (t.c.x, t.c.z) ∧
        Edge.atHeight ⟨t.a, t.b⟩ y = (t.b.x, t.b.z))

/-- The lowest two corners may change places if they are of one height. -/
theorem IsSettled.row_swap_lowest (hs : t.IsSettled (Scalar.ofInt y)) (h : t.a.y = t.b.y) :
    (⟨t.b, t.a, t.c⟩ : Triangle (Vec3 α)).row width y = t.row width y := by
  obtain ⟨hbelow, hapart⟩ := hs.lowest h
  rw [row_eq_rowAcross, row_eq_rowAcross, short, short, if_neg hbelow]
  dsimp only
  rw [h, if_neg hbelow]
  exact (rowAcross_comm hapart).symm

/-- A level side stands where it starts. -/
theorem atHeight_of_level {p q : Vec3 α} {v : α} (h : p.y = q.y)
    (hself : Scalar.same (q.y - q.y) (@OfNat.ofNat α 0 Scalar.literal) = true) :
    Edge.atHeight ⟨p, q⟩ v = (p.x, p.z) := by
  rw [Edge.atHeight]
  dsimp only
  rw [h, if_pos hself]

/-- The highest two corners may change places if they are of one height. -/
theorem IsSettled.row_swap_highest (hs : t.IsSettled (Scalar.ofInt y)) (h : t.b.y = t.c.y)
    (hself : Scalar.same (t.c.y - t.c.y) (@OfNat.ofNat α 0 Scalar.literal) = true) :
    (⟨t.a, t.c, t.b⟩ : Triangle (Vec3 α)).row width y = t.row width y := by
  obtain ⟨hapart, hends⟩ := hs.highest h
  rw [row_eq_rowAcross, row_eq_rowAcross, short, short, long, long]
  dsimp only
  rw [← h]
  split
  · exact (rowAcross_comm hapart).symm
  · next hy =>
    obtain ⟨hc, hb⟩ := hends hy
    rw [hc, hb] at hapart ⊢
    rw [atHeight_of_level h hself, atHeight_of_level h.symm (h ▸ hself)]
    exact (rowAcross_comm hapart).symm

open Scalar in
/-- The rows that a triangle is painted in. -/
def rows (height : Nat) (t : Triangle (Vec3 α)) : List Int :=
  interval (max 0 (toInt (round t.byHeight.a.y)))
    (min ((height : Int) - 1) (toInt (round t.byHeight.c.y)))

theorem fragments_eq_rows (width height : Nat) (t : Triangle (Vec3 α)) :
    t.fragments width height = (t.rows height).flatMap (t.byHeight.row width) := rfl

/-- A triangle whose rows are settled has the same fragments with its corners in any order. -/
theorem fragments_of_perm (hρ : ∀ p q : α, Scalar.sortsBefore p q = true ↔ ρ p ≤ ρ q)
    (hinj : Function.Injective ρ) (h : t'.corners.Perm t.corners)
    (hne : ¬ (t.a.y = t.b.y ∧ t.b.y = t.c.y))
    (hself : t.byHeight.b.y = t.byHeight.c.y → ∀ v ∈ t.corners,
      Scalar.same (v.y - v.y) (@OfNat.ofNat α 0 Scalar.literal) = true)
    (hsettled : ∀ y ∈ t.rows height, t.byHeight.IsSettled (Scalar.ofInt y)) :
    t'.fragments width height = t.fragments width height := by
  have hc : t.byHeight.c ∈ t.corners :=
    (corners_byHeight t).subset (by simp [corners])
  rw [fragments_eq_rows, fragments_eq_rows]
  rcases byHeight_cases hρ hinj h hne with hsame | ⟨hlevel, hswap⟩ | ⟨hlevel, hswap⟩
  · rw [rows, rows, hsame]
  · have hrows : t'.rows height = t.rows height := by rw [rows, rows, hswap, hlevel]
    rw [hrows, hswap]
    exact List.flatMap_congr fun y hy => (hsettled y hy).row_swap_lowest hlevel
  · have hrows : t'.rows height = t.rows height := by rw [rows, rows, hswap, hlevel]
    rw [hrows, hswap]
    exact List.flatMap_congr fun y hy => (hsettled y hy).row_swap_highest hlevel (hself hlevel _ hc)

end

/-! ## Exact rows -/

section

variable {t t' : Triangle (Vec3 ℚ)} {y : ℚ}

theorem toldApart_of_ne {p q : ℚ × ℚ} (h : p.1 ≠ q.1) : ToldApart p q := by
  refine .inr ?_
  rw [Exact.le_iff, Exact.le_iff, not_le]
  exact ⟨fun hle => lt_of_le_of_ne hle h, le_of_lt⟩

/-- In exact arithmetic sides that end in one place are told apart, if they start at one height in
different places. -/
theorem toldApart_to {a b c : Vec3 ℚ} (h : a.y = b.y) (hx : a.x ≠ b.x) (y : ℚ) :
    ToldApart (Edge.atHeight ⟨a, c⟩ y) (Edge.atHeight ⟨b, c⟩ y) := by
  have hshare : (⟨b, c⟩ : Edge (Vec3 ℚ)).share y = (⟨a, c⟩ : Edge (Vec3 ℚ)).share y := by
    rw [Edge.share, Edge.share, h]
  rw [Edge.atHeight_eq, Edge.atHeight_eq, hshare]
  generalize (⟨a, c⟩ : Edge (Vec3 ℚ)).share y = r
  rcases eq_or_ne r 1 with rfl | hr
  · left
    ext <;> dsimp only <;> ring
  · refine toldApart_of_ne fun hmeet => ?_
    have hzero : (a.x - b.x) * (1 - r) = 0 := by linear_combination hmeet
    rcases mul_eq_zero.1 hzero with hab | hrest
    · exact hx (sub_eq_zero.1 hab)
    · exact hr (sub_eq_zero.1 hrest).symm

/-- In exact arithmetic sides that start in one place are told apart, if they end at one height in
different places. -/
theorem toldApart_from {a b c : Vec3 ℚ} (h : b.y = c.y) (hx : b.x ≠ c.x) (y : ℚ) :
    ToldApart (Edge.atHeight ⟨a, c⟩ y) (Edge.atHeight ⟨a, b⟩ y) := by
  have hshare : (⟨a, b⟩ : Edge (Vec3 ℚ)).share y = (⟨a, c⟩ : Edge (Vec3 ℚ)).share y := by
    rw [Edge.share, Edge.share, h]
  rw [Edge.atHeight_eq, Edge.atHeight_eq, hshare]
  generalize (⟨a, c⟩ : Edge (Vec3 ℚ)).share y = r
  rcases eq_or_ne r 0 with rfl | hr
  · left
    ext <;> dsimp only <;> ring
  · refine toldApart_of_ne fun hmeet => ?_
    have hzero : (c.x - b.x) * r = 0 := by linear_combination hmeet
    rcases mul_eq_zero.1 hzero with hcb | hrest
    · exact hx (sub_eq_zero.1 hcb).symm
    · exact hr hrest

/-- In exact arithmetic a side that goes up ends in its upper corner, and stays there above it. -/
theorem atHeight_finish {a c : Vec3 ℚ} (h : a.y < c.y) (hy : c.y ≤ y) :
    Edge.atHeight ⟨a, c⟩ y = (c.x, c.z) := by
  have hpos : 0 < c.y - a.y := sub_pos.2 h
  have hwhole : 1 ≤ (y - a.y) / (c.y - a.y) := (one_le_div hpos).2 (sub_le_sub_right hy _)
  have hshare : (⟨a, c⟩ : Edge (Vec3 ℚ)).share y = 1 := by
    rw [Edge.share, if_neg h.ne', min_eq_left hwhole, max_eq_right zero_le_one]
  rw [Edge.atHeight_eq, hshare]
  ext <;> dsimp only <;> ring

/-- In exact arithmetic a row is settled if no two corners are behind one another and the row is not
below a level lowest side. -/
theorem Rises.isSettled (ht : t.Rises) (hplaces : (t.corners.map fun v => (v.x, v.y)).Nodup)
    (hrow : t.a.y = t.b.y → t.a.y ≤ y) : t.IsSettled y := by
  obtain ⟨a, b, c⟩ := t
  simp only [corners, List.map_cons, List.map_nil, List.nodup_cons, List.mem_cons,
    List.not_mem_nil, or_false, not_or, Prod.mk.injEq, not_and] at hplaces
  obtain ⟨⟨hab, -⟩, hbc, -⟩ := hplaces
  have hrise : a.y < c.y := ht.whole
  constructor
  · intro h
    have hbelow : ¬ y < b.y := (h ▸ hrow h).not_gt
    exact ⟨mt Exact.lt_iff.1 hbelow, toldApart_to h (fun hx => hab hx h) y⟩
  · intro h
    refine ⟨toldApart_from h (fun hx => hbc hx h) y, fun hy => ?_⟩
    have hy : b.y ≤ y := not_lt.1 (mt Exact.lt_iff.2 hy)
    exact ⟨atHeight_finish hrise (h ▸ hy), atHeight_finish (h ▸ hrise) hy⟩

/-- In exact arithmetic a triangle has the same fragments with its corners in any order, unless its
corners are all of one height, two of them are behind one another, or a row is painted below its
lowest side. -/
theorem exact_fragments_of_perm {width height : Nat} (h : t'.corners.Perm t.corners)
    (hne : ¬ (t.a.y = t.b.y ∧ t.b.y = t.c.y))
    (hplaces : (t.corners.map fun v => (v.x, v.y)).Nodup)
    (hrows : t.byHeight.a.y = t.byHeight.b.y → ∀ y ∈ t.rows height, t.byHeight.a.y ≤ y) :
    t'.fragments width height = t.fragments width height := by
  have hself (v : Vec3 ℚ) :
      Scalar.same (v.y - v.y) (@OfNat.ofNat ℚ 0 Scalar.literal) = true := by
    rw [Exact.literal_zero, sub_self, Exact.same_iff]
  have hplaces' : (t.byHeight.corners.map fun v => (v.x, v.y)).Nodup :=
    ((corners_byHeight t).map _).nodup_iff.2 hplaces
  refine fragments_of_perm (ρ := id) (fun p q => Exact.sortsBefore_iff) Function.injective_id h hne
    (fun _ v _ => hself v) fun y hy => ?_
  exact (rises_byHeight hne).isSettled hplaces' fun hlevel => hrows hlevel y hy

end

/-! ## Rows of doubles -/

open Float.Model.UnpackedFloat in
/-- A finite double less itself is zero. -/
theorem sub_self_of_isFinite {x : Float} (hx : x.isFinite) : x - x = 0 := by
  change x.toModel.unpack.isFinite at hx
  change Float.ofModel (.pack (sub .binary64 x.toModel.unpack x.toModel.unpack)) =
    .ofModel (.pack (.zero .positive))
  congr 2
  cases hu : x.toModel.unpack with
  | notANumber | infinity s =>
    rw [hu] at hx
    contradiction
  | zero s => cases s <;> rfl
  | finite s m e hm =>
    simp only [sub, Int.sub_self, Float.Model.UnpackedFloat.normalize]
    rfl

section

variable {α : Type} [Scalar α] [DecidableEq α]

instance (p q : α × α) : Decidable (ToldApart p q) :=
  inferInstanceAs (Decidable (p = q ∨ (Scalar.le p.1 q.1 = true ↔ ¬ Scalar.le q.1 p.1 = true)))

instance (t : Triangle (Vec3 α)) (y : α) : Decidable (t.IsSettled y) :=
  decidable_of_iff ((t.a.y = t.b.y → ¬ Scalar.lt y t.b.y = true ∧
      ToldApart (Edge.atHeight ⟨t.a, t.c⟩ y) (Edge.atHeight ⟨t.b, t.c⟩ y)) ∧
    (t.b.y = t.c.y →
      ToldApart (Edge.atHeight ⟨t.a, t.c⟩ y) (Edge.atHeight ⟨t.a, t.b⟩ y) ∧
        (¬ Scalar.lt y t.b.y = true → Edge.atHeight ⟨t.a, t.c⟩ y = (t.c.x, t.c.z) ∧
          Edge.atHeight ⟨t.a, t.b⟩ y = (t.b.x, t.b.z))))
    ⟨fun h => ⟨h.1, h.2⟩, fun h => ⟨h.lowest, h.highest⟩⟩

end

/-- Corners of different heights are in order at different heights. -/
theorem heights_byHeight {t : Triangle (Vec3 Float)} (h : (t.corners.map (·.y)).Nodup) :
    t.byHeight.a.y ≠ t.byHeight.b.y ∧ t.byHeight.b.y ≠ t.byHeight.c.y := by
  have h : (t.byHeight.corners.map (·.y)).Nodup := ((corners_byHeight t).map _).nodup_iff.2 h
  simp only [corners, List.map_cons, List.map_nil, List.nodup_cons, List.mem_cons,
    List.not_mem_nil, or_false, not_or] at h
  exact ⟨h.1.1, h.2.1⟩

/-- A picture is the same after filling a triangle with its corners in any order, if no two of them
are of one height. If some but not all of them are, and their heights are finite, it is the same if
every row that is painted is settled. In exact arithmetic the same fragments are painted if no two
corners are behind one another and no row is painted below a level lowest side. -/
theorem fill_in_any_order (fb : Framebuffer) (color : Color) :
    (∀ t t' : Triangle (Vec3 Float), t'.corners.Perm t.corners →
      (t.corners.map (·.y)).Nodup → fb.fill color t' = fb.fill color t) ∧
    (∀ t t' : Triangle (Vec3 Float), t'.corners.Perm t.corners →
      (∀ v ∈ t.corners, v.y.isFinite) → ¬ (t.a.y = t.b.y ∧ t.b.y = t.c.y) →
      (∀ y ∈ t.rows fb.height, t.byHeight.IsSettled (Scalar.ofInt y)) →
      fb.fill color t' = fb.fill color t) ∧
    (∀ t t' : Triangle (Vec3 ℚ), t'.corners.Perm t.corners →
      (t.corners.map fun v => (v.x, v.y)).Nodup → ¬ (t.a.y = t.b.y ∧ t.b.y = t.c.y) →
      (t.byHeight.a.y = t.byHeight.b.y → ∀ y ∈ t.rows fb.height, t.byHeight.a.y ≤ y) →
      t'.fragments fb.width fb.height = t.fragments fb.width fb.height) := by
  refine ⟨?_, ?_, ?_⟩
  · intro t t' h hheights
    obtain ⟨hlow, hhigh⟩ := heights_byHeight hheights
    have hne := mt (level_byHeight_iff t).2 fun hlevel => hlow hlevel.1
    rw [Framebuffer.fill, Framebuffer.fill, fragments_of_perm (fun _ _ => decide_eq_true_iff)
      Binary64.rank_injective h hne (fun hlevel => absurd hlevel hhigh)
      fun y _ => ⟨fun hlevel => absurd hlevel hlow, fun hlevel => absurd hlevel hhigh⟩]
  · intro t t' h hfinite hne hsettled
    have hself : ∀ v ∈ t.corners,
        Scalar.same (v.y - v.y) (@OfNat.ofNat Float 0 Scalar.literal) = true := by
      intro v hv
      rw [sub_self_of_isFinite (hfinite v hv)]
      decide
    rw [Framebuffer.fill, Framebuffer.fill, fragments_of_perm (fun _ _ => decide_eq_true_iff)
      Binary64.rank_injective h hne (fun _ => hself) hsettled]
  · intro t t' h hplaces hne hrows
    exact exact_fragments_of_perm h hne hplaces hrows

/-- A triangle with a level highest side and one with a level lowest side on a row, named the other
way round. -/
theorem fill_in_any_order_level :
    (new 3 3 (.gray 127)).fill (.gray 1) ⟨⟨2, 2, 1⟩, ⟨0, 2, 3⟩, ⟨1, 0, 2⟩⟩ =
        (new 3 3 (.gray 127)).fill (.gray 1) ⟨⟨0, 2, 3⟩, ⟨2, 2, 1⟩, ⟨1, 0, 2⟩⟩ ∧
      (⟨⟨2, 1 / 2, 1⟩, ⟨0, 1 / 2, 3⟩, ⟨1, 3, 2⟩⟩ : Triangle (Vec3 ℚ)).fragments 3 3 =
        (⟨⟨0, 1 / 2, 3⟩, ⟨2, 1 / 2, 1⟩, ⟨1, 3, 2⟩⟩ : Triangle (Vec3 ℚ)).fragments 3 3 := by
  obtain ⟨-, hfill, hexact⟩ := fill_in_any_order (new 3 3 (.gray 127)) (.gray 1)
  exact ⟨hfill _ _ (.swap ..) (by decide +kernel) (by decide +kernel) (by decide +kernel),
    hexact _ _ (.swap ..) (by norm_num [corners]) (by norm_num) (by decide +kernel)⟩

/-- A level lowest side a little above a row that it is rounded to is painted there in one cell
only, at the corner that is named first. -/
theorem fill_below_level_side :
    ((new 3 3 (.gray 127)).fill ⟨255, 0, 0⟩ ⟨⟨0, 0.4, 0⟩, ⟨2, 0.4, 0⟩, ⟨1, 3, 0⟩⟩).cell? 0 0 =
        some ⟨⟨255, 0, 0⟩, 0⟩ ∧
      ((new 3 3 (.gray 127)).fill ⟨255, 0, 0⟩ ⟨⟨2, 0.4, 0⟩, ⟨0, 0.4, 0⟩, ⟨1, 3, 0⟩⟩).cell? 0 0 =
        some ⟨.gray 127, far⟩ := by
  decide +kernel

end Triangle

end SceneScript
