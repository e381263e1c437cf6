import SceneScript.Proofs.Binary64.Magnitude
import SceneScript.Raster.Surface

/-!
# Which triangles are drawn

A triangle faces the viewer if the product of its normal and the view is greater than zero
(`Lighting.Faces`). It is left out if the product is at most zero, and these two are all there is
as long as the product is a number. If it is none, the triangle is drawn: so a surface is drawn by
its front faces alone just if no product is undefined (`Culls`, `culls_drawSurface_iff`).

A product gets undefined when numbers leave the range of the doubles on the way to it. Coordinates
that leave room enough keep it defined (`Lighting.isWithin_toward`), and then a triangle with two
corners in one place is none that faces the viewer.
-/

namespace SceneScript

open Binary64

namespace Lighting

variable {l : Lighting} {t : Triangle (Vec3 Float)} {a b : Nat}

/-- How much a triangle is turned to the viewer. -/
def toward (l : Lighting) (t : Triangle (Vec3 Float)) : Float := t.normal.dot l.view

/-- The front of a triangle is on the viewer's side. -/
def Faces (l : Lighting) (t : Triangle (Vec3 Float)) : Prop := 0.0 < l.toward t

instance : Decidable (l.Faces t) := inferInstanceAs (Decidable (_ < _))

/-- What is not a number is not greater than zero. -/
theorem not_faces_of_isNaN (h : (l.toward t).isNaN = true) : ¬ l.Faces t := by
  intro hfaces
  rw [(lt_iff_value.1 hfaces).2.1] at h
  cases h

/-- A triangle is drawn if it faces the viewer, or if it is not known how it is turned. -/
theorem shows_iff : l.shows t = true ↔ l.Faces t ∨ (l.toward t).isNaN = true := by
  have hzero : (0.0 : Float).isNaN = false := by decide
  rw [shows, Bool.not_eq_true', decide_eq_false_iff_not]
  change ¬ l.toward t ≤ 0.0 ↔ _
  cases hnan : (l.toward t).isNaN with
  | true =>
    refine iff_of_true (fun hle => ?_) (.inr rfl)
    rw [isNaN_left hle] at hnan
    cases hnan
  | false =>
    rw [Faces, lt_iff_value, le_iff_value]
    constructor
    · intro h
      exact .inl ⟨hzero, hnan, not_le.1 fun hle => h ⟨hnan, hzero, hle⟩⟩
    · rintro (⟨-, -, hlt⟩ | hundefined) ⟨-, -, hle⟩
      · exact absurd hle hlt.not_ge
      · cases hundefined

/-- A triangle is left out if the product is a number, and not greater than zero. -/
theorem shows_eq_false_iff :
    l.shows t = false ↔ ¬ l.Faces t ∧ (l.toward t).isNaN = false := by
  rw [← Bool.not_eq_true, shows_iff, not_or, Bool.not_eq_true]

/-- Coordinates of at most `2 ^ a` and a view of at most `2 ^ b` leave room for the product. -/
theorem isWithin_toward (ht : ∀ p ∈ t.corners, p.IsWithin a) (hview : l.view.IsWithin b)
    (hab : 2 * a + b + 5 ≤ 1023) :
    t.normal.IsWithin (a + 1 + (a + 1) + 1) ∧
      Binary64.IsWithin (a + 1 + (a + 1) + 1 + b + 2) (l.toward t) := by
  have hcorner {p : Vec3 Float} (hp : p ∈ [t.a, t.b, t.c]) : p.IsWithin a := ht p hp
  have hnormal : t.normal.IsWithin (a + 1 + (a + 1) + 1) :=
    ((hcorner (by simp)).sub (hcorner (by simp)) (by omega)).cross
      ((hcorner (by simp)).sub (hcorner (by simp)) (by omega)) (by omega)
  exact ⟨hnormal, hnormal.dot hview (by omega)⟩

/-- A triangle with two corners in one place does not face the viewer. -/
theorem not_faces_of_corner_eq (ht : ∀ p ∈ t.corners, p.IsWithin a) (hview : l.view.IsWithin b)
    (hab : 2 * a + b + 5 ≤ 1023) (h : t.a = t.b ∨ t.b = t.c ∨ t.c = t.a) : ¬ l.Faces t := by
  have hcorner {p : Vec3 Float} (hp : p ∈ [t.a, t.b, t.c]) : p.IsWithin a := ht p hp
  have ha := hcorner (p := t.a) (by simp)
  have hab' := (hcorner (p := t.b) (by simp)).sub ha (by omega)
  have hac := (hcorner (p := t.c) (by simp)).sub ha (by omega)
  have hzero : t.normal.IsZero := by
    rw [Triangle.normal, Vec3.normal]
    rcases h with h | h | h
    · rw [← h] at hab' ⊢
      exact .cross (.inl (Vec3.isZero_sub_self ha)) hab' hac (by omega)
    · rw [← h]
      exact Vec3.isZero_cross_self hab' (by omega)
    · rw [h] at hac ⊢
      exact .cross (.inr (Vec3.isZero_sub_self ha)) hab' hac (by omega)
  have hdot := hzero.value_dot (isWithin_toward ht hview hab).1 hview (by omega)
  rw [Faces, toward, lt_iff_value, hdot, value_zero]
  exact fun h => lt_irrefl _ h.2.2

end Lighting

/-! ## Drawing front faces -/

section Culling

variable {l : Lighting} {k : Reflectance} {fb fb' : Framebuffer} {t : Triangle (Vec3 Float)}
  {ts : List (Triangle (Vec3 Float))} {n : Nat}

/-- Triangles drawn one after the other: one that faces the viewer is filled in its shaded color and
counts, and every other one is passed by. -/
inductive Culls (l : Lighting) (k : Reflectance) :
    List (Triangle (Vec3 Float)) → Framebuffer → Framebuffer → Nat → Prop
  | nil (fb : Framebuffer) : Culls l k [] fb fb 0
  | draw {t : Triangle (Vec3 Float)} {ts : List (Triangle (Vec3 Float))} {fb fb' : Framebuffer}
      {n : Nat} (hfaces : l.Faces t) (h : Culls l k ts (fb.fill (l.shade t.normal k) t) fb' n) :
      Culls l k (t :: ts) fb fb' (n + 1)
  | pass {t : Triangle (Vec3 Float)} {ts : List (Triangle (Vec3 Float))} {fb fb' : Framebuffer}
      {n : Nat} (hfaces : ¬ l.Faces t) (h : Culls l k ts fb fb' n) : Culls l k (t :: ts) fb fb' n

/-- The triangles that count are those that face the viewer. -/
theorem Culls.count_eq (h : Culls l k ts fb fb' n) : n = ts.countP (l.Faces ·) := by
  induction h with
  | nil fb => rfl
  | draw hfaces h ih => rw [List.countP_cons_of_pos (by simpa using hfaces), ih]
  | pass hfaces h ih => rw [List.countP_cons_of_neg (by simpa using hfaces), ih]

namespace Framebuffer

/-- A triangle that is drawn comes before the others. -/
theorem drawSurface_cons_of_shows (fb : Framebuffer) (h : l.shows t = true) :
    fb.drawSurface l k (t :: ts) =
      (((fb.fill (l.shade t.normal k) t).drawSurface l k ts).1,
        ((fb.fill (l.shade t.normal k) t).drawSurface l k ts).2 + 1) := by
  rw [drawSurface, List.filter_cons_of_pos h]
  rfl

/-- A triangle that is not drawn makes no difference. -/
theorem drawSurface_cons_of_not_shows (fb : Framebuffer) (h : l.shows t = false) :
    fb.drawSurface l k (t :: ts) = fb.drawSurface l k ts := by
  rw [drawSurface, List.filter_cons_of_neg (by simp [h])]
  rfl

/-- The triangles that are drawn are those that face the viewer, and those of which it is not known
how they are turned. -/
theorem count_drawSurface (fb : Framebuffer) (ts : List (Triangle (Vec3 Float))) :
    (fb.drawSurface l k ts).2 =
      ts.countP (l.Faces ·) + ts.countP fun t => (l.toward t).isNaN := by
  induction ts generalizing fb with
  | nil => rfl
  | cons t ts ih =>
    rw [List.countP_cons, List.countP_cons]
    cases hshows : l.shows t with
    | true =>
      rw [drawSurface_cons_of_shows fb hshows, ih]
      rcases Lighting.shows_iff.1 hshows with hfaces | hnan
      · have hnan := (lt_iff_value.1 hfaces).2.1
        simp only [hfaces, hnan]
        simp only [decide_true, if_true, Bool.false_eq_true, if_false]
        omega
      · have hfaces := Lighting.not_faces_of_isNaN hnan
        simp only [hfaces, hnan]
        simp only [decide_false, if_true, Bool.false_eq_true, if_false]
        omega
    | false =>
      obtain ⟨hfaces, hnan⟩ := Lighting.shows_eq_false_iff.1 hshows
      rw [drawSurface_cons_of_not_shows fb hshows, ih]
      simp only [hfaces, hnan]
      rfl

/-- A surface none of whose products is undefined is drawn by its front faces alone. -/
theorem culls_drawSurface (fb : Framebuffer) (h : ∀ t ∈ ts, (l.toward t).isNaN = false) :
    Culls l k ts fb (fb.drawSurface l k ts).1 (fb.drawSurface l k ts).2 := by
  induction ts generalizing fb with
  | nil => exact .nil fb
  | cons t ts ih =>
    have hrest := fun fb => ih fb fun t ht => h t (List.mem_cons_of_mem _ ht)
    cases hshows : l.shows t with
    | true =>
      rw [drawSurface_cons_of_shows fb hshows]
      rcases Lighting.shows_iff.1 hshows with hfaces | hnan
      · exact .draw hfaces (hrest _)
      · rw [h t List.mem_cons_self] at hnan
        cases hnan
    | false =>
      rw [drawSurface_cons_of_not_shows fb hshows]
      exact .pass (Lighting.shows_eq_false_iff.1 hshows).1 (hrest fb)

/-- A surface is drawn by its front faces alone just if none of its products is undefined. -/
theorem culls_drawSurface_iff :
    Culls l k ts fb (fb.drawSurface l k ts).1 (fb.drawSurface l k ts).2 ↔
      ∀ t ∈ ts, (l.toward t).isNaN = false := by
  refine ⟨fun h t ht => ?_, culls_drawSurface fb⟩
  have hcount := h.count_eq
  rw [count_drawSurface, Nat.add_eq_left, List.countP_eq_zero] at hcount
  exact Bool.eq_false_of_not_eq_true (hcount t ht)

/-- What is drawn is filled in the order of the list. -/
theorem drawSurface_fst (fb : Framebuffer) (ts : List (Triangle (Vec3 Float))) :
    (fb.drawSurface l k ts).1 =
      (ts.filter fun t => l.Faces t ∨ (l.toward t).isNaN = true).foldl
        (fun fb t => fb.fill (l.shade t.normal k) t) fb := by
  have hshown : l.shows = fun t => decide (l.Faces t ∨ (l.toward t).isNaN = true) := by
    funext t
    rw [Bool.eq_iff_iff, Lighting.shows_iff, decide_eq_true_eq]
  rw [drawSurface, hshown]

end Framebuffer

/-- The corners of the triangles are points of the list that they are read from. -/
theorem Triangle.corners_ofPoints {P : Type} {t : Triangle P} (ps : List P)
    (ht : t ∈ ofPoints ps) : ∀ p ∈ t.corners, p ∈ ps := by
  fun_induction ofPoints ps with
  | case1 p q r rest ih =>
    rcases List.mem_cons.1 ht with rfl | ht
    · intro v hv
      simp only [corners, List.mem_cons, List.not_mem_nil, or_false] at hv
      rcases hv with rfl | rfl | rfl <;> simp
    · intro v hv
      simp [ih ht v hv]
  | case2 ps h => cases ht

/-- How the triangles that a list of points stands for are drawn, in any picture, lighting and
profile. Those are filled, in the order of the list and in their shaded colors, that face the viewer
or whose product with the view is undefined, and as many are counted. So the surface is drawn by its
front faces alone just if no product is undefined. This is so whenever the coordinates and those of
the view are of few enough bits; and then no triangle with two corners in one place is drawn. -/
theorem Framebuffer.drawSurface_front_faces (fb : Framebuffer) (l : Lighting) (k : Reflectance)
    (ps : List (Vec3 Float)) :
    let ts := Triangle.ofPoints ps
    let drawn := fb.drawSurface l k ts
    drawn.1 = (ts.filter fun t => l.Faces t ∨ (l.toward t).isNaN = true).foldl
        (fun fb t => fb.fill (l.shade t.normal k) t) fb ∧
      drawn.2 = ts.countP (l.Faces ·) + (ts.countP fun t => (l.toward t).isNaN) ∧
      (Culls l k ts fb drawn.1 drawn.2 ↔ ∀ t ∈ ts, (l.toward t).isNaN = false) ∧
      ∀ a b, 2 * a + b + 5 ≤ 1023 → (∀ p ∈ ps, p.IsWithin a) → l.view.IsWithin b →
        Culls l k ts fb drawn.1 drawn.2 ∧
          ∀ t ∈ ts, t.a = t.b ∨ t.b = t.c ∨ t.c = t.a → ¬ l.Faces t := by
  intro ts drawn
  refine ⟨drawSurface_fst fb ts, count_drawSurface fb ts, culls_drawSurface_iff,
    fun a b hab hps hview => ?_⟩
  have hcorners {t : Triangle (Vec3 Float)} (ht : t ∈ ts) :
      ∀ p ∈ t.corners, p.IsWithin a :=
    fun p hp => hps p (Triangle.corners_ofPoints ps ht p hp)
  exact ⟨culls_drawSurface fb fun t ht =>
      (Lighting.isWithin_toward (hcorners ht) hview hab).2.isNaN,
    fun t ht h => Lighting.not_faces_of_corner_eq (hcorners ht) hview hab h⟩

/-- A front face, its back and one with two corners in one place: the front face is drawn. -/
theorem Framebuffer.drawSurface_front_faces_one :
    let l := Lighting.standard
    let ps : List (Vec3 Float) :=
      [⟨ofInt 0, ofInt 0, ofInt 0⟩, ⟨ofInt 9, ofInt 0, ofInt 0⟩, ⟨ofInt 0, ofInt 9, ofInt 0⟩,
        ⟨ofInt 0, ofInt 0, ofInt 0⟩, ⟨ofInt 0, ofInt 9, ofInt 0⟩, ⟨ofInt 9, ofInt 0, ofInt 0⟩,
        ⟨ofInt 0, ofInt 0, ofInt 0⟩, ⟨ofInt 0, ofInt 0, ofInt 0⟩, ⟨ofInt 9, ofInt 9, ofInt 0⟩]
    let drawn := (new 10 10 (.gray 0)).drawSurface l .standard (Triangle.ofPoints ps)
    2 * 4 + 0 + 5 ≤ 1023 ∧ (∀ p ∈ ps, p.IsWithin 4) ∧ l.view.IsWithin 0 ∧
      Culls l .standard (Triangle.ofPoints ps) (new 10 10 (.gray 0)) drawn.1 drawn.2 ∧
      drawn.2 = 1 := by
  intro l ps drawn
  have point {m n : Nat} (hm : m ≤ 2 ^ 4) (hn : n ≤ 2 ^ 4) :
      Vec3.IsWithin 4 ⟨ofInt m, ofInt n, ofInt 0⟩ :=
    ⟨isWithin_ofInt hm (by norm_num), isWithin_ofInt hn (by norm_num),
      isWithin_ofInt (m := 0) (by norm_num) (by norm_num)⟩
  have hps : ∀ p ∈ ps, p.IsWithin 4 := by
    have h0 : 0 ≤ 2 ^ 4 := by norm_num
    have h9 : 9 ≤ 2 ^ 4 := by norm_num
    intro p hp
    simp only [ps, List.mem_cons, List.not_mem_nil, or_false] at hp
    rcases hp with rfl | rfl | rfl | rfl | rfl | rfl | rfl | rfl | rfl
    exacts [point h0 h0, point h9 h0, point h0 h9, point h0 h0, point h0 h9, point h9 h0,
      point h0 h0, point h0 h0, point h9 h9]
  have hview : l.view.IsWithin 0 := by
    have hzero : (0.0 : Float) = ofInt (0 : Nat) := by decide
    have hone : (1.0 : Float) = ofInt (1 : Nat) := by decide
    refine ⟨?_, ?_, ?_⟩
    · change Binary64.IsWithin 0 0.0
      exact hzero ▸ isWithin_ofInt (by norm_num) (by norm_num)
    · change Binary64.IsWithin 0 0.0
      exact hzero ▸ isWithin_ofInt (by norm_num) (by norm_num)
    · change Binary64.IsWithin 0 1.0
      exact hone ▸ isWithin_ofInt (by norm_num) (by norm_num)
  obtain ⟨-, hcount, -, hroom⟩ := drawSurface_front_faces (new 10 10 (.gray 0)) l .standard ps
  refine ⟨by norm_num, hps, hview, (hroom 4 0 (by norm_num) hps hview).1, hcount.trans ?_⟩
  decide +kernel

/-- A triangle that is turned away from the viewer is drawn, if the products that its normal is made
of pass the range of the doubles. -/
theorem Framebuffer.drawSurface_undefined_normal :
    let l := Lighting.standard
    let ps : List (Vec3 Float) := [⟨0.0, 0.0, 0.0⟩, ⟨1e200, 2e200, 0.0⟩, ⟨1e200, 1e200, 0.0⟩]
    let drawn := (new 4 4 (.gray 127)).drawSurface l l.reflectance (Triangle.ofPoints ps)
    (∀ p ∈ ps, p.x.isFinite ∧ p.y.isFinite ∧ p.z.isFinite) ∧
      (∀ t ∈ Triangle.ofPoints ps, ¬ l.Faces t) ∧ drawn.2 = 1 ∧
      drawn.1.cell? 1 1 = some ⟨.gray 5, 0.0⟩ ∧
      ¬ Culls l l.reflectance (Triangle.ofPoints ps) (new 4 4 (.gray 127)) drawn.1 drawn.2 := by
  intro l ps drawn
  have hfaces : ∀ t ∈ Triangle.ofPoints ps, ¬ l.Faces t := by decide +kernel
  have hcount : drawn.2 = 1 := by decide +kernel
  refine ⟨by decide +kernel, hfaces, hcount, by decide +kernel, fun h => ?_⟩
  have hzero := h.count_eq
  rw [hcount, eq_comm, List.countP_eq_length_filter] at hzero
  revert hzero
  decide +kernel

end Culling

end SceneScript
