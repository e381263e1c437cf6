import SceneScript.Proofs.Framebuffer.Depth
import SceneScript.Raster.Line
import SceneScript.Raster.Surface

/-!
# Drawing as a history of plots

What a figure plots depends on its shape, on its colors and on the size of the picture, and not on
what the picture shows. So drawing it is a history of plots that is known beforehand
(`drawEdges_eq_plotAll`, `drawSurface_eq_plotAll`), and what holds of every history holds of every
drawing: no depth becomes something else than a number (`IsNumeric.plotAll`), and nothing that is
shown is taken farther away (`exists_cell?_plotAll_le`).
-/

namespace SceneScript

/-- The plot that paints a fragment. -/
def Fragment.plot (color : Color) (f : Fragment Float) : Plot := ⟨color, f.x, f.y, f.depth⟩

/-- The plots of an edge in a picture of the given size. -/
def Edge.plots (color : Color) (width height : Nat) (e : Edge (Vec3 Float)) : List Plot :=
  (e.fragments width height).map (·.plot color)

/-- The plots of a triangle that is lit, in a picture of the given size. -/
def Triangle.plots (l : Lighting) (k : Reflectance) (width height : Nat)
    (t : Triangle (Vec3 Float)) : List Plot :=
  (t.fragments width height).map (·.plot (l.shade t.normal k))

namespace Framebuffer

variable {fb : Framebuffer} {x y : Int} {c : Cell}

/-! ## Drawing -/

theorem plotAll_append (fb : Framebuffer) (ps qs : List Plot) :
    fb.plotAll (ps ++ qs) = (fb.plotAll ps).plotAll qs := List.foldl_append

/-- Painting fragments is the history of their plots. -/
theorem paint_eq_plotAll (fb : Framebuffer) (color : Color) (fs : List (Fragment Float)) :
    fb.paint color fs = fb.plotAll (fs.map (·.plot color)) := by
  rw [plotAll, List.foldl_map]
  rfl

/-- Things are drawn one after the other by the plots of all of them, if each is drawn by plots that
depend on the size of the picture alone. -/
theorem foldl_eq_plotAll {β : Type} {draw : Framebuffer → β → Framebuffer}
    (plots : Nat → Nat → β → List Plot)
    (h : ∀ fb b, draw fb b = fb.plotAll (plots fb.width fb.height b)) (fb : Framebuffer)
    (bs : List β) : bs.foldl draw fb = fb.plotAll (bs.flatMap (plots fb.width fb.height)) := by
  induction bs generalizing fb with
  | nil => rfl
  | cons b bs ih =>
    -- what is behind is drawn on another picture, but that one has the same size
    rw [List.foldl_cons, ih, h, width_plotAll, height_plotAll, ← plotAll_append]
    rfl

/-- Edges are drawn by their plots. -/
theorem drawEdges_eq_plotAll (fb : Framebuffer) (color : Color) (es : List (Edge (Vec3 Float))) :
    fb.drawEdges color es = fb.plotAll (es.flatMap (Edge.plots color fb.width fb.height)) :=
  foldl_eq_plotAll (Edge.plots color) (fun fb _ => paint_eq_plotAll fb color _) fb es

/-- A surface is drawn by the plots of those of its triangles that may be seen. -/
theorem drawSurface_eq_plotAll (fb : Framebuffer) (l : Lighting) (k : Reflectance)
    (ts : List (Triangle (Vec3 Float))) :
    (fb.drawSurface l k ts).1 =
      fb.plotAll ((ts.filter l.shows).flatMap (Triangle.plots l k fb.width fb.height)) :=
  foldl_eq_plotAll (Triangle.plots l k) (fun fb _ => paint_eq_plotAll fb _ _) fb _

/-! ## Depths -/

/-- What a cell shows after any history is at least as near as what it showed before. -/
theorem exists_cell?_plotAll_le (hfb : fb.IsNumeric) (h : fb.cell? x y = some c)
    (ps : List Plot) : ∃ c', (fb.plotAll ps).cell? x y = some c' ∧ c.depth ≤ c'.depth := by
  obtain ⟨c', hc', hist⟩ := history_plotAll h (hfb c (mem_of_cell? h)) ps
  exact ⟨c', hc', hist.le _ List.mem_cons_self⟩

/-- Every cell is what some column and row show. -/
theorem exists_cell?_of_mem (h : c ∈ fb.cells) : ∃ x y, fb.cell? x y = some c := by
  obtain ⟨i, hi, rfl⟩ := Vector.getElem_of_mem h
  obtain ⟨x, y, -, hplace⟩ := exists_place? ⟨i, hi⟩
  exact ⟨x, y, by rw [cell?, hplace]; rfl⟩

/-- After any history the depths are numbers. -/
theorem IsNumeric.plotAll (hfb : fb.IsNumeric) (ps : List Plot) : (fb.plotAll ps).IsNumeric := by
  intro c' hmem
  obtain ⟨x, y, hc'⟩ := exists_cell?_of_mem hmem
  have hr : (fb.plotAll ps).InRange x y := by
    by_contra hn
    rw [cell?_eq_none hn] at hc'
    cases hc'
  obtain ⟨c, hc⟩ := exists_cell? (inRange_plotAll.1 hr)
  obtain ⟨c'', hc'', hle⟩ := exists_cell?_plotAll_le hfb hc ps
  obtain rfl : c' = c'' := Option.some.inj (hc'.symm.trans hc'')
  exact Binary64.isNaN_right hle

/-- A picture that shows nothing again has numbers for depths. -/
theorem isNumeric_clear (fb : Framebuffer) : fb.clear.IsNumeric := by
  intro c hc
  obtain ⟨c, -, rfl⟩ := Vector.mem_map.1 hc
  change far.isNaN = false
  decide

/-! ## Clearing -/

/-- A picture that is cleared is as new. -/
theorem clear_eq_new (fb : Framebuffer) : fb.clear = new fb.width fb.height fb.background := by
  have hcells : (fb.cells.map fun c => { c with color := fb.background }).map
      (fun c => { c with depth := far }) = .replicate _ ⟨fb.background, far⟩ := by
    ext i hi
    simp
  exact congrArg (mk fb.width fb.height fb.background) hcells

end Framebuffer

end SceneScript
