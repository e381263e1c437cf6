import SceneScript.Lighting
import SceneScript.Raster.Fill

/-!
# Drawing surfaces

A solid is drawn as its triangles, each in the one color that the lighting gives it. A triangle is
left out when its normal is known not to point toward the viewer. The depth of the cells sorts out
what hides what, so the order of the triangles shows only between triangles that are equally near.
-/

namespace SceneScript

/-- A triangle that may be seen: its normal is not at a right angle or more to the view. -/
def Lighting.shows (l : Lighting) (t : Triangle (Vec3 Float)) : Bool :=
  !decide (t.normal.dot l.view ≤ 0.0)

/-- Draw the triangles of a surface that may be seen, and say how many those are. -/
def Framebuffer.drawSurface (fb : Framebuffer) (l : Lighting) (k : Reflectance)
    (ts : List (Triangle (Vec3 Float))) : Framebuffer × Nat :=
  let shown := ts.filter l.shows
  (shown.foldl (fun fb t => fb.fill (l.shade t.normal k) t) fb, shown.length)

end SceneScript
