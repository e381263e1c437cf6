import SceneScript.Framebuffer
import SceneScript.Figure

/-!
# Filling triangles

A triangle is filled row by row. Its corners are taken from the lowest to the highest; each row
reaches from the long side, lowest to highest, to whichever of the two short sides covers it. Depth
is interpolated along both sides and then across the row. Rows and columns outside of the picture
are left out before anything is computed for them.
-/

namespace SceneScript

open Scalar

variable {α : Type} [Scalar α]

/-- The whole numbers from one to another, none if they are out of order. -/
def interval (first last : Int) : List Int :=
  (List.range (last + 1 - first).toNat).map fun i : Nat => first + (i : Int)

namespace Triangle

/-- The corners from the lowest to the highest; corners of one height keep their order. Doubles are
in the order of `Binary64.rank`, so a corner whose height is not a number is the highest, whatever
sign bit that had. -/
def byHeight (t : Triangle (Vec3 α)) : Triangle (Vec3 α) :=
  let notAbove (p q : Vec3 α) := sortsBefore p.y q.y
  let (p, q) := if notAbove t.a t.b then (t.a, t.b) else (t.b, t.a)
  if notAbove q t.c then ⟨p, q, t.c⟩ else if notAbove p t.c then ⟨p, t.c, q⟩ else ⟨t.c, p, q⟩

end Triangle

namespace Edge

/-- Where a side stands at the height `y`, and how deep it is there. Beyond its ends it stands where
the nearer end does, and a level side stands where it starts. -/
def atHeight (e : Edge (Vec3 α)) (y : α) : α × α :=
  let rise := e.finish.y - e.start.y
  if same rise 0 then (e.start.x, e.start.z)
  else
    let t := clamp 0 1 ((y - e.start.y) / rise)
    (e.start.x + (e.finish.x - e.start.x) * t, e.start.z + (e.finish.z - e.start.z) * t)

end Edge

namespace Triangle

/-- The fragments of row `y` between two sides, each given by where it stands and its depth. -/
def rowBetween (width : Nat) (y : Int) (left right : α × α) : List (Fragment α) :=
  let first := round left.1
  let last := round right.1
  let slope := if first < last then (right.2 - left.2) / (last - first) else 0
  let firstShown := larger first 0
  let lastShown := smaller last (ofInt width - 1)
  if lastShown < firstShown then []
  else (interval (toInt firstShown) (toInt lastShown)).map fun x =>
    ⟨x, y, left.2 + slope * (ofInt x - first)⟩

/-- The fragments of row `y` of a triangle whose corners go from the lowest to the highest. -/
def row (width : Nat) (t : Triangle (Vec3 α)) (y : Int) : List (Fragment α) :=
  let height : α := ofInt y
  let long := Edge.atHeight ⟨t.a, t.c⟩ height
  let short := if height < t.b.y then Edge.atHeight ⟨t.a, t.b⟩ height
    else Edge.atHeight ⟨t.b, t.c⟩ height
  if long.1 ≤ short.1 then rowBetween width y long short else rowBetween width y short long

/-- The fragments of a triangle in a picture of the given size. -/
def fragments (width height : Nat) (t : Triangle (Vec3 α)) : List (Fragment α) :=
  let t := t.byHeight
  (interval (max 0 (toInt (round t.a.y))) (min ((height : Int) - 1) (toInt (round t.c.y)))).flatMap
    (row width t)

end Triangle

/-- Fill a triangle with one color. -/
def Framebuffer.fill (fb : Framebuffer) (color : Color) (t : Triangle (Vec3 Float)) :
    Framebuffer :=
  fb.paint color (t.fragments fb.width fb.height)

end SceneScript
