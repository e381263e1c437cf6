import SceneScript.Figure

/-!
# Curves

A curve is traced at equal steps of its parameter, and each point is joined to the next. Cubics
lie in the plane of the picture. A Hermite curve is given by its two ends and its rate of change at
each, a Bézier curve by four control points; both are brought to coefficients first.
-/

namespace SceneScript.Shape

open Scalar

/-! ## Cubics -/

section
variable {α : Type} [Scalar α]

/-- The curve `a * t^3 + b * t^2 + c * t + d`. -/
structure Cubic (α : Type) where
  a : Vec2 α
  b : Vec2 α
  c : Vec2 α
  d : Vec2 α
deriving Repr, DecidableEq

namespace Cubic

/-- The point at a parameter. -/
def point (k : Cubic α) (t : α) : Vec2 α :=
  (((k.a.scale t + k.b).scale t + k.c).scale t) + k.d

/-- The curve from `p0` to `p1` that leaves at the rate `r0` and arrives at the rate `r1`. -/
def hermite (p0 p1 r0 r1 : Vec2 α) : Cubic α where
  a := p0.scale 2 - p1.scale 2 + r0 + r1
  b := p0.scale (-3) + p1.scale 3 - r0.scale 2 - r1
  c := r0
  d := p0

/-- The curve of four control points. -/
def bezier (p0 p1 p2 p3 : Vec2 α) : Cubic α where
  a := -p0 + p1.scale 3 - p2.scale 3 + p3
  b := p0.scale 3 - p1.scale 6 + p2.scale 3
  c := p0.scale (-3) + p1.scale 3
  d := p0

/-- The curve over the parameters from `0` to `1`, in `n` edges. -/
def trace (k : Cubic α) (n : Nat) : List (Edge (Vec3 α)) :=
  Edge.chain ((List.range (n + 1)).map fun i : Nat => (k.point (ofInt i / ofInt n)).atHeight 0)

end Cubic

/-- The edges of a Hermite curve. -/
def hermite (p0 p1 r0 r1 : Vec2 α) (n : Nat) : List (Edge (Vec3 α)) :=
  (Cubic.hermite p0 p1 r0 r1).trace n

/-- The edges of a Bézier curve. -/
def bezier (p0 p1 p2 p3 : Vec2 α) (n : Nat) : List (Edge (Vec3 α)) :=
  (Cubic.bezier p0 p1 p2 p3).trace n

end

/-! ## Circles -/

section
variable {α : Type} [Circular α]

open Circular

/-- The point of a circle that is `i` steps of `n` around it. -/
def circlePoint (center : Vec3 α) (radius : α) (n i : Nat) : Vec3 α :=
  let t := angle fullTurn i n
  ⟨center.x + radius * cos t, center.y + radius * sin t, center.z⟩

/-- The edges of a circle that faces the viewer. -/
def circle (center : Vec3 α) (radius : α) (n : Nat) : List (Edge (Vec3 α)) :=
  Edge.chain ((List.range (n + 1)).map (circlePoint center radius n))

end

end SceneScript.Shape
