import SceneScript.Figure

/-!
# Clipping segments

The part of a segment in the rectangle `[0, maxX] × [0, maxY]`, with depth carried along. A point
of the segment is told by its parameter, `0` at the start and `1` at the finish. Each side of the
rectangle leaves an interval of parameters; the bounds cut the segment down side by side, and what
is left is the part inside.

Where a side has cut the segment, the end lies on that side, so its coordinate is set to the
side's: rounded arithmetic would leave it only near. An end that no side has cut stays as it is.
-/

namespace SceneScript

open Scalar

variable {α : Type} [Scalar α]

/-- A coordinate of the picture's plane. -/
inductive Direction where
  | across
  | up
deriving Repr, DecidableEq

/-- A side of the rectangle: where it stands, and in which direction. -/
structure Side (α : Type) where
  direction : Direction
  bound : α
deriving Repr, DecidableEq

/-- A point moved onto a side. -/
def Side.pin (s : Side α) (p : Vec3 α) : Vec3 α :=
  match s.direction with
  | .across => { p with x := s.bound }
  | .up => { p with y := s.bound }

/-- An end of what is left of a segment: its parameter, and the side that cut it there last. -/
structure Cut (α : Type) where
  parameter : α
  side : Option (Side α)
deriving Repr, DecidableEq

/-- What is left of a segment. -/
structure Span (α : Type) where
  enter : Cut α
  leave : Cut α
deriving Repr, DecidableEq

namespace Span

/-- The whole segment. -/
def whole : Span α := ⟨⟨0, none⟩, ⟨1, none⟩⟩

/-- Cut off what lies beyond a side. The segment goes out past the side at the rate `rate`, and its
start lies `room` inside of it: a segment along the side is in or out as a whole, and another one
crosses it at the parameter `room / rate`, coming in if the rate is negative. -/
def cutBy (side : Side α) (rate room : α) (s : Span α) : Option (Span α) :=
  if same rate 0 then
    if room < 0 then none else some s
  else
    let t := room / rate
    if rate < 0 then
      if s.leave.parameter < t then none
      else if s.enter.parameter < t then some { s with enter := ⟨t, some side⟩ }
      else some s
    else if t < s.enter.parameter then none
    else if t < s.leave.parameter then some { s with leave := ⟨t, some side⟩ }
    else some s

/-- The parameters of a segment inside of the rectangle. -/
def inside (e : Edge (Vec3 α)) (maxX maxY : α) : Option (Span α) := do
  let p := e.start
  let d := e.finish - e.start
  let s ← cutBy ⟨.across, 0⟩ (-d.x) p.x whole
  let s ← cutBy ⟨.across, maxX⟩ d.x (maxX - p.x) s
  let s ← cutBy ⟨.up, 0⟩ (-d.y) p.y s
  cutBy ⟨.up, maxY⟩ d.y (maxY - p.y) s

end Span

/-- The point of a segment at a cut, or `otherwise` where nothing was cut off. -/
def Cut.point (e : Edge (Vec3 α)) (maxX maxY : α) (otherwise : Vec3 α) (c : Cut α) : Vec3 α :=
  match c.side with
  | none => otherwise
  | some side =>
    let p := side.pin (e.start + (e.finish - e.start).scale c.parameter)
    ⟨clamp 0 maxX p.x, clamp 0 maxY p.y, p.z⟩

/-- The part of a segment in the rectangle `[0, maxX] × [0, maxY]`. -/
def Edge.clip (e : Edge (Vec3 α)) (maxX maxY : α) : Option (Edge (Vec3 α)) :=
  (Span.inside e maxX maxY).map fun s =>
    ⟨s.enter.point e maxX maxY e.start, s.leave.point e maxX maxY e.finish⟩

end SceneScript
