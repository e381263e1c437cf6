import SceneScript.Framebuffer
import SceneScript.Raster.Clip

/-!
# Drawing lines

A line is drawn cell by cell from one end to the other, by steps to a neighbouring cell that never
need a fraction. An error tells on which side of the ideal line the pen is: it decides whether a
step goes across, up, or both. Depth changes by the same amount with every step.

A segment is first cut to the picture (`Edge.clip`), so the steps are at most as many as the
longer side of the picture has cells, and all of them paint.
-/

namespace SceneScript

open Scalar

variable {α : Type} [Scalar α]

/-- A line between two cells. -/
structure Stroke (α : Type) where
  start : Fragment α
  finish : Fragment α
deriving Repr, DecidableEq

/-- A pen on its way: the cell it is on, and the error there. -/
structure Pen (α : Type) where
  tip : Fragment α
  error : Int
deriving Repr, DecidableEq

namespace Stroke

/-- How far the line goes across, without direction. -/
def across (s : Stroke α) : Int := (s.finish.x - s.start.x).natAbs

/-- How far the line goes up or down, without direction. -/
def up (s : Stroke α) : Int := (s.finish.y - s.start.y).natAbs

/-- The number of steps from one end to the other. -/
def length (s : Stroke α) : Nat := (max s.across s.up).toNat

/-- The change of depth in one step. -/
def slope (s : Stroke α) : α :=
  if s.length = 0 then 0 else (s.finish.depth - s.start.depth) / ofInt s.length

/-- The pen at the start. -/
def pen (s : Stroke α) : Pen α := ⟨s.start, s.across - s.up⟩

/-- One step of the pen. -/
def step (s : Stroke α) (p : Pen α) : Pen α :=
  let stepsAcross := -s.up ≤ 2 * p.error
  let stepsUp := 2 * p.error ≤ s.across
  { tip :=
      { x := if stepsAcross then p.tip.x + (s.finish.x - s.start.x).sign else p.tip.x
        y := if stepsUp then p.tip.y + (s.finish.y - s.start.y).sign else p.tip.y
        depth := p.tip.depth + s.slope }
    error := p.error - (if stepsAcross then s.up else 0) + (if stepsUp then s.across else 0) }

/-- What the pen paints until it reaches the finish, in at most `fuel` steps. -/
def paintedFrom (s : Stroke α) : Nat → Pen α → List (Fragment α)
  | 0, p => [p.tip]
  | fuel + 1, p =>
    if p.tip.x = s.finish.x ∧ p.tip.y = s.finish.y then [p.tip]
    else p.tip :: s.paintedFrom fuel (s.step p)

/-- The fragments of a line, both ends with it. -/
def fragments (s : Stroke α) : List (Fragment α) := s.paintedFrom s.length s.pen

end Stroke

/-- The fragment of the cell nearest to a point. -/
def Vec3.fragment (p : Vec3 α) : Fragment α := ⟨toInt (round p.x), toInt (round p.y), p.z⟩

/-- A point whose place in the picture's plane is known. -/
def Vec3.isPlaced (p : Vec3 α) : Bool := isFinite p.x && isFinite p.y

/-- The fragments of a segment in a picture of the given size. -/
def Edge.fragments (width height : Nat) (e : Edge (Vec3 α)) : List (Fragment α) :=
  if width = 0 || height = 0 || !(e.start.isPlaced && e.finish.isPlaced) then []
  else
    match e.clip (ofInt (width - 1)) (ofInt (height - 1)) with
    | none => []
    | some e => (Stroke.mk e.start.fragment e.finish.fragment).fragments

namespace Framebuffer

/-- Draw a segment. -/
def drawEdge (color : Color) (fb : Framebuffer) (e : Edge (Vec3 Float)) : Framebuffer :=
  fb.paint color (e.fragments fb.width fb.height)

/-- Draw segments one after the other. -/
def drawEdges (fb : Framebuffer) (color : Color) (es : List (Edge (Vec3 Float))) : Framebuffer :=
  es.foldl (drawEdge color) fb

end Framebuffer

end SceneScript
