import SceneScript.Vector

/-!
# Edges and triangles

A curve is drawn as a list of edges and a solid as a list of triangles. Both are over any kind of
corner: points of space, or the places of a grid whose points are computed later.

A flat list of points stands for edges by its pairs and for triangles by its triples; what is left
over at the end stands for nothing. Listing corners, moving them as points and pairing them up again
moves the edges or triangles (`Edge.ofPoints_map_points`, `Triangle.ofPoints_map_points`).
-/

namespace SceneScript

/-- A straight stroke between two corners. -/
structure Edge (P : Type) where
  start : P
  finish : P
deriving Repr, DecidableEq

/-- A facet by its corners, counter-clockwise for who sees its front. -/
structure Triangle (P : Type) where
  a : P
  b : P
  c : P
deriving Repr, DecidableEq

variable {P Q : Type}

namespace Edge

/-- The ends. -/
def corners (e : Edge P) : List P := [e.start, e.finish]

/-- The edge between other corners. -/
def map (f : P → Q) (e : Edge P) : Edge Q := ⟨f e.start, f e.finish⟩

/-- The edges that points stand for. -/
def ofPoints : List P → List (Edge P)
  | p :: q :: rest => ⟨p, q⟩ :: ofPoints rest
  | _ => []

/-- The points that edges are listed as. -/
def points (es : List (Edge P)) : List P := es.flatMap corners

/-- Moving the points that edges are listed as moves the edges. -/
theorem ofPoints_map_points (f : P → Q) (es : List (Edge P)) :
    ofPoints ((points es).map f) = es.map (map f) := by
  induction es with
  | nil => rfl
  | cons e es ih => exact congrArg (e.map f :: ·) ih

/-- The edges that join each point of a list to the next. -/
def chain (ps : List P) : List (Edge P) := List.zipWith Edge.mk ps ps.tail

end Edge

namespace Triangle

/-- The corners in order. -/
def corners (t : Triangle P) : List P := [t.a, t.b, t.c]

/-- The triangle between other corners. -/
def map (f : P → Q) (t : Triangle P) : Triangle Q := ⟨f t.a, f t.b, f t.c⟩

/-- The triangles that points stand for. -/
def ofPoints : List P → List (Triangle P)
  | p :: q :: r :: rest => ⟨p, q, r⟩ :: ofPoints rest
  | _ => []

/-- The points that triangles are listed as. -/
def points (ts : List (Triangle P)) : List P := ts.flatMap corners

/-- Moving the points that triangles are listed as moves the triangles. -/
theorem ofPoints_map_points (f : P → Q) (ts : List (Triangle P)) :
    ofPoints ((points ts).map f) = ts.map (map f) := by
  induction ts with
  | nil => rfl
  | cons t ts ih => exact congrArg (t.map f :: ·) ih

/-- The two halves of a four-cornered facet. -/
def halves (a b c d : P) : List (Triangle P) := [⟨a, b, c⟩, ⟨a, c, d⟩]

/-- The normal, which points to the front and is twice as long as the area. -/
def normal {α : Type} [Scalar α] (t : Triangle (Vec3 α)) : Vec3 α := Vec3.normal t.a t.b t.c

/-- The triangle whose first corner is the point at place `i` of a list. -/
def ofPointsAt? (ps : List P) (i : Nat) : Option (Triangle P) := (ofPoints (ps.drop i)).head?

end Triangle

end SceneScript
