import SceneScript.Axis
import SceneScript.Vector

/-!
# Transforms of space

A coordinate system is a matrix of four columns: where the three directions go, and where the
origin goes. `a * b` first does `b` and then `a`, so a transform composed from the right happens
inside the system it is composed to.

Sums are formed in one fixed order in each product; rounded arithmetic depends on it. A point is
transformed with the origin added last on the left, a column with it added last on the right.
-/

namespace SceneScript

/-- A column of four coordinates. -/
structure Column where
  x : Float
  y : Float
  z : Float
  w : Float
deriving Repr, BEq, DecidableEq

namespace Column

instance : Add Column := ⟨fun a b => ⟨a.x + b.x, a.y + b.y, a.z + b.z, a.w + b.w⟩⟩

/-- Each coordinate times `k`. -/
def scale (k : Float) (a : Column) : Column := ⟨a.x * k, a.y * k, a.z * k, a.w * k⟩

/-- The coordinates in order. -/
def toList (a : Column) : List Float := [a.x, a.y, a.z, a.w]

/-- The first three coordinates. -/
def toVector (a : Column) : Vec3 Float := ⟨a.x, a.y, a.z⟩

end Column

/-- A transform by its columns. -/
structure Matrix where
  x : Column
  y : Column
  z : Column
  w : Column
deriving Repr, BEq, DecidableEq

namespace Matrix

/-- The coordinates, column by column. -/
def toList (m : Matrix) : List Float := m.x.toList ++ m.y.toList ++ m.z.toList ++ m.w.toList

/-! ## Transforms by name -/

/-- Nothing moves. -/
def identity : Matrix := ⟨⟨1.0, 0.0, 0.0, 0.0⟩, ⟨0.0, 1.0, 0.0, 0.0⟩, ⟨0.0, 0.0, 1.0, 0.0⟩,
  ⟨0.0, 0.0, 0.0, 1.0⟩⟩

instance : Inhabited Matrix := ⟨identity⟩

/-- Everything moves by the same offset. -/
def translation (d : Vec3 Float) : Matrix := { identity with w := ⟨d.x, d.y, d.z, 1.0⟩ }

/-- Each direction is stretched by a factor of its own. -/
def scaling (k : Vec3 Float) : Matrix :=
  ⟨⟨k.x, 0.0, 0.0, 0.0⟩, ⟨0.0, k.y, 0.0, 0.0⟩, ⟨0.0, 0.0, k.z, 0.0⟩, ⟨0.0, 0.0, 0.0, 1.0⟩⟩

/-- A turn about an axis, counter-clockwise for a viewer whom the axis points at. -/
def rotation (axis : Axis) (degrees : Float) : Matrix :=
  let angle := Binary64.radians degrees
  let s := angle.sin
  let c := angle.cos
  match axis with
  | .x => { identity with y := ⟨0.0, c, s, 0.0⟩, z := ⟨0.0, -s, c, 0.0⟩ }
  | .y => { identity with x := ⟨c, 0.0, -s, 0.0⟩, z := ⟨s, 0.0, c, 0.0⟩ }
  | .z => { identity with x := ⟨c, s, 0.0, 0.0⟩, y := ⟨-s, c, 0.0, 0.0⟩ }

/-! ## Products -/

/-- Where a column goes. -/
def column (m : Matrix) (v : Column) : Column :=
  m.x.scale v.x + m.y.scale v.y + m.z.scale v.z + m.w.scale v.w

instance : Mul Matrix := ⟨fun a b => ⟨a.column b.x, a.column b.y, a.column b.z, a.column b.w⟩⟩

/-- Where a point goes. -/
def point (m : Matrix) (p : Vec3 Float) : Vec3 Float :=
  (m.w + (m.z.scale p.z + (m.y.scale p.y + m.x.scale p.x))).toVector

end Matrix

end SceneScript
