import SceneScript.Scalar

/-!
# Vectors

Points and directions of the plane and of space, with the products that shading and culling use.
`normal` is the normal of a triangle: it points at a viewer who sees the corners go round
counter-clockwise, and its length is twice the area.
-/

namespace SceneScript

/-- A point or direction of the plane. -/
structure Vec2 (α : Type) where
  x : α
  y : α
deriving Repr, BEq, DecidableEq

/-- A point or direction of space. -/
structure Vec3 (α : Type) where
  x : α
  y : α
  z : α
deriving Repr, BEq, DecidableEq

variable {α : Type}

namespace Vec2

variable [Scalar α]

instance : Add (Vec2 α) := ⟨fun a b => ⟨a.x + b.x, a.y + b.y⟩⟩
instance : Sub (Vec2 α) := ⟨fun a b => ⟨a.x - b.x, a.y - b.y⟩⟩
instance : Neg (Vec2 α) := ⟨fun a => ⟨-a.x, -a.y⟩⟩

/-- Each coordinate times `k`. -/
def scale (k : α) (a : Vec2 α) : Vec2 α := ⟨k * a.x, k * a.y⟩

/-- The point of the plane at height `z` of space. -/
def atHeight (a : Vec2 α) (z : α) : Vec3 α := ⟨a.x, a.y, z⟩

end Vec2

namespace Vec3

/-- The coordinates in order. -/
def toList (a : Vec3 α) : List α := [a.x, a.y, a.z]

variable [Scalar α]

instance : Add (Vec3 α) := ⟨fun a b => ⟨a.x + b.x, a.y + b.y, a.z + b.z⟩⟩
instance : Sub (Vec3 α) := ⟨fun a b => ⟨a.x - b.x, a.y - b.y, a.z - b.z⟩⟩

/-- Each coordinate times `k`. -/
def scale (k : α) (a : Vec3 α) : Vec3 α := ⟨a.x * k, a.y * k, a.z * k⟩

/-- Coordinate by coordinate. -/
def times (a b : Vec3 α) : Vec3 α := ⟨a.x * b.x, a.y * b.y, a.z * b.z⟩

/-- The scalar product, summed from the left. -/
def dot (a b : Vec3 α) : α := a.x * b.x + a.y * b.y + a.z * b.z

/-- The vector product. -/
def cross (a b : Vec3 α) : Vec3 α :=
  ⟨a.y * b.z - b.y * a.z, a.z * b.x - b.z * a.x, a.x * b.y - b.x * a.y⟩

/-- The normal of the triangle with corners `a`, `b`, `c`. -/
def normal (a b c : Vec3 α) : Vec3 α := (b - a).cross (c - a)

end Vec3

namespace Vec3

/-- The Euclidean length. -/
def length (a : Vec3 Float) : Float := (a.dot a).sqrt

/-- The vector divided by its length; a zero vector has no direction, and its coordinates become
undefined. -/
def normalize (a : Vec3 Float) : Vec3 Float :=
  let l := a.length
  ⟨a.x / l, a.y / l, a.z / l⟩

end Vec3

end SceneScript
