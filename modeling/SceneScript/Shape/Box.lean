import SceneScript.Figure

/-!
# Boxes

A box is placed by its left top front corner and reaches to the right, down and away from the
viewer. Its six faces are given counter-clockwise as seen from outside, and each is cut into two
triangles.
-/

namespace SceneScript.Shape

open Scalar

variable {α : Type} [Scalar α]

/-- The triangles of a box. -/
def box (corner size : Vec3 α) : List (Triangle (Vec3 α)) :=
  let left := corner.x
  let top := corner.y
  let front := corner.z
  let right := left + size.x
  let bottom := top - size.y
  let back := front - size.z
  let ltf : Vec3 α := ⟨left, top, front⟩
  let lbf : Vec3 α := ⟨left, bottom, front⟩
  let rbf : Vec3 α := ⟨right, bottom, front⟩
  let rtf : Vec3 α := ⟨right, top, front⟩
  let ltb : Vec3 α := ⟨left, top, back⟩
  let lbb : Vec3 α := ⟨left, bottom, back⟩
  let rbb : Vec3 α := ⟨right, bottom, back⟩
  let rtb : Vec3 α := ⟨right, top, back⟩
  Triangle.halves ltf lbf rbf rtf ++ Triangle.halves rtb rbb lbb ltb ++
    Triangle.halves rtf rbf rbb rtb ++ Triangle.halves ltb lbb lbf ltf ++
    Triangle.halves ltb ltf rtf rtb ++ Triangle.halves lbf lbb rbb rbf

end SceneScript.Shape
