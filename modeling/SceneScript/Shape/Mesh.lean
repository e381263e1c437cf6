import SceneScript.Figure

/-!
# Spheres and tori

A round solid is a grid of points, wound up and joined into triangles. Which places of the grid
are joined (`sphereMesh`, `torusMesh`) is told apart from where the places lie in space
(`spherePoint`, `torusPoint`), since the joining decides whether the solid is closed.

On a sphere, place `(i, j)` lies on the `i`-th of `n` half circles from pole to pole, `j` steps
behind the pole it starts at; all places `(i, 0)` are that pole and all places `(i, n)` the other
one. On a torus, place `(i, j)` lies `j` steps around the tube at the `i`-th place of the ring.
-/

namespace SceneScript.Shape

/-- A place of the grid: around the solid, then along it. -/
abbrev Place := Nat × Nat

/-! ## Which places are joined -/

/-- The triangles of a sphere of `n` slices. A slice has one triangle at each pole and two at each
step between. -/
def sphereMesh (n : Nat) : List (Triangle Place) :=
  (List.range n).flatMap fun i =>
    let next := (i + 1) % n
    (List.range n).flatMap fun j =>
      (if j + 1 = n then [] else [⟨(i, j), (i, j + 1), (next, j + 1)⟩]) ++
        (if j = 0 then [] else [⟨(i, j), (next, j + 1), (next, j)⟩])

/-- The triangles of a torus with `n` places around the ring and around the tube. -/
def torusMesh (n : Nat) : List (Triangle Place) :=
  (List.range n).flatMap fun i =>
    let next := (i + 1) % n
    (List.range n).flatMap fun j =>
      let up := (j + 1) % n
      Triangle.halves (i, j) (next, j) (next, up) (i, up)

/-! ## Where the places lie -/

section
variable {α : Type} [Circular α]

open Circular

/-- A point of the sphere around `center`; the poles lie left and right of it. -/
def spherePoint (center : Vec3 α) (radius : α) (n : Nat) (place : Place) : Vec3 α :=
  let phi := angle fullTurn place.1 n
  let theta := angle halfTurn place.2 n
  ⟨radius * cos theta + center.x, radius * sin theta * cos phi + center.y,
    radius * sin theta * sin phi + center.z⟩

/-- A point of the torus around `center`, whose ring lies level. -/
def torusPoint (center : Vec3 α) (minor major : α) (n : Nat) (place : Place) : Vec3 α :=
  let phi := angle fullTurn place.1 n
  let theta := angle fullTurn place.2 n
  let ring := minor * cos theta + major
  ⟨cos phi * ring + center.x, minor * sin theta + center.y, -sin phi * ring + center.z⟩

/-! ## Solids -/

/-- The triangles of a sphere in `n` slices. -/
def sphere (center : Vec3 α) (radius : α) (n : Nat) : List (Triangle (Vec3 α)) :=
  (sphereMesh n).map (Triangle.map (spherePoint center radius n))

/-- The triangles of a torus in `n` steps each way. -/
def torus (center : Vec3 α) (minor major : α) (n : Nat) : List (Triangle (Vec3 α)) :=
  (torusMesh n).map (Triangle.map (torusPoint center minor major n))

end

end SceneScript.Shape
