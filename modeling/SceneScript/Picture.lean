import SceneScript.Framebuffer

/-!
# Pictures

A picture is what a framebuffer shows, without depth: its size, and its pixels in display order.
-/

namespace SceneScript

/-- A finished picture. -/
structure Picture where
  width : Nat
  height : Nat
  /-- Row by row from the top, each from the left. -/
  pixels : List Color
deriving Repr, DecidableEq

namespace Picture

/-- Split into `n` rows of the given width. -/
def rowsOf (width : Nat) : Nat → List Color → List (List Color)
  | 0, _ => []
  | n + 1, ps => ps.take width :: rowsOf width n (ps.drop width)

/-- The rows from the top. -/
def rows (p : Picture) : List (List Color) := rowsOf p.width p.height p.pixels

end Picture

/-- What a framebuffer shows. -/
def Framebuffer.picture (fb : Framebuffer) : Picture :=
  ⟨fb.width, fb.height, fb.cells.toList.map Cell.color⟩

end SceneScript
