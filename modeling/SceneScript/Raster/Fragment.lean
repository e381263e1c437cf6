/-!
# Fragments

Drawing a figure comes down to a list of fragments: which cells it covers, and how near it is
there. What the cells show in the end depends on the framebuffer that the fragments are painted on;
which fragments there are depends on the figure and the size of the picture alone.
-/

namespace SceneScript

/-- One cell that a figure covers: its column, its row from the bottom, and the depth there. -/
structure Fragment (α : Type) where
  x : Int
  y : Int
  depth : α
deriving Repr, DecidableEq

end SceneScript
