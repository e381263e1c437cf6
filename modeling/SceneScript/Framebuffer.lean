import SceneScript.Binary64
import SceneScript.Color
import SceneScript.Raster.Fragment

/-!
# Framebuffers

A picture under way: every cell holds a color and the depth of what it shows, and greater depth is
nearer to the viewer. Something is painted over a cell when it is at least as near as what the cell
shows; depths are compared in steps of a thousandth.

Cells lie in display order, the top row first, while drawing counts rows from the bottom:
`Framebuffer.place?` is the cell of a column and a row, if there is one.
-/

namespace SceneScript

/-- What one cell shows. -/
structure Cell where
  color : Color
  depth : Float
deriving Repr, DecidableEq

/-- A picture under way. -/
structure Framebuffer where
  width : Nat
  height : Nat
  /-- The color of a cell that nothing was painted on. -/
  background : Color
  /-- The cells in display order. -/
  cells : Vector Cell (width * height)
deriving DecidableEq

namespace Framebuffer

/-- The depth of a cell that nothing was painted on: nothing is farther. -/
def far : Float := Binary64.negInfinity

/-- The steps that depths are compared in, by the unit. -/
def depthSteps : Float := 1000.0

/-- A depth cut to a whole number of steps. -/
def quantize (z : Float) : Float := Binary64.truncate (z * depthSteps) / depthSteps

/-- A picture that shows nothing. -/
def new (width height : Nat) (background : Color) : Framebuffer :=
  ⟨width, height, background, .replicate _ ⟨background, far⟩⟩

/-- The size of a picture when none is asked for. -/
def standardSide : Nat := 500

/-- The background of a picture when none is asked for. -/
def standardBackground : Color := .gray 127

/-- A picture of standard size that shows nothing. -/
def standard : Framebuffer := new standardSide standardSide standardBackground

/-! ## Cells by column and row -/

theorem place_lt {width height x y : Nat} (hx : x < width) (hy : y < height) :
    (height - 1 - y) * width + x < width * height := by
  have h : (height - 1 - y + 1) * width ≤ height * width := Nat.mul_le_mul_right _ (by omega)
  rw [Nat.succ_mul] at h
  rw [Nat.mul_comm width height]
  omega

/-- The cell of column `x` and row `y`, rows counted from the bottom. -/
def place? (fb : Framebuffer) (x y : Int) : Option (Fin (fb.width * fb.height)) :=
  if h : 0 ≤ x ∧ 0 ≤ y ∧ x.toNat < fb.width ∧ y.toNat < fb.height then
    some ⟨(fb.height - 1 - y.toNat) * fb.width + x.toNat, place_lt h.2.2.1 h.2.2.2⟩
  else none

/-- What a cell shows. -/
def cell? (fb : Framebuffer) (x y : Int) : Option Cell := (fb.place? x y).map (fb.cells[·])

/-! ## Painting -/

/-- Paint a cell if the paint is at least as near as what it shows, and say whether it was. -/
def plot (fb : Framebuffer) (color : Color) (x y : Int) (depth : Float) : Framebuffer × Bool :=
  match fb.place? x y with
  | none => (fb, false)
  | some i =>
    let z := quantize depth
    if fb.cells[i].depth ≤ z then ({ fb with cells := fb.cells.set i ⟨color, z⟩ }, true)
    else (fb, false)

/-- Paint fragments one after the other. -/
def paint (fb : Framebuffer) (color : Color) (fragments : List (Fragment Float)) : Framebuffer :=
  fragments.foldl (fun fb f => (fb.plot color f.x f.y f.depth).1) fb

@[simp] theorem width_plot (fb : Framebuffer) (color : Color) (x y : Int) (depth : Float) :
    (fb.plot color x y depth).1.width = fb.width := by
  unfold plot
  split
  · rfl
  · dsimp only
    split <;> rfl

@[simp] theorem height_plot (fb : Framebuffer) (color : Color) (x y : Int) (depth : Float) :
    (fb.plot color x y depth).1.height = fb.height := by
  unfold plot
  split
  · rfl
  · dsimp only
    split <;> rfl

@[simp] theorem background_plot (fb : Framebuffer) (color : Color) (x y : Int) (depth : Float) :
    (fb.plot color x y depth).1.background = fb.background := by
  unfold plot
  split
  · rfl
  · dsimp only
    split <;> rfl

/-! ## Clearing -/

/-- Show the background everywhere, as near as what was shown. -/
def clearColor (fb : Framebuffer) : Framebuffer :=
  { fb with cells := fb.cells.map fun c => { c with color := fb.background } }

/-- Move everything that is shown as far away as nothing is. -/
def clearDepth (fb : Framebuffer) : Framebuffer :=
  { fb with cells := fb.cells.map fun c => { c with depth := far } }

/-- Show nothing. -/
def clear (fb : Framebuffer) : Framebuffer := fb.clearColor.clearDepth

end Framebuffer

end SceneScript
