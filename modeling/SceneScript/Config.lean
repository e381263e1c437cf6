import SceneScript.Framebuffer
import SceneScript.Lighting
import SceneScript.Text.Blank
import SceneScript.Decimal.Layout

/-!
# Configurations

What a session needs to know beside the scene: the size and the colors of the picture, the
lighting, how finely round shapes are cut, and where pictures go.

Not every configuration can be drawn with. `Config.problem?` gives the first thing that is wrong, in
a fixed order, and the configurations without one are those that a session accepts.
-/

namespace SceneScript

/-- How many steps round shapes are cut into. -/
structure Tessellation where
  sphere : Nat
  torus : Nat
  curve : Nat
deriving Repr, BEq, DecidableEq

/-- The number of steps when none is asked for. -/
def Tessellation.standardSteps : Nat := 100

/-- The steps when none are asked for. -/
def Tessellation.standard : Tessellation := ⟨standardSteps, standardSteps, standardSteps⟩

/-- Who makes files of pictures. -/
inductive Backend where
  /-- Other programs, which also show pictures. -/
  | external
  /-- The encoder, which cannot show any. -/
  | native
deriving Repr, BEq, DecidableEq

/-- How a backend is called. -/
def Backend.text : Backend → String
  | external => "external"
  | native => "native"

/-- Where pictures go. -/
structure Delivery where
  backend : Backend
  /-- The program that converts pictures. -/
  converter : String
  /-- The program that shows pictures. -/
  viewer : String
deriving Repr, BEq, DecidableEq

/-- Where pictures go when nothing is asked for. -/
def Delivery.standard : Delivery := ⟨.external, "convert", "display"⟩

/-- The configuration of a session. -/
structure Config where
  width : Nat
  height : Nat
  background : Color
  /-- The color of lines and curves. -/
  foreground : Color
  lighting : Lighting
  tessellation : Tessellation
  output : Delivery
deriving Repr, BEq, DecidableEq

namespace Config

/-- The configuration when nothing is asked for. -/
def standard : Config where
  width := Framebuffer.standardSide
  height := Framebuffer.standardSide
  background := Framebuffer.standardBackground
  foreground := ⟨0, 255, 255⟩
  lighting := .standard
  tessellation := .standard
  output := .standard

instance : Inhabited Config := ⟨standard⟩

/-- The most cells a picture may have, `2^28`. -/
def maxCells : Nat := 268435456

/-- The fewest steps a closed sphere, a closed torus and a curve can be cut into. -/
def leastSteps : Tessellation := ⟨2, 3, 1⟩

/-- What can be wrong with a configuration. -/
inductive Problem where
  | noCells (width height : Nat)
  | tooManyCells (width height : Nat)
  | tooCoarse (steps : Tessellation)
  | noPrograms
deriving Repr, BEq, DecidableEq

/-- The problem in words. -/
def Problem.message (p : Problem) : String :=
  let size (width height : Nat) : List Char :=
    Decimal.digits width ++ 'x' :: Decimal.digits height
  String.ofList <| "invalid configuration: ".toList ++
    match p with
    | noCells w h => "resolution must be non-zero, got ".toList ++ size w h
    | tooManyCells w h =>
      "resolution ".toList ++ size w h ++ " exceeds ".toList ++ Decimal.digits maxCells
        ++ " pixels".toList
    | tooCoarse t =>
      "tessellation too coarse: sphere ".toList ++ Decimal.digits t.sphere ++ ", torus ".toList
        ++ Decimal.digits t.torus ++ ", curve ".toList ++ Decimal.digits t.curve
    | noPrograms => "external backend needs converter and viewer programs".toList

/-- A text that holds nothing but blanks. -/
def isBlankText (s : String) : Bool := (Text.trim s.toList).isEmpty

/-- The number of cells of a picture, if 64 bits can hold it. -/
def cellCount? (width height : Nat) : Option Nat :=
  if width * height < UInt64.size then some (width * height) else none

/-- The first thing that is wrong. -/
def problem? (c : Config) : Option Problem :=
  let t := c.tessellation
  if c.width = 0 || c.height = 0 then some (.noCells c.width c.height)
  else if !(cellCount? c.width c.height).any (· ≤ maxCells) then
    some (.tooManyCells c.width c.height)
  else if t.sphere < leastSteps.sphere || t.torus < leastSteps.torus || t.curve < leastSteps.curve
  then some (.tooCoarse t)
  else if c.output.backend = .external &&
      (isBlankText c.output.converter || isBlankText c.output.viewer) then some .noPrograms
  else none

end Config

end SceneScript
