import SceneScript.Axis
import SceneScript.Decimal.Layout
import SceneScript.Keyword
import SceneScript.Reflectance

/-!
# Operations

A scene is a list of operations: some change the coordinate system that shapes are placed in, some
draw, some deliver the picture, and one names a reflectance profile. `Operation.listing` is the
one-line form in which operations are shown: the keyword and the operands, parted by single
spaces, then the profile in brackets where there is one.
-/

namespace SceneScript

/-- One step of a scene. -/
inductive Operation where
  /-- Keep the coordinate system and go on in a copy of it. -/
  | push
  /-- Go back to the coordinate system kept last. -/
  | pop
  | move (offset : Vec3 Float)
  | rotate (axis : Axis) (degrees : Float)
  | scale (factors : Vec3 Float)
  /-- A box from its left top front corner, to the right, down and away from the viewer. -/
  | box (corner size : Vec3 Float) (profile : Option Reflectance)
  | sphere (center : Vec3 Float) (radius : Float) (profile : Option Reflectance)
  /-- A tube of radius `minor` around a ring of radius `major`. -/
  | torus (center : Vec3 Float) (minor major : Float) (profile : Option Reflectance)
  | circle (center : Vec3 Float) (radius : Float)
  /-- A cubic between two points, given its rate of change at each. -/
  | hermite (p0 p1 r0 r1 : Vec2 Float)
  /-- A cubic by its four control points. -/
  | bezier (p0 p1 p2 p3 : Vec2 Float)
  | line (p0 p1 : Vec3 Float)
  /-- Empty the picture. -/
  | clear
  /-- Deliver the picture to a file. -/
  | save (path : String)
  /-- Deliver the picture to a viewer. -/
  | display
  /-- Name a profile. -/
  | constants (name : String) (profile : Reflectance)
deriving Repr, DecidableEq

namespace Operation

/-- The operation hands the picture on. -/
def delivers : Operation → Bool
  | save _ | display => true
  | _ => false

/-- The keyword of an operation. -/
def keyword : Operation → Keyword
  | push => .push
  | pop => .pop
  | move .. => .move
  | rotate .. => .rotate
  | scale .. => .scale
  | box .. => .box
  | sphere .. => .sphere
  | torus .. => .torus
  | circle .. => .circle
  | hermite .. => .hermite
  | bezier .. => .bezier
  | line .. => .line
  | clear => .clear
  | save .. => .save
  | display => .display
  | constants .. => .constants

/-- The numbers of an operation in the order of the script, those of a profile apart. -/
def numbers : Operation → List Float
  | move v | scale v => v.toList
  | rotate _ degrees => [degrees]
  | box corner size _ => corner.toList ++ size.toList
  | sphere center radius _ | circle center radius => center.toList ++ [radius]
  | torus center minor major _ => center.toList ++ [minor, major]
  | hermite p q r s | bezier p q r s => [p.x, p.y, q.x, q.y, r.x, r.y, s.x, s.y]
  | line p0 p1 => p0.toList ++ p1.toList
  | push | pop | clear | save _ | display | constants .. => []

/-- The profile that an operation brings with it. -/
def profile? : Operation → Option Reflectance
  | box _ _ k | sphere _ _ k | torus _ _ _ k => k
  | constants _ k => some k
  | _ => none

/-- The word or text that stands before the numbers. -/
def label? : Operation → Option (List Char)
  | rotate axis _ => some [axis.letter]
  | save path => some path.toList
  | constants name _ => some name.toList
  | _ => none

/-- Texts one after the other with a space in front of each. -/
def spaced (texts : List (List Char)) : List Char := texts.flatMap (' ' :: ·)

/-- A profile as it is listed. -/
def profileListing (k : Reflectance) : List Char :=
  let three (v : Vec3 Float) := spaced (v.toList.map Decimal.Layout.plain.text)
  " [ka".toList ++ three k.ambient ++ " kd".toList ++ three k.diffuse ++ " ks".toList
    ++ three k.specular ++ [']']

/-- An operation on one line. -/
def listing (op : Operation) : List Char :=
  op.keyword.text.toList ++ spaced (op.label?.toList ++ op.numbers.map Decimal.Layout.plain.text)
    ++ (op.profile?.map profileListing).getD []

end Operation

end SceneScript
