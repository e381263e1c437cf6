import SceneScript.Color
import SceneScript.Reflectance

/-!
# Lighting

The light on a surface is the sum of three terms: light from everywhere, light that a matt surface
scatters, which grows with how much the surface faces the lamp, and light that a glossy one mirrors
to the viewer. Each channel of each term is cut to a whole number before the sum is brought into
the range of a channel, so a lamp behind the surface darkens it.

The channels do not mix: each term is formed coordinate by coordinate from a color and a profile,
times one number that comes from the directions alone (`facing`, `mirrored`).
-/

namespace SceneScript

/-- A lamp so far away that only its direction counts. -/
structure Lamp where
  /-- A vector toward the lamp. -/
  location : Vec3 Float
  color : Color
deriving Repr, BEq, DecidableEq

/-- What the look of a surface depends on beside the surface. -/
structure Lighting where
  /-- The light from everywhere. -/
  ambient : Color
  light : Lamp
  /-- A vector toward the viewer. -/
  view : Vec3 Float
  /-- The profile of a surface that brings none. -/
  reflectance : Reflectance
deriving Repr, BEq, DecidableEq

namespace Lighting

/-- The lighting of a scene that sets none. -/
def standard : Lighting where
  ambient := .gray 50
  light := ⟨⟨0.5, 0.75, 1.0⟩, ⟨0, 255, 255⟩⟩
  view := ⟨0.0, 0.0, 1.0⟩
  reflectance := .standard

instance : Inhabited Lighting := ⟨standard⟩

/-- How sharply a glossy surface mirrors: the power that `mirrored` is raised to. -/
def glossExponent : Nat := 4

/-! ## Numbers from the directions -/

/-- How much a surface with the unit normal `n` faces a lamp in the direction `location`. -/
def facing (n location : Vec3 Float) : Float := n.dot location.normalize

/-- How much of a lamp's light a surface with the unit normal `n` mirrors toward `view`. -/
def mirrored (n location view : Vec3 Float) : Float :=
  let direction := location.normalize
  let reflected := n.scale (2.0 * n.dot direction) - direction
  Scalar.power (Scalar.larger (reflected.dot view) 0.0) glossExponent

/-! ## Terms of a channel -/

/-- The channels of a color as numbers. -/
def channels (c : Color) : Vec3 Float :=
  ⟨Float.ofNat c.red.toNat, Float.ofNat c.green.toNat, Float.ofNat c.blue.toNat⟩

/-- The channels of a term, each cut to a whole number. -/
def whole (v : Vec3 Float) : Vec3 Int :=
  ⟨Binary64.toInt v.x, Binary64.toInt v.y, Binary64.toInt v.z⟩

/-- The light from everywhere that the surface gives back. -/
def ambientTerm (ambient : Color) (k : Reflectance) : Vec3 Int :=
  whole ((channels ambient).times k.ambient)

/-- The scattered light. -/
def diffuseTerm (lamp : Lamp) (k : Reflectance) (n : Vec3 Float) : Vec3 Int :=
  whole (((channels lamp.color).times k.diffuse).scale (facing n lamp.location))

/-- The mirrored light. -/
def specularTerm (lamp : Lamp) (k : Reflectance) (n view : Vec3 Float) : Vec3 Int :=
  whole (((channels lamp.color).times k.specular).scale (mirrored n lamp.location view))

/-- The sum of two 64-bit numbers, or the end of their range that it passes. -/
def boundedSum (a b : Int) : Int := max Binary64.minInt (min Binary64.maxInt (a + b))

/-- The color of a surface whose normal is `normal`, of any length but zero. -/
def shade (l : Lighting) (normal : Vec3 Float) (k : Reflectance) : Color :=
  let n := normal.normalize
  let a := ambientTerm l.ambient k
  let d := diffuseTerm l.light k n
  let s := specularTerm l.light k n l.view
  .clamped (boundedSum (boundedSum a.x d.x) s.x) (boundedSum (boundedSum a.y d.y) s.y)
    (boundedSum (boundedSum a.z d.z) s.z)

end Lighting

end SceneScript
