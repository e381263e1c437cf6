import SceneScript.Vector

/-!
# Reflectance profiles

How strongly a surface answers each kind of light, channel by channel: nine coefficients, three of
each kind, always listed in the order of `Reflectance.toList`.
-/

namespace SceneScript

/-- The share of each channel of the light that a surface gives back. -/
structure Reflectance where
  /-- Of the light that comes from everywhere. -/
  ambient : Vec3 Float
  /-- Of the light that a matt surface scatters. -/
  diffuse : Vec3 Float
  /-- Of the light that a glossy surface mirrors. -/
  specular : Vec3 Float
deriving Repr, BEq, DecidableEq

namespace Reflectance

/-- The profile of a shape that names none. -/
def standard : Reflectance :=
  ⟨⟨0.1, 0.1, 0.1⟩, ⟨0.5, 0.5, 0.5⟩, ⟨0.5, 0.5, 0.5⟩⟩

instance : Inhabited Reflectance := ⟨standard⟩

/-- The coefficients, kind by kind, red before green before blue. -/
def toList (k : Reflectance) : List Float :=
  k.ambient.toList ++ k.diffuse.toList ++ k.specular.toList

end Reflectance

end SceneScript
