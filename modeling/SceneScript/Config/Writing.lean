import SceneScript.Config
import SceneScript.Json.Number
import SceneScript.Json.Writing

/-!
# Writing configurations

A configuration is written as objects with all their fields, in the order in which a configuration
lists them.
-/

namespace SceneScript

namespace JsonValue

/-- A record as an object. -/
def record (fields : List (String × JsonValue)) : JsonValue :=
  object (fields.map fun (name, v) => (name.toList.flatMap escape, v))

/-- A color as an array of its channels. -/
def ofColor (c : Color) : JsonValue := array (c.toList.map fun n => ofNatural n.toNat)

/-- A vector as an array of its coordinates. -/
def ofVector (v : Vec3 Float) : JsonValue := array (v.toList.map ofDouble)

/-- A profile as an object. -/
def ofReflectance (k : Reflectance) : JsonValue :=
  record [("ambient", ofVector k.ambient), ("diffuse", ofVector k.diffuse),
    ("specular", ofVector k.specular)]

/-- A lamp as an object. -/
def ofLamp (l : Lamp) : JsonValue :=
  record [("location", ofVector l.location), ("color", ofColor l.color)]

/-- A lighting as an object. -/
def ofLighting (l : Lighting) : JsonValue :=
  record [("ambient", ofColor l.ambient), ("light", ofLamp l.light), ("view", ofVector l.view),
    ("reflectance", ofReflectance l.reflectance)]

/-- The steps of round shapes as an object. -/
def ofTessellation (t : Tessellation) : JsonValue :=
  record [("sphere_steps", ofNatural t.sphere), ("torus_steps", ofNatural t.torus),
    ("curve_steps", ofNatural t.curve)]

/-- Where pictures go, as an object. -/
def ofOutput (o : Delivery) : JsonValue :=
  record [("backend", ofText o.backend.text.toList), ("converter", ofText o.converter.toList),
    ("viewer", ofText o.viewer.toList)]

end JsonValue

namespace Config

open JsonValue

/-- A configuration as an object. -/
def value (c : Config) : JsonValue :=
  record [("width", ofNatural c.width), ("height", ofNatural c.height),
    ("background", ofColor c.background), ("foreground", ofColor c.foreground),
    ("lighting", ofLighting c.lighting), ("tessellation", ofTessellation c.tessellation),
    ("output", ofOutput c.output)]

/-- A configuration as text. -/
def write (c : Config) : List Char := c.value.text

end Config

end SceneScript
