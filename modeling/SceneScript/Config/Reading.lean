import SceneScript.Config
import SceneScript.Json.Number
import SceneScript.Json.Reading

/-!
# Reading configurations

A configuration is a JSON record, and so are its parts. A record is an object, whose members may
stand in any order, or an array of its fields in their order. Most fields have a standard value and
may be left out, the last ones of an array too; those of a lamp and of a profile may not. Members
that are no fields mean nothing, but no field may be given twice.
-/

namespace SceneScript

namespace JsonValue

/-! ## Records -/

/-- The value of a field among members whose keys are known; nothing if it is given twice. -/
def fieldOf? (members : List (List Char × JsonValue)) (name : String) : Option (Option JsonValue) :=
  match members.filter (·.1 == name.toList) with
  | [] => some none
  | [(_, v)] => some (some v)
  | _ => none

/-- The members of an object with the text of each key. -/
def keyed? (members : List (List Char × JsonValue)) : Option (List (List Char × JsonValue)) :=
  members.mapM fun (key, v) => (unescape? key).map (·, v)

/-- The fields of a record in their order, each with its value if it is given. -/
def fields? (names : List String) : JsonValue → Option (List (Option JsonValue))
  | object members => do
    let members ← keyed? members
    names.mapM (fieldOf? members)
  | array items =>
    if items.length ≤ names.length then
      some (items.map some ++ List.replicate (names.length - items.length) none)
    else none
  | _ => none

/-- A field that may be left out. -/
def orElse {β : Type} (standard : β) (read : JsonValue → Option β) : Option JsonValue → Option β
  | none => some standard
  | some v => read v

/-- A field that may not be left out. -/
def required {β : Type} (read : JsonValue → Option β) : Option JsonValue → Option β
  | none => none
  | some v => read v

/-- As many items as there are. -/
def itemsOf? {β : Type} (read : JsonValue → Option β) : JsonValue → Option (List β)
  | array items => items.mapM read
  | _ => none

/-! ## Parts of a configuration -/

/-- A color as an array of its channels. -/
def color? (v : JsonValue) : Option Color := do
  match ← itemsOf? (natural? 256) v with
  | [r, g, b] => return ⟨UInt8.ofNat r, UInt8.ofNat g, UInt8.ofNat b⟩
  | _ => none

/-- A vector as an array of its coordinates. -/
def vector? (v : JsonValue) : Option (Vec3 Float) := do
  match ← itemsOf? double? v with
  | [x, y, z] => return ⟨x, y, z⟩
  | _ => none

/-- A number of 64 bits. -/
def word? : JsonValue → Option Nat := natural? wordBound

/-- A text. -/
def name? (v : JsonValue) : Option String := v.text?.map String.ofList

/-- A profile. -/
def reflectance? (v : JsonValue) : Option Reflectance := do
  match ← v.fields? ["ambient", "diffuse", "specular"] with
  | [a, d, s] => return ⟨← required vector? a, ← required vector? d, ← required vector? s⟩
  | _ => none

/-- A lamp. -/
def lamp? (v : JsonValue) : Option Lamp := do
  match ← v.fields? ["location", "color"] with
  | [location, color] => return ⟨← required vector? location, ← required color? color⟩
  | _ => none

/-- A lighting. -/
def lighting? (v : JsonValue) : Option Lighting := do
  let std := Lighting.standard
  match ← v.fields? ["ambient", "light", "view", "reflectance"] with
  | [ambient, light, view, reflectance] =>
    return ⟨← orElse std.ambient color? ambient, ← orElse std.light lamp? light,
      ← orElse std.view vector? view, ← orElse std.reflectance reflectance? reflectance⟩
  | _ => none

/-- The steps of round shapes. -/
def tessellation? (v : JsonValue) : Option Tessellation := do
  let std := Tessellation.standard
  match ← v.fields? ["sphere_steps", "torus_steps", "curve_steps"] with
  | [sphere, torus, curve] =>
    return ⟨← orElse std.sphere word? sphere, ← orElse std.torus word? torus,
      ← orElse std.curve word? curve⟩
  | _ => none

/-- The backend of a name. -/
def backendOfName? (name : List Char) : Option Backend :=
  [Backend.external, Backend.native].find? (·.text.toList == name)

/-- A backend: its name, or an object with its name alone, for nothing. -/
def backend? : JsonValue → Option Backend
  | string s => (unescape? s).bind backendOfName?
  | object [(key, null)] => (unescape? key).bind backendOfName?
  | _ => none

/-- Where pictures go. -/
def output? (v : JsonValue) : Option Delivery := do
  let std := Delivery.standard
  match ← v.fields? ["backend", "converter", "viewer"] with
  | [backend, converter, viewer] =>
    return ⟨← orElse std.backend backend? backend, ← orElse std.converter name? converter,
      ← orElse std.viewer name? viewer⟩
  | _ => none

/-- A configuration, whether it can be drawn with or not. -/
def config? (v : JsonValue) : Option Config := do
  let std := Config.standard
  match ← v.fields? ["width", "height", "background", "foreground", "lighting", "tessellation",
      "output"] with
  | [width, height, background, foreground, lighting, tessellation, output] =>
    return ⟨← orElse std.width word? width, ← orElse std.height word? height,
      ← orElse std.background color? background, ← orElse std.foreground color? foreground,
      ← orElse std.lighting lighting? lighting,
      ← orElse std.tessellation tessellation? tessellation, ← orElse std.output output? output⟩
  | _ => none

end JsonValue

/-- Why a text gives no configuration to draw with. -/
inductive ConfigError where
  /-- The text is no JSON, or not of the form of a configuration. -/
  | malformed
  | invalid (problem : Config.Problem)
deriving Repr, DecidableEq

namespace Config

/-- The configuration that a value spells, if it can be drawn with. -/
def ofValue (v : JsonValue) : Except ConfigError Config :=
  match v.config? with
  | none => .error .malformed
  | some c =>
    match c.problem? with
    | some p => .error (.invalid p)
    | none => .ok c

/-- The configuration that a text spells, if it can be drawn with. -/
def read (s : List Char) : Except ConfigError Config :=
  match JsonValue.read? s with
  | none => .error .malformed
  | some v => ofValue v

end Config

end SceneScript
