import SceneScript.Decimal.Reading
import SceneScript.Operation
import SceneScript.Script.Fault
import SceneScript.Script.ProfileTable
import SceneScript.Text.Blank

/-!
# The grammar of commands

A keyword either stands alone or is followed by one line of arguments (`Keyword.command`). The
argument line is parted into fields by blanks, and each command takes a fixed number of them. A
shape may have one more in front, the name of a profile: a field that reads as a number is never a
name. A count is checked before any field is read, and of several bad fields the first is
reported.
-/

namespace SceneScript

/-- What is wrong with an argument line, in the light of the names defined so far. -/
inductive ArgumentFault where
  | malformed (problem : ArgumentProblem)
  | undefined (name : List Char)
deriving Repr, DecidableEq

/-- One word of an argument line. -/
abbrev Field := List Char

namespace Arguments

/-! ## Fields -/

/-- The field's value as a number. -/
def number (field : Field) : Except ArgumentProblem Float :=
  match Decimal.number? field with
  | some x => .ok x
  | none => .error (.notANumber field)

/-- A field that can name a profile. -/
def isName (field : Field) : Bool := (Decimal.number? field).isNone

/-- Two fields as a point of the plane. -/
def pair (x y : Field) : Except ArgumentProblem (Vec2 Float) := do
  return ⟨← number x, ← number y⟩

/-- Three fields as a point of space. -/
def triple (x y z : Field) : Except ArgumentProblem (Vec3 Float) := do
  return ⟨← number x, ← number y, ← number z⟩

/-- The fields are not as many as the numbers that are expected. -/
def miscounted {β : Type} (expected : Nat) (fields : List Field) : Except ArgumentProblem β :=
  .error (.wrongCount expected fields.length)

/-- The axis that a field of one letter names. -/
def axis? : Field → Option Axis
  | [c] => Axis.ofChar? c
  | _ => none

/-! ## Operands -/

/-- The operation on a vector. -/
def vector (make : Vec3 Float → Operation) : List Field → Except ArgumentProblem Operation
  | [x, y, z] => make <$> triple x y z
  | fields => miscounted 3 fields

/-- A turn: an axis, then an angle. -/
def rotate : List Field → Except ArgumentProblem Operation
  | [] => .error .noAxis
  | field :: rest =>
    match axis? field with
    | none => .error (.notAnAxis field)
    | some axis =>
      match rest with
      | [degrees] => .rotate axis <$> number degrees
      | fields => miscounted 1 fields

/-- A box: corner, then size. -/
def box (k : Option Reflectance) : List Field → Except ArgumentProblem Operation
  | [x, y, z, w, h, d] => do return .box (← triple x y z) (← triple w h d) k
  | fields => miscounted 6 fields

/-- A sphere: center, then radius. -/
def sphere (k : Option Reflectance) : List Field → Except ArgumentProblem Operation
  | [x, y, z, r] => do return .sphere (← triple x y z) (← number r) k
  | fields => miscounted 4 fields

/-- A torus: center, radius of the tube, radius of the ring. -/
def torus (k : Option Reflectance) : List Field → Except ArgumentProblem Operation
  | [x, y, z, r, s] => do return .torus (← triple x y z) (← number r) (← number s) k
  | fields => miscounted 5 fields

/-- A circle: center, then radius. -/
def circle : List Field → Except ArgumentProblem Operation
  | [x, y, z, r] => do return .circle (← triple x y z) (← number r)
  | fields => miscounted 4 fields

/-- A curve by four points of the plane. -/
def curve (make : Vec2 Float → Vec2 Float → Vec2 Float → Vec2 Float → Operation) :
    List Field → Except ArgumentProblem Operation
  | [a, b, c, d, e, f, g, h] => do return make (← pair a b) (← pair c d) (← pair e f) (← pair g h)
  | fields => miscounted 8 fields

/-- A line: its two ends. -/
def line : List Field → Except ArgumentProblem Operation
  | [a, b, c, d, e, f] => do return .line (← triple a b c) (← triple d e f)
  | fields => miscounted 6 fields

/-- The nine coefficients of a profile. -/
def profile : List Field → Except ArgumentProblem Reflectance
  | [a, b, c, d, e, f, g, h, i] => do return ⟨← triple a b c, ← triple d e f, ← triple g h i⟩
  | fields => miscounted 9 fields

/-- The definition of a profile: its name, then its coefficients. -/
def constants : List Field → Except ArgumentProblem Operation
  | name :: rest =>
    if isName name then .constants (String.ofList name) <$> profile rest else .error .noName
  | [] => .error .noName

/-- A file name: the whole line but for the blanks at its ends. -/
def save (text : List Char) : Except ArgumentProblem Operation :=
  match Text.trim text with
  | [] => .error .noPath
  | path => .ok (.save (String.ofList path))

/-! ## Argument lines -/

/-- The fields of a shape that takes `count` numbers, with the profile named in front of them. -/
def named (profiles : ProfileTable) (count : Nat) :
    List Field → Except ArgumentFault (Option Reflectance × List Field)
  | [] => .ok (none, [])
  | name :: rest =>
    if rest.length = count && isName name then
      match profiles.lookup (String.ofList name) with
      | some k => .ok (some k, rest)
      | none => .error (.undefined name)
    else .ok (none, name :: rest)

/-- An argument line on which names mean nothing. -/
def plain (read : List Field → Except ArgumentProblem Operation) (_ : ProfileTable)
    (text : List Char) : Except ArgumentFault Operation :=
  (read (Text.words text)).mapError .malformed

/-- The argument line of a shape that takes `count` numbers. -/
def shape (count : Nat) (read : Option Reflectance → List Field → Except ArgumentProblem Operation)
    (profiles : ProfileTable) (text : List Char) : Except ArgumentFault Operation := do
  let (k, fields) ← named profiles count (Text.words text)
  (read k fields).mapError .malformed

end Arguments

/-! ## Commands -/

/-- What a keyword asks for. -/
inductive Command where
  /-- The end of the script. -/
  | quit
  /-- An operation without arguments. -/
  | alone (op : Operation)
  /-- An operation read from the next line. -/
  | withArguments (read : ProfileTable → List Char → Except ArgumentFault Operation)

/-- What a keyword asks for. -/
def Keyword.command : Keyword → Command
  | push => .alone .push
  | pop => .alone .pop
  | clear => .alone .clear
  | display => .alone .display
  | quit => .quit
  | move => .withArguments (Arguments.plain (Arguments.vector .move))
  | scale => .withArguments (Arguments.plain (Arguments.vector .scale))
  | rotate => .withArguments (Arguments.plain Arguments.rotate)
  | box => .withArguments (Arguments.shape 6 Arguments.box)
  | sphere => .withArguments (Arguments.shape 4 Arguments.sphere)
  | torus => .withArguments (Arguments.shape 5 Arguments.torus)
  | circle => .withArguments (Arguments.plain Arguments.circle)
  | hermite => .withArguments (Arguments.plain (Arguments.curve .hermite))
  | bezier => .withArguments (Arguments.plain (Arguments.curve .bezier))
  | line => .withArguments (Arguments.plain Arguments.line)
  | save => .withArguments fun _ text => (Arguments.save text).mapError .malformed
  | constants => .withArguments (Arguments.plain Arguments.constants)

/-- The names defined once an operation has been read. -/
def ProfileTable.after (profiles : ProfileTable) : Operation → ProfileTable
  | .constants name k => (profiles.define name k).2
  | _ => profiles

end SceneScript
