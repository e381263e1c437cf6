import SceneScript.Script.Command
import SceneScript.Script.Stream

/-!
# Reading scripts

A reader turns the lines of a script into items, one per command: an operation, or the error that
takes its place. Between commands, blank lines and lines that start with `#` or `//` are passed
over; the line behind a keyword that takes arguments is its argument line whatever it holds.

`Reader.next` reads one item. It takes lines off the front and nowhere else, so a reader is the
lines still to come, and `Reader.steps` is all that a reader yields.
-/

namespace SceneScript

/-- What a reader yields for one command. -/
abbrev Item := Except ScriptError Operation

/-- A script part way through. -/
structure Reader where
  /-- The lines still to come, without their newlines. -/
  lines : List (List UInt8)
  /-- The reason of the failure behind the last line, if the stream breaks there. -/
  failure : Option String
  /-- How many lines have been read. -/
  lineNumber : Nat
  /-- The names defined so far. -/
  profiles : ProfileTable
  /-- Nothing more is read. -/
  finished : Bool
deriving Repr, DecidableEq

namespace Reader

/-- A reader at the start of a stream. -/
def ofStream (s : Stream) : Reader := ⟨s.lines, s.failure, 0, .empty, false⟩

/-- A line that stands between commands and means nothing: blank, or a comment. -/
def isPassedOver : List Char → Bool
  | [] => true
  | '#' :: _ => true
  | '/' :: '/' :: _ => true
  | _ => false

/-- The error an argument line leads to when it is line `n`. -/
def argumentError (keyword : Keyword) (n : Nat) : ArgumentFault → ScriptError
  | .malformed problem => .invalidArguments n keyword problem
  | .undefined name => .unknownConstants n name

/-- The reader when no line is left: it stops for good if the stream broke. -/
def atEnd (failure : Option String) (n : Nat) (profiles : ProfileTable)
    (otherwise : Option Item) : Option Item × Reader :=
  match failure with
  | some reason => (some (.error (.io reason)), ⟨[], failure, n, profiles, true⟩)
  | none => (otherwise, ⟨[], failure, n, profiles, false⟩)

/-- The item of a command whose argument line is next, `n` lines having been read. -/
def readArguments (keyword : Keyword)
    (read : ProfileTable → List Char → Except ArgumentFault Operation)
    (failure : Option String) (n : Nat) (profiles : ProfileTable) :
    List (List UInt8) → Option Item × Reader
  | [] => atEnd failure n profiles (some (.error (.missingArguments n keyword)))
  | line :: rest =>
    match Utf8.decode line with
    | .error _ =>
      (some (.error (.invalidEncoding (n + 1))), ⟨rest, failure, n + 1, profiles, false⟩)
    | .ok text =>
      match read profiles text with
      | .error fault =>
        (some (.error (argumentError keyword (n + 1) fault)),
          ⟨rest, failure, n + 1, profiles, false⟩)
      | .ok op => (some (.ok op), ⟨rest, failure, n + 1, profiles.after op, false⟩)

/-- The next item among the lines, `n` lines having been read. -/
def nextItem (failure : Option String) (profiles : ProfileTable) (n : Nat) :
    List (List UInt8) → Option Item × Reader
  | [] => atEnd failure n profiles none
  | line :: rest =>
    match Utf8.decode line with
    | .error _ =>
      (some (.error (.invalidEncoding (n + 1))), ⟨rest, failure, n + 1, profiles, false⟩)
    | .ok text =>
      let word := Text.trim text
      if isPassedOver word then nextItem failure profiles (n + 1) rest
      else match Keyword.ofText? (String.ofList word) with
        | none =>
          (some (.error (.unknownCommand (n + 1) word)), ⟨rest, failure, n + 1, profiles, false⟩)
        | some keyword =>
          match keyword.command with
          | .quit => (none, ⟨rest, failure, n + 1, profiles, true⟩)
          | .alone op => (some (.ok op), ⟨rest, failure, n + 1, profiles, false⟩)
          | .withArguments read => readArguments keyword read failure (n + 1) profiles rest

/-- The next item, and the reader behind it. -/
def next (r : Reader) : Option Item × Reader :=
  if r.finished then (none, r) else nextItem r.failure r.profiles r.lineNumber r.lines

/-- At most `fuel` items with the reader behind each, and the reader at the end. -/
def stepsWithin : Nat → Reader → List (Item × Reader) × Reader
  | 0, r => ([], r)
  | fuel + 1, r =>
    match r.next with
    | (none, last) => ([], last)
    | (some item, r') =>
      let (rest, last) := stepsWithin fuel r'
      ((item, r') :: rest, last)

/-- All items with the reader behind each, and the reader at the end. Every item takes a line, but
for the failure of a stream, which is the last one. -/
def steps (r : Reader) : List (Item × Reader) × Reader := r.stepsWithin (r.lines.length + 1)

/-- All items. -/
def items (r : Reader) : List Item := r.steps.1.map Prod.fst

end Reader

/-- A script read to its end. -/
structure ScriptContents where
  operations : List Operation
  errors : List ScriptError
  profiles : ProfileTable
deriving Repr, DecidableEq

namespace ScriptContents

/-- Every command could be read. -/
def isClean (p : ScriptContents) : Bool := p.errors.isEmpty

/-- The operations and the errors of a stream, each in order, and the names defined at its end. -/
def ofStream (s : Stream) : ScriptContents :=
  let (steps, last) := (Reader.ofStream s).steps
  ⟨steps.filterMap (·.1.toOption), steps.filterMap fun (item, _) =>
    match item with
    | .error e => some e
    | .ok _ => none, last.profiles⟩

end ScriptContents

end SceneScript
