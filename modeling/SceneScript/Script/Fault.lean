import SceneScript.Decimal.Layout
import SceneScript.Keyword
import SceneScript.Text.Quoted

/-!
# What can be wrong with a script

A command that cannot be read costs itself and nothing else: reading goes on behind it. Only a
stream that fails to deliver ends the reading (`ScriptError.isRecoverable`).
-/

namespace SceneScript

/-- What is wrong with an argument line. -/
inductive ArgumentProblem where
  | wrongCount (expected found : Nat)
  | notANumber (field : List Char)
  | noAxis
  | notAnAxis (field : List Char)
  | noName
  | noPath
deriving Repr, DecidableEq

/-- Why a command could not be read, with the number of the last line read for it. -/
inductive ScriptError where
  /-- The stream failed. -/
  | io (reason : String)
  | unknownCommand (line : Nat) (text : List Char)
  | missingArguments (line : Nat) (keyword : Keyword)
  | invalidArguments (line : Nat) (keyword : Keyword) (problem : ArgumentProblem)
  | unknownConstants (line : Nat) (name : List Char)
  | invalidEncoding (line : Nat)
deriving Repr, DecidableEq

/-- The problem in words. -/
def ArgumentProblem.message : ArgumentProblem → List Char
  | wrongCount expected found =>
    "expected ".toList ++ Decimal.digits expected ++ " numbers, found ".toList
      ++ Decimal.digits found ++ " fields".toList
  | notANumber field => "invalid number ".toList ++ Text.quote field
  | noAxis => "expected axis and degrees".toList
  | notAnAxis field => "invalid axis ".toList ++ Text.quote field
  | noName => "expected a name".toList
  | noPath => "empty filename".toList

namespace ScriptError

/-- The line that the error is reported at; a failing stream has none. -/
def line? : ScriptError → Option Nat
  | io _ => none
  | unknownCommand n _ | missingArguments n _ | invalidArguments n _ _ | unknownConstants n _
  | invalidEncoding n => some n

/-- Reading can go on behind the error. -/
def isRecoverable : ScriptError → Bool
  | io _ => false
  | _ => true

/-- The error in words. -/
def message (e : ScriptError) : String :=
  String.ofList <|
    match e with
    | io reason => "IO error: ".toList ++ reason.toList
    | unknownCommand n text =>
      "Unknown command at line ".toList ++ Decimal.digits n ++ ": ".toList ++ Text.quote text
    | missingArguments n k =>
      "Missing argument line for '".toList ++ k.text.toList ++ "' at line ".toList
        ++ Decimal.digits n
    | invalidArguments n k p =>
      "Invalid arguments for '".toList ++ k.text.toList ++ "' at line ".toList ++ Decimal.digits n
        ++ ": ".toList ++ p.message
    | unknownConstants n name =>
      "Undefined constants '".toList ++ name ++ "' at line ".toList ++ Decimal.digits n
    | invalidEncoding n => "Line ".toList ++ Decimal.digits n ++ " is not valid UTF-8".toList

end ScriptError

end SceneScript
