import SceneScript.Decimal.Layout
import SceneScript.Picture

/-!
# Sinks

A scene delivers pictures to a sink, to a file or to a viewer. What a sink did is its state, also
when it then fails: a failed delivery may well have left something behind.
-/

namespace SceneScript

/-- Where a picture goes. -/
inductive Destination where
  | file (path : String)
  | display
deriving Repr, DecidableEq

/-- A destination in words. -/
def Destination.text : Destination → String
  | file path => path
  | display => "display"

/-- Why a picture was not delivered. -/
inductive OutputError where
  | io (reason : String)
  /-- A program could not be started. -/
  | spawn (program reason : String)
  /-- A program ended with a code other than zero. -/
  | exitStatus (program : String) (code : Nat)
  /-- The picture has no form in the format that was asked for. -/
  | encode
  | unsupported (what : String)
deriving Repr, DecidableEq

/-- The error in words. -/
def OutputError.message (e : OutputError) : String :=
  String.ofList <|
    match e with
    | io reason => "IO error: ".toList ++ reason.toList
    | spawn program reason =>
      "failed to start '".toList ++ program.toList ++ "': ".toList ++ reason.toList
    | exitStatus program code =>
      '\'' :: program.toList ++ "' exited with exit status: ".toList ++ Decimal.digits code
    | encode => "image encoding failed".toList
    | unsupported what => "unsupported output: ".toList ++ what.toList

/-- A way to deliver pictures, with the state of what has been delivered. -/
structure Sink (σ : Type) where
  deliver : Framebuffer → Destination → σ → Except OutputError Unit × σ

end SceneScript
