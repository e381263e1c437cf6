import SceneScript.Output.FileStore
import SceneScript.Output.Sink
import SceneScript.Pixmap

/-!
# Handing pictures to programs

Pictures can be handed to other programs, as a plain pixmap on their standard input: to a converter,
which is told the file to write, or to a viewer. Which programs there are, and what they do to the
files, is given from outside.

A program that fails is blamed before anything else. One that succeeds without reading its input
breaks the pipe, unless the picture fits into the pipe as a whole.
-/

namespace SceneScript

/-- What became of a program that was started. -/
structure ProgramRun where
  /-- The code it ended with. -/
  code : Nat
  /-- It read its input to the end. -/
  readInput : Bool
  /-- The files when it had ended. -/
  files : FileStore
deriving Repr, DecidableEq

/-- What a program does with arguments, input and files. -/
abbrev ExternalProgram := List String → List UInt8 → FileStore → ProgramRun

/-- The programs that can be started, by name. -/
abbrev Programs := String → Option ExternalProgram

namespace Sink

/-- The number of bytes that a pipe holds. -/
def pipeCapacity : Nat := 65536

/-- A text that no program can be given: for a program a text ends at its first zero character. -/
def hasZero (text : String) : Bool := text.toList.contains '\x00'

/-- A name as it stands in reports: one that cannot be a name is not repeated. -/
def reportedName (name : String) : String := if hasZero name then "<string-with-nul>" else name

/-- Start a program and hand it a picture. -/
def handTo (programs : Programs) (name : String) (arguments : List String) (fb : Framebuffer)
    (files : FileStore) : Except OutputError Unit × FileStore :=
  if (name :: arguments).any hasZero then
    (.error (.spawn (reportedName name) "nul byte found in provided data"), files)
  else match programs name with
    | none => (.error (.spawn name FileError.notFound.message), files)
    | some program =>
      let input := Pixmap.plain fb.picture
      let run := program arguments input files
      let result : Except OutputError Unit :=
        if run.code ≠ 0 then .error (.exitStatus name run.code)
        else if !run.readInput && pipeCapacity < input.length then
          .error (.io "Broken pipe (os error 32)")
        else .ok ()
      (result, run.files)

/-- The sink that hands pictures to a converter and to a viewer. -/
def external (programs : Programs) (converter viewer : String) : Sink FileStore where
  deliver fb destination files :=
    match destination with
    | .file path => handTo programs converter ["-", path] fb files
    | .display => handTo programs viewer [] fb files

end Sink

end SceneScript
