import SceneScript.Bytecode.Compile
import SceneScript.Bytecode.Decode
import SceneScript.Output.FileStore

/-!
# Programs in files

A program is compiled to a file that is opened before anything is compiled. So a compilation that
fails leaves an empty file, which is a program without operations.
-/

namespace SceneScript

namespace Program

/-- Open a file, then compile to it. -/
def compileAt (ops : List Operation) (path : List Char) (files : FileStore) :
    Except BytecodeError Program × FileStore :=
  match files.write path (.bytes []) with
  | .error e => (.error (.io e.message), files)
  | .ok opened =>
    match compile ops with
    | .error e => (.error e, opened)
    | .ok p =>
      match opened.write path (.bytes p.bytes) with
      | .error e => (.error (.io e.message), opened)
      | .ok written => (.ok p, written)

/-- The operations of the program in a file. -/
def decodeAt (path : List Char) (files : FileStore) : Except BytecodeError (List Operation) :=
  match files.read path with
  | .error e => .error (.io e.message)
  | .ok content => decode content.toldBytes

end Program

end SceneScript
