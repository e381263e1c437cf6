import SceneScript.Bytecode.File
import SceneScript.CommandLine.Arguments
import SceneScript.Config.Reading
import SceneScript.Output.Configured
import SceneScript.Session.File

/-!
# Commands

What a command line does to the files around it, what it prints, and how it ends. A command stops
at the first thing it cannot do without, and says what that was; a scene of which parts cannot be
drawn or delivered is drawn all the same.
-/

namespace SceneScript

namespace CommandLine

/-- Why a command stopped. -/
inductive Failure where
  | noConfiguration (path : String)
  | noScript (path : String)
  /-- The script was open, but did not arrive as a whole. -/
  | brokenScript
  | unreadable (path : String)
  | unwritable (path : String)
  | undecodable (path : String)
deriving Repr, DecidableEq

/-- The failure in words. -/
def Failure.message (f : Failure) : String :=
  String.ofList <| "Error: Failed to ".toList ++
    match f with
    | noConfiguration path => "load configuration ".toList ++ path.toList
    | noScript path => "open script ".toList ++ path.toList
    | brokenScript => "read script".toList
    | unreadable path => "read script ".toList ++ path.toList
    | unwritable path => "write ".toList ++ path.toList
    | undecodable path => "decode ".toList ++ path.toList

/-- How a command ended. -/
inductive Ending where
  | done
  | failed (failure : Failure)
  /-- The command line asks for nothing. -/
  | usage
deriving Repr, DecidableEq

/-- The code that a command ends with. -/
def Ending.code : Ending → Nat
  | done => 0
  | failed _ => 1
  | usage => 2

/-- What a command leaves behind. -/
structure Outcome where
  ending : Ending
  /-- What was printed. -/
  printed : List Char
  files : FileStore
deriving Repr, DecidableEq

/-- Lines of text. -/
def lines (ls : List (List Char)) : List Char := ls.flatMap (· ++ ['\n'])

/-- The text of a file that holds one. -/
def readText (path : String) (files : FileStore) : Option (List Char) :=
  match files.read path.toList with
  | .error _ => none
  | .ok content => (Utf8.decode content.toldBytes).toOption

/-- The configuration of a file, or the standard one if none is named. -/
def configuration (path : Option String) (files : FileStore) : Except Failure Config :=
  match path with
  | none => .ok .standard
  | some path =>
    match (readText path files).map Config.read with
    | some (.ok config) => .ok config
    | _ => .error (.noConfiguration path)

/-- Where a script comes from. -/
inductive ScriptSource where
  | stream (stream : Stream)
  /-- A file that is read while the script runs. -/
  | file (path : String)
deriving Repr, DecidableEq

/-- Where a script comes from: from standard input if no file is named. A directory can be opened,
but nothing can be read from it. -/
def scriptSource (path : Option String) (input : List UInt8) (files : FileStore) :
    Except Failure ScriptSource :=
  match path with
  | none => .ok (.stream ⟨input, none⟩)
  | some path =>
    if isStandardInput path then .ok (.stream ⟨input, none⟩)
    else match files.read path.toList with
      | .ok _ => .ok (.file path)
      | .error .isDirectory => .ok (.stream ⟨[], some FileError.isDirectory.message⟩)
      | .error _ => .error (.noScript path)

/-- Carry out the script of a source. -/
def runSource (sink : Sink FileStore) (source : ScriptSource) (s : Session FileStore) :
    Except SessionError Tally × Session FileStore :=
  match source with
  | .stream stream => s.executeScript sink (.ofStream stream)
  | .file path => s.executeFile sink path.toList

/-! ## The commands -/

/-- Draw a script. -/
def render (programs : Programs) (script config : Option String) (input : List UInt8)
    (files : FileStore) : Outcome :=
  match (do return (← configuration config files, ← scriptSource script input files)) with
  | .error failure => ⟨.failed failure, [], files⟩
  | .ok (config, source) =>
    let (result, session) :=
      runSource (config.output.sink programs) source (Session.new config files)
    match result with
    | .error _ => ⟨.failed .brokenScript, [], session.delivered⟩
    | .ok _ => ⟨.done, [], session.delivered⟩

/-- Compile a script, and print what was left out. -/
def compile (script output : String) (files : FileStore) : Outcome :=
  match readText script files with
  | none => ⟨.failed (.unreadable script), [], files⟩
  | some text =>
    let parsed := ScriptContents.ofStream ⟨Utf8.encode text, none⟩
    match Program.compileAt parsed.operations output.toList files with
    | (.error _, files) => ⟨.failed (.unwritable output), [], files⟩
    | (.ok p, files) => ⟨.done, lines (p.omissions.map (·.message.toList)), files⟩

/-- Draw a compiled program. -/
def play (programs : Programs) (program : String) (config : Option String) (files : FileStore) :
    Outcome :=
  match configuration config files with
  | .error failure => ⟨.failed failure, [], files⟩
  | .ok config =>
    match Program.decodeAt program.toList files with
    | .error _ => ⟨.failed (.undecodable program), [], files⟩
    | .ok ops =>
      let (_, session) :=
        (Session.new config files).executeAll (config.output.sink programs) ops
      ⟨.done, [], session.delivered⟩

/-- Print the operations of a compiled program. -/
def disassemble (program : String) (files : FileStore) : Outcome :=
  match Program.decodeAt program.toList files with
  | .error _ => ⟨.failed (.undecodable program), [], files⟩
  | .ok ops => ⟨.done, lines (ops.map Operation.listing), files⟩

/-- The name and version that are printed. -/
def versionLine : List Char := "mdl 0.1.0\n".toList

/-- How the program is used. -/
def usageLines : List Char :=
  lines ["Usage: mdl render [SCRIPT] [--config CONFIG]".toList,
    "       mdl compile [-o OUTPUT] SCRIPT".toList,
    "       mdl play [--config CONFIG] BYTECODE".toList,
    "       mdl disasm BYTECODE".toList]

/-- What a command line does. -/
def run (programs : Programs) (arguments : List String) (input : List UInt8) (files : FileStore) :
    Outcome :=
  match request? arguments with
  | none => ⟨.usage, [], files⟩
  | some .version => ⟨.done, versionLine, files⟩
  | some .help => ⟨.done, usageLines, files⟩
  | some (.render script config) => render programs script config input files
  | some (.compile script output) => compile script output files
  | some (.play program config) => play programs program config files
  | some (.disassemble program) => disassemble program files

end CommandLine

end SceneScript
