import SceneScript.Output.Path

/-!
# Command lines

A command line asks for one of four commands, or for information about the program itself. An
option takes its value from the next argument or from its own, and `--` says that no options
follow. A lone `-` is a value like others, while what else starts with a dash is an option: no value
can be given that looks like one. Every path has to be given at most once, and not empty.
-/

namespace SceneScript

namespace CommandLine

/-- What is asked for. -/
inductive Request where
  /-- Draw a script, from standard input if none is named. -/
  | render (script config : Option String)
  /-- Compile a script to a file. -/
  | compile (script output : String)
  /-- Draw a compiled program. -/
  | play (program : String) (config : Option String)
  /-- List a compiled program. -/
  | disassemble (program : String)
  | version
  | help
deriving Repr, DecidableEq

/-- A path that stands for standard input where a script is drawn. -/
def isStandardInput (path : String) : Bool :=
  match Path.names path.toList with
  | ['-'] :: rest => rest.all Path.isIdle
  | _ => false

namespace Request

/-- The paths of the files that a request reads. -/
def inputs : Request → List String
  | render script config => (script.filter (!isStandardInput ·)).toList ++ config.toList
  | compile script _ => [script]
  | play program config => program :: config.toList
  | disassemble program => [program]
  | version | help => []

/-- Standard input is read. -/
def readsInput : Request → Bool
  | render script _ => script.all isStandardInput
  | _ => false

end Request

/-- Where a program is compiled to when no file is named. -/
def defaultOutput : String := "a.mdl_intermediate_language"

/-- An option of a command: its long name, its short name if it has one. -/
structure OptionName where
  long : String
  short : Option Char
deriving Repr, DecidableEq

/-- The arguments of a command as they were found. -/
structure Found where
  paths : List String
  option : Option String
deriving Repr, DecidableEq

/-- What reading the arguments of a command comes to. -/
inductive Reading where
  | found (found : Found)
  | help
  | wrong
deriving Repr, DecidableEq

/-- An argument that is an option, or the mark behind which there are none. -/
def looksLikeOption (a : String) : Bool :=
  match a.toList with
  | '-' :: _ :: _ => true
  | _ => false

/-- Behind the option so far, there is the given value, if it may be given. -/
def Found.withOption (f : Found) (value : String) : Option Found :=
  if value.isEmpty || f.option.isSome then none else some { f with option := some value }

/-- Behind the paths so far, there is the given one, if it may be given. -/
def Found.withPath (most : Nat) (f : Found) (path : String) : Option Found :=
  if path.isEmpty || most ≤ f.paths.length then none
  else some { f with paths := f.paths ++ [path] }

/-- The value that an argument gives to an option, as long as it is the option's argument: none if
the value is in the next one. -/
def OptionName.value? (o : OptionName) (argument : List Char) : Option (Option String) :=
  let long := '-' :: '-' :: o.long.toList
  if argument = long then some none
  else if (long ++ ['=']).isPrefixOf argument then
    some (some (String.ofList (argument.drop (long.length + 1))))
  else
    match o.short, argument with
    | some c, '-' :: d :: value =>
      if c ≠ d then none
      else match value with
        | [] => some none
        | '=' :: value => some (some (String.ofList value))
        | value => some (some (String.ofList value))
    | _, _ => none

/-- An argument that asks for help: the long option alone, or the short one with whatever behind. -/
def asksForHelp (argument : List Char) : Bool :=
  argument = "--help".toList || "-h".toList.isPrefixOf argument

/-- Read arguments behind those that were found: at most `most` paths, and an option if there is
one. -/
def readArguments (option : Option OptionName) (most : Nat) : List String → Found → Reading
  | [], f => .found f
  | a :: rest, f =>
    if a = "--" then
      match rest.foldlM (Found.withPath most) f with
      | some f => .found f
      | none => .wrong
    else if looksLikeOption a then
      if asksForHelp a.toList then .help
      else
        match option.bind (·.value? a.toList), rest with
        | some (some value), rest =>
          match f.withOption value with
          | some f => readArguments option most rest f
          | none => .wrong
        | some none, value :: rest =>
          if looksLikeOption value then .wrong
          else
            match f.withOption value with
            | some f => readArguments option most rest f
            | none => .wrong
        | _, _ => .wrong
    else
      match f.withPath most a with
      | some f => readArguments option most rest f
      | none => .wrong

/-- The option that names a configuration. -/
def configOption : OptionName := ⟨"config", none⟩

/-- The option that names the file to compile to. -/
def outputOption : OptionName := ⟨"output", some 'o'⟩

/-- The request of a command whose arguments were read, if nothing is missing. -/
def Reading.request? (request : Found → Option Request) : Reading → Option Request
  | .found f => request f
  | .help => some .help
  | .wrong => none

/-- The request of a command by name, with its arguments. -/
def command? (name : String) (arguments : List String) : Option Request :=
  let read (option : Option OptionName) := readArguments option 1 arguments ⟨[], none⟩
  match name with
  | "render" => (read (some configOption)).request? fun f => some (.render f.paths.head? f.option)
  | "compile" => (read (some outputOption)).request? fun f =>
    f.paths.head?.map fun script => .compile script (f.option.getD defaultOutput)
  | "play" => (read (some configOption)).request? fun f =>
    f.paths.head?.map fun program => .play program f.option
  | "disasm" => (read none).request? fun f => f.paths.head?.map .disassemble
  | _ => none

/-- The names of the commands that help can be asked for. -/
def commandNames : List String := ["render", "compile", "play", "disasm", "help"]

/-- What a command line asks for, if it is one. -/
def request? : List String → Option Request
  | [] => none
  | "help" :: rest =>
    match rest with
    | [] => some .help
    | [name] => if name ∈ commandNames then some .help else none
    | _ => none
  | a :: rest =>
    if a = "--version" || "-V".toList.isPrefixOf a.toList then some .version
    else if asksForHelp a.toList then some .help
    else command? a rest

end CommandLine

end SceneScript
