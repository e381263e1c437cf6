import SceneScript.Output.Path
import SceneScript.Picture
import SceneScript.Text.Utf8

/-!
# Files

A file store is the files below one directory, each under the names that lead to it from there. A
directory is there when it is listed or a file stands below it; the directories around the store
are there too.

A file is written whole. Writing replaces what was there before, and it fails where the path does
not lead to a place for a file: which of several reasons is given depends on how far the path leads.
No file is made behind a slash, whatever the name in front of it.
-/

namespace SceneScript

/-- Why a path leads to no file. -/
inductive FileError where
  | notFound
  | notDirectory
  | isDirectory
  | nameTooLong
  /-- The path holds a zero character. -/
  | zeroCharacter
deriving Repr, DecidableEq

/-- The error in words. -/
def FileError.message : FileError → String
  | notFound => "No such file or directory (os error 2)"
  | notDirectory => "Not a directory (os error 20)"
  | isDirectory => "Is a directory (os error 21)"
  | nameTooLong => "File name too long (os error 36)"
  | zeroCharacter => "file name contained an unexpected NUL byte"

/-- What a file holds. -/
inductive Content where
  | bytes (bytes : List UInt8)
  /-- A picture in one of the compressed formats. The bytes are up to the encoder. -/
  | picture (picture : Picture)
deriving Repr, DecidableEq

/-- The bytes of a file; those of a compressed picture are not told. -/
def Content.toldBytes : Content → List UInt8
  | bytes bs => bs
  | picture _ => []

/-- The names that lead from the directory of a store to a file. -/
abbrev Route := List (List Char)

/-- The files below a directory. -/
structure FileStore where
  files : List (Route × Content)
  /-- Directories that may hold no file. -/
  directories : List Route := []
deriving Repr, DecidableEq

namespace FileStore

/-- No files. -/
def empty : FileStore := ⟨[], []⟩

/-! ## Routes -/

/-- What stands at the end of a route. -/
def find? (s : FileStore) (route : Route) : Option Content :=
  (s.files.find? (·.1 == route)).map Prod.snd

/-- A directory is at the end of a route: one around the store, one that is listed, or one with a
file below it. -/
def isDirectory (s : FileStore) (route : Route) : Bool :=
  route.all (· == Path.parent) || s.directories.contains route ||
    s.files.any fun (file, _) => route.length < file.length && route.isPrefixOf file

/-- Put a file at the end of a route. -/
def put (s : FileStore) (route : Route) (content : Content) : FileStore :=
  { s with files :=
      if s.files.any (·.1 == route) then
        s.files.map fun f => if f.1 == route then (route, content) else f
      else s.files ++ [(route, content)] }

/-- What was put at the end of a route is found there. -/
@[simp] theorem find?_put_self (s : FileStore) (route : Route) (content : Content) :
    (s.put route content).find? route = some content := by
  unfold put find?
  split
  · rename_i h
    have hf : ((fun f : Route × Content => f.1 == route) ∘
        fun f => if f.1 == route then (route, content) else f) = fun f => f.1 == route := by
      funext f
      by_cases hf : f.1 = route <;> simp [hf]
    have hs : (s.files.find? fun f => f.1 == route).isSome := by
      rw [List.find?_isSome]
      exact List.any_eq_true.1 h
    obtain ⟨g, hg⟩ := Option.isSome_iff_exists.1 hs
    have hk : (g.1 == route) = true := by simpa using List.find?_some hg
    simp only [List.find?_map, hf, hg, Option.map_some, hk, if_true]
  · rename_i h
    have hn : s.files.find? (fun f => f.1 == route) = none := by
      rw [List.find?_eq_none]
      intro f hm he
      exact h (List.any_eq_true.2 ⟨f, hm, he⟩)
    simp [List.find?_append, hn]

/-! ## Paths -/

/-- The most bytes a name may have. -/
def longestName : Nat := 255

/-- The number of bytes from which on a path is too long. -/
def pathLimit : Nat := 4096

/-- The number of bytes of a text. -/
def byteCount (s : List Char) : Nat := (Utf8.encode s).length

/-- One step out of a directory. -/
def outward (route : Route) : Route :=
  if route.all (· == Path.parent) then route ++ [Path.parent] else route.dropLast

/-- The directory that names lead to from another one. -/
def walk (s : FileStore) (start : Route) : List (List Char) → Except FileError Route
  | [] => .ok start
  | name :: rest =>
    if Path.isIdle name then walk s start rest
    else if name = Path.parent then walk s (outward start) rest
    else if longestName < byteCount name then .error .nameTooLong
    else
      let route := start ++ [name]
      if s.isDirectory route then walk s route rest
      else if (s.find? route).isSome then .error .notDirectory
      else .error .notFound

/-- Where a path leads: to a directory, or to a name in one, with a slash behind it or not. -/
inductive Target where
  | directory
  | name (route : Route) (slash : Bool)
deriving Repr, DecidableEq

/-- Where a path leads. A slash in front leads out of the store first. -/
def target (s : FileStore) (path : List Char) : Except FileError Target := do
  if path.contains '\x00' then throw .zeroCharacter
  if path.isEmpty then throw .notFound
  if pathLimit ≤ byteCount path then throw .nameTooLong
  let names := (Path.names path).reverse
  let slash := names.head? == some []
  match names.dropWhile List.isEmpty with
  | [] => return .directory
  | last :: before =>
    let route ← s.walk (if path.head? == some '/' then [Path.parent] else []) before.reverse
    if Path.isIdle last || last = Path.parent then return .directory
    if s.isDirectory (route ++ [last]) then return .directory
    return .name (route ++ [last]) slash

/-- The last name of a route is longer than a name may be. -/
def endsTooLong (route : Route) : Bool :=
  route.getLast?.any fun name => longestName < byteCount name

/-- The content of the file that a path leads to. -/
def read (s : FileStore) (path : List Char) : Except FileError Content := do
  match ← s.target path with
  | .directory => throw .isDirectory
  | .name route slash =>
    if endsTooLong route then throw .nameTooLong
    match s.find? route with
    | none => throw .notFound
    | some content => if slash then throw .notDirectory else return content

/-- Write the file that a path leads to. -/
def write (s : FileStore) (path : List Char) (content : Content) : Except FileError FileStore := do
  match ← s.target path with
  | .directory => throw .isDirectory
  | .name route slash =>
    if slash then throw .isDirectory
    if endsTooLong route then throw .nameTooLong
    return s.put route content

end FileStore

end SceneScript
