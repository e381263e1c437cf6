import SceneScript.CommandLine

/-!
# The program

The command line on real files: the files that the arguments name are loaded, the command runs, and
the files that it left are written, to the working directory and the directories in it. No other
program is started from here, and a picture in a compressed format is written as a raw pixmap.
-/

open SceneScript

namespace SceneScript.CommandLine

/-- The directories in the working directory. -/
def directories : IO (List Route) := do
  let here : IO.FS.DirEntry := ⟨".", "."⟩
  let mut found := []
  for child in ← here.path.readDir do
    if ← child.path.isDir then found := [child.fileName.toList] :: found
  return found

/-- The store with the file that a path leads to, if it can be read. -/
def load (files : FileStore) (path : String) : IO FileStore := do
  try
    let bytes ← IO.FS.readBinFile path
    match files.write path.toList (.bytes bytes.toList) with
    | .ok files => return files
    | .error _ => return files
  catch _ => return files

/-- What is left of a stream, behind what was read of it. -/
partial def readRest (input : IO.FS.Stream) (front : ByteArray) : IO ByteArray := do
  let bytes ← input.read 65536
  if bytes.isEmpty then return front else readRest input (front ++ bytes)

/-- Write the file that was left at the end of a route. -/
def save (route : Route) (content : Content) : IO Unit := do
  let bytes := match content with
    | .bytes bytes => bytes
    | .picture p => Pixmap.raw p
  IO.FS.writeBinFile (String.intercalate "/" (route.map String.ofList)) ⟨bytes.toArray⟩

/-- Load, run and write. -/
def runFiles (arguments : List String) : IO UInt32 := do
  let (inputs, readsInput) := match request? arguments with
    | none => ([], false)
    | some request => (request.inputs, request.readsInput)
  let files ← inputs.foldlM load ⟨[], ← directories⟩
  let input ← if readsInput then readRest (← IO.getStdin) .empty else pure .empty
  let outcome := run (fun _ => none) arguments input.toList files
  for (route, content) in outcome.files.files do
    unless files.files.contains (route, content) do save route content
  IO.print (String.ofList outcome.printed)
  match outcome.ending with
  | .failed failure => IO.eprintln failure.message
  | .usage => IO.eprint (String.ofList usageLines)
  | .done => pure ()
  return UInt32.ofNat outcome.ending.code

end SceneScript.CommandLine

/-- Run the command that the arguments ask for. -/
def main (arguments : List String) : IO UInt32 := SceneScript.CommandLine.runFiles arguments
