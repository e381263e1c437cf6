import SceneScript.Output.FileStore
import SceneScript.Script.File
import SceneScript.Session

/-!
# Running scripts from files

A script that runs from a file among those that its pictures go to may overwrite itself. It runs
command by command, and after every delivery the rest of it is what the file then holds: the part
that is fetched already, and behind it, at the same place, the bytes of whatever was written.

Every command takes a byte of the file at least, and it is never read again. So a run ends after as
many commands as the longest file has bytes.
-/

namespace SceneScript

namespace Session

/-- What is read from the file at the end of a path. -/
def bytesAt (path : List Char) (files : FileStore) : List UInt8 :=
  match files.read path with
  | .ok content => content.toldBytes
  | .error _ => []

/-- Carry out at most `fuel` commands of the script at the end of a path, from a given summary
on. -/
def executeFileWithin (sink : Sink FileStore) (path : List Char) :
    Nat → ScriptFile → Tally × Session FileStore →
      Except SessionError Tally × Session FileStore
  | 0, _, (summary, s) => (.ok summary, s)
  | fuel + 1, script, (summary, s) =>
    match script.next with
    | (none, _) => (.ok summary, s)
    | (some (.ok op), script) =>
      let run := advance sink (summary, s) op
      let script := if op.delivers then script.refresh (bytesAt path run.2.delivered) else script
      executeFileWithin sink path fuel script run
    | (some (.error e), script) =>
      if e.isRecoverable then
        executeFileWithin sink path fuel script ({ summary with failed := summary.failed + 1 }, s)
      else (.error (.script e), s)

/-- Carry out the script at the end of a path as it is read. -/
def executeFile (sink : Sink FileStore) (path : List Char) (s : Session FileStore) :
    Except SessionError Tally × Session FileStore :=
  executeFileWithin sink path FileCursor.longestFile (.start (bytesAt path s.delivered)) (.zero, s)

end Session

end SceneScript
