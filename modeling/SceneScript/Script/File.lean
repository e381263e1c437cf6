import SceneScript.Script.FileCursor
import SceneScript.Script.Reader

/-!
# Scripts in files

A script in a file is read while it runs, and what it does may change the file. So the lines that a
reader has in store hold only as long as the file does: when it has been written to,
`ScriptFile.refresh` keeps the bytes that are fetched already, and takes the lines behind them from
what the file holds now.
-/

namespace SceneScript

/-- A script in a file, part way through. -/
structure ScriptFile where
  /-- How far the file had been read when the reader got its lines. -/
  cursor : FileCursor
  /-- What the file held then. -/
  bytes : List UInt8
  reader : Reader
deriving Repr, DecidableEq

namespace ScriptFile

/-- A script at its start. -/
def start (bytes : List UInt8) : ScriptFile := ⟨.start, bytes, .ofStream ⟨bytes, none⟩⟩

/-- The lines of bytes that end without a failure. -/
def linesOf (bytes : List UInt8) : List (List UInt8) := Stream.lines ⟨bytes, none⟩

/-- The next item, and the script behind it. -/
def next (s : ScriptFile) : Option Item × ScriptFile :=
  let (item, reader) := s.reader.next
  (item, { s with reader := reader })

/-- How many bytes have been used since the reader got its lines. The last line may lack its
newline. -/
def used (s : ScriptFile) : Nat :=
  let toCome := s.cursor.toCome s.bytes
  min toCome.length (Stream.extent (linesOf toCome) - Stream.extent s.reader.lines)

/-- The script when its file holds other bytes. -/
def refresh (s : ScriptFile) (bytes : List UInt8) : ScriptFile :=
  let cursor := s.cursor.use s.bytes s.used
  ⟨cursor, bytes, { s.reader with lines := linesOf (cursor.toCome bytes) }⟩

end ScriptFile

end SceneScript
