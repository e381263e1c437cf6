import SceneScript.Output.FileStore
import SceneScript.Output.Sink
import SceneScript.Pixmap

/-!
# Writing picture files

The encoder writes a picture in the format that the path's extension names, whatever the case of
its letters. Pixmaps are written byte by byte here; for the compressed formats only the picture that
is written is told. There is no viewer.

An extension that names no format fails before there is a file. A format that has no room for the
picture fails with the file already there, and empty, unless the format starts its file before it
asks for the size.
-/

namespace SceneScript

/-- Which pictures a compressed format has room for. -/
structure PictureRoom where
  /-- The longest side, if there is one. -/
  longestSide : Option Nat := none
  /-- A picture without pixels has room. -/
  holdsEmpty : Bool := false
  /-- What is in the file when the size is found to be too large. -/
  opening : List UInt8 := []
deriving Repr, DecidableEq

/-- There is room for a picture of a size. -/
def PictureRoom.holds (r : PictureRoom) (width height : Nat) : Bool :=
  (r.holdsEmpty || (width ≠ 0 && height ≠ 0)) &&
    r.longestSide.all fun longest => width ≤ longest && height ≤ longest

/-- How the encoder treats an extension. -/
inductive PictureFormat where
  /-- A raw pixmap. -/
  | pixmap
  /-- A raw pixmap with named sizes. -/
  | namedPixmap
  /-- A compressed format. -/
  | compressed (room : PictureRoom)
  /-- A format that is known, but cannot be written with colors of three bytes. -/
  | refused
deriving Repr, DecidableEq

namespace PictureFormat

/-- The longest side that two bytes can count. -/
def wordSide : Nat := 65535

/-- The start of a JPEG file: the mark of the format, and the segment that says that pixels are
square. -/
def jpegOpening : List UInt8 :=
  [0xff, 0xd8, 0xff, 0xe0, 0, 16, 0x4a, 0x46, 0x49, 0x46, 0, 1, 2, 0, 0, 1, 0, 1, 0, 0]

/-- The room of a JPEG file, which is asked for when the file has started. -/
def jpegRoom : PictureRoom :=
  { longestSide := some wordSide, holdsEmpty := true, opening := jpegOpening }

/-- The extensions of compressed formats, each with the room of its format. -/
def compressedExtensions : List (String × PictureRoom) :=
  [("png", {}), ("tif", {}), ("tiff", {}), ("qoi", {}),
    ("ico", { longestSide := some 256 }),
    ("bmp", { holdsEmpty := true }),
    ("gif", { longestSide := some wordSide, holdsEmpty := true }),
    ("tga", { longestSide := some wordSide, holdsEmpty := true }),
    ("jpg", jpegRoom), ("jpeg", jpegRoom)]

/-- The extensions of formats that are known and hold no such pictures. -/
def refusedExtensions : List String :=
  ["avif", "dds", "exr", "farbfeld", "ff", "hdr", "pbm", "pgm", "webp"]

/-- The format that an extension in lower case names. -/
def ofExtension? (extension : String) : Option PictureFormat :=
  if extension = "ppm" then some .pixmap
  else if extension = "pam" then some .namedPixmap
  else if extension ∈ refusedExtensions then some .refused
  else (compressedExtensions.lookup extension).map .compressed

/-- The format of the file that a path names. -/
def ofPath? (path : List Char) : Option PictureFormat :=
  (Path.extension? path).bind fun e => ofExtension? (String.ofList (e.map Char.toLower))

/-- What the file of a picture holds, and whether the picture is there. -/
def file (p : Picture) : PictureFormat → Content × Bool
  | pixmap => (.bytes (Pixmap.raw p), true)
  | namedPixmap => (.bytes (Pixmap.named p), true)
  | compressed room =>
    if room.holds p.width p.height then (.picture p, true) else (.bytes room.opening, false)
  | refused => (.bytes [], false)

end PictureFormat

namespace Sink

/-- Sides from this length on are too long for every format but the raw pixmap. -/
def sideBound : Nat := 4294967296

/-- The error for a side that is too long. -/
def tooLarge (side : String) (length : Nat) : OutputError :=
  .unsupported (String.ofList
    (side.toList ++ ' ' :: Decimal.digits length ++ " too large".toList))

/-- Write a picture to the file that a path names. -/
def encode (fb : Framebuffer) (path : List Char) (files : FileStore) :
    Except OutputError Unit × FileStore :=
  let format := PictureFormat.ofPath? path
  if format = some .pixmap then
    match files.write path (.bytes (Pixmap.raw fb.picture)) with
    | .ok files => (.ok (), files)
    | .error e => (.error (.io e.message), files)
  else if sideBound ≤ fb.width then (.error (tooLarge "width" fb.width), files)
  else if sideBound ≤ fb.height then (.error (tooLarge "height" fb.height), files)
  else match format with
    | none => (.error .encode, files)
    | some format =>
      let (content, whole) := format.file fb.picture
      match files.write path content with
      | .ok files => (if whole then .ok () else .error .encode, files)
      | .error _ => (.error .encode, files)

/-- The sink that encodes pictures by itself. -/
def encoder : Sink FileStore where
  deliver fb destination files :=
    match destination with
    | .file path => encode fb path.toList files
    | .display => (.error (.unsupported "the native backend cannot display images"), files)

end Sink

end SceneScript
