import SceneScript.Decimal.Layout
import SceneScript.Picture

/-!
# Portable pixmaps

The forms of the portable pixmap format. Each starts with a magic word, the size and the largest
value of a channel. Then the plain form spells every channel as a decimal with a space behind it,
one row of pixels to a line, and the raw form has one byte for every channel. The named form has the
bytes of the raw one behind lines that name what they say.
-/

namespace SceneScript

namespace Pixmap

/-- The lines in front of the pixels. -/
def header (magic : List Char) (p : Picture) : List Char :=
  magic ++ '\n' :: Decimal.digits p.width ++ ' ' :: Decimal.digits p.height ++
    '\n' :: Decimal.digits Color.maximum.toNat ++ ['\n']

/-- A channel as it is spelled. -/
def channelText (c : UInt8) : List Char := Decimal.digits c.toNat ++ [' ']

/-- A row of pixels as a line. -/
def rowText (row : List Color) : List Char :=
  (row.flatMap Color.toList).flatMap channelText ++ ['\n']

/-- A picture in the plain form. A picture of width zero has no lines. -/
def plainText (p : Picture) : List Char :=
  header ['P', '3'] p ++ if p.width = 0 then [] else p.rows.flatMap rowText

/-- A text of characters below 128 as bytes. -/
def bytesOfText (s : List Char) : List UInt8 := s.map Char.toUInt8

/-- The bytes of the plain form. -/
def plain (p : Picture) : List UInt8 := bytesOfText (plainText p)

/-- The bytes of the raw form. -/
def raw (p : Picture) : List UInt8 :=
  bytesOfText (header ['P', '6'] p) ++ p.pixels.flatMap Color.toList

/-- The lines in front of the pixels of the named form. -/
def namedHeader (p : Picture) : List Char :=
  "P7\nWIDTH ".toList ++ Decimal.digits p.width ++ "\nHEIGHT ".toList ++ Decimal.digits p.height ++
    "\nDEPTH 3\nMAXVAL ".toList ++ Decimal.digits Color.maximum.toNat ++
    "\nTUPLTYPE RGB\nENDHDR\n".toList

/-- The bytes of the named form. -/
def named (p : Picture) : List UInt8 :=
  bytesOfText (namedHeader p) ++ p.pixels.flatMap Color.toList

end Pixmap

end SceneScript
