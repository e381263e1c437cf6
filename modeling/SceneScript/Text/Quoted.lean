import SceneScript.Text.Shown

/-!
# Quoted text

Messages quote what a script or a path holds so that the quotation is plain to see: in double
quotes, with a backslash before a quote or a backslash, short escapes for the usual controls, and
the number of every other character that has no mark of its own.
-/

namespace SceneScript.Text

/-- A digit below sixteen in lower case. -/
def hexDigit (n : Nat) : Char := if n < 10 then Char.ofNat (48 + n) else Char.ofNat (87 + n)

/-- Lower-case digits to base sixteen, none in front that is zero. -/
def hex (n : Nat) : List Char := Nat.toDigits 16 n

/-- A byte as two lower-case digits to base sixteen. -/
def hexByte (b : UInt8) : List Char := [hexDigit (b.toNat / 16), hexDigit (b.toNat % 16)]

/-- A character inside a quotation. -/
def quoteChar (c : Char) : List Char :=
  match c with
  | '\t' => ['\\', 't']
  | '\r' => ['\\', 'r']
  | '\n' => ['\\', 'n']
  | '\x00' => ['\\', '0']
  | '\\' => ['\\', '\\']
  | '"' => ['\\', '"']
  | _ => if isShown c then [c] else ['\\', 'u', '\x7b'] ++ hex c.toNat ++ ['\x7d']

/-- A text in double quotes. -/
def quote (s : List Char) : List Char := '"' :: s.flatMap quoteChar ++ ['"']

end SceneScript.Text
