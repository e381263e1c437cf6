import SceneScript.Text.Quoted

/-!
# JSON values

A value keeps its numbers and strings as they are spelled. What a number or a string means depends
on who asks for it, and a value that nobody asks for need not mean anything: an exponent may be too
large for any number, and an escape may stand for half a character.
-/

namespace SceneScript

/-- A JSON value. -/
inductive JsonValue where
  | null
  | bool (value : Bool)
  /-- A number by its spelling. -/
  | number (spelling : List Char)
  /-- A string by its spelling between the quotes. -/
  | string (spelling : List Char)
  | array (items : List JsonValue)
  /-- The members in order, each key by its spelling. -/
  | object (members : List (List Char × JsonValue))
deriving Repr

namespace JsonValue

/-! ## Strings -/

/-- The number that hexadecimal digits spell, if they are. -/
def hexNumber? (ds : List Char) : Option Nat :=
  ds.foldlM (fun n c =>
    if '0' ≤ c && c ≤ '9' then some (16 * n + (c.toNat - 48))
    else if 'a' ≤ c && c ≤ 'f' then some (16 * n + (c.toNat - 87))
    else if 'A' ≤ c && c ≤ 'F' then some (16 * n + (c.toNat - 55))
    else none) 0

/-- The characters that a backslash is written before, and what it makes of them. -/
def escapes : List (Char × Char) :=
  [('"', '"'), ('\\', '\\'), ('/', '/'), ('b', '\x08'), ('f', '\x0c'), ('n', '\n'), ('r', '\r'),
    ('t', '\t')]

/-- The first half of a character past `U+FFFF`. -/
def isLeading (n : Nat) : Bool := 0xd800 ≤ n && n < 0xdc00

/-- The second half of a character past `U+FFFF`. -/
def isTrailing (n : Nat) : Bool := 0xdc00 ≤ n && n < 0xe000

/-- The text that a string spells. Half a character spells nothing, unless the other half stands
behind it. -/
def unescape? : List Char → Option (List Char)
  | [] => some []
  | '\\' :: 'u' :: a :: b :: c :: d :: s =>
    match hexNumber? [a, b, c, d] with
    | none => none
    | some n =>
      if isLeading n then
        match s with
        | '\\' :: 'u' :: e :: f :: g :: h :: s =>
          match hexNumber? [e, f, g, h] with
          | none => none
          | some m =>
            if isTrailing m then
              (unescape? s).map (Char.ofNat (0x10000 + 0x400 * (n - 0xd800) + (m - 0xdc00)) :: ·)
            else none
        | _ => none
      else if isTrailing n then none
      else (unescape? s).map (Char.ofNat n :: ·)
  | '\\' :: c :: s =>
    match escapes.lookup c with
    | none => none
    | some e => (unescape? s).map (e :: ·)
  | ['\\'] => none
  | c :: s => (unescape? s).map (c :: ·)

/-- How a character is spelled in a string. -/
def escape (c : Char) : List Char :=
  match c with
  | '"' => ['\\', '"']
  | '\\' => ['\\', '\\']
  | '\x08' => ['\\', 'b']
  | '\x0c' => ['\\', 'f']
  | '\n' => ['\\', 'n']
  | '\r' => ['\\', 'r']
  | '\t' => ['\\', 't']
  | c => if c < ' ' then "\\u00".toList ++ Text.hexByte c.toUInt8 else [c]

/-- The string that spells a text. -/
def ofText (s : List Char) : JsonValue := string (s.flatMap escape)

/-- The text of a string. -/
def text? : JsonValue → Option (List Char)
  | string s => unescape? s
  | _ => none

end JsonValue

end SceneScript
