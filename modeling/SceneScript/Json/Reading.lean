import SceneScript.Decimal.Reading
import SceneScript.Json.Value

/-!
# Reading JSON

A text is read into the value it spells, and must hold nothing else but white space. Each reader
takes what it reads off the front and gives the rest. The readers of values call each other with
less and less fuel, of which there is enough for any text. Arrays and objects may stand within each
other to any depth.
-/

namespace SceneScript

namespace JsonValue

open Decimal

/-- White space of the format. -/
def isSpace (c : Char) : Bool := c = ' ' || c = '\n' || c = '\t' || c = '\r'

/-- The text without the white space in front. -/
def skip (s : List Char) : List Char := s.dropWhile isSpace

/-- The rest of a string behind its first quote: its spelling, and what follows. A control character
has to be spelled as an escape. -/
def stringRest : List Char → Option (List Char × List Char)
  | [] => none
  | '"' :: s => some ([], s)
  | '\\' :: 'u' :: a :: b :: c :: d :: s =>
    match hexNumber? [a, b, c, d] with
    | none => none
    | some _ => (stringRest s).map fun (t, rest) => ('\\' :: 'u' :: a :: b :: c :: d :: t, rest)
  | '\\' :: c :: s =>
    match escapes.lookup c with
    | none => none
    | some _ => (stringRest s).map fun (t, rest) => ('\\' :: c :: t, rest)
  | c :: s => if c < ' ' then none else (stringRest s).map fun (t, rest) => (c :: t, rest)

/-- At least one digit, and what follows. -/
def someDigits (s : List Char) : Option (List Char × List Char) :=
  let ds := s.takeWhile isDigit
  if ds.isEmpty then none else some (ds, s.dropWhile isDigit)

/-- The digits before the point: no zero stands in front of others. -/
def wholePart (s : List Char) : Option (List Char × List Char) := do
  let (ds, rest) ← someDigits s
  if ds.head? == some '0' && 1 < ds.length then none else some (ds, rest)

/-- The point and the digits behind it, if there is a point. -/
def fractionPart : List Char → Option (List Char × List Char)
  | '.' :: s => (someDigits s).map fun (ds, rest) => ('.' :: ds, rest)
  | s => some ([], s)

/-- The exponent, if there is one. -/
def exponentPart : List Char → Option (List Char × List Char)
  | [] => some ([], [])
  | mark :: s =>
    if mark = 'e' || mark = 'E' then
      match s with
      | sign :: t =>
        if sign = '+' || sign = '-' then
          (someDigits t).map fun (ds, rest) => (mark :: sign :: ds, rest)
        else (someDigits s).map fun (ds, rest) => (mark :: ds, rest)
      | [] => none
    else some ([], mark :: s)

/-- A number. -/
def numberFront (s : List Char) : Option (JsonValue × List Char) := do
  let (sign, s) : List Char × List Char := match s with
    | '-' :: s => (['-'], s)
    | s => ([], s)
  let (whole, s) ← wholePart s
  let (fraction, s) ← fractionPart s
  let (exponent, s) ← exponentPart s
  return (number (sign ++ whole ++ fraction ++ exponent), s)

mutual

/-- A value. -/
def valueFront : Nat → List Char → Option (JsonValue × List Char)
  | 0, _ => none
  | fuel + 1, s =>
    match skip s with
    | 'n' :: 'u' :: 'l' :: 'l' :: s => some (null, s)
    | 't' :: 'r' :: 'u' :: 'e' :: s => some (bool true, s)
    | 'f' :: 'a' :: 'l' :: 's' :: 'e' :: s => some (bool false, s)
    | '"' :: s => (stringRest s).map fun (t, rest) => (string t, rest)
    | '[' :: s =>
      match skip s with
      | ']' :: s => some (array [], s)
      | s => (itemsFront fuel s).map fun (vs, rest) => (array vs, rest)
    | '\x7b' :: s =>
      match skip s with
      | '\x7d' :: s => some (object [], s)
      | s => (membersFront fuel s).map fun (ms, rest) => (object ms, rest)
    | s => numberFront s

/-- The items of an array, of which there is one, and the bracket behind them. -/
def itemsFront : Nat → List Char → Option (List JsonValue × List Char)
  | 0, _ => none
  | fuel + 1, s =>
    match valueFront fuel s with
    | none => none
    | some (v, s) =>
      match skip s with
      | ',' :: s => (itemsFront fuel s).map fun (vs, rest) => (v :: vs, rest)
      | ']' :: s => some ([v], s)
      | _ => none

/-- The members of an object, of which there is one, and the brace behind them. -/
def membersFront : Nat → List Char → Option (List (List Char × JsonValue) × List Char)
  | 0, _ => none
  | fuel + 1, s =>
    match skip s with
    | '"' :: s =>
      match stringRest s with
      | none => none
      | some (key, s) =>
        match skip s with
        | ':' :: s =>
          match valueFront fuel s with
          | none => none
          | some (v, s) =>
            match skip s with
            | ',' :: s => (membersFront fuel s).map fun (ms, rest) => ((key, v) :: ms, rest)
            | '\x7d' :: s => some ([(key, v)], s)
            | _ => none
        | _ => none
    | _ => none

end

/-- The value that a text spells. A value takes a character, and so does what parts it from the
next one: there are fewer calls within each other than twice the characters. -/
def read? (s : List Char) : Option JsonValue :=
  match valueFront (2 * s.length + 2) s with
  | none => none
  | some (v, rest) => if (skip rest).isEmpty then some v else none

end JsonValue

end SceneScript
