/-!
# Script streams

A script arrives as a stream of bytes. The stream ends, or it breaks: every read past its bytes
then fails. A line that a break cuts off is lost, since only a whole line is ever handed on.
-/

namespace SceneScript

/-- The bytes that a stream delivers, and the reason it gives when it then breaks. -/
structure Stream where
  bytes : List UInt8
  failure : Option String
deriving Repr, DecidableEq

namespace Stream

/-- The byte that ends a line. -/
def newline : UInt8 := 10

/-- The lines that the bytes complete, each without its newline, and the bytes behind the last of
them. -/
def completeLines : List UInt8 → List (List UInt8) × List UInt8
  | [] => ([], [])
  | b :: bytes =>
    let (lines, rest) := completeLines bytes
    if b = newline then ([] :: lines, rest)
    else match lines with
      | [] => ([], b :: rest)
      | line :: lines => ((b :: line) :: lines, rest)

/-- The bytes that lines take, each with a newline behind it. -/
def extent : List (List UInt8) → Nat
  | [] => 0
  | line :: lines => line.length + 1 + extent lines

/-- The lines that a reader gets: the bytes behind the last newline are a line too, unless the
stream breaks there. -/
def lines (s : Stream) : List (List UInt8) :=
  let (complete, rest) := completeLines s.bytes
  if rest.isEmpty || s.failure.isSome then complete else complete ++ [rest]

end Stream

end SceneScript
