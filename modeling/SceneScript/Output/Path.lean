/-!
# Paths

A path names a file by the directories on the way to it, with a slash between names. Empty names
and `.` lead nowhere; `..` leads back out.
-/

namespace SceneScript

namespace Path

/-- The names of a path, with what stands before and after each slash. -/
def names : List Char → List (List Char)
  | [] => [[]]
  | c :: s =>
    if c = '/' then [] :: names s
    else match names s with
      | [] => [[c]]
      | name :: rest => (c :: name) :: rest

/-- A name that leads nowhere. -/
def isIdle (name : List Char) : Bool := name = [] || name = ['.']

/-- The name that leads back out. -/
def parent : List Char := ['.', '.']

/-- The name that a path ends in, unless it leads back out. -/
def fileName? (path : List Char) : Option (List Char) :=
  match ((names path).filter (!isIdle ·)).getLast? with
  | some name => if name = parent then none else some name
  | none => none

/-- What stands behind the last dot of a path's name; a dot in front of the whole name is a part of
it. -/
def extension? (path : List Char) : Option (List Char) :=
  (fileName? path).bind fun name =>
    let after := (name.reverse.takeWhile (· != '.')).reverse
    if after.length + 1 < name.length then some after else none

end Path

end SceneScript
