/-!
# Keywords

Every command of a script starts with a line that holds its keyword and nothing else. All but
`quit` name an operation on the scene.
-/

namespace SceneScript

/-- The first word of a command. -/
inductive Keyword where
  | push
  | pop
  | move
  | rotate
  | scale
  | box
  | sphere
  | torus
  | circle
  | hermite
  | bezier
  | line
  | clear
  | save
  | display
  | constants
  | quit
deriving Repr, DecidableEq

namespace Keyword

/-- How a keyword is spelled. -/
def text : Keyword → String
  | push => "push"
  | pop => "pop"
  | move => "move"
  | rotate => "rotate"
  | scale => "scale"
  | box => "box"
  | sphere => "sphere"
  | torus => "torus"
  | circle => "circle"
  | hermite => "hermite"
  | bezier => "bezier"
  | line => "line"
  | clear => "clear"
  | save => "save"
  | display => "display"
  | constants => "constants"
  | quit => "quit"

/-- Every keyword. -/
def all : List Keyword :=
  [push, pop, move, rotate, scale, box, sphere, torus, circle, hermite, bezier, line, clear, save,
    display, constants, quit]

/-- The keyword that a text spells, letter for letter. -/
def ofText? (s : String) : Option Keyword := all.find? (·.text == s)

theorem ofText?_text (k : Keyword) : ofText? k.text = some k := by cases k <;> decide

end Keyword

end SceneScript
