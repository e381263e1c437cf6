import SceneScript.Reflectance
import SceneScript.Text.Utf8

/-!
# Named profiles

The profiles a script has named so far. A table is kept as the list of its definitions in the
order of the names' bytes, so it has no history: tables with the same definitions are equal.
-/

namespace SceneScript

/-- Names and the profiles they stand for. -/
structure ProfileTable where
  /-- The definitions, by name, in the order of the names' UTF-8 bytes. -/
  entries : List (String × Reflectance)
deriving Repr, DecidableEq

namespace ProfileTable

/-- No name is defined. -/
def empty : ProfileTable := ⟨[]⟩

/-- The first name comes first in the order of UTF-8 bytes. -/
def namePrecedes (a b : String) : Bool := Utf8.encode a.toList < Utf8.encode b.toList

/-- An ordered list of definitions with one more, which replaces that of the same name. -/
def insertEntry (name : String) (k : Reflectance) :
    List (String × Reflectance) → List (String × Reflectance)
  | [] => [(name, k)]
  | (other, v) :: rest =>
    if other = name then (name, k) :: rest
    else if namePrecedes name other then (name, k) :: (other, v) :: rest
    else (other, v) :: insertEntry name k rest

/-- The profile that a name stands for. -/
def lookup (t : ProfileTable) (name : String) : Option Reflectance := t.entries.lookup name

/-- The table in which the name stands for the profile, and what it stood for before. -/
def define (t : ProfileTable) (name : String) (k : Reflectance) :
    Option Reflectance × ProfileTable :=
  (t.lookup name, ⟨insertEntry name k t.entries⟩)

/-- How many names are defined. -/
def size (t : ProfileTable) : Nat := t.entries.length

/-- No name is defined. -/
def isEmpty (t : ProfileTable) : Bool := t.entries.isEmpty

end ProfileTable

end SceneScript
