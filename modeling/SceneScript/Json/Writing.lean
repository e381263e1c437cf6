import SceneScript.Json.Value

/-!
# Writing JSON

A value is written without white space, its numbers and strings as they are spelled.
-/

namespace SceneScript

namespace JsonValue

mutual

/-- A value as text. -/
def text : JsonValue → List Char
  | null => "null".toList
  | bool true => "true".toList
  | bool false => "false".toList
  | number spelling => spelling
  | string spelling => '"' :: spelling ++ ['"']
  | array items => '[' :: itemsText items ++ [']']
  | object members => '\x7b' :: membersText members ++ ['\x7d']

/-- Items with commas between them. -/
def itemsText : List JsonValue → List Char
  | [] => []
  | [v] => text v
  | v :: vs => text v ++ ',' :: itemsText vs

/-- Members with commas between them. -/
def membersText : List (List Char × JsonValue) → List Char
  | [] => []
  | [(key, v)] => '"' :: key ++ '"' :: ':' :: text v
  | (key, v) :: ms => '"' :: key ++ '"' :: ':' :: text v ++ ',' :: membersText ms

end

end JsonValue

end SceneScript
