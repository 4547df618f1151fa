import Arbor.Decimal.Shortest
import Arbor.Json.Value
import Arbor.Text.Quoted

/-!
# How messages show a value

A message shows a value in one line: texts between quotes, lists between brackets, objects with
their fields in order. A list that serves as a tag is shown between parentheses instead, with a
comma after an only item.
-/

namespace Arbor.Json

mutual

/-- `value` as a message shows it. An integer is shown with all its digits, also beyond the limit of
`Number.intText`. -/
def display : Json → String
  | .null => "None"
  | .truth b => if b then "True" else "False"
  | .int n => n.repr
  | .float x => Decimal.floatText x
  | .text s => s.quoted
  | .list items => "[" ++ ", ".intercalate (displayItems items) ++ "]"
  | .object fields => "\x7b" ++ ", ".intercalate (displayFields fields) ++ "\x7d"

def displayItems : List Json → List String
  | [] => []
  | item :: rest => display item :: displayItems rest

def displayFields : List (LooseText × Json) → List String
  | [] => []
  | (name, value) :: rest => (name.quoted ++ ": " ++ display value) :: displayFields rest

end

/-- `value` as a message shows it where it serves as a tag. -/
def displayTag : Json → String
  | .list [item] => "(" ++ display item ++ ",)"
  | .list items => "(" ++ ", ".intercalate (displayItems items) ++ ")"
  | value => display value

end Arbor.Json
