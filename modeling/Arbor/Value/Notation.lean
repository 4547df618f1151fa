import Arbor.Number.Notation
import Arbor.Text.Quoted
import Arbor.Value.Basic

/-!
# Value notation

As numbers have, values have a plain text and one that stands in a word. They differ in that a
word shows a string as it is and not between quotes. A table shows its entries in order, each with
the plain text of its value.
-/

namespace Arbor

namespace Value

/-- The text of a number of slots: each shows the name of the table of bound names. -/
def slotsText : Nat → String
  | 1 => "('_values',)"
  | n => "(" ++ ", ".intercalate (List.replicate n "'_values'") ++ ")"

mutual

def text : Value → Except Fault String
  | .number x => x.text
  | .notANumber _ => Number.notANumber.text
  | .string s => .ok (Text.quoted s)
  | .slots n => .ok (slotsText n)
  | .table entries => do
    let shown ← entryTexts entries
    return "\x7b" ++ ", ".intercalate shown ++ "\x7d"
  | .member .class_ .. => .ok "<class 'lsystree.grammar.Bindings'>"
  | .member .method name _ entries => do
    let shown ← entryTexts entries
    let bindings := ", ".intercalate shown
    return s!"<bound method Bindings.{name} of Bindings(\x7b{bindings}\x7d)>"
  | .member .wrapper name .. => .ok s!"<method-wrapper '{name}' of Bindings object>"
  | .member .builtin name .. => .ok s!"<built-in method {name} of Bindings object>"

def entryTexts : List (String × Value) → Except Fault (List String)
  | [] => .ok []
  | (name, value) :: rest => do
    let value ← text value
    let rest ← entryTexts rest
    return (Text.quoted name ++ ": " ++ value) :: rest

end

def wordText : Value → Except Fault String
  | .number x => x.wordText
  | .notANumber _ => Number.notANumber.wordText
  | .string s => .ok s
  | v => v.text

end Value

end Arbor
