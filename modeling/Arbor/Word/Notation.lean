import Arbor.Word.Symbol
import Arbor.Word.Token

/-!
# Reading words

A word's text is cut into tokens first, so a text that is no sequence of tokens is reported
before any argument that is no number.
-/

namespace Arbor

namespace Token

def numbers (t : Token) : Except Fault (List Number) := t.arguments.mapM Number.read

def symbol (t : Token) : Except Fault Symbol := do
  let params ← t.numbers
  return ⟨t.tag, params.map Value.number⟩

end Token

namespace Word

/-- The word that `text` writes, whatever its tags and arities. -/
def parse (text : String) : Except Fault Word := do
  let tokens ← Token.ofText text
  tokens.mapM Token.symbol

end Word

end Arbor
