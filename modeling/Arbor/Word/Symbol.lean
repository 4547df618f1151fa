import Arbor.Value.Notation

/-!
# Symbols and words

A symbol is a tag with its parameters; a word is a sequence of symbols. Words are written in a
small notation, one symbol after another:

    A(1) A(2) B(3, 4) [ R(0, 180, 25) F(10) ]
-/

namespace Arbor

/-- A tag with its parameters. -/
structure Symbol where
  tag : String
  params : List Value

instance : Inhabited Symbol := ⟨⟨"", []⟩⟩

/-- A sequence of symbols. -/
abbrev Word := List Symbol

namespace Symbol

/-- Equality of symbols that share no parameter: the same tag and equal parameters, numbers compared
by value. -/
def same (s t : Symbol) : Bool := s.tag == t.tag && Value.sameLists s.params t.params

/-- Whether two symbols are taken for the same item in sequences. A symbol whose parameter is not a
number, and so differs from itself, is still the same item as itself. -/
def sameItem (s t : Symbol) : Bool := s.tag == t.tag && s.params.isEqv t.params Value.sameItem

/-- A symbol made by `source` as the one with the given index: its parameters are told apart. -/
def madeBy (source : Source) (index : Nat) (s : Symbol) : Symbol :=
  ⟨s.tag, s.params.mapIdx fun i value => value.madeAt ⟨source, index, i⟩⟩

/-- The first number above those of all generations that the parameters show. -/
def nextGeneration (s : Symbol) : Nat :=
  s.params.foldl (fun n value => max n value.nextGeneration) 0

/-- The notation of a symbol: its tag, then its parameters if it has any. -/
def text (s : Symbol) : Except Fault String := do
  let params ← s.params.mapM Value.wordText
  return if params.isEmpty then s.tag else s.tag ++ "(" ++ ", ".intercalate params ++ ")"

end Symbol

namespace Word

/-- Equality of words that share no parameter, symbol by symbol. -/
def same : Word → Word → Bool
  | [], [] => true
  | s :: ss, t :: ts => s.same t && same ss ts
  | _, _ => false

/-- A word made by `source`: its parameters are told apart. -/
def madeBy (source : Source) (w : Word) : Word := w.mapIdx fun i s => s.madeBy source i

/-- The first number above those of all generations that a word shows. -/
def nextGeneration (w : Word) : Nat := w.foldl (fun n s => max n s.nextGeneration) 0

/-- The notation of a word: the notations of its symbols with single spaces between them. -/
def text (w : Word) : Except Fault String := do
  let symbols ← w.mapM Symbol.text
  return " ".intercalate symbols

end Word

end Arbor
