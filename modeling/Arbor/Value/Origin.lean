/-!
# Origins

Values that are not a number are told apart by where they were made, since nothing else tells
them apart. One that has been copied keeps its origin. Generations are numbered so that a new one
has a number above those of all that its word still shows.
-/

namespace Arbor

/-- Where a rule fires: the number of the generation and the place in the word. -/
structure Site where
  generation : Nat
  place : Nat
  deriving DecidableEq, Repr

/-- What made a value: the writing of a first word, the writing of the word that a rule always
gives, or a rule that fired. -/
inductive Source
  | seed
  | rule (index : Nat)
  | firing (site : Site)
  deriving DecidableEq, Repr

/-- Where a value was made: what made it, as which parameter of which symbol. -/
structure Origin where
  source : Source
  symbol : Nat
  parameter : Nat
  deriving DecidableEq, Repr

/-- The first number that is above the site's generation. -/
def Site.nextGeneration (site : Site) : Nat := site.generation + 1

/-- The first number above the generation of a source, if it has one. -/
def Source.nextGeneration : Source → Nat
  | .firing site => site.nextGeneration
  | .seed | .rule _ => 0

end Arbor
