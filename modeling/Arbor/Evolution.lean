import Arbor.Grammar

/-!
# Evolution

A generation replaces every symbol of a word at once: each symbol sees the word as it was before,
through two windows that copy nothing, and never a symbol of the generation being made. Evolution
is a number of generations, one after another.

A rule fires at a site, the number of its generation and a place in the word. The number is taken
above all that the word shows, so a generation depends on the word alone and its sites are new.
-/

namespace Arbor.Grammar

/-- What becomes of the symbol of `word` at place `i` in the generation with the given number. -/
def successorAt (g : Grammar) (number : Nat) (word : Array Symbol) (i : Nat) : Traced Word :=
  match word[i]? with
  | some s => g.apply ⟨number, i⟩ s ⟨word, 0, i⟩ ⟨word, i + 1, word.size⟩
  | none => .ofResult (.ok [])

/-- The next generation of a word. -/
def generation (g : Grammar) (word : Word) : Traced Word :=
  let snapshot := word.toArray
  Traced.join (List.range snapshot.size) (g.successorAt (Word.nextGeneration word) snapshot)

def evolve (g : Grammar) (word : Word) : Nat → Traced Word
  | 0 => .ofResult (.ok word)
  | n + 1 => (g.generation word).bind fun next => g.evolve next n

/-- The words after `0` to `n` generations, up to the first fault, and that fault. -/
def history (g : Grammar) (word : Word) : Nat → List Word × Option Fault
  | 0 => ([word], none)
  | n + 1 =>
    match (g.generation word).result with
    | .error fault => ([word], some fault)
    | .ok next =>
      let (words, stopped) := g.history next n
      (word :: words, stopped)

/-- The next generation of a word, with the contexts of each symbol copied out as lists. -/
def generationByLists (g : Grammar) (word : Word) : Traced Word :=
  Traced.join (List.range word.length) fun i =>
    match word[i]? with
    | some s =>
      g.applyBetween ⟨Word.nextGeneration word, i⟩ s (word.take i) (word.drop (i + 1))
    | none => .ofResult (.ok [])

/-- The word after `n` generations, by copied contexts. -/
def evolveByLists (g : Grammar) (word : Word) : Nat → Traced Word
  | 0 => .ofResult (.ok word)
  | n + 1 => (g.generationByLists word).bind fun next => g.evolveByLists next n

/-- The number of generations that a value asks for: a natural number. -/
def generationCount : Json → Except Fault Nat
  | .int n => if 0 ≤ n then .ok n.toNat else .error (.outsideBound "iterations" .nonNegative)
  | _ => .error (.wrongKind "iterations" .integer)

end Arbor.Grammar
