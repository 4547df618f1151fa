import Arbor.Action
import Arbor.Evolution
import Arbor.Tree.Basic

/-!
# Growth

A word is interpreted symbol by symbol. What it grows is a tree, and between symbols there is a
current state and a stack of saved states. A step that fails leaves the growth as far as it got,
and the steps after it are not taken.

An L-system is a first word, a grammar and a way to process symbols. Growing it evolves the word
and then interprets the result into a new tree, whose first node is the root.
-/

namespace Arbor

/-- A tree in the making, the current state, and the saved states, the last one first. -/
structure Growth (α σ : Type) where
  tree : Tree α
  state : σ
  saved : List σ

/-- A step of growth. A fault keeps the growth reached before it. -/
abbrev Step (α σ β : Type) := Action (Growth α σ) β

namespace Growth

def depth (g : Growth α σ) : Nat := g.saved.length

def initial (state : σ) : Growth α σ := ⟨.empty 0, state, []⟩

end Growth

namespace Step

def setState (state : σ) : Step α σ Unit := modify fun g => { g with state := state }

def push : Step α σ Unit := modify fun g => { g with saved := g.state :: g.saved }

def pop : Step α σ Unit := do
  let g ← get
  match g.saved with
  | [] => throw .popEmpty
  | state :: saved => set { g with state := state, saved := saved }

def addNode (payload : α) : Step α σ Handle :=
  modifyGet fun g =>
    let (tree, handle) := g.tree.addNode payload
    (handle, { g with tree := tree })

def addEdge (start end_ : Handle) : Step α σ Unit :=
  Action.within Growth.tree (fun tree g => { g with tree := tree }) (Tree.addEdge start end_)

def interpret (process : Symbol → Step α σ Unit) : Word → Step α σ Unit
  | [] => pure ()
  | s :: word => do
    process s
    interpret process word

end Step

/-- A first word, a grammar, and a way to process symbols. -/
structure LSystem (α σ : Type) where
  seed : Word
  grammar : Grammar
  process : Symbol → Step α σ Unit

namespace LSystem

def evolve (l : LSystem α σ) (n : Nat) : Except Fault Word := (l.grammar.evolve l.seed n).result

/-- The growth of a new tree from its root: `start` makes the first state of the root's handle.
-/
def initialGrowth (root : α) (start : Handle → Except Fault σ) : Except Fault (Growth α σ) := do
  let (tree, handle) := (Tree.empty 0).addNode root
  let state ← start handle
  return ⟨tree, state, []⟩

/-- The tree that a word grows from `root`. Every saved state has to be gone back to. -/
def interpret (l : LSystem α σ) (root : α) (start : Handle → Except Fault σ) (word : Word) :
    Except Fault (Tree α) := do
  let growth ← initialGrowth root start
  match (Step.interpret l.process word).run growth with
  | .error fault _ => throw fault
  | .ok _ growth =>
    if growth.depth = 0 then return growth.tree else throw (.neverPopped growth.depth)

/-- The tree grown from `root` after the number of generations that `generations` asks for. The
root is made once the word has evolved. -/
def construct (l : LSystem α σ) (root : Except Fault α) (start : α → Handle → Except Fault σ)
    (generations : Json) : Except Fault (Tree α) := do
  let n ← Grammar.generationCount generations
  let word ← l.evolve n
  let root ← root
  l.interpret root (start root) word

end LSystem

end Arbor
