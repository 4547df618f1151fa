import Arbor.Tree.Basic

/-!
# Forests

A forest holds every tree that has been planted, so that each tree gets an identity of its own
and no two trees issue the same handle. Trees are addressed by that identity.
-/

namespace Arbor

/-- The trees planted so far; the tree at place `i` issues handles as `i`. -/
structure Forest (α : Type) where
  trees : Array (Tree α)

namespace Forest

def empty : Forest α := ⟨#[]⟩

/-- The forest with a new tree, and the tree's identity. -/
def plant (f : Forest α) : Forest α × Nat := (⟨f.trees.push (.empty f.trees.size)⟩, f.trees.size)

/-- The tree with the given identity, if it has been planted. -/
def tree? (f : Forest α) (id : Nat) : Option (Tree α) := f.trees[id]?

/-- The tree with the given identity, or one that nobody has planted and nothing is in. -/
def tree (f : Forest α) (id : Nat) : Tree α := (f.tree? id).getD (.empty id)

/-- The forest with the tree `t` in the place of its earlier state. -/
def replace (f : Forest α) (t : Tree α) : Forest α := ⟨f.trees.modify t.id fun _ => t⟩

/-- The forest after a node has been added to a tree, and the node's handle. -/
def addNode (f : Forest α) (id : Nat) (payload : α) : Forest α × Handle :=
  let (t, h) := (f.tree id).addNode payload
  (f.replace t, h)

def addEdge (id : Nat) (start end_ : Reference) : Action (Forest α) Unit :=
  Action.within (·.tree id) (fun t f => f.replace t) (Tree.addEdge start end_)

/-! ## Calls -/

/-- A call on a tree. -/
inductive TreeCall (α : Type)
  | addNode (payload : α)
  | addEdge (start end_ : Reference)
  | get (r : Reference)
  | children (r : Reference)

/-- What a call on a tree answers. -/
inductive Answer (α : Type)
  | node (h : Handle)
  | edge
  | payload (a : α)
  | children (handles : List Handle)

/-- Calls the tree with the given identity. -/
def TreeCall.run (id : Nat) : TreeCall α → Action (Forest α) (Answer α)
  | .addNode payload => modifyGet fun f =>
    let (f, h) := f.addNode id payload
    (.node h, f)
  | .addEdge start end_ => do
    Forest.addEdge id start end_
    return .edge
  | .get r => do
    let payload ← Action.query fun f => (f.tree id).get r
    return .payload payload
  | .children r => do
    let handles ← Action.query fun f => (f.tree id).children r
    return .children handles

end Forest

end Arbor
