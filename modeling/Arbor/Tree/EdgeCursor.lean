import Arbor.Tree.Basic

/-!
# Stepping through edges

A cursor steps through the edges of a tree in their order, one at a time, while the tree may go on
growing. It stands before a place in the list of children of a node and never goes back; once it
has found no further edge it is spent, whatever is added later.
-/

namespace Arbor

/-- A place among the edges of a tree: before the child at `position` of the node at `node`. -/
structure EdgeCursor where
  node : Nat
  position : Nat
  spent : Bool
  deriving DecidableEq, Repr

namespace EdgeCursor

/-- The cursor before the first edge. -/
def start : EdgeCursor := ⟨0, 0, false⟩

/-- The next edge of `t` from the child at `position` of the node at `node` on, as indices, and
the cursor after it. -/
def seek (t : Tree α) (node position : Nat) : EdgeCursor × Option (Nat × Int) :=
  if h : node < t.nodes.size then
    match (t.node ⟨node, h⟩).children[position]? with
    | some child => (⟨node, position + 1, false⟩, some (node, child.index))
    | none => seek t (node + 1) 0
  else (⟨node, position, true⟩, none)
termination_by t.nodes.size - node

/-- The next edge as indices, and the cursor after it. -/
def step (t : Tree α) (c : EdgeCursor) : EdgeCursor × Option (Nat × Int) :=
  if c.spent then (c, none) else seek t c.node c.position

/-- The next edge as a pair of payloads, and the cursor after it. -/
def next (t : Tree α) (c : EdgeCursor) : EdgeCursor × Option (α × α) :=
  let (after, edge) := c.step t
  (after, edge.bind fun (i, j) => do
    let a ← t.payloadAt? i
    let b ← t.payloadAt? j
    return (a, b))

end EdgeCursor

end Arbor
