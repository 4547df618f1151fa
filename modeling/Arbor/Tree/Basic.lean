import Arbor.Action
import Arbor.Json.Display

/-!
# Trees

A tree is an arena of nodes that only grows. A node is addressed by a handle: its index together
with the tree that issued it, so that a handle of one tree means nothing to another. Handles stay
valid for ever and are never issued twice. Despite the name, edges are added freely; the graph
is a tree when its maker keeps it one.
-/

namespace Arbor

/-- An address of a node: its index and the tree that issued it, if one did. -/
structure Handle where
  index : Int
  owner : Option Nat
  deriving DecidableEq, Repr

namespace Handle

/-- Handles are told apart by index alone. -/
def same (h k : Handle) : Bool := h.index == k.index

/-- A handle as messages show it: with all digits of its index, also beyond the limit of
`Number.intText`. -/
def text (h : Handle) : String := s!"NodeHandle(index={h.index})"

end Handle

/-- What is passed where a handle is wanted. -/
inductive Reference
  | handle (h : Handle)
  | other (value : Json)

namespace Reference

instance : Coe Handle Reference := ⟨.handle⟩

/-- A reference as messages show it. -/
def text : Reference → String
  | .handle h => h.text
  | .other value => value.display

/-- Whether two references are the same: two handles by index, two other values by value. -/
def same : Reference → Reference → Bool
  | .handle h, .handle k => h.same k
  | .other x, .other y => x.same y
  | _, _ => false

end Reference

/-- A payload and the handles of the node's children, in the order their edges were added. -/
structure Node (α : Type) where
  payload : α
  children : List Handle

/-- An arena of nodes. -/
structure Tree (α : Type) where
  id : Nat
  nodes : Array (Node α)

namespace Tree

/-- The tree without nodes that issues handles as `id`. -/
def empty (id : Nat) : Tree α := ⟨id, #[]⟩

def size (t : Tree α) : Nat := t.nodes.size

def edgeCount (t : Tree α) : Nat :=
  t.nodes.toList.foldl (fun count node => count + node.children.length) 0

/-- A tree as messages show it. -/
def text (t : Tree α) : String := s!"Tree(nodes={t.size}, edges={t.edgeCount})"

def handleAt (t : Tree α) (i : Nat) : Handle := ⟨i, some t.id⟩

/-- The index of the node that a reference addresses. It has to be a handle issued by this tree.
-/
def locate (t : Tree α) (r : Reference) : Except Fault (Fin t.nodes.size) :=
  match r with
  | .other value => .error (.foreignHandle value.display)
  | .handle h =>
    if h.owner ≠ some t.id then .error (.foreignHandle h.text)
    else if hi : 0 ≤ h.index ∧ h.index.toNat < t.nodes.size then .ok ⟨h.index.toNat, hi.2⟩
    else .error (.handleOutOfRange h.text)

def node (t : Tree α) (i : Fin t.nodes.size) : Node α := t.nodes[i]

def root (t : Tree α) : Except Fault Handle :=
  if t.size = 0 then .error .emptyTree else .ok (t.handleAt 0)

/-- The tree with a new node, and its handle. -/
def addNode (t : Tree α) (payload : α) : Tree α × Handle :=
  let handle := t.handleAt t.size
  (⟨t.id, t.nodes.push ⟨payload, []⟩⟩, handle)

/-- `end_` appended to the children of the node at `start`. -/
def appendChild (t : Tree α) (start : Fin t.nodes.size) (end_ : Handle) : Tree α :=
  ⟨t.id, t.nodes.modify start fun node => ⟨node.payload, node.children ++ [end_]⟩⟩

/-- The indices of the ends of an edge. The end is checked before the start. -/
def ends (t : Tree α) (start end_ : Reference) :
    Except Fault (Fin t.nodes.size × Fin t.nodes.size) := do
  let j ← t.locate end_
  let i ← t.locate start
  return (i, j)

def addEdge (start end_ : Reference) : Action (Tree α) Unit := do
  let t ← get
  let (i, j) ← Action.ofResult (t.ends start end_)
  set (t.appendChild i (t.handleAt j))

def get (t : Tree α) (r : Reference) : Except Fault α := do
  let i ← t.locate r
  return (t.node i).payload

/-- The children of a node, in the order their edges were added. -/
def children (t : Tree α) (r : Reference) : Except Fault (List Handle) := do
  let i ← t.locate r
  return (t.node i).children

/-- The handles of all nodes, in the order they were added. -/
def handles (t : Tree α) : List Handle := (List.range t.size).map t.handleAt

/-- The payload of the node at index `i`, if there is one. -/
def payloadAt? (t : Tree α) (i : Int) : Option α :=
  if 0 ≤ i then (t.nodes[i.toNat]?).map Node.payload else none

/-- The edges that start at a node, as pairs of payloads. -/
def edgesOf (t : Tree α) (node : Node α) : List (α × α) :=
  node.children.filterMap fun child =>
    (t.payloadAt? child.index).map fun payload => (node.payload, payload)

/-- All edges as pairs of payloads: by start in the order of the nodes, then in the order in which
they were added. -/
def edges (t : Tree α) : List (α × α) := t.nodes.toList.flatMap t.edgesOf

def edgeIndices (t : Tree α) : List (Nat × Int) :=
  (List.range t.size).flatMap fun i =>
    match t.nodes[i]? with
    | some node => node.children.map fun child => (i, child.index)
    | none => []

end Tree

end Arbor
