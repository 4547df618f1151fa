import Arbor.Growth
import Arbor.Turtle.Geometry

/-!
# The turtle

The turtle grows a tree of joints in space. It has a heading, an orientation under which it moves
along its second axis, and a diameter that it gives to the joints it adds. Five commands move it:

    F(length)    forward, adding a joint and an edge to it
    W(diameter)  the diameter of the joints that follow
    R(x, y, z)   rotate by angles in degrees about the three axes
    [            save the state
    ]            go back to the state saved last

Symbols without a command are passed over, and a command given the wrong number of parameters
fails before anything has changed.
-/

namespace Arbor

/-- A node of a grown tree: where it is and how thick. -/
structure Joint (R : Type) where
  position : Vec3 R
  diameter : R
  deriving DecidableEq, Repr

/-- The state of the turtle. -/
structure Pose (R : Type) where
  last : Handle
  diameter : R
  heading : Matrix3 R

/-- Equality of poses: the same last joint, and equal diameters and headings. -/
def Pose.same [BEq R] (p q : Pose R) : Bool :=
  p.last.same q.last && p.diameter == q.diameter && p.heading.entries == q.heading.entries

/-- A tree of joints in the making. -/
abbrev Turtle (R : Type) := Growth (Joint R) (Pose R)

/-- What the turtle can be told to do. -/
inductive Command
  | forward
  | diameter
  | rotate
  | push
  | pop
  deriving DecidableEq, Repr

namespace Turtle

variable {R : Type} (g : Geometry R)

/-- Adds a joint at `length` along the heading, with an edge from the last joint. -/
def forward (length : Value) : Step (Joint R) (Pose R) Unit := do
  let length ← Action.ofResult (g.length length)
  let growth ← get
  let pose := growth.state
  let offset := g.scale length (g.image pose.heading g.up)
  let here ← Action.ofResult (growth.tree.get pose.last)
  let added ← Step.addNode ⟨g.plus here.position offset, pose.diameter⟩
  Step.addEdge pose.last added
  Step.setState { pose with last := added }

def diameter (diameter : Value) : Step (Joint R) (Pose R) Unit := do
  let diameter ← Action.ofResult (g.length diameter)
  let growth ← get
  Step.setState { growth.state with diameter := diameter }

def rotate (x y z : Value) : Step (Joint R) (Pose R) Unit := do
  let rotation ← Action.ofResult (g.rotation x y z)
  let growth ← get
  let heading := g.product growth.state.heading rotation
  Step.setState { growth.state with heading := heading }

end Turtle

namespace Command

/-- What a command is called with. -/
def shape : Command → CallShape
  | .forward => ⟨"Tree3DContext.forward", ["length"]⟩
  | .diameter => ⟨"Tree3DContext.diameter", ["diameter"]⟩
  | .rotate => ⟨"Tree3DContext.rotate", ["x", "y", "z"]⟩
  | .push => ⟨"Context.push", []⟩
  | .pop => ⟨"Context.pop", []⟩

/-- The fault of a call with the wrong number of parameters. -/
def shapeFault (c : Command) (params : List Value) : Fault :=
  if params.length < c.shape.arguments.length then .missingArguments c.shape params.length
  else .surplusArguments c.shape params.length

def run (g : Geometry R) (c : Command) (params : List Value) : Step (Joint R) (Pose R) Unit :=
  match c, params with
  | .forward, [value] => Turtle.forward g value
  | .diameter, [value] => Turtle.diameter g value
  | .rotate, [x, y, z] => Turtle.rotate g x y z
  | .push, [] => Step.push
  | .pop, [] => Step.pop
  | c, params => throw (c.shapeFault params)

/-- The tags of the turtle's commands. -/
def standard : Table String Command :=
  [("F", .forward), ("W", .diameter), ("R", .rotate), ("[", .push), ("]", .pop)]

/-- Carries out the command of a symbol's tag, if it has one. -/
def process (g : Geometry R) (commands : Table String Command) (s : Symbol) :
    Step (Joint R) (Pose R) Unit :=
  match commands.get? s.tag with
  | some c => c.run g s.params
  | none => pure ()

end Command

/-- The tags that the turtle understands, with their arities. -/
def Alphabet.turtle : Alphabet :=
  ⟨[("F", .count 1), ("W", .count 1), ("R", .count 3), ("[", .count 0), ("]", .count 0)]⟩

namespace Turtle

/-- The first pose at the joint with the given handle: no rotation, and the joint's diameter. -/
def startPose (g : Geometry R) (root : Joint R) (handle : Handle) : Except Fault (Pose R) :=
  .ok ⟨handle, root.diameter, g.identity⟩

def initial (g : Geometry R) (root : Joint R) : Turtle R :=
  let (tree, handle) := (Tree.empty 0).addNode root
  ⟨tree, ⟨handle, root.diameter, g.identity⟩, []⟩

/-- The joint of unit diameter at the origin. -/
def origin (g : Geometry R) : Joint R := ⟨⟨g.zero, g.zero, g.zero⟩, g.one⟩

end Turtle

/-- The L-system with the given first word, grammar and commands. -/
def LSystem.ofCommands (g : Geometry R) (seed : Word) (grammar : Grammar)
    (commands : Table String Command) : LSystem (Joint R) (Pose R) :=
  ⟨seed, grammar, Command.process g commands⟩

/-- The tree of joints that a word grows from `root`. -/
def LSystem.interpretJoints (g : Geometry R) (l : LSystem (Joint R) (Pose R)) (root : Joint R)
    (word : Word) : Except Fault (Tree (Joint R)) :=
  l.interpret root (Turtle.startPose g root) word

/-- The tree of joints grown from `root` after a number of generations. -/
def LSystem.growJoints (g : Geometry R) (l : LSystem (Joint R) (Pose R))
    (root : Except Fault (Joint R)) (generations : Json) : Except Fault (Tree (Joint R)) :=
  l.construct root (Turtle.startPose g) generations

end Arbor
