import Arbor.Turtle.Basic

/-!
# Segments

A drawing shows the edges of a tree of joints from the front: each edge becomes a segment between
the first two coordinates of its ends, as thick as the joint at its far end.
-/

namespace Arbor

structure Point where
  x : Float
  y : Float

/-- A line of a drawing. -/
structure Segment where
  start : Point
  stop : Point
  diameter : Float

namespace Segment

def project (j : Joint Float) : Point := ⟨j.position.x, j.position.y⟩

def ofEdge (edge : Joint Float × Joint Float) : Segment :=
  ⟨project edge.1, project edge.2, edge.2.diameter⟩

/-- The segments of the edges of a tree, in their order. -/
def ofTree (t : Tree (Joint Float)) : List Segment := t.edges.map ofEdge

def ends (s : Segment) : List Point := [s.start, s.stop]

end Segment

end Arbor
