import Arbor.Binary64.Rounding
import Arbor.Drawing.Segment

/-!
# Bounds of a drawing

The least and the greatest coordinates of the ends of all segments. They are found by running
minima and maxima that start at the infinities and give way only to a strictly better coordinate,
so a coordinate that is not a number never counts.
-/

namespace Arbor

/-- The lesser of two doubles, the first unless the second is less. -/
def lesser (x y : Float) : Float := if y < x then y else x

/-- The greater of two doubles, the first unless the second is greater. -/
def greater (x y : Float) : Float := if x < y then y else x

/-- A box around a drawing. -/
structure Bounds where
  minX : Float
  minY : Float
  maxX : Float
  maxY : Float

namespace Bounds

/-- The bounds of nothing. -/
def nothing : Bounds :=
  ⟨Binary64.infinity false, Binary64.infinity false, Binary64.infinity true,
    Binary64.infinity true⟩

def widenTo (b : Bounds) (p : Point) : Bounds :=
  ⟨lesser b.minX p.x, lesser b.minY p.y, greater b.maxX p.x, greater b.maxY p.y⟩

/-- The bounds of the ends of all segments. There have to be some: the least first coordinate
must not have stayed at infinity. -/
def ofSegments (segments : List Segment) : Except Fault Bounds :=
  let b := (segments.flatMap Segment.ends).foldl widenTo nothing
  if b.minX == Binary64.infinity false then .error .noGeometry else .ok b

end Bounds

end Arbor
