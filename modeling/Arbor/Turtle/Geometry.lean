import Arbor.Value.Basic

/-!
# Geometry in space

Vectors and orientations over any numbers that can be added and multiplied. A geometry supplies
the arithmetic, the way a number is measured as a coordinate, and the cosine and sine of an
angle. Sums of three products are always added from the left, so that a geometry whose addition
rounds still gives one definite result.
-/

namespace Arbor

/-- Arithmetic on coordinates. -/
structure Geometry (R : Type) where
  zero : R
  one : R
  add : R → R → R
  mul : R → R → R
  neg : R → R
  /-- A number as a coordinate. -/
  measure : Number → Except Fault R
  /-- The cosine and sine of an angle in degrees. -/
  turn : R → Except Fault (R × R)

structure Vec3 (R : Type) where
  x : R
  y : R
  z : R
  deriving DecidableEq, Repr

/-- An orientation, by rows. -/
structure Matrix3 (R : Type) where
  a : Vec3 R
  b : Vec3 R
  c : Vec3 R
  deriving DecidableEq, Repr

namespace Matrix3

def entries (m : Matrix3 R) : List R :=
  [m.a.x, m.a.y, m.a.z, m.b.x, m.b.y, m.b.z, m.c.x, m.c.y, m.c.z]

def transpose (m : Matrix3 R) : Matrix3 R :=
  ⟨⟨m.a.x, m.b.x, m.c.x⟩, ⟨m.a.y, m.b.y, m.c.y⟩, ⟨m.a.z, m.b.z, m.c.z⟩⟩

end Matrix3

namespace Geometry

variable {R : Type} (g : Geometry R)

def dot (u v : Vec3 R) : R := g.add (g.add (g.mul u.x v.x) (g.mul u.y v.y)) (g.mul u.z v.z)

def plus (u v : Vec3 R) : Vec3 R := ⟨g.add u.x v.x, g.add u.y v.y, g.add u.z v.z⟩

def scale (r : R) (v : Vec3 R) : Vec3 R := ⟨g.mul r v.x, g.mul r v.y, g.mul r v.z⟩

/-- The image of a vector. -/
def image (m : Matrix3 R) (v : Vec3 R) : Vec3 R := ⟨g.dot m.a v, g.dot m.b v, g.dot m.c v⟩

/-- The product of two orientations: the second is applied first. -/
def product (m n : Matrix3 R) : Matrix3 R :=
  let t := n.transpose
  ⟨g.image t m.a, g.image t m.b, g.image t m.c⟩

def identity : Matrix3 R :=
  ⟨⟨g.one, g.zero, g.zero⟩, ⟨g.zero, g.one, g.zero⟩, ⟨g.zero, g.zero, g.one⟩⟩

/-- The direction in which growth starts. -/
def up : Vec3 R := ⟨g.zero, g.one, g.zero⟩

/-- The rotation about the first axis by the angle with the given cosine and sine. -/
def aboutX (cs : R × R) : Matrix3 R :=
  ⟨⟨g.one, g.zero, g.zero⟩, ⟨g.zero, cs.1, g.neg cs.2⟩, ⟨g.zero, cs.2, cs.1⟩⟩

def aboutY (cs : R × R) : Matrix3 R :=
  ⟨⟨cs.1, g.zero, cs.2⟩, ⟨g.zero, g.one, g.zero⟩, ⟨g.neg cs.2, g.zero, cs.1⟩⟩

def aboutZ (cs : R × R) : Matrix3 R :=
  ⟨⟨cs.1, g.neg cs.2, g.zero⟩, ⟨cs.2, cs.1, g.zero⟩, ⟨g.zero, g.zero, g.one⟩⟩

/-- A parameter as a length or a diameter. -/
def length (v : Value) : Except Fault R := do
  let x ← v.measure
  g.measure x

/-- A parameter as an angle in degrees. -/
def angle (v : Value) : Except Fault R := do
  let x ← v.angle
  g.measure x

/-- The rotation by three angles in degrees, about the third axis first. All angles are measured
before the first is turned into its cosine and sine. -/
def rotation (x y z : Value) : Except Fault (Matrix3 R) := do
  let x ← g.angle x
  let y ← g.angle y
  let z ← g.angle z
  let x ← g.turn x
  let y ← g.turn y
  let z ← g.turn z
  return g.product (g.product (g.aboutX x) (g.aboutY y)) (g.aboutZ z)

end Geometry

/-! ## Doubles -/

def radiansPerDegree : Float := 3.141592653589793 / 180.0

/-- The cosine and sine of an angle in degrees; an infinite angle has none. -/
def turnDegrees (degrees : Float) : Except Fault (Float × Float) :=
  let angle := degrees * radiansPerDegree
  if Binary64.isInfinite angle then .error .angleNotFinite else .ok (angle.cos, angle.sin)

/-- Coordinates that are doubles. -/
def Geometry.binary64 : Geometry Float where
  zero := 0.0
  one := 1.0
  add := (· + ·)
  mul := (· * ·)
  neg := (- ·)
  measure := Number.toFloat
  turn := turnDegrees

end Arbor
