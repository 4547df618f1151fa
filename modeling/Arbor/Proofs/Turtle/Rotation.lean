import Mathlib
import Arbor.Proofs.Fault.Outcome
import Arbor.Proofs.Turtle.Acceptance

/-!
# Rotations stay rotations

Read exactly, over a commutative ring in which the cosine and the sine of an angle lie on the unit
circle, the heading of a turtle is always a rotation: its transpose is its inverse and its
determinant is one. This is so for the rotations about the three axes and for products, and every
pose has a heading that is a product of such rotations. A move forward then goes exactly as far as
it is told to.

* `isRotation_rotation`: what a rotation by three angles is.
* `Move.turned`: a move keeps the headings rotations.
* `ahead_distance`: how far a move forward goes.
* `perform_turned`: the headings after any operations, and the moves forward from there.
-/

namespace Arbor

open Matrix

variable {R : Type}

/-! ## Exact arithmetic -/

/-- An orientation as a matrix. -/
def Matrix3.toMatrix (m : Matrix3 R) : Matrix (Fin 3) (Fin 3) R :=
  !![m.a.x, m.a.y, m.a.z; m.b.x, m.b.y, m.b.z; m.c.x, m.c.y, m.c.z]

theorem Matrix3.toMatrix_inj {m n : Matrix3 R} : m.toMatrix = n.toMatrix ↔ m = n := by
  refine ⟨fun h => ?_, congrArg toMatrix⟩
  obtain ⟨⟨ax, ay, az⟩, ⟨bx, by_, bz⟩, ⟨cx, cy, cz⟩⟩ := m
  obtain ⟨⟨ax', ay', az'⟩, ⟨bx', by', bz'⟩, ⟨cx', cy', cz'⟩⟩ := n
  simpa [toMatrix, and_assoc] using h

theorem Matrix3.toMatrix_transpose (m : Matrix3 R) : m.toMatrixᵀ = m.transpose.toMatrix := by
  ext i j
  fin_cases i <;> fin_cases j <;> rfl

def Vec3.toVector (v : Vec3 R) : Fin 3 → R := ![v.x, v.y, v.z]

variable [CommRing R]

/-- Coordinates in a commutative ring. -/
def Geometry.ofRing (measure : Number → Except Fault R) (turn : R → Except Fault (R × R)) :
    Geometry R where
  zero := 0
  one := 1
  add := (· + ·)
  mul := (· * ·)
  neg := (- ·)
  measure := measure
  turn := turn

/-- A rotation is an orientation whose transpose is its inverse and whose determinant is one. -/
structure Matrix3.IsRotation (m : Matrix3 R) : Prop where
  mul_transpose : m.toMatrix * m.toMatrixᵀ = 1
  det_eq_one : m.toMatrix.det = 1

namespace Geometry

variable (measure : Number → Except Fault R) (turn : R → Except Fault (R × R))

theorem toMatrix_product (m n : Matrix3 R) :
    ((ofRing measure turn).product m n).toMatrix = m.toMatrix * n.toMatrix := by
  simp only [Matrix3.toMatrix, mul_fin_three, product, image, dot, ofRing, Matrix3.transpose,
    mul_comm]

theorem toMatrix_identity : (ofRing measure turn).identity.toMatrix = 1 := one_fin_three.symm

theorem isRotation_identity : (ofRing measure turn).identity.IsRotation where
  mul_transpose := by rw [toMatrix_identity, transpose_one, one_mul]
  det_eq_one := by rw [toMatrix_identity, det_one]

theorem isRotation_product {m n : Matrix3 R} (hm : m.IsRotation) (hn : n.IsRotation) :
    ((ofRing measure turn).product m n).IsRotation where
  mul_transpose := by
    rw [toMatrix_product]
    calc m.toMatrix * n.toMatrix * (m.toMatrix * n.toMatrix)ᵀ
        = m.toMatrix * (n.toMatrix * n.toMatrixᵀ) * m.toMatrixᵀ := by
          rw [transpose_mul]
          simp only [Matrix.mul_assoc]
      _ = 1 := by rw [hn.mul_transpose, Matrix.mul_one, hm.mul_transpose]
  det_eq_one := by rw [toMatrix_product, det_mul, hm.det_eq_one, hn.det_eq_one, one_mul]

/-- A transpose is an inverse if the product says so. -/
theorem mul_transpose_of_product {m : Matrix3 R}
    (h : (ofRing measure turn).product m m.transpose = (ofRing measure turn).identity) :
    m.toMatrix * m.toMatrixᵀ = 1 := by
  rw [Matrix3.toMatrix_transpose, ← toMatrix_product measure turn, h, toMatrix_identity]

section Axes

variable {c s : R} (h : c * c + s * s = 1)

include h

theorem isRotation_aboutX : ((ofRing measure turn).aboutX (c, s)).IsRotation where
  mul_transpose := by
    refine mul_transpose_of_product measure turn ?_
    simp [product, image, dot, aboutX, identity, ofRing, Matrix3.transpose, mul_comm, h,
      (add_comm (s * s) (c * c)).trans h]
  det_eq_one := by simp [Matrix3.toMatrix, aboutX, ofRing, det_fin_three, h]

theorem isRotation_aboutY : ((ofRing measure turn).aboutY (c, s)).IsRotation where
  mul_transpose := by
    refine mul_transpose_of_product measure turn ?_
    simp [product, image, dot, aboutY, identity, ofRing, Matrix3.transpose, mul_comm, h,
      (add_comm (s * s) (c * c)).trans h]
  det_eq_one := by simp [Matrix3.toMatrix, aboutY, ofRing, det_fin_three, h]

theorem isRotation_aboutZ : ((ofRing measure turn).aboutZ (c, s)).IsRotation where
  mul_transpose := by
    refine mul_transpose_of_product measure turn ?_
    simp [product, image, dot, aboutZ, identity, ofRing, Matrix3.transpose, mul_comm, h,
      (add_comm (s * s) (c * c)).trans h]
  det_eq_one := by simp [Matrix3.toMatrix, aboutZ, ofRing, det_fin_three, h]

end Axes

/-! ## Rotations by three angles -/

section Angles

variable {S : Type}

/-- The cosine and the sine of a parameter. -/
def turned (g : Geometry S) (v : Value) : Except Fault (S × S) := g.angle v >>= g.turn

theorem rotation_eq_ok_iff {g : Geometry S} {x y z : Value} {m : Matrix3 S} :
    g.rotation x y z = .ok m ↔
      ∃ cx cy cz, g.turned x = .ok cx ∧ g.turned y = .ok cy ∧ g.turned z = .ok cz ∧
        m = g.product (g.product (g.aboutX cx) (g.aboutY cy)) (g.aboutZ cz) := by
  simp only [rotation, turned, bind_eq_ok_iff]
  constructor
  · rintro ⟨x', hx, y', hy, z', hz, cx, hcx, cy, hcy, cz, hcz, h⟩
    exact ⟨cx, cy, cz, ⟨x', hx, hcx⟩, ⟨y', hy, hcy⟩, ⟨z', hz, hcz⟩, (Except.ok.inj h).symm⟩
  · rintro ⟨cx, cy, cz, ⟨x', hx, hcx⟩, ⟨y', hy, hcy⟩, ⟨z', hz, hcz⟩, rfl⟩
    exact ⟨x', hx, y', hy, z', hz, cx, hcx, cy, hcy, cz, hcz, rfl⟩

end Angles

variable {measure turn}

theorem isRotation_rotation (hturn : ∀ x c s, turn x = .ok (c, s) → c * c + s * s = 1)
    {x y z : Value} {m : Matrix3 R} (h : (ofRing measure turn).rotation x y z = .ok m) :
    m.IsRotation := by
  have hcircle : ∀ {v c s}, (ofRing measure turn).turned v = .ok (c, s) → c * c + s * s = 1 := by
    intro v c s hv
    obtain ⟨v', -, hv⟩ := bind_eq_ok_iff.1 hv
    exact hturn v' c s hv
  obtain ⟨cx, cy, cz, hx, hy, hz, rfl⟩ := rotation_eq_ok_iff.1 h
  have hX := isRotation_aboutX measure turn (hcircle hx)
  have hY := isRotation_aboutY measure turn (hcircle hy)
  have hZ := isRotation_aboutZ measure turn (hcircle hz)
  exact isRotation_product _ _ (isRotation_product _ _ hX hY) hZ

/-- A rotation is the product of the rotations by one angle each. -/
theorem rotation_factors {o : Value} (ho : (ofRing measure turn).turned o = .ok (1, 0))
    (x y z : Value) (m : Matrix3 R) :
    (ofRing measure turn).rotation x y z = .ok m ↔ ∃ mx my mz,
      (ofRing measure turn).rotation x o o = .ok mx ∧
      (ofRing measure turn).rotation o y o = .ok my ∧
      (ofRing measure turn).rotation o o z = .ok mz ∧
      m.toMatrix = mx.toMatrix * my.toMatrix * mz.toMatrix := by
  have hnone : ((ofRing measure turn).aboutX (1, 0)).toMatrix = 1 ∧
      ((ofRing measure turn).aboutY (1, 0)).toMatrix = 1 ∧
      ((ofRing measure turn).aboutZ (1, 0)).toMatrix = 1 := by
    simp [aboutX, aboutY, aboutZ, ofRing, Matrix3.toMatrix, one_fin_three]
  obtain ⟨hnoX, hnoY, hnoZ⟩ := hnone
  have hvalue : ∀ {cs}, (ofRing measure turn).turned o = .ok cs → cs = (1, 0) :=
    fun h => Except.ok.inj (h.symm.trans ho)
  constructor
  · intro h
    obtain ⟨cx, cy, cz, hx, hy, hz, rfl⟩ := rotation_eq_ok_iff.1 h
    refine ⟨_, _, _, rotation_eq_ok_iff.2 ⟨cx, _, _, hx, ho, ho, rfl⟩,
      rotation_eq_ok_iff.2 ⟨_, cy, _, ho, hy, ho, rfl⟩,
      rotation_eq_ok_iff.2 ⟨_, _, cz, ho, ho, hz, rfl⟩, ?_⟩
    simp only [toMatrix_product, hnoX, hnoY, hnoZ, one_mul, mul_one]
  · rintro ⟨mx, my, mz, hx, hy, hz, hm⟩
    obtain ⟨cx, cs, cs', hcx, hs, hs', rfl⟩ := rotation_eq_ok_iff.1 hx
    cases hvalue hs
    cases hvalue hs'
    obtain ⟨cs, cy, cs', hs, hcy, hs', rfl⟩ := rotation_eq_ok_iff.1 hy
    cases hvalue hs
    cases hvalue hs'
    obtain ⟨cs, cs', cz, hs, hs', hcz, rfl⟩ := rotation_eq_ok_iff.1 hz
    cases hvalue hs
    cases hvalue hs'
    refine rotation_eq_ok_iff.2 ⟨cx, cy, cz, hcx, hcy, hcz, Matrix3.toMatrix_inj.1 ?_⟩
    simpa only [toMatrix_product, hnoX, hnoY, hnoZ, one_mul, mul_one] using hm

end Geometry

/-! ## The headings of a turtle -/

namespace Turtle

variable {measure : Number → Except Fault R} {turn : R → Except Fault (R × R)}

/-- The headings of all poses of a turtle are rotations. -/
def Turned (growth : Turtle R) : Prop :=
  ∀ pose ∈ growth.state :: growth.saved, pose.heading.IsRotation

theorem turned_sprout (id : Nat) (root : Joint R) (diameter : R) :
    (sprout id root diameter (Geometry.ofRing measure turn).identity).Turned :=
  List.forall_mem_singleton.2 (Geometry.isRotation_identity measure turn)

/-- A move keeps the headings rotations. -/
theorem Move.turned (hturn : ∀ x c s, turn x = .ok (c, s) → c * c + s * s = 1)
    {growth growth' : Turtle R} {c : Command} {params : List Value}
    (hmove : Move (Geometry.ofRing measure turn) growth c params growth') (h : growth.Turned) :
    growth'.Turned := by
  obtain ⟨hstate, hsaved⟩ := List.forall_mem_cons.1 h
  cases hmove with
  | forward => exact List.forall_mem_cons.2 ⟨hstate, hsaved⟩
  | diameter => exact List.forall_mem_cons.2 ⟨hstate, hsaved⟩
  | rotate hrotation =>
    have hr := Geometry.isRotation_rotation hturn hrotation
    exact List.forall_mem_cons.2 ⟨Geometry.isRotation_product _ _ hstate hr, hsaved⟩
  | push => exact List.forall_mem_cons.2 ⟨hstate, h⟩
  | pop heq =>
    rw [heq] at hsaved
    exact hsaved

theorem turned_perform (hturn : ∀ x c s, turn x = .ok (c, s) → c * c + s * s = 1) (id : Nat)
    (root : Joint R) (diameter : R) (ops : List Op) :
    (perform (Geometry.ofRing measure turn) ops
      (sprout id root diameter (Geometry.ofRing measure turn).identity)).Turned :=
  perform_induction (P := fun growth _ => growth.Turned)
    (fun _ _ _ _ _ hmove h => hmove.turned hturn h) ops _ 0 (turned_sprout id root diameter)

/-- The joint ahead of a pose is as far away as it is told to be. -/
theorem ahead_distance {pose : Pose R} (h : pose.heading.IsRotation) (length : R)
    (here : Joint R) :
    let offset := (ahead (Geometry.ofRing measure turn) pose length here).position.toVector -
      here.position.toVector
    offset ⬝ᵥ offset = length * length := by
  intro offset
  have hinverse : pose.heading.toMatrixᵀ * pose.heading.toMatrix = 1 :=
    mul_eq_one_comm.1 h.mul_transpose
  -- the second axis goes to the second column
  have hcolumn : pose.heading.a.y * pose.heading.a.y + pose.heading.b.y * pose.heading.b.y +
      pose.heading.c.y * pose.heading.c.y = 1 := by
    simpa [Matrix.mul_apply, Fin.sum_univ_three, Matrix3.toMatrix] using
      congrFun (congrFun hinverse 1) 1
  have hoffset : offset = ![length * pose.heading.a.y, length * pose.heading.b.y,
      length * pose.heading.c.y] := by
    simp [offset, ahead, Vec3.toVector, Geometry.plus, Geometry.scale, Geometry.image,
      Geometry.dot, Geometry.up, Geometry.ofRing]
  calc offset ⬝ᵥ offset
      = length * length * (pose.heading.a.y * pose.heading.a.y +
          pose.heading.b.y * pose.heading.b.y + pose.heading.c.y * pose.heading.c.y) := by
        rw [hoffset]
        simp only [dotProduct, Fin.sum_univ_three, Matrix.cons_val]
        ring
    _ = length * length := by rw [hcolumn, mul_one]

/-- **Rotations stay rotations.** Where the cosine and the sine of each angle lie on the unit
circle, the headings of all poses are rotations after any operations that start without a rotation:
their transpose is their inverse and their determinant is one. A move forward by a length then adds
a joint whose offset from the joint that it is attached to has the square of the length for its
square. And a rotation by three angles is the product of the rotations by each of them alone, if
there is an angle that turns nothing. -/
theorem perform_turned (measure : Number → Except Fault R) (turn : R → Except Fault (R × R))
    (hturn : ∀ x c s, turn x = .ok (c, s) → c * c + s * s = 1) (id : Nat) (root : Joint R)
    (diameter : R) (ops : List Op) :
    let g := Geometry.ofRing measure turn
    let growth := perform g ops (sprout id root diameter g.identity)
    (∀ pose ∈ growth.state :: growth.saved,
      pose.heading.toMatrix * pose.heading.toMatrixᵀ = 1 ∧ pose.heading.toMatrix.det = 1) ∧
    (∀ value length, g.length value = .ok length → ∃ growth' here joint i,
      (Command.forward.run g [value]).run growth = .ok () growth' ∧
      growth.tree.get growth.state.last = .ok here ∧
      growth.state.last = growth.tree.handleAt i ∧
      growth'.tree.payloads = growth.tree.payloads ++ [joint] ∧
      growth'.tree.edgeIndices.Perm (growth.tree.edgeIndices ++ [(i, (growth.tree.size : Int))]) ∧
      (joint.position.toVector - here.position.toVector) ⬝ᵥ
        (joint.position.toVector - here.position.toVector) = length * length) ∧
    ∀ o, g.turned o = .ok (1, 0) → ∀ x y z m, g.rotation x y z = .ok m ↔
      ∃ mx my mz, g.rotation x o o = .ok mx ∧ g.rotation o y o = .ok my ∧
        g.rotation o o z = .ok mz ∧ m.toMatrix = mx.toMatrix * my.toMatrix * mz.toMatrix := by
  intro g growth
  have hturned : growth.Turned := turned_perform hturn id root diameter ops
  obtain ⟨hsound, -⟩ := sound_perform (g := g) id root diameter g.identity ops
  refine ⟨fun pose hpose => ?_, fun value length hlength => ?_, fun o ho => ?_⟩
  · exact ⟨(hturned pose hpose).mul_transpose, (hturned pose hpose).det_eq_one⟩
  · obtain ⟨j, hj⟩ := Tree.exists_locate_iff.2 (hsound.poses growth.state List.mem_cons_self)
    have hmove := Move.forward (g := g) hlength hj
    obtain ⟨length', here, i, hlength', hhere, hi, hpayloads, hedges, -⟩ := hmove.forward_adds
    obtain rfl : length = length' := Except.ok.inj (hlength.symm.trans hlength')
    exact ⟨_, here, _, i, hmove.run_eq, hhere, hi, hpayloads, hedges,
      ahead_distance (hturned _ List.mem_cons_self) length here⟩
  · exact Geometry.rotation_factors ho

def integral : Number → Except Fault ℚ
  | .int n => .ok n
  | n => .error (.notReal n.kind)

/-- Angles that turn nothing or by the angle of a triangle with the sides three, four and five. -/
def pythagorean (x : ℚ) : Except Fault (ℚ × ℚ) := .ok (if x = 0 then (1, 0) else (3 / 5, 4 / 5))

theorem pythagorean_circle (x c s : ℚ) (h : pythagorean x = .ok (c, s)) : c * c + s * s = 1 := by
  have hpair : (if x = 0 then (1, 0) else (3 / 5, 4 / 5)) = (c, s) := Except.ok.inj h
  split_ifs at hpair
  · obtain ⟨rfl, rfl⟩ := Prod.mk.inj hpair
    norm_num
  · obtain ⟨rfl, rfl⟩ := Prod.mk.inj hpair
    norm_num

/-- Two rotations after a saved pose make a heading of fractions, which is a rotation still, and
lead to a joint three ahead. -/
theorem perform_turned_pythagorean :
    let g := Geometry.ofRing integral pythagorean
    let o : Value := .number (.int 0)
    let v : Value := .number (.int 37)
    let growth := perform g [.command .push [], .command .rotate [v, o, v],
      .command .rotate [o, v, o]] (sprout 0 (origin g) 1 g.identity)
    (growth.state.heading.toMatrix * growth.state.heading.toMatrixᵀ = 1 ∧
      growth.state.heading.a.z = 12 / 25) ∧
    (∃ growth' here joint i,
      (Command.forward.run g [.number (.int 3)]).run growth = .ok () growth' ∧
      growth.tree.get growth.state.last = .ok here ∧
      growth.state.last = growth.tree.handleAt i ∧
      growth'.tree.payloads = growth.tree.payloads ++ [joint] ∧
      growth'.tree.edgeIndices.Perm (growth.tree.edgeIndices ++ [(i, (growth.tree.size : Int))]) ∧
      (joint.position.toVector - here.position.toVector) ⬝ᵥ
        (joint.position.toVector - here.position.toVector) = 3 * 3) ∧
    ∃ m mx my mz, g.rotation v v v = .ok m ∧ g.rotation v o o = .ok mx ∧
      g.rotation o v o = .ok my ∧ g.rotation o o v = .ok mz ∧
      m.toMatrix = mx.toMatrix * my.toMatrix * mz.toMatrix := by
  intro g o v growth
  obtain ⟨hheadings, hforward, hfactors⟩ := perform_turned integral pythagorean pythagorean_circle
    0 (origin g) 1 [.command .push [], .command .rotate [v, o, v],
      .command .rotate [o, v, o]]
  refine ⟨⟨(hheadings _ List.mem_cons_self).1, ?_⟩, hforward _ 3 rfl, ?_⟩
  · decide +kernel
  · have ho : g.turned o = .ok (1, 0) := rfl
    obtain ⟨m, hm⟩ : ∃ m, g.rotation v v v = .ok m := ⟨_, rfl⟩
    obtain ⟨mx, my, mz, hx, hy, hz, hproduct⟩ := (hfactors o ho v v v m).1 hm
    exact ⟨m, mx, my, mz, hm, hx, hy, hz, hproduct⟩

end Turtle

end Arbor
