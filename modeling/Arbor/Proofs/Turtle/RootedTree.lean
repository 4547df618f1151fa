import Arbor.Proofs.Tree.Rooted
import Arbor.Proofs.Turtle.Moves

/-!
# The turtle grows a rooted tree

Whatever is done to a turtle, with commands or with words, and wherever a step of it fails, what
it has grown is a rooted tree with a joint for every successful move forward. The invariant
`Sound` also says that the current pose and all saved ones stand at joints of this tree: going
back to an old pose and growing on from there is as good as growing on from the last joint.

* `Move.sound`: a move keeps the invariant.
* `perform_induction`: what every move keeps, all operations keep.
* `perform_rooted`: the shape of the tree after any operations.
-/

namespace Arbor.Turtle

open Relation

variable {R : Type} {g : Geometry R}

/-! ## The invariant -/

/-- The turtle's tree is a rooted tree, and its poses stand at joints of it. -/
structure Sound (growth : Turtle R) : Prop where
  rooted : growth.tree.Rooted
  poses : ∀ pose ∈ growth.state :: growth.saved,
    ∃ k < growth.tree.size, pose.last = growth.tree.handleAt k

/-- A turtle that has not moved: its tree is the root, where it stands. -/
def sprout (id : Nat) (root : Joint R) (diameter : R) (heading : Matrix3 R) : Turtle R :=
  ⟨.leaf id root, ⟨⟨0, some id⟩, diameter, heading⟩, []⟩

theorem sound_sprout (id : Nat) (root : Joint R) (diameter : R) (heading : Matrix3 R) :
    (sprout id root diameter heading).Sound where
  rooted := Tree.rooted_leaf id root
  poses pose hpose := by
    rw [List.mem_singleton.1 hpose]
    exact ⟨0, Nat.one_pos, rfl⟩

theorem Sound.extend {growth : Turtle R} (h : growth.Sound) {i : Nat} (hi : i < growth.tree.size)
    (joint : Joint R) : (extend growth i joint).Sound where
  rooted := h.rooted.graft hi joint
  poses pose hpose := by
    show ∃ k < (growth.tree.graft i joint).size, pose.last = growth.tree.handleAt k
    rw [Tree.size_graft]
    rcases List.mem_cons.1 hpose with rfl | hsaved
    · exact ⟨growth.tree.size, Nat.lt_succ_self _, rfl⟩
    · obtain ⟨k, hk, hlast⟩ := h.poses pose (List.mem_cons_of_mem _ hsaved)
      exact ⟨k, Nat.lt_succ_of_lt hk, hlast⟩

theorem Move.sound {growth growth' : Turtle R} {c : Command} {params : List Value}
    (hmove : Move g growth c params growth') (h : growth.Sound) : growth'.Sound := by
  have hstate := h.poses growth.state List.mem_cons_self
  have hsaved := fun pose hpose => h.poses pose (List.mem_cons_of_mem growth.state hpose)
  cases hmove with
  | @forward value length i _ _ => exact h.extend i.isLt _
  | diameter _ => exact ⟨h.rooted, List.forall_mem_cons.2 ⟨hstate, hsaved⟩⟩
  | rotate _ => exact ⟨h.rooted, List.forall_mem_cons.2 ⟨hstate, hsaved⟩⟩
  | push => exact ⟨h.rooted, List.forall_mem_cons.2 ⟨hstate, h.poses⟩⟩
  | pop heq =>
    rw [heq] at hsaved
    exact ⟨h.rooted, hsaved⟩

theorem Sound.process {commands : Table String Command} {s : Symbol} {growth growth' : Turtle R}
    (h : growth.Sound) (hrun : (Command.process g commands s).run growth = .ok () growth') :
    growth'.Sound := by
  rcases process_eq_ok_iff.1 hrun with ⟨-, rfl⟩ | ⟨c, -, hmove⟩
  · exact h
  · exact hmove.sound h

/-! ## Operations -/

/-- What is done to a turtle from outside: a command, or the interpretation of a word. -/
inductive Op
  | command (c : Command) (params : List Value)
  | interpret (commands : Table String Command) (word : Word)

def Op.step (g : Geometry R) : Op → Step (Joint R) (Pose R) Unit
  | .command c params => c.run g params
  | .interpret commands word => Step.interpret (Command.process g commands) word

/-- The turtle after some operations, each of which may fail. -/
def perform (g : Geometry R) (ops : List Op) (growth : Turtle R) : Turtle R :=
  ops.foldl (fun growth op => (op.step g).reached growth) growth

/-- The number of joints that a command adds when it succeeds. -/
def gain (c : Command) : Nat := if c = .forward then 1 else 0

/-- The number of successful moves forward in a word. -/
def forwardsIn (g : Geometry R) (commands : Table String Command) : Word → Turtle R → Nat
  | [], _ => 0
  | s :: word, growth =>
    match (Command.process g commands s).run growth with
    | .ok _ growth' => (commands.get? s.tag).elim 0 gain + forwardsIn g commands word growth'
    | .error _ _ => 0

/-- The number of successful moves forward in an operation. -/
def Op.forwards (g : Geometry R) (op : Op) (growth : Turtle R) : Nat :=
  match op with
  | .command c params =>
    match (c.run g params).run growth with
    | .ok _ _ => gain c
    | .error _ _ => 0
  | .interpret commands word => forwardsIn g commands word growth

/-- The number of successful moves forward in some operations. -/
def forwards (g : Geometry R) : List Op → Turtle R → Nat
  | [], _ => 0
  | op :: ops, growth => op.forwards g growth + forwards g ops ((op.step g).reached growth)

section Induction

variable {P : Turtle R → Nat → Prop}
  (hmove : ∀ growth c params growth' n, Move g growth c params growth' → P growth n →
    P growth' (n + gain c))

include hmove

theorem interpret_induction (commands : Table String Command) (word : Word) (growth : Turtle R)
    (n : Nat) (h : P growth n) :
    P ((Step.interpret (Command.process g commands) word).reached growth)
      (n + forwardsIn g commands word growth) := by
  induction word generalizing growth n with
  | nil => exact h
  | cons s word ih =>
    rw [Step.reached_interpret_cons, forwardsIn]
    cases hget : commands.get? s.tag with
    | none =>
      simp only [process_run_none hget, Option.elim_none, Nat.zero_add]
      exact ih growth n h
    | some c =>
      simp only [process_run_some hget, Option.elim_some]
      rcases move_or_fault g c s.params growth with ⟨growth', hrun, hm⟩ | ⟨fault, hrun⟩
      · rw [hrun, ← Nat.add_assoc]
        exact ih growth' (n + gain c) (hmove growth c s.params growth' n hm h)
      · rw [hrun]
        exact h

/-- What every move keeps, all operations keep, with the joints counted. -/
theorem perform_induction (ops : List Op) (growth : Turtle R) (n : Nat) (h : P growth n) :
    P (perform g ops growth) (n + forwards g ops growth) := by
  induction ops generalizing growth n with
  | nil => exact h
  | cons op ops ih =>
    show P (perform g ops ((op.step g).reached growth)) _
    rw [forwards, ← Nat.add_assoc]
    refine ih _ _ ?_
    cases op with
    | command c params =>
      simp only [Op.step, Op.forwards, Action.reached]
      rcases move_or_fault g c params growth with ⟨growth', hrun, hm⟩ | ⟨fault, hrun⟩
      · rw [hrun]
        exact hmove growth c params growth' n hm h
      · rw [hrun]
        exact h
    | interpret commands word => exact interpret_induction hmove commands word growth n h

end Induction

/-! ## The tree of a turtle -/

theorem Move.size_eq {growth growth' : Turtle R} {c : Command} {params : List Value}
    (hmove : Move g growth c params growth') :
    growth'.tree.size = growth.tree.size + gain c := by
  cases hmove with
  | forward => exact Tree.size_graft ..
  | _ => rfl

theorem sound_perform (id : Nat) (root : Joint R) (diameter : R) (heading : Matrix3 R)
    (ops : List Op) :
    (perform g ops (sprout id root diameter heading)).Sound ∧
      (perform g ops (sprout id root diameter heading)).tree.size =
        1 + forwards g ops (sprout id root diameter heading) := by
  refine perform_induction (P := fun growth n => growth.Sound ∧ growth.tree.size = n) ?_ ops
    (sprout id root diameter heading) 1 ⟨sound_sprout id root diameter heading, rfl⟩
  intro growth c params growth' n hmove ⟨hsound, hsize⟩
  exact ⟨hmove.sound hsound, by rw [hmove.size_eq, hsize]⟩

/-- **The turtle grows a rooted tree.** After any operations there is one joint and one edge for
every successful move forward besides the root; the root has no edge to it and every other joint
exactly one, from an older joint; there is no cycle, and the root reaches everything; children are
in the order of their indices; and the current pose and the saved ones stand at joints. -/
theorem perform_rooted (g : Geometry R) (id : Nat) (root : Joint R) (diameter : R)
    (heading : Matrix3 R) (ops : List Op) :
    let start := sprout id root diameter heading
    let growth := perform g ops start
    growth.tree.size = 1 + forwards g ops start ∧
    growth.tree.edgeCount = forwards g ops start ∧
    (∀ i, ¬ growth.tree.Edge i 0) ∧
    (∀ k, 0 < k → k < growth.tree.size → ∃ i < k, growth.tree.edgesTo k = [(i, (k : Int))]) ∧
    (∀ i, ¬ TransGen growth.tree.Edge i i) ∧
    (∀ k < growth.tree.size, ReflTransGen growth.tree.Edge 0 k) ∧
    (∀ h children, growth.tree.children h = .ok children →
      children.Pairwise fun h k => h.index < k.index) ∧
    ∀ pose ∈ growth.state :: growth.saved, ∃ i, growth.tree.locate pose.last = .ok i := by
  intro start growth
  obtain ⟨⟨hrooted, hposes⟩, hsize⟩ := sound_perform (g := g) id root diameter heading ops
  refine ⟨hsize, ?_, hrooted.not_edge_zero, hrooted.parent, hrooted.not_transGen_edge,
    hrooted.reflTransGen_edge, ?_, ?_⟩
  · have hedges := hrooted.size_eq
    rw [hsize] at hedges
    exact (Nat.add_left_cancel hedges).symm
  · intro h children hchildren
    obtain ⟨k, -, rfl⟩ := Tree.children_eq_ok hchildren
    exact hrooted.increasing k
  · intro pose hpose
    exact Tree.exists_locate_iff.2 (hposes pose hpose)

end Arbor.Turtle
