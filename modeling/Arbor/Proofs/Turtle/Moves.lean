import Arbor.Proofs.Tree.Graft
import Arbor.Turtle.Basic

/-!
# What the turtle's commands do

A command that succeeds makes one of five moves (`Move`), and one that fails changes nothing. All
that is said about words and about sequences of commands comes from this: no later proof opens
the commands.
-/

namespace Arbor

/-! ## Steps in a row -/

namespace Step

variable {α σ : Type}

theorem interpret_cons_run (process : Symbol → Step α σ Unit) (s : Symbol) (w : Word)
    (growth : Growth α σ) :
    (interpret process (s :: w)).run growth =
      match (process s).run growth with
      | .ok _ growth' => (interpret process w).run growth'
      | .error fault growth' => .error fault growth' := by
  rw [interpret, EStateM.run_bind]
  cases (process s).run growth <;> rfl

theorem interpret_append_run (process : Symbol → Step α σ Unit) (u w : Word)
    (growth : Growth α σ) :
    (interpret process (u ++ w)).run growth =
      match (interpret process u).run growth with
      | .ok _ growth' => (interpret process w).run growth'
      | .error fault growth' => .error fault growth' := by
  induction u generalizing growth with
  | nil => rfl
  | cons s u ih =>
    rw [List.cons_append, interpret_cons_run, interpret_cons_run]
    cases (process s).run growth with
    | error fault growth' => rfl
    | ok _ growth' => exact ih growth'

theorem interpret_concat_run {process : Symbol → Step α σ Unit} {w : Word} {s : Symbol}
    {growth growth' : Growth α σ} :
    (interpret process (w ++ [s])).run growth = .ok () growth' ↔
      ∃ before, (interpret process w).run growth = .ok () before ∧
        (process s).run before = .ok () growth' := by
  have hone : ∀ before, (interpret process [s]).run before = (process s).run before := by
    intro before
    rw [interpret_cons_run]
    cases (process s).run before <;> rfl
  rw [interpret_append_run]
  cases (interpret process w).run growth with
  | error fault before => simp
  | ok _ before => simp [hone]

theorem reached_interpret_cons (process : Symbol → Step α σ Unit) (s : Symbol) (w : Word)
    (growth : Growth α σ) :
    (interpret process (s :: w)).reached growth =
      match (process s).run growth with
      | .ok _ growth' => (interpret process w).reached growth'
      | .error _ growth' => growth' := by
  rw [Action.reached, interpret_cons_run]
  cases (process s).run growth <;> rfl

theorem addNode_run (payload : α) (growth : Growth α σ) :
    (addNode payload).run growth =
      .ok (growth.tree.handleAt growth.tree.size)
        { growth with tree := (growth.tree.addNode payload).1 } := rfl

theorem addEdge_run {growth : Growth α σ} {start end_ : Handle}
    {ij : Fin growth.tree.nodes.size × Fin growth.tree.nodes.size}
    (h : growth.tree.ends start end_ = .ok ij) :
    (addEdge start end_).run growth =
      .ok () { growth with
        tree := growth.tree.appendChild ij.1 (growth.tree.handleAt ij.2) } := by
  rw [addEdge, Action.run_within, Tree.addEdge_run, h]

end Step

theorem Tree.size_addNode {α : Type} (t : Tree α) (payload : α) :
    (t.addNode payload).1.nodes.size = t.nodes.size + 1 :=
  Array.size_push ..

theorem Tree.ends_addNode {α : Type} {t : Tree α} {h : Handle} {i : Fin t.nodes.size}
    (hlocate : t.locate h = .ok i) (payload : α) :
    (t.addNode payload).1.ends h (t.handleAt t.size) =
      .ok (i.castSucc.cast (t.size_addNode payload).symm,
        (Fin.last t.nodes.size).cast (t.size_addNode payload).symm) := by
  have hlast : t.size < (t.addNode payload).1.size := by simp [addNode, size]
  rw [ends, show t.handleAt t.size = (t.addNode payload).1.handleAt t.size from rfl,
    locate_handleAt hlast, locate_eq_ok_iff.1 hlocate,
    show t.handleAt i = (t.addNode payload).1.handleAt i from rfl,
    locate_handleAt (Nat.lt_trans i.isLt hlast)]
  rfl

namespace Turtle

variable {R : Type} (g : Geometry R)

/-- The joint at `length` along the heading of a pose. -/
def ahead (pose : Pose R) (length : R) (here : Joint R) : Joint R :=
  ⟨g.plus here.position (g.scale length (g.image pose.heading g.up)), pose.diameter⟩

/-- The turtle with a joint grafted to the joint at an index, and moved there. -/
def extend (growth : Turtle R) (i : Nat) (joint : Joint R) : Turtle R :=
  { growth with
    tree := growth.tree.graft i joint
    state := { growth.state with last := growth.tree.handleAt growth.tree.size } }

theorem forward_run (value : Value) (growth : Turtle R) :
    (forward g value).run growth =
      match g.length value, growth.tree.locate growth.state.last with
      | .ok length, .ok i =>
        .ok () (extend growth i (ahead g growth.state length (growth.tree.node i).payload))
      | .ok _, .error fault => .error fault growth
      | .error fault, _ => .error fault growth := by
  cases hlength : g.length value with
  | error fault =>
    simp only [forward, Action.ofResult, hlength, EStateM.run_bind]
    rfl
  | ok length =>
    cases hlocate : growth.tree.locate growth.state.last with
    | error fault =>
      have hget : growth.tree.get growth.state.last = .error fault := by
        rw [Tree.get, hlocate]
        rfl
      simp only [forward, Action.ofResult, hlength, hget, EStateM.run_bind, EStateM.run_pure,
        EStateM.run_get]
      rfl
    | ok i =>
      have hget : growth.tree.get growth.state.last = .ok (growth.tree.node i).payload :=
        Tree.get_eq_ok_iff.2 ⟨i, hlocate, rfl⟩
      simp only [forward, Action.ofResult, hlength, hget, EStateM.run_bind, EStateM.run_pure,
        EStateM.run_get, Step.addNode_run]
      rw [Step.addEdge_run (Tree.ends_addNode hlocate _)]
      rfl

theorem diameter_run (value : Value) (growth : Turtle R) :
    (diameter g value).run growth =
      match g.length value with
      | .ok d => .ok () { growth with state := { growth.state with diameter := d } }
      | .error fault => .error fault growth := by
  unfold diameter
  cases g.length value <;> rfl

theorem rotate_run (x y z : Value) (growth : Turtle R) :
    (rotate g x y z).run growth =
      match g.rotation x y z with
      | .ok r =>
        .ok () { growth with
          state := { growth.state with heading := g.product growth.state.heading r } }
      | .error fault => .error fault growth := by
  unfold rotate
  cases g.rotation x y z <;> rfl

theorem pop_run (growth : Turtle R) :
    Step.pop.run growth =
      match growth.saved with
      | [] => .error .popEmpty growth
      | state :: saved => .ok () { growth with state := state, saved := saved } := by
  obtain ⟨tree, state, saved⟩ := growth
  cases saved <;> rfl

/-! ## The moves -/

/-- What a command with its parameters does to the turtle, when it succeeds. -/
inductive Move (growth : Turtle R) : Command → List Value → Turtle R → Prop
  | forward {value length i} : g.length value = .ok length →
      growth.tree.locate growth.state.last = .ok i →
      Move growth .forward [value]
        (extend growth i (ahead g growth.state length (growth.tree.node i).payload))
  | diameter {value d} : g.length value = .ok d →
      Move growth .diameter [value]
        { growth with state := { growth.state with diameter := d } }
  | rotate {x y z r} : g.rotation x y z = .ok r →
      Move growth .rotate [x, y, z]
        { growth with state := { growth.state with heading := g.product growth.state.heading r } }
  | push : Move growth .push [] { growth with saved := growth.state :: growth.saved }
  | pop {state saved} : growth.saved = state :: saved →
      Move growth .pop [] { growth with state := state, saved := saved }

/-- A command either makes a move or fails, and then nothing has changed. -/
theorem move_or_fault (c : Command) (params : List Value) (growth : Turtle R) :
    (∃ growth', (c.run g params).run growth = .ok () growth' ∧ Move g growth c params growth') ∨
      ∃ fault, (c.run g params).run growth = .error fault growth := by
  unfold Command.run
  split
  · rw [forward_run]
    cases hlength : g.length _ with
    | error fault => exact Or.inr ⟨fault, rfl⟩
    | ok length =>
      cases hlocate : growth.tree.locate growth.state.last with
      | error fault => exact Or.inr ⟨fault, rfl⟩
      | ok i => exact Or.inl ⟨_, rfl, .forward hlength hlocate⟩
  · rw [diameter_run]
    cases hlength : g.length _ with
    | error fault => exact Or.inr ⟨fault, rfl⟩
    | ok d => exact Or.inl ⟨_, rfl, .diameter hlength⟩
  · rw [rotate_run]
    cases hrotation : g.rotation _ _ _ with
    | error fault => exact Or.inr ⟨fault, rfl⟩
    | ok r => exact Or.inl ⟨_, rfl, .rotate hrotation⟩
  · exact Or.inl ⟨_, rfl, .push⟩
  · rw [pop_run]
    cases hsaved : growth.saved with
    | nil => exact Or.inr ⟨_, rfl⟩
    | cons state saved => exact Or.inl ⟨_, rfl, .pop hsaved⟩
  · exact Or.inr ⟨_, rfl⟩

variable {g}

/-- The moves are carried out. -/
theorem Move.run_eq {growth growth' : Turtle R} {c : Command} {params : List Value}
    (h : Move g growth c params growth') : (c.run g params).run growth = .ok () growth' := by
  cases h with
  | forward hlength hlocate =>
    simp only [Command.run, forward_run, hlength, hlocate]
  | diameter hlength => simp only [Command.run, diameter_run, hlength]
  | rotate hrotation => simp only [Command.run, rotate_run, hrotation]
  | push => rfl
  | pop hsaved => simp only [Command.run, pop_run, hsaved]

theorem run_eq_ok_iff {c : Command} {params : List Value} {growth growth' : Turtle R} :
    (c.run g params).run growth = .ok () growth' ↔ Move g growth c params growth' := by
  refine ⟨fun h => ?_, Move.run_eq⟩
  rcases move_or_fault g c params growth with ⟨reached, hrun, hmove⟩ | ⟨fault, hrun⟩
  · rw [hrun] at h
    cases h
    exact hmove
  · rw [hrun] at h
    cases h

theorem eq_of_run_error {c : Command} {params : List Value} {growth growth' : Turtle R}
    {fault : Fault} (h : (c.run g params).run growth = .error fault growth') :
    growth' = growth := by
  rcases move_or_fault g c params growth with ⟨reached, hrun, -⟩ | ⟨fault, hrun⟩
  · rw [hrun] at h
    cases h
  · rw [hrun] at h
    cases h
    rfl

/-! ## Symbols -/

theorem process_run_some {commands : Table String Command} {s : Symbol} {c : Command}
    (h : commands.get? s.tag = some c) (growth : Turtle R) :
    (Command.process g commands s).run growth = (c.run g s.params).run growth := by
  rw [Command.process, h]

/-- A symbol without a command is passed over. -/
theorem process_run_none {commands : Table String Command} {s : Symbol}
    (h : commands.get? s.tag = none) (growth : Turtle R) :
    (Command.process g commands s).run growth = .ok () growth := by
  rw [Command.process, h]
  rfl

/-- A symbol that succeeds is passed over or makes the move of its command. -/
theorem process_eq_ok_iff {commands : Table String Command} {s : Symbol}
    {growth growth' : Turtle R} :
    (Command.process g commands s).run growth = .ok () growth' ↔
      (commands.get? s.tag = none ∧ growth' = growth) ∨
        ∃ c, commands.get? s.tag = some c ∧ Move g growth c s.params growth' := by
  cases hget : commands.get? s.tag with
  | none =>
    rw [process_run_none hget]
    constructor
    · intro h
      cases h
      exact Or.inl ⟨rfl, rfl⟩
    · rintro (⟨-, rfl⟩ | ⟨c, hc, -⟩)
      · rfl
      · cases hc
  | some c =>
    rw [process_run_some hget, run_eq_ok_iff]
    constructor
    · intro hmove
      exact Or.inr ⟨c, rfl, hmove⟩
    · rintro (⟨hnone, -⟩ | ⟨c', hc, hmove⟩)
      · cases hnone
      · cases hc
        exact hmove

end Turtle

end Arbor
