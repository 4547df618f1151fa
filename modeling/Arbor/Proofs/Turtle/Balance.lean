import Arbor.Proofs.Binary64.Product
import Arbor.Proofs.Turtle.Acceptance

/-!
# Balanced words grow

With the parameters that the turtle's commands ask for, only brackets can go wrong: a command other
than a closing bracket never fails, because the turtle always stands at a joint of its tree and no
angle that is finite in degrees is infinite in radians. So a word grows a tree exactly when its
brackets match. The two ways to fail, going back to a pose that was not saved and leaving saved
poses behind, are faults of the same kind.

* `Callable.accepts`: which commands cannot fail.
* `interpret_callable`: which words the turtle follows to their end.
* `interpretJoints_iff_dyck`: which words grow a tree.
-/

namespace Arbor

/-- An angle that is not infinite: the double that the parameter stands for. -/
def Value.Turns (v : Value) : Prop :=
  ∃ degrees, Geometry.binary64.angle v = .ok degrees ∧ Binary64.isInfinite degrees = false

/-- The parameters that a command can be called with: as many as it has arguments, each of which
converts to a double, and no infinite angles. -/
inductive Callable : Command → List Value → Prop
  | forward {v length} : Geometry.binary64.length v = .ok length → Callable .forward [v]
  | diameter {v diameter} : Geometry.binary64.length v = .ok diameter → Callable .diameter [v]
  | rotate {x y z} : x.Turns → y.Turns → z.Turns → Callable .rotate [x, y, z]
  | push : Callable .push []
  | pop : Callable .pop []

/-- A symbol without a command, or one whose command can be called. -/
def Symbol.Callable (s : Symbol) : Prop :=
  ∀ c, Command.standard.get? s.tag = some c → Arbor.Callable c s.params

theorem turn_eq_ok {degrees : Float} (h : Binary64.isInfinite degrees = false) :
    ∃ cs, Geometry.binary64.turn degrees = .ok cs := by
  have hradians : ¬ Binary64.isInfinite (degrees * radiansPerDegree) = true := by
    rw [Binary64.isInfinite_radians h]
    exact Bool.false_ne_true
  exact ⟨_, if_neg hradians⟩

theorem rotation_eq_ok {x y z : Value} (hx : x.Turns) (hy : y.Turns) (hz : z.Turns) :
    ∃ r, Geometry.binary64.rotation x y z = .ok r := by
  obtain ⟨x', hx, hfinitex⟩ := hx
  obtain ⟨y', hy, hfinitey⟩ := hy
  obtain ⟨z', hz, hfinitez⟩ := hz
  obtain ⟨cx, hcx⟩ := turn_eq_ok hfinitex
  obtain ⟨cy, hcy⟩ := turn_eq_ok hfinitey
  obtain ⟨cz, hcz⟩ := turn_eq_ok hfinitez
  simp only [Geometry.rotation, hx, hy, hz, bind, Except.bind, hcx, hcy, hcz]
  exact ⟨_, rfl⟩

theorem Callable.accepts {c : Command} {params : List Value} (h : Callable c params) :
    Accepts .binary64 c params := by
  cases h with
  | forward hlength => exact .forward hlength
  | diameter hlength => exact .diameter hlength
  | rotate hx hy hz =>
    obtain ⟨r, hrotation⟩ := rotation_eq_ok hx hy hz
    exact .rotate hrotation
  | push => exact .push
  | pop => exact .pop

namespace Turtle

/-- The turtle goes to the end of a word if it has saved a pose for each closing bracket that has
no match in the word. -/
theorem interpret_callable {w : Word} (hw : ∀ s ∈ w, s.Callable) {growth : Turtle Float}
    (hsound : growth.Sound) :
    (w.surplus ≤ growth.saved.length → ∃ growth', Runs .binary64 growth w growth') ∧
      (growth.saved.length < w.surplus → ∃ growth',
        (Step.interpret (Command.process .binary64 Command.standard) w).run growth =
          .error .popEmpty growth') := by
  have haccepted : ∀ s ∈ w, s.Accepted .binary64 := fun s hs c hc => (hw s hs c hc).accepts
  exact ⟨fun h => (exists_runs_iff hsound).2 ⟨haccepted, h⟩, popEmpty_of_surplus hsound haccepted⟩

theorem interpretJoints_eq (seed : Word) (grammar : Grammar) (root : Joint Float) (w : Word) :
    (LSystem.ofCommands .binary64 seed grammar Command.standard).interpretJoints .binary64 root w =
      match (Step.interpret (Command.process .binary64 Command.standard) w).run
        (initial .binary64 root) with
      | .error fault _ => .error fault
      | .ok _ growth =>
        if growth.saved.length = 0 then .ok growth.tree
        else .error (.neverPopped growth.saved.length) := by
  have hinitial : LSystem.initialGrowth root (startPose .binary64 root) =
      .ok (initial .binary64 root) := rfl
  rw [LSystem.interpretJoints, LSystem.interpret, hinitial]
  simp only [bind, Except.bind, LSystem.ofCommands]
  cases (Step.interpret (Command.process .binary64 Command.standard) w).run
    (initial .binary64 root) <;> rfl

/-- A word grows a tree or fails, as its brackets match or do not. -/
theorem interpretJoints_cases (seed : Word) (grammar : Grammar) (root : Joint Float) {w : Word}
    (hw : ∀ s ∈ w, s.Callable) :
    let grown := (LSystem.ofCommands .binary64 seed grammar Command.standard).interpretJoints
      .binary64 root w
    (Word.Dyck w ∧ ∃ tree, grown = .ok tree ∧ tree.size = 1 + w.joints) ∨
      (¬ Word.Dyck w ∧ ∃ fault, grown = .error fault ∧ fault.kind = .stackUnderflow) := by
  obtain ⟨hok, herror⟩ := interpret_callable hw (sound_sprout 0 root root.diameter _)
  simp only [interpretJoints_eq, Word.dyck_iff_balanced, Word.balanced_iff]
  rcases Nat.eq_zero_or_pos w.surplus with hzero | hpos
  · obtain ⟨growth, hrun⟩ := hok (Nat.le_of_eq hzero)
    have htracks := tracks_of_runs 0 0 hrun
    have hsaved : growth.saved.length = w.unfinished.length := by
      rw [htracks.saved.length_eq, List.length_reverse]
    have heq : (Step.interpret (Command.process .binary64 Command.standard) w).run
        (initial .binary64 root) = .ok () growth := hrun
    simp only [heq, hsaved, List.length_eq_zero_iff]
    by_cases hunfinished : w.unfinished = []
    · rw [if_pos hunfinished]
      exact Or.inl ⟨⟨hzero, hunfinished⟩, growth.tree, rfl, htracks.size⟩
    · rw [if_neg hunfinished]
      exact Or.inr ⟨fun h => hunfinished h.2, _, rfl, rfl⟩
  · obtain ⟨growth, hrun⟩ := herror hpos
    have heq : (Step.interpret (Command.process .binary64 Command.standard) w).run
        (initial .binary64 root) = .error .popEmpty growth := hrun
    simp only [heq]
    exact Or.inr ⟨fun h => Nat.ne_of_gt hpos h.1, _, rfl, rfl⟩

/-- **A word grows a tree exactly when its brackets match.** If each symbol of a word is without a
command or has parameters that its command can be called with, the word grows a tree from any root
if its brackets are a Dyck word; the tree then has a joint for each move forward besides the root.
In all other cases something is missing on the stack of saved poses. An L-system that evolves to the
word constructs what the word is interpreted as. -/
theorem interpretJoints_iff_dyck (seed : Word) (grammar : Grammar) (root : Joint Float) (w : Word)
    (hw : ∀ s ∈ w, s.Callable) :
    let l := LSystem.ofCommands .binary64 seed grammar Command.standard
    ((∃ tree, l.interpretJoints .binary64 root w = .ok tree) ↔ Word.Dyck w) ∧
    (∀ tree, l.interpretJoints .binary64 root w = .ok tree → tree.size = 1 + w.joints) ∧
    (∀ fault, l.interpretJoints .binary64 root w = .error fault →
      fault.kind = .stackUnderflow) ∧
    ∀ n : Nat, l.evolve n = .ok w →
      l.growJoints .binary64 (.ok root) (.int n) = l.interpretJoints .binary64 root w := by
  intro l
  have hagree : ∀ n : Nat, l.evolve n = .ok w →
      l.growJoints .binary64 (.ok root) (.int n) = l.interpretJoints .binary64 root w := by
    intro n hn
    have hcount : Grammar.generationCount (.int n) = .ok n := by
      rw [Grammar.generationCount, if_pos (Int.natCast_nonneg n), Int.toNat_natCast]
    rw [LSystem.growJoints, LSystem.construct, hcount]
    simp only [bind, Except.bind, hn]
    rfl
  rcases interpretJoints_cases seed grammar root hw with ⟨hdyck, tree, hgrown, hsize⟩ |
    ⟨hdyck, fault, hgrown, hkind⟩
  · refine ⟨iff_of_true ⟨tree, hgrown⟩ hdyck, fun tree' h => ?_, fun fault h => ?_, hagree⟩
    · cases hgrown.symm.trans h
      exact hsize
    · cases hgrown.symm.trans h
  · refine ⟨iff_of_false ?_ hdyck, fun tree h => ?_, fun fault' h => ?_, hagree⟩
    · rintro ⟨tree, h⟩
      cases hgrown.symm.trans h
    · cases hgrown.symm.trans h
    · cases hgrown.symm.trans h
      exact hkind

/-- The turtle turns aside, makes a branch and comes back; a symbol that it does not know is passed
over. -/
theorem interpretJoints_aside :
    let root : Joint Float := ⟨⟨0.0, 0.0, 0.0⟩, 1.0⟩
    let aside : List Value := [.number (.float 0.0), .number (.float 0.0), .number (.float 90.0)]
    let w : Word :=
      [⟨"[", []⟩, ⟨"R", aside⟩, ⟨"F", [.number (.int 2)]⟩, ⟨"]", []⟩, ⟨"A", [.string "x"]⟩]
    ∃ tree, (LSystem.ofCommands .binary64 w (.empty .turtle) Command.standard).interpretJoints
      .binary64 root w = .ok tree := by
  intro root aside w
  have hzero : Value.Turns (.number (.float 0.0)) := ⟨0.0, rfl, by decide +kernel⟩
  have hright : Value.Turns (.number (.float 90.0)) := ⟨90.0, rfl, by decide +kernel⟩
  have hw : ∀ s ∈ w, s.Callable := by
    simp only [w, List.forall_mem_cons]
    refine ⟨?_, ?_, ?_, ?_, ?_, List.forall_mem_nil _⟩ <;> intro c hc <;> cases hc
    · exact .push
    · exact .rotate hzero hzero hright
    · exact .forward rfl
    · exact .pop
  exact (interpretJoints_iff_dyck w (.empty .turtle) root w hw).1.2 (by decide)

end Turtle

end Arbor
