import Arbor.Proofs.Command.Session
import Arbor.Proofs.Plan.Outcome
import Arbor.Proofs.Species.Growable

/-!
# Plans that have been read

A plan that has been read is one of the species, with parameters that are doubles and a factor that
exists, so its words evolve. It need not grow: infinite angles pass the checks of a plan, and so do
parameters that give a factor off the real line. What the commands `edges` and `validate` report
depends on nothing else.

* `Plan.exists_systemOf`: the species of a plan that has been read.
* `Cli.grow_snd_eq`: what growing a plan gives.
* `Plan.ofJson_grows`: which of the plans that have been read grow.
-/

namespace Arbor

namespace Cli

/-- Growing a plan whose word evolves is interpreting the word. -/
theorem grow_snd_eq {plan : Plan} {word : Word}
    (h : plan.system.evolve plan.iterations = .ok word) :
    (grow plan).2 =
      (plan.system.interpretJoints .binary64 plan.root word).map (⟨plan, word, ·⟩) := by
  obtain ⟨hstopped, hlast⟩ := Grammar.history_of_evolve h
  have hword : (plan.system.grammar.history plan.system.seed plan.iterations).1.getLastD [] =
      word := by
    rw [List.getLastD_eq_getLast?, hlast]
    rfl
  simp only [grow, hstopped, hword]
  cases plan.system.interpretJoints .binary64 plan.root word <;> rfl

/-- What a task grows from its file is what the plan in the file grows. -/
theorem Workspace.grown_eq {w : Workspace} {invocation : Invocation} {bytes : List UInt8}
    {plan : Plan} (hread : w.read invocation.task.config = .ok bytes)
    (hplan : readPlan invocation.task bytes = .ok plan) : w.grown invocation = (grow plan).2 := by
  simp only [grown, hread, hplan, bind, Except.bind]

end Cli

namespace Plan

/-- A plan that has been read is one of the species, with parameters that are doubles. -/
theorem exists_systemOf {value : Json} {plan : Plan} (h : ofJson value = .ok plan) :
    ∃ p d, plan.species = .honda p ∧ p.Doubles ∧ p.shrink = .ok d ∧
      plan.system = Honda.systemOf p d := by
  obtain ⟨fields, -, h⟩ := bind_eq_ok_iff.1 h
  obtain ⟨name, -, h⟩ := bind_eq_ok_iff.1 h
  obtain ⟨species, -, h⟩ := bind_eq_ok_iff.1 h
  obtain ⟨iterations, -, h⟩ := bind_eq_ok_iff.1 h
  obtain ⟨p, hp, h⟩ := bind_eq_ok_iff.1 h
  obtain ⟨system, hsystem, h⟩ := bind_eq_ok_iff.1 h
  obtain ⟨root, -, h⟩ := bind_eq_ok_iff.1 h
  obtain ⟨svg, -, h⟩ := bind_eq_ok_iff.1 h
  cases h
  obtain ⟨grammar, hgrammar, -⟩ := bind_eq_ok_iff.1 hsystem
  obtain ⟨d, hd, -⟩ := bind_eq_ok_iff.1 hgrammar
  refine ⟨p, d, rfl, doubles_of_field hp, hd, ?_⟩
  exact Except.ok.inj (hsystem.symm.trans (Honda.system_eq_ok hd))

theorem grow_eq {plan : Plan} {word : Word} (h : plan.system.evolve plan.iterations = .ok word) :
    plan.grow = plan.system.interpretJoints .binary64 plan.root word := by
  rw [grow, h]
  rfl

/-- A plan of the species grows if what it takes is met. -/
theorem exists_grow_iff {plan : Plan} {p : HondaParams} {d : Number} (hp : p.Doubles)
    (hd : p.shrink = .ok d) (hsystem : plan.system = Honda.systemOf p d) :
    ∃ word, plan.system.evolve plan.iterations = .ok word ∧
      ((∃ tree, plan.grow = .ok tree) ↔ Honda.Grows p d plan.iterations) ∧
      ∀ tree, plan.grow = .ok tree → tree.size = 2 ^ plan.iterations := by
  obtain ⟨word, hword, hgrows, hsize⟩ := Honda.exists_tree_iff hp hd plan.iterations plan.root
  rw [← hsystem] at hword hgrows hsize
  rw [grow_eq hword]
  exact ⟨word, hword, hgrows, hsize⟩

/-! ## Turned plans -/

/-- A plan for some generations in which the first side is turned by a yaw, and all internodes have
the diameter of the first. -/
def turned (iterations : Int) (yaw : Float) : Json :=
  .object [("iterations", .int iterations), ("params", .object [
    ("branch_yaw_1", .float yaw), ("branch_diameter_conservation_factor", .float 0.0)])]

def turnedParams (yaw : Float) : HondaParams :=
  { branchYaw1 := .float yaw, branchDiameterConservationFactor := .float 0.0 }

theorem shrink_turnedParams (yaw : Float) : (turnedParams yaw).shrink = .ok (.float 1.0) := by
  have hzero : ((0.0 : Float) == 0.0) = true := by decide +kernel
  show Number.floatPow 0.45 0.0 = _
  rw [Number.floatPow, if_pos hzero]

theorem exists_ofJson_turned (n : Nat) (yaw : Float) :
    ∃ plan, ofJson (turned n yaw) = .ok plan ∧ plan.species = .honda (turnedParams yaw) ∧
      plan.iterations = n := by
  have hcount : Grammar.generationCount (.int n) = .ok n := by
    rw [Grammar.generationCount, if_pos (Int.natCast_nonneg n), Int.toNat_natCast]
  have hsystem := Honda.system_eq_ok (shrink_turnedParams yaw)
  have hroot : readRoot (.float 10.0) (.object []) = .ok ⟨⟨0.0, 0.0, 0.0⟩, 10.0⟩ := by
    have hdiameter : (0.0 : Float) ≤ 10.0 := by decide +kernel
    show (if (0.0 : Float) ≤ 10.0 then _
      else throw (.outsideBound "root.diameter" .nonNegative)) = _
    rw [if_pos hdiameter]
    rfl
  have hread : ofJson (turned n yaw) = .ok ⟨LooseText.ofString "L-System tree",
      .honda (turnedParams yaw), Honda.systemOf (turnedParams yaw) (.float 1.0), n,
      ⟨⟨0.0, 0.0, 0.0⟩, 10.0⟩, {}⟩ :=
    bind_eq_ok_iff.2 ⟨_, rfl, bind_eq_ok_iff.2 ⟨_, rfl, bind_eq_ok_iff.2 ⟨_, rfl,
      bind_eq_ok_iff.2 ⟨_, hcount, bind_eq_ok_iff.2 ⟨turnedParams yaw, rfl,
        bind_eq_ok_iff.2 ⟨_, hsystem, bind_eq_ok_iff.2 ⟨_, hroot,
          bind_eq_ok_iff.2 ⟨_, rfl, rfl⟩⟩⟩⟩⟩⟩⟩⟩
  exact ⟨_, hread, rfl, rfl⟩

theorem turns_iff_of_turned {yaw : Float} :
    (∀ angle ∈ [(turnedParams yaw).branchPitch1, (turnedParams yaw).branchYaw1,
      (turnedParams yaw).branchPitch2, (turnedParams yaw).branchYaw2],
        (Value.number angle).Turns) ↔ Binary64.isInfinite yaw = false := by
  have hpitch : Binary64.isInfinite 180.0 = false := by decide +kernel
  have hyaw₂ : Binary64.isInfinite (-15.0) = false := by decide +kernel
  simp only [turnedParams, List.forall_mem_cons, Honda.turns_iff, hpitch, hyaw₂, true_and,
    List.not_mem_nil, false_imp_iff, implies_true, and_true]

/-! ## Plans that grow -/

/-- **Which plans grow.** The words of every plan that has been read evolve. The plan grows a tree
if no angle is infinite once there are sides, and the factor by which apices become thinner is on
the real line once it has become a diameter; the tree then has a joint for each apex of the last
generation. In no other case do the commands that draw nothing report a success. -/
theorem ofJson_grows {value : Json} {plan : Plan} (h : ofJson value = .ok plan) :
    ∃ p d, plan.species = .honda p ∧ p.shrink = .ok d ∧
      (∃ word, plan.system.evolve plan.iterations = .ok word) ∧
      ((∃ tree, plan.grow = .ok tree) ↔ Honda.Grows p d plan.iterations) ∧
      (∀ tree, plan.grow = .ok tree → tree.size = 2 ^ plan.iterations) ∧
      ∀ (w : Cli.Workspace) words invocation bytes, Cli.readInvocation words = .ok invocation →
        (∀ config output, invocation.task ≠ .svg config output) →
        w.read invocation.task.config = .ok bytes →
        Cli.readPlan invocation.task bytes = .ok plan →
        ((w.run words).1.exit = .code 0 ↔ Honda.Grows p d plan.iterations) := by
  obtain ⟨p, d, hspecies, hp, hd, hsystem⟩ := exists_systemOf h
  obtain ⟨word, hword, hgrows, hsize⟩ := exists_grow_iff hp hd hsystem
  refine ⟨p, d, hspecies, hd, ⟨word, hword⟩, hgrows, hsize,
    fun w words invocation bytes hwords htask hread hplan => ?_⟩
  refine (w.exit_run_iff hwords htask).trans (Iff.trans ?_ hgrows)
  rw [Cli.Workspace.grown_eq hread hplan, Cli.grow_snd_eq hword, grow_eq hword]
  cases plan.system.interpretJoints .binary64 plan.root word <;> simp [Except.map]

theorem ofJson_grows_turned :
    ∃ plan tree, ofJson (turned 2 30.0) = .ok plan ∧ plan.grow = .ok tree ∧ tree.size = 4 := by
  obtain ⟨plan, hplan, hspecies, hcount⟩ := exists_ofJson_turned 2 30.0
  obtain ⟨p, d, hp, hd, -, hgrows, hsize, -⟩ := ofJson_grows hplan
  cases hspecies.symm.trans hp
  cases (shrink_turnedParams 30.0).symm.trans hd
  rw [hcount] at hgrows hsize
  obtain ⟨tree, htree⟩ :=
    hgrows.2 (Or.inr ⟨turns_iff_of_turned.2 (by decide +kernel), Or.inr nofun⟩)
  exact ⟨plan, tree, hplan, htree, hsize tree htree⟩

/-- An infinite yaw is accepted, and there is no tree. -/
theorem not_forall_ofJson_grows : ¬ ∀ value plan, ofJson value = .ok plan →
    ∃ tree, plan.grow = .ok tree ∧ tree.size = 2 ^ plan.iterations := by
  intro h
  obtain ⟨plan, hplan, hspecies, hcount⟩ := exists_ofJson_turned 1 (Binary64.infinity false)
  obtain ⟨tree, htree, -⟩ := h _ plan hplan
  obtain ⟨p, d, hp, hdoubles, hd, hsystem⟩ := exists_systemOf hplan
  cases hspecies.symm.trans hp
  obtain ⟨word, -, hgrows, -⟩ := exists_grow_iff hdoubles hd hsystem
  rcases hgrows.1 ⟨tree, htree⟩ with hzero | ⟨hturns, -⟩
  · rw [hcount] at hzero
    cases hzero
  · have hinfinite : Binary64.isInfinite (Binary64.infinity false) = true := by decide +kernel
    rw [turns_iff_of_turned, hinfinite] at hturns
    cases hturns

end Plan

end Arbor
