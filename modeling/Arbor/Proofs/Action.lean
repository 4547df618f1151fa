import Arbor.Action
import Mathlib.Order.Defs.Unbundled

/-!
# Running actions

What an action and what follows it come to, and what is left of the state when one of the two fails.
What no step of an action changes (`Keeps`), the whole of it does not change, wherever it ends.
-/

namespace Arbor.Action

variable {σ τ α β : Type} {s s' : σ} {fault : Fault}

theorem run_ofResult (result : Except Fault β) (s : σ) :
    (ofResult result).run s = match result with
      | .ok b => .ok b s
      | .error fault => .error fault s := by
  cases result <;> rfl

theorem run_query (read : σ → Except Fault β) (s : σ) :
    (query read).run s = match read s with
      | .ok b => .ok b s
      | .error fault => .error fault s := by
  rw [query, EStateM.run_bind, EStateM.run_get]
  exact run_ofResult (read s) s

/-! ## One after the other -/

section Bind

variable {action : Action σ α} {next : α → Action σ β}

theorem bind_run_ok_iff {b : β} :
    (action >>= next).run s = .ok b s' ↔
      ∃ a t, action.run s = .ok a t ∧ (next a).run t = .ok b s' := by
  rw [EStateM.run_bind]
  cases action.run s with
  | ok a t => simp [and_assoc]
  | error fault t => simp

theorem bind_run_error_iff :
    (action >>= next).run s = .error fault s' ↔
      action.run s = .error fault s' ∨
        ∃ a t, action.run s = .ok a t ∧ (next a).run t = .error fault s' := by
  rw [EStateM.run_bind]
  cases action.run s with
  | ok a t => simp [and_assoc]
  | error fault t => simp

end Bind

/-- What handles a fault starts from the state that the fault left. -/
theorem run_tryCatch (action : Action σ β) (handle : Fault → Action σ β) (s : σ) :
    (tryCatch action handle).run s = match action.run s with
      | .ok b s' => .ok b s'
      | .error fault s' => (handle fault).run s' := by
  show EStateM.tryCatch action handle s = _
  delta EStateM.tryCatch EStateM.run
  cases action s <;> rfl

/-! ## Parts of a state -/

theorem run_within {get : σ → τ} {put : τ → σ → σ} {action : Action τ β} :
    (within get put action).run s = match action.run (get s) with
      | .ok b t => .ok b (put t s)
      | .error fault t => .error fault (put t s) := rfl

/-! ## The state that is reached -/

section Reached

variable {action : Action σ β}

theorem reached_of_ok {b : β} (h : action.run s = .ok b s') : action.reached s = s' := by
  rw [reached, h]

theorem reached_of_error (h : action.run s = .error fault s') : action.reached s = s' := by
  rw [reached, h]

end Reached

/-! ## What an action keeps -/

/-- The state that an action reaches is so related to the state before it, also if it fails. -/
def Keeps (R : σ → σ → Prop) (action : Action σ β) : Prop := ∀ s, R s (action.reached s)

section Keeps

variable {R : σ → σ → Prop}

theorem Keeps.of_ok {action : Action σ β} (h : action.Keeps R) {b : β}
    (hrun : action.run s = .ok b s') : R s s' := by
  rw [← reached_of_ok hrun]
  exact h s

theorem Keeps.of_error {action : Action σ β} (h : action.Keeps R)
    (hrun : action.run s = .error fault s') : R s s' := by
  rw [← reached_of_error hrun]
  exact h s

theorem Keeps.bind [IsTrans σ R] {action : Action σ α} {next : α → Action σ β}
    (h : action.Keeps R) (hnext : ∀ a, (next a).Keeps R) : (action >>= next).Keeps R := by
  intro s
  rw [reached, EStateM.run_bind]
  cases haction : action.run s with
  | error fault t => exact h.of_error haction
  | ok a t => exact trans_of R (h.of_ok haction) (hnext a t)

variable [Std.Refl R]

theorem Keeps.pure (b : β) : Keeps R (Pure.pure b : Action σ β) := fun s => refl_of R s

theorem Keeps.query (read : σ → Except Fault β) : Keeps R (query read) := by
  intro s
  rw [reached, run_query]
  cases read s <;> exact refl_of R s

theorem Keeps.forM [IsTrans σ R] {step : α → Action σ Unit} (h : ∀ a, (step a).Keeps R)
    (l : List α) : (l.forM step).Keeps R := by
  induction l with
  | nil => exact .pure ()
  | cons a l ih =>
    rw [List.forM_eq_forM, List.forM_cons]
    exact (h a).bind fun _ => ih

end Keeps

/-! ## What an action fails with -/

/-- Whatever the action fails with, wherever it is run, is one of the faults that are expected. -/
def FailsOnly (expected : Fault → Prop) (action : Action σ β) : Prop :=
  ∀ s fault s', action.run s = .error fault s' → expected fault

section FailsOnly

variable {expected : Fault → Prop}

theorem FailsOnly.query {read : σ → Except Fault β}
    (h : ∀ s fault, read s = .error fault → expected fault) :
    (query read).FailsOnly expected := by
  intro s fault s' hrun
  rw [run_query] at hrun
  cases hread : read s with
  | ok b => simp [hread] at hrun
  | error fault' =>
    rw [hread] at hrun
    cases hrun
    exact h s _ hread

theorem FailsOnly.bind {action : Action σ α} {next : α → Action σ β}
    (h : action.FailsOnly expected) (hnext : ∀ a, (next a).FailsOnly expected) :
    (action >>= next).FailsOnly expected := by
  intro s fault s' hrun
  rcases bind_run_error_iff.1 hrun with haction | ⟨a, t, -, hrest⟩
  · exact h s fault s' haction
  · exact hnext a t fault s' hrest

theorem FailsOnly.forM {step : α → Action σ Unit} (h : ∀ a, (step a).FailsOnly expected)
    (l : List α) : (l.forM step).FailsOnly expected := by
  induction l with
  | nil => rintro s fault s' ⟨⟩
  | cons a l ih =>
    rw [List.forM_eq_forM, List.forM_cons]
    exact (h a).bind fun _ => ih

end FailsOnly

end Arbor.Action
