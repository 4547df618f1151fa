import Arbor.Fault

/-!
# Actions

An action changes a state step by step, and may fail on the way. The state is then what the steps
before the fault have made of it: nothing is taken back, and the steps after it are not taken.
-/

namespace Arbor

/-- An action on a state. A fault keeps the state reached before it. -/
abbrev Action (σ β : Type) := EStateM Fault σ β

namespace Action

variable {σ τ β : Type}

/-- An action that only computes. -/
def ofResult (result : Except Fault β) : Action σ β :=
  match result with
  | .ok b => pure b
  | .error fault => throw fault

/-- An action that only reads the state. -/
def query (read : σ → Except Fault β) : Action σ β := do
  let s ← get
  ofResult (read s)

/-- An action on a part of a state. What it makes of the part becomes part of the state, also if it
fails. -/
def within (get : σ → τ) (put : τ → σ → σ) (action : Action τ β) : Action σ β := fun s =>
  match action.run (get s) with
  | .ok b t => .ok b (put t s)
  | .error fault t => .error fault (put t s)

/-- The state that an action reaches, whether it fails or not. -/
def reached (action : Action σ β) (s : σ) : σ :=
  match action.run s with
  | .ok _ s' => s'
  | .error _ s' => s'

end Action

end Arbor
