import Arbor.Command.Workspace
import Arbor.Proofs.Action

/-!
# Running the program in a workspace

Until a task is answered nothing is printed and no file is touched (`Silent`), whether the plan
grows or not. What is printed then cannot fail, and what can fail, a drawing, prints nothing. So a
run ends as its task does (`run_cases`), with all that has been printed up to there.

* `grow_run`: growing the plan in the file of a task.
* `printAll_run`, `svg_run_cases`: the answers.
* `run_cases`: the whole run.
-/

namespace Arbor.Cli

theorem ofExcept_eq {σ β : Type} (result : Except Fault β) :
    (MonadExcept.ofExcept result : Action σ β) = Action.ofResult result := by
  cases result <;> rfl

/-- What is grown from the plan in the file of a task. -/
def Workspace.grown (w : Workspace) (invocation : Invocation) : Except Fault Grown := do
  let bytes ← w.read invocation.task.config
  let plan ← readPlan invocation.task bytes
  (grow plan).2

namespace Session

variable {s s' : Session} {invocation : Invocation}

/-- The workspace is the same, and nothing more has been printed. -/
def Silent (s s' : Session) : Prop := s'.workspace = s.workspace ∧ s'.printed = s.printed

/-! ## Growing -/

theorem readFile_run (path : String) (s : Session) :
    (Console.readFile path : Action Session (List UInt8)).run s =
      match s.workspace.read path with
      | .ok bytes => .ok bytes s
      | .error fault => .error fault s := by
  show (Action.query fun s : Session => s.workspace.read path).run s = _
  rw [Action.run_query]
  cases s.workspace.read path <;> rfl

/-- A plan is grown in silence. -/
theorem grow_run (invocation : Invocation) (s : Session) :
    ∃ s', s.Silent s' ∧ (invocation.grow : Action Session Grown).run s =
      match s.workspace.grown invocation with
      | .ok grown => .ok grown s'
      | .error fault => .error fault s' := by
  simp only [Invocation.grow, Workspace.grown, EStateM.run_bind, readFile_run, ofExcept_eq,
    Action.run_ofResult]
  cases s.workspace.read invocation.task.config with
  | error fault => exact ⟨s, ⟨rfl, rfl⟩, rfl⟩
  | ok bytes =>
    cases hplan : readPlan invocation.task bytes with
    | error fault =>
      refine ⟨s, ⟨rfl, rfl⟩, ?_⟩
      simp only [bind, Except.bind, hplan]
    | ok plan =>
      refine ⟨{ s with warned :=
        (if invocation.verbose then ((grow plan).1 : LooseText) else "") :: s.warned },
        ⟨rfl, rfl⟩, ?_⟩
      simp only [bind, Except.bind, hplan]
      cases (grow plan).2 <;> rfl

/-! ## Answering -/

/-- Lines are printed one after another, and none of them fails. -/
theorem printAll_run {α : Type} (line : α → LooseText) (l : List α) (s : Session) :
    (l.forM fun a => Console.print (line a) : Action Session Unit).run s =
      .ok () { s with printed := (l.map line).reverse ++ s.printed } := by
  induction l generalizing s with
  | nil => rfl
  | cons a l ih =>
    rw [List.forM_eq_forM, List.forM_cons, EStateM.run_bind]
    refine (ih { s with printed := line a :: s.printed }).trans ?_
    simp

/-- What is not a drawing is printed, and does not fail. -/
theorem exists_printed {task : Task} (htask : ∀ config output, task ≠ .svg config output)
    (grown : Grown) (s : Session) :
    ∃ printed, (task.answer grown : Action Session Unit).run s = .ok () { s with printed } := by
  cases task with
  | edges config => exact ⟨_, printAll_run _ _ s⟩
  | validate config => exact ⟨_, printAll_run _ _ s⟩
  | svg config output => exact absurd rfl (htask config output)

theorem writeFile_run (path : String) (contents : LooseText) (s : Session) :
    (Console.writeFile path contents : Action Session Unit).run s =
      match (Workspace.writeFile path contents).run s.workspace with
      | .ok _ w => .ok () { s with workspace := w }
      | .error fault w => .error fault { s with workspace := w } := by
  show (Action.within workspace (fun w s => { s with workspace := w })
    (Workspace.writeFile path contents)).run s = _
  rw [Action.run_within]
  cases (Workspace.writeFile path contents).run s.workspace <;> rfl

/-- A drawing is written, if there is one, and nothing is printed. -/
theorem svg_run_cases (grown : Grown) (config : String) (output : Option String) (s : Session) :
    let run := ((Task.svg config output).answer grown : Action Session Unit).run s
    (∃ fault, run = .error fault s) ∨
      ∃ path contents, output = some path ∧ drawing grown = .ok contents ∧
        ((∃ w, (Workspace.writeFile path contents).run s.workspace = .ok () w ∧
            run = .ok () { s with workspace := w }) ∨
          ∃ fault w, (Workspace.writeFile path contents).run s.workspace = .error fault w ∧
            run = .error fault { s with workspace := w }) := by
  intro run
  have hrun : ((Task.svg config output).answer grown : Action Session Unit).run s = run := rfl
  rw [Task.answer, EStateM.run_bind, ofExcept_eq, Action.run_ofResult] at hrun
  cases hdrawing : drawing grown with
  | error fault =>
    rw [hdrawing] at hrun
    exact Or.inl ⟨fault, hrun.symm⟩
  | ok contents =>
    rw [hdrawing] at hrun
    cases output with
    | none => exact Or.inl ⟨.pathNotText, hrun.symm⟩
    | some path =>
      refine Or.inr ⟨path, contents, rfl, rfl, ?_⟩
      replace hrun : (Console.writeFile path contents : Action Session Unit).run s = run := hrun
      rw [writeFile_run] at hrun
      cases hwrite : (Workspace.writeFile path contents).run s.workspace with
      | ok _ w => exact Or.inl ⟨w, rfl, by rw [← hrun, hwrite]⟩
      | error fault w => exact Or.inr ⟨fault, w, rfl, by rw [← hrun, hwrite]⟩

/-! ## Whole runs -/

/-- A task is answered once its plan has been grown. -/
theorem carryOut_run (invocation : Invocation) (s : Session) :
    ∃ s', s.Silent s' ∧ (invocation.carryOut : Action Session Unit).run s =
      match s.workspace.grown invocation with
      | .ok grown => (invocation.task.answer grown : Action Session Unit).run s'
      | .error fault => .error fault s' := by
  obtain ⟨s', hsilent, hgrow⟩ := grow_run invocation s
  refine ⟨s', hsilent, ?_⟩
  rw [Invocation.carryOut, EStateM.run_bind, hgrow]
  cases s.workspace.grown invocation <;> rfl

/-- The report of a run that ends with a fault. -/
def report (s : Session) (fault : Fault) : Report :=
  match concern? fault.kind with
  | some concern => ⟨.code 2, s.stdout,
      s.stderr ++ (LooseText.ofString concern ++ fault.message ++ [.char '\n'])⟩
  | none => ⟨.unhandled fault, s.stdout, s.stderr⟩

/-- A fault is never reported as a success. -/
theorem exit_report (s : Session) (fault : Fault) : (s.report fault).exit ≠ .code 0 := by
  unfold report
  split <;> simp

theorem tell_run (fault : Fault) (s : Session) :
    (tell fault : Action Session Nat).run s =
      match concern? fault.kind with
      | some concern =>
        .ok 2 { s with
          warned := (LooseText.ofString concern ++ fault.message ++ [.char '\n']) :: s.warned }
      | none => .error fault s := by
  unfold tell
  cases concern? fault.kind <;> rfl

/-- A run ends as its task does, and reports what it has printed until then. -/
theorem run_cases (w : Workspace) {words : List String}
    (hwords : readInvocation words = .ok invocation) :
    (∃ s, (invocation.carryOut : Action Session Unit).run { workspace := w } = .ok () s ∧
      w.run words = (⟨.code 0, s.stdout, s.stderr⟩, s.workspace)) ∨
    ∃ fault s, (invocation.carryOut : Action Session Unit).run { workspace := w } = .error fault s ∧
      w.run words = (s.report fault, s.workspace) := by
  unfold Workspace.run
  rw [hwords]
  simp only [Invocation.run, Action.run_tryCatch, EStateM.run_bind]
  cases (invocation.carryOut : Action Session Unit).run { workspace := w } with
  | ok _ s => exact Or.inl ⟨s, rfl, rfl⟩
  | error fault s =>
    refine Or.inr ⟨fault, s, rfl, ?_⟩
    simp only [tell_run, report]
    cases concern? fault.kind <;> simp [stdout, stderr]

end Session

/-- What is not a drawing is reported as a success if the plan grows. -/
theorem Workspace.exit_run_iff (w : Workspace) {words : List String} {invocation : Invocation}
    (hwords : readInvocation words = .ok invocation)
    (htask : ∀ config output, invocation.task ≠ .svg config output) :
    (w.run words).1.exit = .code 0 ↔ ∃ grown, w.grown invocation = .ok grown := by
  obtain ⟨s', -, hcarry⟩ := Session.carryOut_run invocation { workspace := w }
  cases hgrown : w.grown invocation with
  | ok grown =>
    obtain ⟨printed, hanswer⟩ := Session.exists_printed htask grown s'
    simp only [hgrown, hanswer] at hcarry
    rcases Session.run_cases w hwords with ⟨s, hok, hrun⟩ | ⟨fault, s, herror, -⟩
    · exact iff_of_true (by rw [hrun]) ⟨grown, rfl⟩
    · cases hcarry.symm.trans herror
  | error fault =>
    simp only [hgrown] at hcarry
    rcases Session.run_cases w hwords with ⟨s, hok, -⟩ | ⟨fault', s, -, hrun⟩
    · cases hcarry.symm.trans hok
    · refine iff_of_false ?_ (by simp)
      rw [hrun]
      exact s.exit_report fault'

end Arbor.Cli
