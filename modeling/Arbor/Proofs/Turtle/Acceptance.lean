import Arbor.Proofs.Turtle.Spine

/-!
# What the turtle accepts

The turtle always stands at a joint of its tree, so whether it can carry out a command depends on
the parameters alone (`Accepts`), and for going back on whether a pose has been saved. A command
that it cannot carry out changes nothing, and so a word that fails has been carried out up to the
symbol that fails and no further.

* `exists_run_iff`, `exists_process_iff`: which commands and which symbols can be carried out.
* `exists_runs_iff`: which words can.
* `popEmpty_of_surplus`: why a word fails if its parameters do not.
* `interpret_error_iff`: where a word fails.
* `process_all_or_nothing`: what is left of a command and of a word that fails.
-/

namespace Arbor

/-- The parameters that a command accepts: as many as it has arguments, lengths and diameters that
can be measured, and angles that can be turned by. -/
inductive Accepts {R : Type} (g : Geometry R) : Command → List Value → Prop
  | forward {value length} : g.length value = .ok length → Accepts g .forward [value]
  | diameter {value d} : g.length value = .ok d → Accepts g .diameter [value]
  | rotate {x y z r} : g.rotation x y z = .ok r → Accepts g .rotate [x, y, z]
  | push : Accepts g .push []
  | pop : Accepts g .pop []

/-- A symbol without a command, or one whose command accepts its parameters. -/
def Symbol.Accepted {R : Type} (g : Geometry R) (s : Symbol) : Prop :=
  ∀ c, Command.standard.get? s.tag = some c → Accepts g c s.params

namespace Step

variable {α σ : Type} {process : Symbol → Step α σ Unit}

/-- A word fails where a symbol of it fails, after all symbols before this one. -/
theorem interpret_error_iff {w : Word} {growth stopped : Growth α σ} {fault : Fault} :
    (interpret process w).run growth = .error fault stopped ↔
      ∃ u s v before, w = u ++ s :: v ∧ (interpret process u).run growth = .ok () before ∧
        (process s).run before = .error fault stopped := by
  constructor
  · intro h
    induction w generalizing growth with
    | nil => cases h
    | cons s w ih =>
      rw [interpret_cons_run] at h
      cases hs : (process s).run growth with
      | error fault' growth' =>
        rw [hs] at h
        cases h
        exact ⟨[], s, w, growth, rfl, rfl, hs⟩
      | ok _ next =>
        rw [hs] at h
        obtain ⟨u, s', v, before, rfl, hu, hs'⟩ := ih h
        refine ⟨s :: u, s', v, before, rfl, ?_, hs'⟩
        rw [interpret_cons_run, hs]
        exact hu
  · rintro ⟨u, s, v, before, rfl, hu, hs⟩
    rw [interpret_append_run, hu]
    simp only [interpret_cons_run, hs]

end Step

namespace Turtle

variable {R : Type} {g : Geometry R} {growth growth' : Turtle R}

/-! ## Commands -/

theorem Move.accepts {c : Command} {params : List Value} (h : Move g growth c params growth') :
    Accepts g c params := by
  cases h with
  | forward hlength _ => exact .forward hlength
  | diameter hlength => exact .diameter hlength
  | rotate hrotation => exact .rotate hrotation
  | push => exact .push
  | pop _ => exact .pop

/-- Where all poses stand at joints, a command can be carried out exactly if it accepts its
parameters and, if it goes back, a pose has been saved. -/
theorem exists_run_iff (hsound : growth.Sound) {c : Command} {params : List Value} :
    (∃ growth', (c.run g params).run growth = .ok () growth') ↔
      Accepts g c params ∧ (c = .pop → growth.saved ≠ []) := by
  simp only [run_eq_ok_iff]
  constructor
  · rintro ⟨growth', hmove⟩
    refine ⟨hmove.accepts, ?_⟩
    rintro rfl hsaved
    cases hmove with
    | pop hcons => cases hsaved.symm.trans hcons
  · rintro ⟨haccepts, hpop⟩
    cases haccepts with
    | forward hlength =>
      obtain ⟨i, hlocate⟩ := Tree.exists_locate_iff.2 (hsound.poses _ List.mem_cons_self)
      exact ⟨_, .forward hlength hlocate⟩
    | diameter hlength => exact ⟨_, .diameter hlength⟩
    | rotate hrotation => exact ⟨_, .rotate hrotation⟩
    | push => exact ⟨_, .push⟩
    | pop =>
      obtain ⟨pose, saved, hsaved⟩ := List.exists_cons_of_ne_nil (hpop rfl)
      exact ⟨_, .pop hsaved⟩

/-! ## Symbols -/

theorem standard_pop {s : Symbol} :
    Command.standard.get? s.tag = some .pop ↔ s.bracket? = some .closing := by
  refine ⟨fun hget => ?_, standard_closing⟩
  match hs : s.bracket? with
  | none => exact absurd rfl (standard_letter hs hget).2
  | some .opening => cases (standard_opening hs).symm.trans hget
  | some .closing => rfl

theorem exists_process_iff (hsound : growth.Sound) {s : Symbol} :
    (∃ growth', (Command.process g Command.standard s).run growth = .ok () growth') ↔
      s.Accepted g ∧ (s.bracket? = some .closing → growth.saved ≠ []) := by
  rw [← standard_pop, Symbol.Accepted]
  cases hget : Command.standard.get? s.tag with
  | none => simp [process_run_none hget]
  | some c => simp [process_run_some hget, exists_run_iff hsound]

/-- A symbol that is accepted fails only for want of a saved pose. -/
theorem popEmpty_of_accepted (hsound : growth.Sound) {s : Symbol} (hs : s.Accepted g)
    {fault : Fault}
    (h : (Command.process g Command.standard s).run growth = .error fault growth') :
    fault = .popEmpty := by
  have hfails : ¬ (s.bracket? = some .closing → growth.saved ≠ []) := by
    intro hpose
    obtain ⟨next, hnext⟩ := (exists_process_iff hsound).2 ⟨hs, hpose⟩
    cases hnext.symm.trans h
  obtain ⟨hclosing, hsaved⟩ := Classical.not_imp.1 hfails
  have haccepts := hs .pop (standard_closing hclosing)
  rw [process_run_some (standard_closing hclosing)] at h
  generalize s.params = params at haccepts h
  cases haccepts
  rw [show (Command.run g .pop []).run growth = Step.pop.run growth from rfl, pop_run,
    not_not.1 hsaved] at h
  cases h
  rfl

/-- A symbol fails only without any change. -/
theorem eq_of_process_error {commands : Table String Command} {s : Symbol} {fault : Fault}
    (h : (Command.process g commands s).run growth = .error fault growth') :
    growth' = growth := by
  cases hget : commands.get? s.tag with
  | none =>
    rw [process_run_none hget] at h
    cases h
  | some c =>
    rw [process_run_some hget] at h
    exact eq_of_run_error h

/-- What a symbol does to the stack, it does to the closing brackets that have to find a pose on
it. -/
theorem surplus_le_iff_of_process {s : Symbol} {w : Word}
    (h : (Command.process g Command.standard s).run growth = .ok () growth') :
    Word.surplus (s :: w) ≤ growth.saved.length ↔ w.surplus ≤ growth'.saved.length := by
  match hs : s.bracket? with
  | none => rw [Word.surplus_cons_letter w hs, saved_of_letter hs h]
  | some .opening =>
    rw [Word.surplus_cons_opening w hs, process_opening hs h]
    exact Nat.sub_le_iff_le_add
  | some .closing =>
    obtain ⟨pose, saved, hsaved, rfl⟩ := process_closing hs h
    rw [Word.surplus_cons_closing w hs, hsaved]
    exact Nat.succ_le_succ_iff

/-! ## Words -/

theorem runs_cons_iff {s : Symbol} {w : Word} :
    Runs g growth (s :: w) growth' ↔
      ∃ next, (Command.process g Command.standard s).run growth = .ok () next ∧
        Runs g next w growth' := by
  rw [Runs, Step.interpret_cons_run]
  cases (Command.process g Command.standard s).run growth <;> simp [Runs]

theorem runs_append_iff {u w : Word} :
    Runs g growth (u ++ w) growth' ↔ ∃ next, Runs g growth u next ∧ Runs g next w growth' := by
  simp only [Runs, Step.interpret_append_run]
  cases (Step.interpret (Command.process g Command.standard) u).run growth <;> simp

theorem runs_unique {w : Word} {other : Turtle R} (h : Runs g growth w growth')
    (h' : Runs g growth w other) : growth' = other := by
  cases Eq.trans (Eq.symm h) h'
  rfl

/-- A word takes none of the joints away. -/
theorem payloads_of_runs {w : Word} (h : Runs g growth w growth') :
    growth.tree.payloads <+: growth'.tree.payloads := by
  induction w generalizing growth with
  | nil =>
    cases h
    exact List.prefix_rfl
  | cons s w ih =>
    obtain ⟨next, hs, hw⟩ := runs_cons_iff.1 h
    refine List.IsPrefix.trans ?_ (ih hw)
    rcases tree_of_process hs with ⟨-, htree⟩ | ⟨-, i, hi, joint, rfl⟩
    · exact htree ▸ List.prefix_rfl
    · exact ⟨[joint], (Tree.payloads_graft hi joint).symm⟩

theorem sound_of_runs {w : Word} (hsound : growth.Sound) (h : Runs g growth w growth') :
    growth'.Sound := by
  induction w generalizing growth with
  | nil =>
    cases h
    exact hsound
  | cons s w ih =>
    obtain ⟨next, hs, hw⟩ := runs_cons_iff.1 h
    exact ih (hsound.process hs) hw

/-- If one turtle can follow another one in every move and stays related to it, it can follow it
through a word. -/
theorem exists_runs_of_moves {P : Turtle R → Turtle R → Prop}
    (hmove : ∀ own own' other c params, P own other → Move g own c params own' →
      ∃ other', Move g other c params other' ∧ P own' other')
    {w : Word} {own own' other : Turtle R} (h : P own other) (hrun : Runs g own w own') :
    ∃ other', Runs g other w other' ∧ P own' other' := by
  induction w generalizing own other with
  | nil =>
    cases hrun
    exact ⟨other, rfl, h⟩
  | cons s w ih =>
    obtain ⟨next, hs, hw⟩ := runs_cons_iff.1 hrun
    rcases process_eq_ok_iff.1 hs with ⟨hget, rfl⟩ | ⟨c, hget, hstep⟩
    · obtain ⟨other', hother, hafter⟩ := ih h hw
      exact ⟨other', runs_cons_iff.2 ⟨_, process_run_none hget _, hother⟩, hafter⟩
    · obtain ⟨between, hbetween, hnext⟩ := hmove _ _ _ _ _ h hstep
      obtain ⟨other', hother, hafter⟩ := ih hnext hw
      refine ⟨other', runs_cons_iff.2 ⟨between, ?_, hother⟩, hafter⟩
      exact process_eq_ok_iff.2 (Or.inr ⟨c, hget, hbetween⟩)

/-- A word can be carried out exactly if each symbol of it is accepted, and for each closing
bracket without a match a pose has been saved. -/
theorem exists_runs_iff (hsound : growth.Sound) {w : Word} :
    (∃ growth', Runs g growth w growth') ↔
      (∀ s ∈ w, s.Accepted g) ∧ w.surplus ≤ growth.saved.length := by
  induction w generalizing growth with
  | nil => exact iff_of_true ⟨growth, rfl⟩ ⟨List.forall_mem_nil _, Nat.zero_le _⟩
  | cons s w ih =>
    simp only [runs_cons_iff, List.forall_mem_cons]
    constructor
    · rintro ⟨growth', next, hs, hw⟩
      obtain ⟨haccepted, hsurplus⟩ := (ih (hsound.process hs)).1 ⟨growth', hw⟩
      exact ⟨⟨((exists_process_iff hsound).1 ⟨next, hs⟩).1, haccepted⟩,
        (surplus_le_iff_of_process hs).2 hsurplus⟩
    · rintro ⟨⟨hs, hw⟩, hsurplus⟩
      have hclosing : s.bracket? = some .closing → growth.saved ≠ [] := by
        intro hbracket hsaved
        rw [Word.surplus_cons_closing w hbracket, hsaved] at hsurplus
        exact Nat.not_succ_le_zero _ hsurplus
      obtain ⟨next, hnext⟩ := (exists_process_iff hsound).2 ⟨hs, hclosing⟩
      obtain ⟨growth', hgrown⟩ := (ih (hsound.process hnext)).2
        ⟨hw, (surplus_le_iff_of_process hnext).1 hsurplus⟩
      exact ⟨growth', next, hnext, hgrown⟩

/-- A word with accepted symbols fails only for want of a saved pose. -/
theorem popEmpty_of_surplus (hsound : growth.Sound) {w : Word} (hw : ∀ s ∈ w, s.Accepted g)
    (hsurplus : growth.saved.length < w.surplus) :
    ∃ stopped, (Step.interpret (Command.process g Command.standard) w).run growth =
      .error .popEmpty stopped := by
  cases hrun : (Step.interpret (Command.process g Command.standard) w).run growth with
  | ok _ grown =>
    have hle := ((exists_runs_iff hsound).1 ⟨grown, hrun⟩).2
    exact absurd hle (Nat.not_le_of_lt hsurplus)
  | error fault stopped =>
    obtain ⟨u, s, v, before, rfl, hu, hs⟩ := Step.interpret_error_iff.1 hrun
    obtain rfl := popEmpty_of_accepted (sound_of_runs hsound hu) (hw s (by simp)) hs
    exact ⟨stopped, rfl⟩

/-! ## What is left of a failure -/

/-- A move forward adds a joint, and with it the edge to it. -/
theorem Move.forward_adds {value : Value} (h : Move g growth .forward [value] growth') :
    ∃ length here i, g.length value = .ok length ∧
      growth.tree.get growth.state.last = .ok here ∧
      growth.state.last = growth.tree.handleAt i ∧
      growth'.tree.payloads = growth.tree.payloads ++ [ahead g growth.state length here] ∧
      growth'.tree.edgeIndices.Perm (growth.tree.edgeIndices ++ [(i, (growth.tree.size : Int))]) ∧
      growth'.state = { growth.state with last := growth.tree.handleAt growth.tree.size } ∧
      growth'.saved = growth.saved := by
  cases h with
  | @forward _ length i hlength hlocate =>
    exact ⟨length, _, i, hlength, Tree.get_eq_ok_iff.2 ⟨i, hlocate, rfl⟩,
      Tree.locate_eq_ok_iff.1 hlocate, Tree.payloads_graft i.isLt _,
      Tree.edgeIndices_graft i.isLt _, rfl, rfl⟩

/-- The operations after a word that fails go on from where the part of it before the failing symbol
has led. -/
theorem perform_interpret_congr {w u : Word} {fault : Fault} {stopped : Turtle R}
    (hw : (Step.interpret (Command.process g Command.standard) w).run growth =
      .error fault stopped) (hu : Runs g growth u stopped) (later : List Op) :
    perform g (.interpret Command.standard w :: later) growth =
      perform g (.interpret Command.standard u :: later) growth := by
  have hreached : ((Op.interpret Command.standard w).step g).reached growth =
      ((Op.interpret Command.standard u).step g).reached growth := by
    have hu : (Step.interpret (Command.process g Command.standard) u).run growth =
        .ok () stopped := hu
    simp only [Op.step, Action.reached, hw, hu]
  simp only [perform, List.foldl_cons, hreached]

/-- **Turtle steps are all or nothing.** After any operations, a symbol that has a command makes the
whole move of this command or fails and changes nothing; it is carried out exactly if the command
accepts its parameters and, if it goes back, a pose has been saved. A move forward adds the joint
and the edge to it at once, and whatever a symbol comes to, the tree is a rooted one: no joint is
left without its edge. A word that fails has been carried out up to the symbol that fails, and all
later operations go on from there. -/
theorem process_all_or_nothing (g : Geometry R) (id : Nat) (root : Joint R) (diameter : R)
    (heading : Matrix3 R) (ops : List Op) :
    let growth := perform g ops (sprout id root diameter heading)
    let process := Command.process g Command.standard
    (∀ s c, Command.standard.get? s.tag = some c →
      ((∃ growth', (process s).run growth = .ok () growth' ∧ Move g growth c s.params growth') ∨
        ∃ fault, (process s).run growth = .error fault growth) ∧
      ((∃ growth', (process s).run growth = .ok () growth') ↔
        Accepts g c s.params ∧ (c = .pop → growth.saved ≠ []))) ∧
    (∀ value growth', (process ⟨"F", [value]⟩).run growth = .ok () growth' →
      ∃ length here i, g.length value = .ok length ∧
        growth.tree.get growth.state.last = .ok here ∧
        growth.state.last = growth.tree.handleAt i ∧
        growth'.tree.payloads = growth.tree.payloads ++ [ahead g growth.state length here] ∧
        growth'.tree.edgeIndices.Perm
          (growth.tree.edgeIndices ++ [(i, (growth.tree.size : Int))]) ∧
        growth'.state = { growth.state with last := growth.tree.handleAt growth.tree.size } ∧
        growth'.saved = growth.saved) ∧
    (∀ s, ((process s).reached growth).tree.Rooted) ∧
    ∀ w fault stopped, (Step.interpret process w).run growth = .error fault stopped →
      ∃ u s v, w = u ++ s :: v ∧ (Step.interpret process u).run growth = .ok () stopped ∧
        (process s).run stopped = .error fault stopped ∧
        ∀ later, perform g (.interpret Command.standard w :: later) growth =
          perform g (.interpret Command.standard u :: later) growth := by
  intro growth process
  have hsound : growth.Sound := (sound_perform id root diameter heading ops).1
  refine ⟨fun s c hc => ?_, fun value growth' hrun => ?_, fun s => ?_, fun w fault stopped h => ?_⟩
  · rw [process_run_some hc, exists_run_iff hsound]
    exact ⟨move_or_fault g c s.params growth, Iff.rfl⟩
  · exact Move.forward_adds (run_eq_ok_iff.1 hrun)
  · rw [Action.reached]
    cases hs : (process s).run growth with
    | ok _ next => exact (hsound.process hs).rooted
    | error fault next =>
      rw [eq_of_process_error hs]
      exact hsound.rooted
  · obtain ⟨u, s, v, before, hw, hu, hs⟩ := Step.interpret_error_iff.1 h
    cases eq_of_process_error hs
    exact ⟨u, s, v, hw, hu, hs, perform_interpret_congr h hu⟩

end Turtle

end Arbor
