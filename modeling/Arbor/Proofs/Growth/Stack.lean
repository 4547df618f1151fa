import Arbor.Proofs.Tree.Handles
import Arbor.Proofs.Turtle.Spine

/-!
# The stack of saved states

Processing a symbol may fail for many reasons. If it treats the symbol as the bracket that it is
(`Step.FollowsBrackets`), it fails for want of a saved state only at a closing bracket when none is
saved. A word whose brackets match never gets there, and leaves no saved state behind, so whatever
else goes wrong, the stack does not.

* `Step.FollowsBrackets.interpret`: a word and the stack that it starts from.
* `LSystem.sparesStack_construct`: growing a word whose brackets match.
* `Turtle.followsBrackets_standard`: the turtle treats brackets as brackets.
-/

namespace Arbor

/-- The result is not that a state is missing from the stack or left on it. Any other fault may
be. -/
def SparesStack {α : Type} (result : Except Fault α) : Prop :=
  ∀ fault, result = .error fault → fault.kind ≠ .stackUnderflow

namespace SparesStack

variable {α β : Type}

theorem ok (a : α) : SparesStack (.ok a) := nofun

theorem error {fault : Fault} (h : fault.kind ≠ .stackUnderflow) :
    SparesStack (.error fault : Except Fault α) := by
  intro fault' heq
  cases heq
  exact h

theorem bind {result : Except Fault α} {f : α → Except Fault β} (h : SparesStack result)
    (hf : ∀ a, result = .ok a → SparesStack (f a)) : SparesStack (result >>= f) := by
  cases result with
  | error fault => exact error (h fault rfl)
  | ok a => exact hf a rfl

end SparesStack

/-! ## Symbols as brackets -/

namespace Step

variable {α σ : Type}

/-- Each symbol does to the stack what its bracket says: an opening bracket puts a state on it, a
closing one takes the last state off and lacks one only if there is none, and a letter leaves the
stack as high as it is. -/
structure FollowsBrackets (process : Symbol → Step α σ Unit) : Prop where
  letter : ∀ {s growth growth'}, s.bracket? = none →
    (process s).run growth = .ok () growth' → growth'.depth = growth.depth
  opening : ∀ {s growth growth'}, s.bracket? = some .opening →
    (process s).run growth = .ok () growth' → growth'.depth = growth.depth + 1
  closing : ∀ {s growth growth'}, s.bracket? = some .closing →
    (process s).run growth = .ok () growth' → growth'.depth + 1 = growth.depth
  underflow : ∀ {s growth fault growth'}, (process s).run growth = .error fault growth' →
    fault.kind = .stackUnderflow → s.bracket? = some .closing ∧ growth.depth = 0

/-- A word that has a saved state for each closing bracket without a match never lacks one, and
in the end the stack is as high as its brackets say. -/
theorem FollowsBrackets.interpret {process : Symbol → Step α σ Unit} (h : FollowsBrackets process)
    {w : Word} {growth : Growth α σ} (hw : w.surplus ≤ growth.depth) :
    (∀ growth', (Step.interpret process w).run growth = .ok () growth' →
      growth'.depth + w.closes = growth.depth + w.opens) ∧
    ∀ fault growth', (Step.interpret process w).run growth = .error fault growth' →
      fault.kind ≠ .stackUnderflow := by
  induction w generalizing growth with
  | nil =>
    refine ⟨fun growth' hrun => ?_, fun fault growth' hrun => ?_⟩ <;> cases hrun
    rfl
  | cons s w ih =>
    rw [interpret_cons_run, Word.opens_cons, Word.closes_cons]
    cases hstep : (process s).run growth with
    | error fault growth' =>
      refine ⟨nofun, fun fault' growth'' hrun hunderflow => ?_⟩
      cases hrun
      obtain ⟨hclosing, hdepth⟩ := h.underflow hstep hunderflow
      rw [Word.surplus_cons_closing w hclosing, hdepth] at hw
      exact Nat.not_succ_le_zero _ hw
    | ok _ between =>
      -- what is left of the surplus and of the stack after one symbol
      match hs : s.bracket? with
      | none =>
        have hdepth := h.letter hs hstep
        rw [Word.surplus_cons_letter w hs] at hw
        have hrest : Word.surplus w ≤ between.depth := by omega
        obtain ⟨hok, hfault⟩ := ih hrest
        refine ⟨fun growth' hrun => ?_, hfault⟩
        have hend := hok growth' hrun
        simp only [reduceCtorEq, if_false]
        omega
      | some .opening =>
        have hdepth := h.opening hs hstep
        rw [Word.surplus_cons_opening w hs] at hw
        have hrest : Word.surplus w ≤ between.depth := by omega
        obtain ⟨hok, hfault⟩ := ih hrest
        refine ⟨fun growth' hrun => ?_, hfault⟩
        have hend := hok growth' hrun
        simp only [reduceCtorEq, Option.some.injEq, if_false, if_true]
        omega
      | some .closing =>
        have hdepth := h.closing hs hstep
        rw [Word.surplus_cons_closing w hs] at hw
        have hrest : Word.surplus w ≤ between.depth := by omega
        obtain ⟨hok, hfault⟩ := ih hrest
        refine ⟨fun growth' hrun => ?_, hfault⟩
        have hend := hok growth' hrun
        simp only [reduceCtorEq, Option.some.injEq, if_false, if_true]
        omega

end Step

/-! ## Growing a word -/

namespace LSystem

variable {α σ : Type}

theorem sparesStack_interpret {l : LSystem α σ} (hl : Step.FollowsBrackets l.process) (root : α)
    {start : Handle → Except Fault σ} (hstart : ∀ handle, SparesStack (start handle)) {w : Word}
    (hw : w.Dyck) : SparesStack (l.interpret root start w) := by
  have hinitial : ∀ growth, initialGrowth root start = .ok growth → growth.depth = 0 := by
    intro growth h
    unfold initialGrowth at h
    cases hstate : start ((Tree.empty 0).addNode root).2 with
    | error fault =>
      simp only [hstate] at h
      cases h
    | ok state =>
      simp only [hstate] at h
      cases h
      rfl
  refine SparesStack.bind (SparesStack.bind (hstart _) fun _ _ => .ok _) fun growth hgrowth => ?_
  have hdepth := hinitial growth hgrowth
  have hsurplus := (Word.balanced_iff.1 (Word.dyck_iff_balanced.1 hw)).1
  have hle : w.surplus ≤ growth.depth := by omega
  obtain ⟨hok, hfault⟩ := hl.interpret hle
  cases hrun : (Step.interpret l.process w).run growth with
  | error fault growth' => exact .error (hfault fault growth' hrun)
  | ok _ growth' =>
    have hend := hok growth' hrun
    have htotals := hw.totals
    have hzero : growth'.depth = 0 := by omega
    simp only [hzero, if_true]
    exact .ok _

/-- Once a word has evolved, growing an L-system is interpreting it. -/
theorem construct_natCast {l : LSystem α σ} (root : α) (start : α → Handle → Except Fault σ)
    {n : Nat} {w : Word} (hevolve : l.evolve n = .ok w) :
    l.construct (.ok root) start (.int n) = l.interpret root (start root) w := by
  have hcount : Grammar.generationCount (.int n) = .ok n := by
    rw [Grammar.generationCount, if_pos (Int.natCast_nonneg n), Int.toNat_natCast]
  unfold construct
  rw [hcount]
  show (l.evolve n >>= fun word => l.interpret root (start root) word) = _
  rw [hevolve]
  rfl

/-- Growing an L-system whose word has matching brackets after evolution. -/
theorem sparesStack_construct {l : LSystem α σ} (hl : Step.FollowsBrackets l.process) (root : α)
    {start : α → Handle → Except Fault σ} (hstart : ∀ handle, SparesStack (start root handle))
    {n : Nat} {w : Word} (hevolve : l.evolve n = .ok w) (hw : w.Dyck) :
    SparesStack (l.construct (.ok root) start (.int n)) := by
  rw [construct_natCast root start hevolve]
  exact sparesStack_interpret hl root hstart hw

end LSystem

/-! ## The turtle -/

theorem Value.sparesStack_measure (v : Value) : SparesStack v.measure := by
  unfold measure
  split
  · exact .ok _
  · exact .ok _
  · split
    · exact .ok _
    · exact .error nofun
  · exact .error nofun

theorem Value.sparesStack_angle (v : Value) : SparesStack v.angle := by
  unfold angle
  split
  · exact .error nofun
  · exact .ok _
  · exact .ok _
  · exact .error nofun

theorem Number.sparesStack_toFloat (x : Number) : SparesStack x.toFloat := by
  have hround : ∀ n, SparesStack (roundInt n) := by
    intro n
    unfold roundInt
    split
    · exact .ok _
    · exact .error nofun
  cases x with
  | int n => exact hround n
  | float x => exact .ok x
  | truth b => exact hround _
  | nonreal => exact .error nofun

namespace Turtle

theorem sparesStack_length (v : Value) : SparesStack (Geometry.binary64.length v) :=
  .bind v.sparesStack_measure fun x _ => x.sparesStack_toFloat

theorem sparesStack_rotation (x y z : Value) :
    SparesStack (Geometry.binary64.rotation x y z) := by
  have hangle : ∀ v, SparesStack (Geometry.binary64.angle v) := fun v =>
    .bind v.sparesStack_angle fun x _ => x.sparesStack_toFloat
  have hturn : ∀ degrees, SparesStack (Geometry.binary64.turn degrees) := by
    intro degrees
    simp only [Geometry.binary64, turnDegrees]
    split
    · exact .error nofun
    · exact .ok _
  exact .bind (hangle x) fun _ _ => .bind (hangle y) fun _ _ => .bind (hangle z) fun _ _ =>
    .bind (hturn _) fun _ _ => .bind (hturn _) fun _ _ => .bind (hturn _) fun _ _ => .ok _

/-- Only going back can lack a saved pose, and only when there is none. -/
theorem run_underflow {c : Command} {params : List Value} {growth growth' : Turtle Float}
    {fault : Fault} (h : (c.run .binary64 params).run growth = .error fault growth')
    (hkind : fault.kind = .stackUnderflow) : c = .pop ∧ growth.saved = [] := by
  unfold Command.run at h
  split at h
  · rw [forward_run] at h
    split at h
    · cases h
    · rename_i hlocate
      cases h
      rw [Tree.kind_of_locate_error hlocate] at hkind
      cases hkind
    · rename_i hlength
      cases h
      exact absurd hkind (sparesStack_length _ _ hlength)
  · rw [diameter_run] at h
    split at h
    · cases h
    · rename_i hlength
      cases h
      exact absurd hkind (sparesStack_length _ _ hlength)
  · rw [rotate_run] at h
    split at h
    · cases h
    · rename_i hrotation
      cases h
      exact absurd hkind (sparesStack_rotation _ _ _ _ hrotation)
  · cases h
  · rw [pop_run] at h
    split at h
    · rename_i hsaved
      exact ⟨rfl, hsaved⟩
    · cases h
  · cases h
    unfold Command.shapeFault at hkind
    split at hkind <;> cases hkind

/-- The turtle treats brackets as brackets. -/
theorem followsBrackets_standard :
    Step.FollowsBrackets (Command.process .binary64 Command.standard) where
  letter hs hrun := congrArg List.length (saved_of_letter hs hrun)
  opening hs hrun := by
    rw [process_opening hs hrun]
    rfl
  closing hs hrun := by
    obtain ⟨pose, saved, hsaved, rfl⟩ := process_closing hs hrun
    exact (congrArg List.length hsaved).symm
  underflow := by
    intro s growth fault growth' hrun hkind
    cases hget : Command.standard.get? s.tag with
    | none =>
      rw [process_run_none hget] at hrun
      cases hrun
    | some c =>
      rw [process_run_some hget] at hrun
      obtain ⟨rfl, hsaved⟩ := run_underflow hrun hkind
      refine ⟨?_, congrArg List.length hsaved⟩
      match hs : s.bracket? with
      | none => exact absurd rfl (standard_letter hs hget).2
      | some .opening =>
        rw [standard_opening hs] at hget
        cases hget
      | some .closing => rfl

end Turtle

end Arbor
