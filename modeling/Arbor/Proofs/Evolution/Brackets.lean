import Arbor.Proofs.Evolution.Pieces
import Arbor.Proofs.Growth.Stack

/-!
# Evolution keeps brackets matched

Rules that leave the brackets alone and put words with matching brackets in the places of letters
keep the brackets of every word matched, whatever contexts they ask for. Each generation leaves as
many brackets without a match as there were (`counts_flatten`), so none if there were none. What
such a grammar evolves to can be grown without anything missing on the stack.

Main result: `evolve_dyck`.
-/

namespace Arbor

/-! ## Replacing letters -/

namespace Word

/-- A piece that leaves the matches of brackets around it as they are: a bracket stays, and a
letter gives way to a word whose brackets match. -/
inductive Neutral (s : Symbol) : Word → Prop
  | letter {piece} : s.bracket? = none → Balanced piece → Neutral s piece
  | bracket {b} : s.bracket? = some b → Neutral s [s]

/-- As many brackets are without a match as before. -/
theorem counts_flatten {w : Word} {pieces : List Word} (h : List.Forall₂ Neutral w pieces) :
    surplus pieces.flatten = surplus w ∧
      (unfinished pieces.flatten).length = (unfinished w).length := by
  induction h with
  | nil => exact ⟨rfl, rfl⟩
  | @cons s piece w pieces hpiece _ ih =>
    obtain ⟨hsurplus, hunfinished⟩ := ih
    rw [List.flatten_cons, length_unfinished_cons]
    cases hpiece with
    | letter hs hbalanced =>
      rw [surplus_balanced_append hbalanced, surplus_cons_letter w hs,
        unfinished_append hbalanced.counts.2, List.length_map, hunfinished]
      refine ⟨hsurplus, ?_⟩
      simp [hs]
    | @bracket b hs =>
      rw [List.singleton_append, length_unfinished_cons, hunfinished, hsurplus]
      refine ⟨?_, rfl⟩
      cases b with
      | opening => rw [surplus_cons_opening _ hs, surplus_cons_opening _ hs, hsurplus]
      | closing => rw [surplus_cons_closing _ hs, surplus_cons_closing _ hs, hsurplus]

theorem dyck_flatten {w : Word} {pieces : List Word} (h : List.Forall₂ Neutral w pieces)
    (hw : Dyck w) : Dyck pieces.flatten := by
  obtain ⟨hsurplus, hunfinished⟩ := counts_flatten h
  rw [dyck_iff_balanced, balanced_iff, ← List.length_eq_zero_iff] at hw ⊢
  rwa [hsurplus, hunfinished]

end Word

/-! ## Grammars -/

namespace Grammar

/-- No rule replaces a bracket, and the brackets of every product match. -/
structure KeepsBrackets (g : Grammar) : Prop where
  focus : ∀ r ∈ g.rules, r.focus.tag ≠ "[" ∧ r.focus.tag ≠ "]"
  product : ∀ r ∈ g.rules, ∀ w, r.Produces w → w.Dyck

theorem KeepsBrackets.neutral {g : Grammar} (hg : g.KeepsBrackets) {s : Symbol} {piece : Word}
    (h : g.Yields s piece) : Word.Neutral s piece := by
  rcases h with rfl | ⟨r, hr, htag, hproduces⟩
  · match hs : s.bracket? with
    | none => exact .letter hs (.letter hs .nil)
    | some b => exact .bracket hs
  · have hfocus := hg.focus r hr
    rw [htag] at hfocus
    exact .letter (Symbol.bracket?_eq_none.2 hfocus)
      (Word.dyck_iff_balanced.1 (hg.product r hr piece hproduces))

theorem KeepsBrackets.generation {g : Grammar} (hg : g.KeepsBrackets) (w v : Word) (hw : w.Dyck)
    (h : (g.generation w).result = .ok v) : v.Dyck := by
  obtain ⟨pieces, hpieces, rfl⟩ := exists_pieces h
  exact Word.dyck_flatten (hpieces.imp fun _ _ => hg.neutral) hw

/-- **Brackets that match go on matching.** If no rule replaces a bracket and the brackets of all
products match, a word whose brackets match evolves to such words only. So growing it never fails
for a state that is missing on the stack or left on it: not by the turtle, and not by any way to
process symbols that treats brackets as brackets. -/
theorem evolve_dyck (g : Grammar) (hg : g.KeepsBrackets) (seed : Word) (hseed : seed.Dyck) (n : Nat)
    (w : Word) (hw : (g.evolve seed n).result = .ok w) :
    w.Dyck ∧
    (∀ root, SparesStack ((LSystem.ofCommands .binary64 seed g Command.standard).growJoints
      .binary64 (.ok root) (.int n))) ∧
    ∀ {α σ : Type} (process : Symbol → Step α σ Unit) (root : α)
      (start : α → Handle → Except Fault σ), Step.FollowsBrackets process →
      (∀ handle, SparesStack (start root handle)) →
      SparesStack (LSystem.construct ⟨seed, g, process⟩ (.ok root) start (.int n)) := by
  have hdyck : w.Dyck := evolve_induction hg.generation hseed hw
  refine ⟨hdyck, fun root => ?_, fun process root start hprocess hstart => ?_⟩
  · exact LSystem.sparesStack_construct Turtle.followsBrackets_standard root (fun _ => .ok _) hw
      hdyck
  · exact LSystem.sparesStack_construct hprocess root hstart hw hdyck

/-- An apex before another one makes a branch, and the last one vanishes. -/
theorem evolve_dyck_branch :
    let g : Grammar := ⟨.turtle,
      [⟨[], ⟨"A", []⟩, [⟨"A", []⟩], none, .word [⟨"[", []⟩, ⟨"A", []⟩, ⟨"]", []⟩, ⟨"A", []⟩]⟩,
        ⟨[⟨"A", []⟩], ⟨"A", []⟩, [], some fun _ => .ok true, .function fun _ => .ok []⟩]⟩
    g.KeepsBrackets ∧ (g.evolve [⟨"A", []⟩, ⟨"A", []⟩, ⟨"A", []⟩] 2).result =
      .ok [⟨"[", []⟩, ⟨"A", []⟩, ⟨"]", []⟩, ⟨"A", []⟩, ⟨"[", []⟩, ⟨"A", []⟩, ⟨"]", []⟩, ⟨"A", []⟩] ∧
    Word.Dyck [⟨"[", []⟩, ⟨"A", []⟩, ⟨"]", []⟩, ⟨"A", []⟩, ⟨"[", []⟩, ⟨"A", []⟩, ⟨"]", []⟩,
      ⟨"A", []⟩] := by
  intro g
  have hg : g.KeepsBrackets := by
    refine ⟨by simp [g], ?_⟩
    simp only [g, List.forall_mem_cons]
    refine ⟨fun w hw => ?_, fun w hw => ?_, List.forall_mem_nil _⟩ <;> cases hw with
    | word h => cases h <;> decide
    | function h h' => cases h <;> cases h' <;> decide
  have hevolve : (g.evolve [⟨"A", []⟩, ⟨"A", []⟩, ⟨"A", []⟩] 2).result =
      .ok [⟨"[", []⟩, ⟨"A", []⟩, ⟨"]", []⟩, ⟨"A", []⟩, ⟨"[", []⟩, ⟨"A", []⟩, ⟨"]", []⟩,
        ⟨"A", []⟩] := rfl
  exact ⟨hg, hevolve, (evolve_dyck g hg _ (by decide) 2 _ hevolve).1⟩

end Grammar

end Arbor
