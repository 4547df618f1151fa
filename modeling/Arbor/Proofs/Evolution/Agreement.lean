import Arbor.Proofs.Evolution.Pieces
import Arbor.Proofs.Rule.Agreement
import Arbor.Proofs.Word.RoundTrip

/-!
# Evolution keeps agreement

Words that agree, that is, that differ in the kinds of their numbers only, evolve to words that
agree, or fail both, as long as the rules compare and copy numbers and compute none
(`Grammar.Comparing`). So a word can be written, read and evolved further: what is written as `4`
has been `4` or `4.0`, and evolves as both.

* `generation_agree`: one generation.
* `evolve_agree`: any number of generations, also of a word that has been written and read.
-/

namespace Arbor

variable {others : Prop}

/-- If the computations for each item go together, so do the joined ones. -/
theorem Traced.join_together {α β : Type} {R : α → α → Prop} {bs : List β}
    {f f' : β → Traced (List α)}
    (h : ∀ b ∈ bs, Together (List.Forall₂ R) (f b).result (f' b).result) :
    Together (List.Forall₂ R) (join bs f).result (join bs f').result := by
  induction bs with
  | nil => exact .ok .nil
  | cons b bs ih =>
    obtain ⟨hb, hbs⟩ := List.forall_mem_cons.1 h
    simp only [join_cons, result_bind]
    refine hb.bind fun piece piece' hpiece => (ih hbs).bind fun rest rest' hrest => ?_
    exact .ok (List.rel_append hpiece hrest)

namespace Grammar

/-- The guards of all rules compare what is bound, and the producers are static or copy it, with
constants of the given kind. -/
def Comparing (constants : Value → Prop) (g : Grammar) : Prop :=
  ∀ r ∈ g.rules, r.Comparing constants

variable {constants : Value → Prop} {g : Grammar} {w w' : Word}

/-- Rules that are tried in order make words that agree at places that agree. -/
theorem applyFrom_agree (hconstants : ∀ v, constants v → v.Agree others v) {rules : List Rule}
    (hrules : ∀ r ∈ rules, r.Comparing constants) (site : Site) {s s' : Symbol}
    {left left' right right' : Word} (hs : s.Agree others s')
    (hleft : Word.Agree others left left') (hright : Word.Agree others right right')
    (index : Nat) :
    Together (Word.Agree others)
      (applyFrom site s (.ofList left) (.ofList right) rules index).result
      (applyFrom site s' (.ofList left') (.ofList right') rules index).result := by
  induction rules generalizing index with
  | nil => exact .ok (.cons hs .nil)
  | cons r rules ih =>
    obtain ⟨hr, hmore⟩ := List.forall_mem_cons.1 hrules
    simp only [applyFrom, Traced.result_bind]
    refine (hr.fire hconstants index site hs hleft hright).bind fun made made' hmade => ?_
    cases hmade with
    | none => exact ih hmore (index + 1)
    | some hw => exact .ok hw

/-- **One generation keeps agreement.** -/
theorem generation_agree (hg : g.Comparing constants)
    (hconstants : ∀ v, constants v → v.Agree others v) (h : Word.Agree others w w') :
    Together (Word.Agree others) (g.generation w).result (g.generation w').result := by
  rw [generation_eq, generation_eq, generationByLists_eq, generationByLists_eq, ← h.length_eq]
  refine Traced.join_together fun i hi => ?_
  have hi : i < w.length := List.mem_range.1 hi
  have hi' : i < w'.length := h.length_eq ▸ hi
  rw [successor_eq g hi, successor_eq g hi', ← Word.Agree.nextGeneration_eq h]
  exact applyFrom_agree hconstants hg _ (h.get hi hi') (List.forall₂_take i h)
    (List.forall₂_drop (i + 1) h) 0

theorem evolve_together (hg : g.Comparing constants)
    (hconstants : ∀ v, constants v → v.Agree others v) (h : Word.Agree others w w') (n : Nat) :
    Together (Word.Agree others) (g.evolve w n).result (g.evolve w' n).result := by
  induction n generalizing w w' with
  | zero => exact .ok h
  | succ n ih =>
    rw [evolve_succ, evolve_succ, Traced.result_bind, Traced.result_bind]
    exact (generation_agree hg hconstants h).bind fun v v' hv => ih hv

/-- After `n` generations two words agree: both have failed, or what they have become agrees, and is
the same if all constants are numbers. -/
structure AgreeAfter (g : Grammar) (n : Nat) (w w' : Word) : Prop where
  agree : Together (Word.Agree True) (g.evolve w n).result (g.evolve w' n).result
  same : g.Comparing Value.Real →
    Together (fun v v' => Word.same v v' = true) (g.evolve w n).result (g.evolve w' n).result

theorem agreeAfter_of_same (hg : g.Comparing fun _ => True) (hw : Word.Real w)
    (h : Word.same w w' = true) (n : Nat) : g.AgreeAfter n w w' where
  agree := evolve_together hg (fun v _ => .other v trivial) (hw.agree_of_same h) n
  same hreal := (evolve_together hreal (fun _ hv => hv.agree) (hw.agree_of_same h) n).mono
    fun _ _ hv => hv.same

/-- **Evolution respects numerical equality.** If the guards of a grammar compare and its producers
are static or copy, words that differ in the kinds of their numbers only evolve to such words, or
fail both. So a word that can be written evolves as the word does that its text is read as. -/
theorem evolve_agree (g : Grammar) (hg : g.Comparing fun _ => True) (w : Word) (n : Nat) :
    (∀ w', Word.Real w → Word.same w w' = true → g.AgreeAfter n w w') ∧
    ((∀ s ∈ w, Token.isTag s.tag = true ∧
        ∀ v ∈ s.params, v.Writable ∧ v.isNaN = false) →
      ∃ text w', Word.text w = .ok text ∧ Word.parse text = .ok w' ∧
        g.AgreeAfter n w w') := by
  refine ⟨fun w' hw hsame => agreeAfter_of_same hg hw hsame n, fun hw => ?_⟩
  obtain ⟨text, w', htext, hparse, hback⟩ :=
    Word.exists_comesBack fun s hs => ⟨(hw s hs).1, fun v hv => ((hw s hs).2 v hv).1⟩
  have hreal : Word.Real w := fun s hs v hv =>
    ((hw s hs).2 v hv).1.real ((hw s hs).2 v hv).2
  have hsame := hback.same fun s hs v hv => ((hw s hs).2 v hv).2
  exact ⟨text, w', htext, hparse, agreeAfter_of_same hg hreal hsame n⟩

/-- A symbol is split if its parameter is `1e16`, which an integer and a double can be. -/
theorem evolve_agree_large :
    let guard : Formula := .comparison .equal (.named "x") (.numeral "1e16")
    let made : Template := ⟨[("A", [.named "x"]), ("B", [.numeral "1"])], none⟩
    let g : Grammar := ⟨⟨[("A", .count 1), ("B", .count 1)]⟩,
      [⟨[], ⟨"A", [.named "x"]⟩, [], some guard.holds, .function made.build⟩]⟩
    let w : Word := [⟨"A", [.number (.int 10000000000000000)]⟩, ⟨"B", [.number (.float 4.0)]⟩]
    let w' : Word := [⟨"A", [.number (.float 1e16)]⟩, ⟨"B", [.number (.int 4)]⟩]
    g.AgreeAfter 3 w w' ∧ ∃ text v, Word.text w = .ok text ∧ Word.parse text = .ok v ∧
      g.AgreeAfter 3 w v := by
  intro guard made g w w'
  have hlarge : Number.read "1e16" = .ok (.float 1e16) := by rfl
  have hone : Number.read "1" = .ok (.int 1) := by rfl
  have hg : g.Comparing fun _ => True := by
    refine List.forall_mem_singleton.2 ⟨?_, ?_⟩
    · rintro _ ⟨⟩
      refine ⟨guard, ⟨trivial, fun x hx => ?_⟩, rfl⟩
      rw [hlarge] at hx
      cases hx
      exact ⟨_, rfl, by decide +kernel⟩
    · refine ⟨made, ?_, rfl⟩
      simp [made, Template.Copying, Formula.Copying]
  have hdigits : (10 : Nat) ^ 16 < 10 ^ Decimal.maxDigits :=
    Nat.pow_lt_pow_right (by decide) (by decide)
  have hshort : (10000000000000000 : Int).natAbs < 10 ^ Decimal.maxDigits := hdigits
  have hw : ∀ s ∈ w, Token.isTag s.tag = true ∧
      ∀ v ∈ s.params, v.Writable ∧ v.isNaN = false := by
    refine List.forall_mem_cons.2 ⟨⟨by decide, ?_⟩, List.forall_mem_singleton.2 ⟨by decide, ?_⟩⟩
    · exact List.forall_mem_singleton.2 ⟨.int hshort, rfl⟩
    · exact List.forall_mem_singleton.2 ⟨.float _, by decide +kernel⟩
  have hreal : Word.Real w := fun s hs v hv => ((hw s hs).2 v hv).1.real ((hw s hs).2 v hv).2
  exact ⟨(evolve_agree g hg w 3).1 w' hreal (by decide +kernel), (evolve_agree g hg w 3).2 hw⟩

end Grammar

end Arbor
