import Arbor.Grammar
import Arbor.Proofs.Action
import Arbor.Proofs.Word.RoundTrip

/-!
# Compiling rules

A rule compiles when each of its parts does, in order, and its compiled parts are what the stages
give (`compile_eq_ok_iff`). The word of a rule is checked or parsed, and noting its origin
afterwards makes no symbol unfit (`fits_madeBy`). A grammar takes a rule once it has compiled
(`Grammar.add_run`).
-/

namespace Arbor

/-! ## Symbols that fit -/

namespace Alphabet

variable {a : Alphabet}

theorem fits_congr {s t : Symbol} (htag : s.tag = t.tag)
    (hparams : s.params.length = t.params.length) : a.fits s = a.fits t := by
  rw [fits, fits, htag, hparams]

theorem check_eq_ok_iff {s t : Symbol} : a.check s = .ok t ↔ a.fits s = true ∧ s = t := by
  unfold check arity fits
  cases harity : a.arity? s.tag with
  | none => simp [bind, Except.bind]
  | some n =>
    simp only [bind, Except.bind, beq_iff_eq]
    by_cases hlength : s.params.length = n.toNat
    · simp [hlength, pure, Except.pure]
    · simp only [hlength, if_false, false_and, iff_false]
      cases s.text <;> simp

/-- Taking note of where values were made changes neither tags nor arities. -/
theorem fits_madeBy (source : Source) (w : Word) (hw : ∀ s ∈ w, a.fits s = true) :
    ∀ s ∈ Word.madeBy source w, a.fits s = true := by
  intro s hs
  obtain ⟨i, hi, rfl⟩ := List.mem_mapIdx.1 hs
  rw [← hw _ (List.getElem_mem hi)]
  exact fits_congr rfl (by simp [Symbol.madeBy])

end Alphabet

/-! ## Stages -/

namespace RuleSource

/-- An item of a list is read if it is a symbol that fits. -/
theorem readItem_eq_ok_iff {place : Pattern.Place} {a : Alphabet} {item : ProducerItem}
    {s : Symbol} : readItem place a item = .ok s ↔ item = .symbol s ∧ a.fits s = true := by
  cases item with
  | symbol t =>
    rw [readItem, Alphabet.check_eq_ok_iff, ProducerItem.symbol.injEq, and_comm]
    exact and_congr_right fun h => by rw [h]
  | other => simp [readItem]

/-- A rule compiles exactly if its parts do, one after another. -/
theorem compile_eq_ok_iff {source : RuleSource} {a : Alphabet} {index : Nat} {r : Rule} :
    source.compile a index = .ok r ↔
      ∃ used used' used'', Pattern.read ⟨index, source.focus⟩ a source.focus [] =
          .ok ([r.focus], used) ∧
        Pattern.readContext ⟨index, source.focus⟩ a source.left used = .ok (r.left, used') ∧
        Pattern.readContext ⟨index, source.focus⟩ a source.right used' = .ok (r.right, used'') ∧
        readGuard ⟨index, source.focus⟩ source.guard = .ok r.guard ∧
        readProducer ⟨index, source.focus⟩ a source.producer = .ok r.producer := by
  unfold compile
  constructor
  · intro h
    obtain ⟨⟨focuses, used⟩, hfocus, h⟩ := bind_eq_ok_iff.1 h
    match focuses, h with
    | [focus], h =>
      obtain ⟨⟨left, used'⟩, hleft, h⟩ := bind_eq_ok_iff.1 h
      obtain ⟨⟨right, used''⟩, hright, h⟩ := bind_eq_ok_iff.1 h
      obtain ⟨guard, hguard, h⟩ := bind_eq_ok_iff.1 h
      obtain ⟨producer, hproducer, h⟩ := bind_eq_ok_iff.1 h
      cases h
      exact ⟨used, used', used'', hfocus, hleft, hright, hguard, hproducer⟩
  · rintro ⟨used, used', used'', hfocus, hleft, hright, hguard, hproducer⟩
    simp only [hfocus, bind, Except.bind, hleft, hright, hguard, hproducer]
    rfl

end RuleSource

/-! ## Adding rules -/

namespace Grammar

variable {g g' : Grammar} {source : RuleSource}

theorem add_run (g : Grammar) (source : RuleSource) :
    (add source).run g =
      match source.compile g.alphabet g.size with
      | .ok r => .ok () ⟨g.alphabet, g.rules ++ [r]⟩
      | .error fault => .error fault g := by
  simp only [add, EStateM.run_bind, EStateM.run_get, Action.run_ofResult]
  cases source.compile g.alphabet g.size <;> rfl

theorem add_run_ok_iff :
    (add source).run g = .ok () g' ↔
      ∃ r, source.compile g.alphabet g.size = .ok r ∧ g' = ⟨g.alphabet, g.rules ++ [r]⟩ := by
  rw [add_run]
  cases source.compile g.alphabet g.size <;> simp [eq_comm]

/-- A rule that is refused leaves the grammar as it was. -/
theorem add_run_error_iff {fault : Fault} :
    (add source).run g = .error fault g' ↔
      source.compile g.alphabet g.size = .error fault ∧ g' = g := by
  rw [add_run]
  cases source.compile g.alphabet g.size <;> simp [eq_comm]

end Grammar

end Arbor
