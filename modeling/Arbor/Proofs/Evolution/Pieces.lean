import Arbor.Proofs.Evolution.Simultaneous
import Arbor.Proofs.Grammar.FirstMatch

/-!
# What symbols become

A generation puts a piece in the place of every symbol: the symbol itself, or what a rule with its
tag in the focus produces. What is kept whenever such pieces take the places of all symbols is kept
by any number of generations.

* `exists_pieces`: the pieces of a generation.
* `evolve_induction`, `exists_evolve_of`: what each generation keeps, evolution keeps.
* `generation_eq_flatMap`: a generation whose pieces are known.
-/

namespace Arbor

/-- A rule can produce a word: it always does, or its function does for some bindings. -/
inductive Rule.Produces (r : Rule) : Word → Prop
  | word {w} : r.producer = .word w → r.Produces w
  | function {f b w} : r.producer = .function f → f b = .ok w → r.Produces w

namespace Grammar

/-- A piece that can take the place of a symbol. -/
def Yields (g : Grammar) (s : Symbol) (piece : Word) : Prop :=
  piece = [s] ∨ ∃ r ∈ g.rules, r.focus.tag = s.tag ∧ r.Produces piece

theorem firstMatch_applyBetween (g : Grammar) (site : Site) (s : Symbol) (left right : Word) :
    Rule.FirstMatch site s left right g.rules (g.applyBetween site s left right) := by
  have h := (apply_eq_iff g site s (Window.wellPlaced_ofList left)
    (Window.wellPlaced_ofList right) _).1 rfl
  rwa [Window.items_ofList, Window.items_ofList] at h

theorem yields_of_applyBetween {g : Grammar} {site : Site} {s : Symbol} {left right piece : Word}
    (h : (g.applyBetween site s left right).result = .ok piece) : g.Yields s piece := by
  have hfirst := firstMatch_applyBetween g site s left right
  generalize g.applyBetween site s left right = t at h hfirst
  cases hfirst with
  | @word earlier r later w hrules hearlier hfires hproducer =>
    cases h
    exact Or.inr ⟨r, by simp [hrules], hfires.1.1.1.symm, .word hproducer⟩
  | @function earlier r later f hrules hearlier hfires hproducer =>
    exact Or.inr ⟨r, by simp [hrules], hfires.1.1.1.symm, .function hproducer h⟩
  | fault => cases h
  | unchanged =>
    cases h
    exact Or.inl rfl

theorem successor_eq (g : Grammar) {w : Word} {i : Nat} (hi : i < w.length) :
    g.successor w i =
      g.applyBetween ⟨Word.nextGeneration w, i⟩ w[i] (w.take i) (w.drop (i + 1)) := by
  rw [successor, List.getElem?_eq_getElem hi]

/-! ## One generation -/

/-- A word is a piece that a symbol becomes somewhere. -/
def Becomes (g : Grammar) (s : Symbol) (piece : Word) : Prop :=
  ∃ site left right, (g.applyBetween site s left right).result = .ok piece

theorem exists_forall₂_becomes {g : Grammar} {w v : Word} (h : (g.generation w).result = .ok v) :
    ∃ pieces, List.Forall₂ g.Becomes w pieces ∧ v = pieces.flatten := by
  have hrewrites := (generation_eq_iff_rewrites g w _).1 rfl
  generalize g.generation w = t at h hrewrites
  cases hrewrites with
  | stuck => cases h
  | @complete pieces hpieces =>
    cases h
    obtain ⟨hlength, hpieces⟩ := List.forall₂_iff_get.1 hpieces
    rw [List.length_range] at hlength
    refine ⟨pieces, List.forall₂_iff_get.2 ⟨hlength, fun i hi hi' => ?_⟩, rfl⟩
    have hpiece := hpieces i (by rwa [List.length_range]) hi'
    simp only [List.get_eq_getElem, List.getElem_range, successor_eq g hi] at hpiece
    exact ⟨_, _, _, hpiece⟩

/-- A generation puts the pieces of the symbols side by side. -/
theorem exists_pieces {g : Grammar} {w v : Word} (h : (g.generation w).result = .ok v) :
    ∃ pieces, List.Forall₂ g.Yields w pieces ∧ v = pieces.flatten := by
  obtain ⟨pieces, hpieces, hv⟩ := exists_forall₂_becomes h
  exact ⟨pieces, hpieces.imp fun s piece ⟨_, _, _, hpiece⟩ => yields_of_applyBetween hpiece, hv⟩

/-- In a generation each symbol has a piece. -/
theorem exists_becomes {g : Grammar} {w v : Word} {s : Symbol} (hs : s ∈ w)
    (h : (g.generation w).result = .ok v) : ∃ piece, g.Becomes s piece ∧ piece ⊆ v := by
  obtain ⟨pieces, hpieces, rfl⟩ := exists_forall₂_becomes h
  obtain ⟨hlength, hpieces⟩ := List.forall₂_iff_get.1 hpieces
  obtain ⟨i, hi, rfl⟩ := List.getElem_of_mem hs
  refine ⟨pieces.get ⟨i, hlength ▸ hi⟩, hpieces i hi _, fun t ht => ?_⟩
  exact List.mem_flatten.2 ⟨_, List.getElem_mem _, ht⟩

/-- A symbol that no rule has in its focus stays. -/
theorem mem_of_generation {g : Grammar} {w v : Word} {s : Symbol} (hs : s ∈ w)
    (hrules : ∀ r ∈ g.rules, r.focus.tag ≠ s.tag) (h : (g.generation w).result = .ok v) :
    s ∈ v := by
  obtain ⟨piece, ⟨site, left, right, hbecomes⟩, hpiece⟩ := exists_becomes hs h
  rcases yields_of_applyBetween hbecomes with rfl | ⟨r, hr, htag, -⟩
  · exact hpiece List.mem_cons_self
  · exact absurd htag (hrules r hr)

/-- A generation succeeds if something becomes of each symbol wherever it stands. -/
theorem exists_generation_of {g : Grammar} {w : Word}
    (h : ∀ s ∈ w, ∀ site left right, ∃ piece,
      (g.applyBetween site s left right).result = .ok piece) :
    ∃ v, (g.generation w).result = .ok v := by
  cases hresult : (g.generation w).result with
  | ok v => exact ⟨v, rfl⟩
  | error fault =>
    obtain ⟨i, hi, -, hfault⟩ := (generation_error_iff g w fault).1 hresult
    rw [successor_eq g hi] at hfault
    obtain ⟨piece, hpiece⟩ := h _ (List.getElem_mem hi) _ _ _
    rw [hpiece] at hfault
    cases hfault

/-- If each symbol becomes a piece of its own wherever it stands, a generation is known. -/
theorem generation_eq_flatMap {g : Grammar} {w : Word} {next : Symbol → Word}
    (h : ∀ s ∈ w, ∀ site left right, (g.applyBetween site s left right).result = .ok (next s)) :
    (g.generation w).result = .ok (w.flatMap next) := by
  have hpieces : List.Forall₂ (fun i piece => (g.successor w i).result = .ok piece)
      (List.range w.length) (w.map next) := by
    refine List.forall₂_iff_get.2 ⟨by simp, fun i hi _ => ?_⟩
    rw [List.length_range] at hi
    simp only [List.get_eq_getElem, List.getElem_range, List.getElem_map, successor_eq g hi]
    exact h _ (List.getElem_mem hi) _ _ _
  rw [(Rewrites.complete hpieces).generation_eq]
  exact congrArg Except.ok List.flatMap_def.symm

/-! ## Any number of generations -/

theorem evolve_induction {g : Grammar} {P : Word → Prop}
    (hstep : ∀ w v, P w → (g.generation w).result = .ok v → P v) {w v : Word} {n : Nat} (hw : P w)
    (h : (g.evolve w n).result = .ok v) : P v := by
  induction n generalizing w with
  | zero =>
    cases h
    exact hw
  | succ n ih =>
    rw [evolve_succ, Traced.bind_ok_iff] at h
    obtain ⟨next, hnext, h⟩ := h
    exact ih (hstep w next hw hnext) h

/-- If what is kept lets every generation succeed, evolution succeeds. -/
theorem exists_evolve_of {g : Grammar} {P : Word → Prop}
    (hstep : ∀ w, P w → ∃ v, (g.generation w).result = .ok v ∧ P v) {w : Word} (hw : P w)
    (n : Nat) : ∃ v, (g.evolve w n).result = .ok v := by
  induction n generalizing w with
  | zero => exact ⟨w, rfl⟩
  | succ n ih =>
    obtain ⟨next, hnext, hP⟩ := hstep w hw
    obtain ⟨v, hv⟩ := ih hP
    rw [evolve_succ]
    exact ⟨v, (Traced.bind_ok_iff _ _ _).2 ⟨next, hnext, hv⟩⟩

/-- The words that evolution has gone through end with the one it comes to. -/
theorem history_of_evolve {g : Grammar} {w v : Word} {n : Nat}
    (h : (g.evolve w n).result = .ok v) :
    (g.history w n).2 = none ∧ (g.history w n).1.getLast? = some v := by
  induction n generalizing w with
  | zero =>
    cases h
    exact ⟨rfl, rfl⟩
  | succ n ih =>
    rw [evolve_succ, Traced.bind_ok_iff] at h
    obtain ⟨next, hnext, h⟩ := h
    obtain ⟨hstopped, hlast⟩ := ih h
    simp only [history, hnext]
    refine ⟨hstopped, ?_⟩
    rw [List.getLast?_cons, hlast]
    rfl

end Grammar

end Arbor
