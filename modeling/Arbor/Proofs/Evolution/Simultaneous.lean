import Arbor.Evolution
import Arbor.Proofs.Rule.Matching
import Arbor.Proofs.Rule.Traced

/-!
# Rewriting is simultaneous

A generation looks at its word through windows and writes the next word as it goes. The reference
has no windows and no word in the making: `Rewrites` says of each place of a word what is made of
its symbol between copies of the symbols before and after it, and puts the pieces side by side;
`Evolves` repeats this.

* `generation_eq`: looking through windows and copying the contexts come to the same.
* `generation_eq_iff_rewrites`: a generation is a step of the reference.
* `evolve_simultaneous`: evolution is the iteration of that step, calls and faults included.
-/

namespace Arbor.Grammar

/-! ## Windows and copies -/

theorem applyFrom_congr (site : Site) (s : Symbol) {left right left' right' : Window Symbol}
    (hl : left.WellPlaced) (hr : right.WellPlaced) (hl' : left'.WellPlaced)
    (hr' : right'.WellPlaced) (hleft : left.items = left'.items)
    (hright : right.items = right'.items) (rules : List Rule) (index : Nat) :
    applyFrom site s left right rules index = applyFrom site s left' right' rules index := by
  induction rules generalizing index with
  | nil => rfl
  | cons r rules ih =>
    simp only [applyFrom, Rule.fire_congr r index site s hl hr hl' hr' hleft hright, ih]

/-- What becomes of the symbol at place `i` of a word, between copies of what stands before it
and after it. -/
def successor (g : Grammar) (w : Word) (i : Nat) : Traced Word :=
  match w[i]? with
  | some s => g.applyBetween ⟨Word.nextGeneration w, i⟩ s (w.take i) (w.drop (i + 1))
  | none => .ofResult (.ok [])

theorem successorAt_eq (g : Grammar) (w : Word) {i : Nat} (hi : i < w.length) :
    g.successorAt (Word.nextGeneration w) w.toArray i = g.successor w i := by
  have hget : w.toArray[i]? = w[i]? := List.getElem?_toArray
  simp only [successorAt, successor, hget]
  cases w[i]? with
  | none => rfl
  | some s =>
    have hbefore : (⟨w.toArray, 0, i⟩ : Window Symbol).items = w.take i := by
      simp [Window.items_before]
    have hafter :
        (⟨w.toArray, i + 1, w.toArray.size⟩ : Window Symbol).items = w.drop (i + 1) :=
      Window.items_after w.toArray i
    exact applyFrom_congr _ s (Window.wellPlaced_before (by simpa using Nat.le_of_lt hi))
      (Window.wellPlaced_after (by simpa using hi)) (Window.wellPlaced_ofList _)
      (Window.wellPlaced_ofList _) (by rw [hbefore, Window.items_ofList])
      (by rw [hafter, Window.items_ofList]) g.rules 0

theorem generationByLists_eq (g : Grammar) (w : Word) :
    g.generationByLists w = Traced.join (List.range w.length) (g.successor w) := rfl

/-- **Looking through windows is reading copies.** -/
theorem generation_eq (g : Grammar) (w : Word) : g.generation w = g.generationByLists w := by
  rw [generationByLists_eq, generation]
  simp only [List.size_toArray]
  exact Traced.join_congr fun i hi => successorAt_eq g w (List.mem_range.1 hi)

/-! ## The reference -/

/-- The leftmost place of a word whose symbol fails is `a`, and this is its fault. -/
def StuckAt (g : Grammar) (w : Word) (a : Nat) (fault : Fault) : Prop :=
  a < w.length ∧ (∀ i < a, ∃ piece, (g.successor w i).result = .ok piece) ∧
    (g.successor w a).result = .error fault

/-- What a word is rewritten to, with the calls that this takes: the pieces made at its places,
side by side, or the fault of the leftmost place that fails. -/
inductive Rewrites (g : Grammar) (w : Word) : Traced Word → Prop
  | complete {pieces} :
      List.Forall₂ (fun i piece => (g.successor w i).result = .ok piece)
        (List.range w.length) pieces →
      Rewrites g w
        ⟨(List.range w.length).flatMap fun i => (g.successor w i).calls, .ok pieces.flatten⟩
  | stuck {a fault} : StuckAt g w a fault →
      Rewrites g w
        ⟨(List.range (a + 1)).flatMap fun i => (g.successor w i).calls, .error fault⟩

/-- What a word evolves to in a number of generations: it is rewritten as many times, up to the
earliest generation that fails. -/
inductive Evolves (g : Grammar) : Word → Nat → Traced Word → Prop
  | zero (w) : Evolves g w 0 ⟨[], .ok w⟩
  | next {w calls v n t} : Rewrites g w ⟨calls, .ok v⟩ → Evolves g v n t →
      Evolves g w (n + 1) ⟨calls ++ t.calls, t.result⟩
  | stuck {w calls fault} (n) : Rewrites g w ⟨calls, .error fault⟩ →
      Evolves g w (n + 1) ⟨calls, .error fault⟩

/-- What stands before a place of a range is the range up to it. -/
theorem range_eq_append_cons {n a : Nat} {earlier later : List Nat} :
    List.range n = earlier ++ a :: later ↔
      a < n ∧ earlier = List.range a ∧ later = List.range' (a + 1) (n - (a + 1)) := by
  simp only [List.range_eq_range', List.range'_eq_append_iff, Nat.zero_add, Nat.mul_one]
  constructor
  · rintro ⟨k, -, rfl, hrest⟩
    obtain ⟨rfl, hpos, rfl⟩ := List.range'_eq_cons_iff.1 hrest.symm
    exact ⟨by omega, rfl, by rw [Nat.sub_sub]⟩
  · rintro ⟨ha, rfl, rfl⟩
    refine ⟨a, Nat.le_of_lt ha, rfl, (List.range'_eq_cons_iff.2 ⟨rfl, by omega, ?_⟩).symm⟩
    rw [Nat.sub_sub]

theorem Rewrites.generation_eq {g : Grammar} {w : Word} {t : Traced Word} (h : Rewrites g w t) :
    g.generation w = t := by
  rw [Grammar.generation_eq, generationByLists_eq]
  cases h with
  | complete hpieces => exact Traced.join_of_ok hpieces
  | @stuck a fault hstuck =>
    obtain ⟨ha, hearlier, hfault⟩ := hstuck
    have hearlier : ∀ e ∈ List.range a, ∃ piece, (g.successor w e).result = .ok piece :=
      fun e he => hearlier e (List.mem_range.1 he)
    rw [range_eq_append_cons.2 ⟨ha, rfl, rfl⟩, Traced.join_of_error hearlier hfault,
      List.range_succ]

theorem exists_rewrites (g : Grammar) (w : Word) : ∃ t, Rewrites g w t := by
  rcases Traced.pieces_or_error (g.successor w) (List.range w.length) with
    ⟨pieces, hpieces⟩ | ⟨earlier, a, later, fault, hsplit, hearlier, hfault⟩
  · exact ⟨_, .complete hpieces⟩
  · obtain ⟨ha, rfl, -⟩ := range_eq_append_cons.1 hsplit
    exact ⟨_, .stuck ⟨ha, fun i hi => hearlier i (List.mem_range.2 hi), hfault⟩⟩

/-- **A generation is a step of the reference.** -/
theorem generation_eq_iff_rewrites (g : Grammar) (w : Word) (t : Traced Word) :
    g.generation w = t ↔ Rewrites g w t := by
  refine ⟨?_, Rewrites.generation_eq⟩
  rintro rfl
  obtain ⟨t, ht⟩ := exists_rewrites g w
  rwa [ht.generation_eq]

/-- A generation fails with the fault of the leftmost place that fails. -/
theorem generation_error_iff (g : Grammar) (w : Word) (fault : Fault) :
    (g.generation w).result = .error fault ↔ ∃ a, StuckAt g w a fault := by
  constructor
  · intro h
    have hrewrites := (generation_eq_iff_rewrites g w _).1 rfl
    generalize g.generation w = t at h hrewrites
    cases hrewrites with
    | complete => cases h
    | stuck hstuck =>
      cases h
      exact ⟨_, hstuck⟩
  · rintro ⟨a, hstuck⟩
    rw [(Rewrites.stuck hstuck).generation_eq]

/-! ## Any number of generations -/

theorem evolve_succ (g : Grammar) (w : Word) (n : Nat) :
    g.evolve w (n + 1) = (g.generation w).bind fun v => g.evolve v n := rfl

theorem evolve_eq_evolveByLists (g : Grammar) (w : Word) (n : Nat) :
    g.evolve w n = g.evolveByLists w n := by
  induction n generalizing w with
  | zero => rfl
  | succ n ih => simp only [evolve, evolveByLists, generation_eq, ih]

theorem Evolves.evolve_eq {g : Grammar} {w : Word} {n : Nat} {t : Traced Word}
    (h : Evolves g w n t) : g.evolve w n = t := by
  induction h with
  | zero => rfl
  | next hstep _ ih => rw [evolve_succ, hstep.generation_eq, Traced.bind_of_ok rfl, ih]
  | stuck n hstep => rw [evolve_succ, hstep.generation_eq, Traced.bind_of_error rfl]

theorem exists_evolves (g : Grammar) (w : Word) (n : Nat) : ∃ t, Evolves g w n t := by
  induction n generalizing w with
  | zero => exact ⟨_, .zero w⟩
  | succ n ih =>
    obtain ⟨⟨calls, result⟩, hstep⟩ := exists_rewrites g w
    cases result with
    | error fault => exact ⟨_, .stuck n hstep⟩
    | ok v =>
      obtain ⟨t, ht⟩ := ih v
      exact ⟨_, .next hstep ht⟩

theorem evolve_eq_iff_evolves (g : Grammar) (w : Word) (n : Nat) (t : Traced Word) :
    g.evolve w n = t ↔ Evolves g w n t := by
  refine ⟨?_, Evolves.evolve_eq⟩
  rintro rfl
  obtain ⟨t, ht⟩ := exists_evolves g w n
  rwa [ht.evolve_eq]

theorem evolve_add (g : Grammar) (w : Word) (m n : Nat) :
    g.evolve w (m + n) = (g.evolve w m).bind fun v => g.evolve v n := by
  induction m generalizing w with
  | zero => simp [evolve, Traced.bind, Traced.ofResult]
  | succ m ih =>
    rw [Nat.add_right_comm, evolve_succ, evolve_succ, Traced.bind_assoc]
    simp only [ih]

/-- Evolution fails with the fault of the earliest generation that fails. -/
theorem evolve_error_iff (g : Grammar) (w : Word) (n : Nat) (fault : Fault) :
    (g.evolve w n).result = .error fault ↔
      ∃ m < n, ∃ v a, (g.evolve w m).result = .ok v ∧ StuckAt g v a fault := by
  induction n generalizing w with
  | zero => simp [evolve, Traced.ofResult]
  | succ n ih =>
    rw [evolve_succ, Traced.bind_error_iff, generation_error_iff]
    constructor
    · rintro (⟨a, hstuck⟩ | ⟨u, hu, hfault⟩)
      · exact ⟨0, Nat.succ_pos n, w, a, rfl, hstuck⟩
      · obtain ⟨m, hm, v, a, hv, hstuck⟩ := (ih u).1 hfault
        exact ⟨m + 1, Nat.succ_lt_succ hm, v, a, (Traced.bind_ok_iff _ _ _).2 ⟨u, hu, hv⟩, hstuck⟩
    · rintro ⟨m, hm, v, a, hv, hstuck⟩
      cases m with
      | zero =>
        cases hv
        exact Or.inl ⟨a, hstuck⟩
      | succ m =>
        obtain ⟨u, hu, hv⟩ := (Traced.bind_ok_iff _ _ _).1 hv
        exact Or.inr ⟨u, hu, (ih u).2 ⟨m, Nat.lt_of_succ_lt_succ hm, v, a, hv, hstuck⟩⟩

/-- **Evolution is simultaneous rewriting.** It is what copies of the contexts make, the iteration
of the reference, and can be taken up at any generation; the fault it ends with is that of the
leftmost failing place of the earliest failing generation. -/
theorem evolve_simultaneous (g : Grammar) (w : Word) :
    (∀ n, g.evolve w n = g.evolveByLists w n) ∧
    (∀ n t, g.evolve w n = t ↔ Evolves g w n t) ∧
    (∀ m n, g.evolve w (m + n) = (g.evolve w m).bind fun v => g.evolve v n) ∧
    (∀ n fault, (g.evolve w n).result = .error fault ↔
      ∃ m < n, ∃ v a, (g.evolve w m).result = .ok v ∧ StuckAt g v a fault) :=
  ⟨evolve_eq_evolveByLists g w, evolve_eq_iff_evolves g w, evolve_add g w, evolve_error_iff g w⟩

end Arbor.Grammar
