import Arbor.Grammar
import Arbor.Proofs.Number.Exact
import Arbor.Proofs.Rule.Matching

/-!
# The first rule that fires

What becomes of a symbol between two words can be read off the list of rules. A rule declines if
its patterns do not match or its guard does not hold of the bindings that they make. The rules
are looked at in order, past those that decline, up to one that fires or whose guard fails; if
all decline the symbol stays as it is.

The calls made are as many as needed and no more: one call of the guard of each rule that was
looked at, has a guard and matches, and then one of the producer of the rule that fires. A fault
of a guard or a producer ends them.

Main result: `apply_eq_iff_firstMatch`.
-/

namespace Arbor

theorem Slot.accepts_literal_iff (x : Number) (value : Value) :
    (Slot.literal x).Accepts value ↔
      ∃ y v, value = .number y ∧ x.exactValue? = some v ∧ y.exactValue? = some v := by
  cases value with
  | number y => simp [Slot.Accepts, Value.same, Number.same_iff]
  | _ => simp [Slot.Accepts, Value.same]

namespace Rule

variable (site : Site) (s : Symbol) (left right : Word)

/-! ## One rule -/

/-- The rule leaves the symbol to the next one: its patterns do not match, or its guard does not
hold of the bindings they make. -/
def Declines (r : Rule) : Prop :=
  ¬ r.Matches s left right ∨
    ∃ guard, r.guard = some guard ∧ guard (r.bindingsAt site s left right) = .ok false

/-- The patterns match, and the guard, if there is one, holds of the bindings they make. -/
def Fires (r : Rule) : Prop :=
  r.Matches s left right ∧
    ∀ guard, r.guard = some guard → guard (r.bindingsAt site s left right) = .ok true

/-- The patterns match, and the guard fails on the bindings they make. -/
def Faults (r : Rule) (fault : Fault) : Prop :=
  r.Matches s left right ∧
    ∃ guard, r.guard = some guard ∧ guard (r.bindingsAt site s left right) = .error fault

theorem declines_or (r : Rule) :
    r.Declines site s left right ∨ r.Fires site s left right ∨
      ∃ fault, r.Faults site s left right fault := by
  by_cases hmatch : r.Matches s left right
  · cases hguard : r.guard with
    | none => exact Or.inr (Or.inl ⟨hmatch, fun guard h => by simp [hguard] at h⟩)
    | some guard =>
      cases hholds : guard (r.bindingsAt site s left right) with
      | error fault => exact Or.inr (Or.inr ⟨fault, hmatch, guard, hguard, hholds⟩)
      | ok holds =>
        cases holds with
        | false => exact Or.inl (Or.inr ⟨guard, hguard, hholds⟩)
        | true =>
          refine Or.inr (Or.inl ⟨hmatch, fun other h => ?_⟩)
          obtain rfl : guard = other := by simpa [hguard] using h
          exact hholds
  · exact Or.inl (Or.inl hmatch)

/-- The calls of guards that looking at rules takes, the first of which has the given index: one
for each rule that has a guard and matches. -/
def guardCalls : List Rule → Nat → List Call
  | [], _ => []
  | r :: rules, index =>
    (if r.Matches s left right ∧ r.guard.isSome then
      [⟨.guard, index, r.bindingsAt site s left right⟩] else []) ++ guardCalls rules (index + 1)

theorem guardCalls_append (earlier later : List Rule) (index : Nat) :
    guardCalls site s left right (earlier ++ later) index =
      guardCalls site s left right earlier index ++
        guardCalls site s left right later (index + earlier.length) := by
  induction earlier generalizing index with
  | nil => simp [guardCalls]
  | cons r earlier ih =>
    have hindex : index + 1 + earlier.length = index + (r :: earlier).length := by
      rw [List.length_cons]
      omega
    simp only [List.cons_append, guardCalls, ih, List.append_assoc, hindex]

/-! ## The list of rules -/

/-- What the rules make of the symbol, with the calls that this takes. -/
inductive FirstMatch (rules : List Rule) : Traced Word → Prop
  /-- The first rule that does not decline fires, and always gives the same word. -/
  | word {earlier r later w} : rules = earlier ++ r :: later →
      (∀ e ∈ earlier, e.Declines site s left right) → r.Fires site s left right →
      r.producer = .word w →
      FirstMatch rules ⟨guardCalls site s left right (earlier ++ [r]) 0, .ok w⟩
  /-- The first rule that does not decline fires, and its producer is called. -/
  | function {earlier r later f} : rules = earlier ++ r :: later →
      (∀ e ∈ earlier, e.Declines site s left right) → r.Fires site s left right →
      r.producer = .function f →
      FirstMatch rules
        ⟨guardCalls site s left right (earlier ++ [r]) 0 ++
            [⟨.produce, earlier.length, r.bindingsAt site s left right⟩],
          f (r.bindingsAt site s left right)⟩
  /-- The guard of the first rule that does not decline fails. -/
  | fault {earlier r later fault} : rules = earlier ++ r :: later →
      (∀ e ∈ earlier, e.Declines site s left right) → r.Faults site s left right fault →
      FirstMatch rules ⟨guardCalls site s left right (earlier ++ [r]) 0, .error fault⟩
  /-- All rules decline. -/
  | unchanged : (∀ e ∈ rules, e.Declines site s left right) →
      FirstMatch rules ⟨guardCalls site s left right rules 0, .ok [s]⟩

theorem exists_firstMatch (rules : List Rule) : ∃ t, FirstMatch site s left right rules t := by
  have hfirst : ∀ earlier later : List Rule, rules = earlier ++ later →
      (∀ e ∈ earlier, e.Declines site s left right) →
      ∃ t, FirstMatch site s left right rules t := by
    intro earlier later
    induction later generalizing earlier with
    | nil =>
      intro hrules hearlier
      exact ⟨_, .unchanged (by simpa [hrules] using hearlier)⟩
    | cons r later ih =>
      intro hrules hearlier
      rcases declines_or site s left right r with hr | hr | ⟨fault, hr⟩
      · refine ih (earlier ++ [r]) (by simp [hrules]) fun e he => ?_
        rcases List.mem_append.1 he with he | he
        · exact hearlier e he
        · rwa [List.mem_singleton.1 he]
      · cases hproducer : r.producer with
        | word w => exact ⟨_, .word hrules hearlier hr hproducer⟩
        | function f => exact ⟨_, .function hrules hearlier hr hproducer⟩
      · exact ⟨_, .fault hrules hearlier hr⟩
  exact hfirst [] rules rfl (by simp)

end Rule

/-! ## Trying a rule -/

namespace Rule

variable {site : Site} {s : Symbol} {left right : Word}

/-- A rule that matches calls its guard if it has one. -/
theorem calls_checkGuard {r : Rule} (h : r.Matches s left right) (index : Nat) :
    (r.checkGuard index (r.bindingsAt site s left right)).calls =
      guardCalls site s left right [r] index := by
  unfold checkGuard
  cases hguard : r.guard <;> simp [guardCalls, h, hguard, Traced.ofResult, Traced.ofCall]

theorem Fires.result_checkGuard {r : Rule} (h : r.Fires site s left right) (index : Nat) :
    (r.checkGuard index (r.bindingsAt site s left right)).result = .ok true := by
  unfold checkGuard
  cases hguard : r.guard with
  | none => rfl
  | some guard => exact h.2 guard hguard

end Rule

/-! ## Applying the rules -/

namespace Grammar

variable {site : Site} {s : Symbol} {left right : Window Symbol}

section Fire

variable (hl : left.WellPlaced) (hr : right.WellPlaced)

include hl hr

theorem fire_of_matches {r : Rule} (h : r.Matches s left.items right.items) (index : Nat) :
    r.fire index site s left right =
      (r.checkGuard index (r.bindingsAt site s left.items right.items)).bind fun holds =>
        if holds then
          (r.product index (r.bindingsAt site s left.items right.items)).bind fun w =>
            .ofResult (.ok (some w))
        else .ofResult (.ok none) := by
  unfold Rule.fire
  rw [Rule.bind?_eq r site s hl hr, if_pos h]

theorem fire_of_declines {r : Rule} (h : r.Declines site s left.items right.items)
    (index : Nat) :
    r.fire index site s left right =
      ⟨Rule.guardCalls site s left.items right.items [r] index, .ok none⟩ := by
  by_cases hmatch : r.Matches s left.items right.items
  · obtain ⟨guard, hguard, hholds⟩ := h.resolve_left (not_not_intro hmatch)
    have hresult : (r.checkGuard index
        (r.bindingsAt site s left.items right.items)).result = .ok false := by
      simp [Rule.checkGuard, hguard, hholds, Traced.ofCall]
    rw [fire_of_matches hl hr hmatch, Traced.bind, hresult, Rule.calls_checkGuard hmatch]
    simp [Traced.ofResult]
  · unfold Rule.fire
    rw [Rule.bind?_eq r site s hl hr, if_neg hmatch]
    simp [Rule.guardCalls, hmatch, Traced.ofResult]

theorem fire_of_fires {r : Rule} (h : r.Fires site s left.items right.items) (index : Nat) :
    r.fire index site s left right =
      ⟨Rule.guardCalls site s left.items right.items [r] index ++
          (r.product index (r.bindingsAt site s left.items right.items)).calls,
        (r.product index (r.bindingsAt site s left.items right.items)).result.map some⟩ := by
  rw [fire_of_matches hl hr h.1, Traced.bind, h.result_checkGuard, Rule.calls_checkGuard h.1]
  unfold Traced.bind Traced.ofResult
  cases (r.product index (r.bindingsAt site s left.items right.items)).result <;>
    simp [Except.map]

theorem fire_of_faults {r : Rule} {fault : Fault}
    (h : r.Faults site s left.items right.items fault) (index : Nat) :
    r.fire index site s left right =
      ⟨Rule.guardCalls site s left.items right.items [r] index, .error fault⟩ := by
  obtain ⟨hmatch, guard, hguard, hfault⟩ := h
  have hresult : (r.checkGuard index
      (r.bindingsAt site s left.items right.items)).result = .error fault := by
    simp [Rule.checkGuard, hguard, hfault, Traced.ofCall]
  rw [fire_of_matches hl hr hmatch, Traced.bind, hresult, Rule.calls_checkGuard hmatch]

/-- Rules that decline cost the calls of their guards, and leave the symbol to the rules after
them. -/
theorem applyFrom_append (earlier rules : List Rule) (index : Nat)
    (h : ∀ e ∈ earlier, e.Declines site s left.items right.items) :
    applyFrom site s left right (earlier ++ rules) index =
      ⟨Rule.guardCalls site s left.items right.items earlier index ++
          (applyFrom site s left right rules (index + earlier.length)).calls,
        (applyFrom site s left right rules (index + earlier.length)).result⟩ := by
  induction earlier generalizing index with
  | nil => simp [Rule.guardCalls]
  | cons r earlier ih =>
    have hindex : index + 1 + earlier.length = index + (r :: earlier).length := by
      rw [List.length_cons]
      omega
    rw [List.cons_append, applyFrom, fire_of_declines hl hr (h r List.mem_cons_self), Traced.bind]
    simp only
    rw [ih (index + 1) fun e he => h e (List.mem_cons_of_mem _ he), hindex]
    simp [Rule.guardCalls]

/-- What the rules make of the symbol is what they are said to make of it. -/
theorem applyFrom_of_firstMatch {rules : List Rule} {t : Traced Word}
    (h : Rule.FirstMatch site s left.items right.items rules t) :
    applyFrom site s left right rules 0 = t := by
  cases h with
  | @word earlier r later w hrules hearlier hfires hproducer =>
    have hproduct : ∀ i b, r.product i b = .ofResult (.ok w) := fun i b => by
      simp only [Rule.product, hproducer]
    rw [hrules, applyFrom_append hl hr earlier _ 0 hearlier, applyFrom, fire_of_fires hl hr hfires,
      hproduct, Rule.guardCalls_append]
    simp [Traced.ofResult, Traced.bind, Except.map]
  | @function earlier r later f hrules hearlier hfires hproducer =>
    have hproduct : ∀ i b, r.product i b = .ofCall ⟨.produce, i, b⟩ (f b) := fun i b => by
      simp only [Rule.product, hproducer]
    rw [hrules, applyFrom_append hl hr earlier _ 0 hearlier, applyFrom, fire_of_fires hl hr hfires,
      hproduct, Rule.guardCalls_append]
    cases f (r.bindingsAt site s left.items right.items) <;>
      simp [Traced.ofCall, Traced.ofResult, Traced.bind, Except.map]
  | @fault earlier r later fault hrules hearlier hfaults =>
    rw [hrules, applyFrom_append hl hr earlier _ 0 hearlier, applyFrom,
      fire_of_faults hl hr hfaults, Rule.guardCalls_append]
    simp [Traced.bind]
  | unchanged hall =>
    have h := applyFrom_append hl hr rules [] 0 hall
    rw [List.append_nil] at h
    rw [h]
    simp [applyFrom, Traced.ofResult]

end Fire

theorem apply_eq_iff (g : Grammar) (site : Site) (s : Symbol) {left right : Window Symbol}
    (hl : left.WellPlaced) (hr : right.WellPlaced) (t : Traced Word) :
    g.apply site s left right = t ↔
      Rule.FirstMatch site s left.items right.items g.rules t := by
  refine ⟨?_, applyFrom_of_firstMatch hl hr⟩
  rintro rfl
  obtain ⟨t, ht⟩ := Rule.exists_firstMatch site s left.items right.items g.rules
  rwa [apply, applyFrom_of_firstMatch hl hr ht]

/-- **The first rule that fires decides.** A literal slot accepts exactly the numbers that stand
for the same as it. What becomes of a symbol between two words, and the calls that this takes, are
what the first rule makes of it that does not decline; there always is such an outcome and only
one. It is the same for two windows that show these words. -/
theorem apply_eq_iff_firstMatch (g : Grammar) (site : Site) (s : Symbol) :
    (∀ x value, (Slot.literal x).Accepts value ↔
      ∃ y v, value = .number y ∧ x.exactValue? = some v ∧ y.exactValue? = some v) ∧
    (∀ (left right : Word) (t : Traced Word), g.applyBetween site s left right = t ↔
      Rule.FirstMatch site s left right g.rules t) ∧
    ∀ left right : Window Symbol, left.WellPlaced → right.WellPlaced → ∀ t : Traced Word,
      g.apply site s left right = t ↔
        Rule.FirstMatch site s left.items right.items g.rules t := by
  refine ⟨Slot.accepts_literal_iff, fun left right t => ?_, fun left right hl hr =>
    apply_eq_iff g site s hl hr⟩
  have h := apply_eq_iff g site s (Window.wellPlaced_ofList left) (Window.wellPlaced_ofList right) t
  rwa [Window.items_ofList, Window.items_ofList] at h

/-- In `B(1) A(4) C` the first rule is turned down by its guard, and the second one finds its
literal in `A` and its right pattern in `C`. -/
theorem firstMatch_between :
    (⟨#[⟨"B", [.number (.int 1)]⟩, ⟨"A", [.number (.int 4)]⟩, ⟨"C", []⟩], 0, 1⟩ :
      Window Symbol).WellPlaced ∧
    (⟨#[⟨"B", [.number (.int 1)]⟩, ⟨"A", [.number (.int 4)]⟩, ⟨"C", []⟩], 2, 3⟩ :
      Window Symbol).WellPlaced ∧
    Rule.FirstMatch ⟨0, 1⟩ ⟨"A", [.number (.int 4)]⟩ [⟨"B", [.number (.int 1)]⟩] [⟨"C", []⟩]
      [⟨[⟨"B", [.wildcard]⟩], ⟨"A", [.named "x"]⟩, [], some fun _ => .ok false, .word []⟩,
        ⟨[], ⟨"A", [.literal (.int 4)]⟩, [⟨"C", []⟩], none, .word [⟨"D", []⟩]⟩]
      ⟨[⟨.guard, 0, ⟨[("x", .number (.int 4))], ⟨0, 1⟩⟩⟩], .ok [⟨"D", []⟩]⟩ := by
  have hleft : (⟨#[⟨"B", [.number (.int 1)]⟩, ⟨"A", [.number (.int 4)]⟩, ⟨"C", []⟩], 0, 1⟩ :
    Window Symbol).WellPlaced := by decide
  have hright : (⟨#[⟨"B", [.number (.int 1)]⟩, ⟨"A", [.number (.int 4)]⟩, ⟨"C", []⟩], 2, 3⟩ :
    Window Symbol).WellPlaced := by decide
  exact ⟨hleft, hright,
    ((apply_eq_iff_firstMatch ⟨⟨[]⟩, _⟩ _ _).2.2 _ _ hleft hright _).1 rfl⟩

end Grammar

end Arbor
