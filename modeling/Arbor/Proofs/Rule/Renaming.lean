import Arbor.Proofs.Evolution.Simultaneous
import Arbor.Proofs.Word.Renaming

/-!
# Rules and renamed origins

Matching looks at tags, at numbers and at how many parameters there are, and never at an origin: a
rule that matches at one place matches at every place with the same symbols around it, and its
patterns make the same bindings, with the origins renamed.

What a rule then does is up to its guard and its producer, which are functions of these bindings.
They can tell which values that are not a number are one and the same, but not where any of them was
made (`Rule.Equivariant`).

Main result: `Grammar.applyBetween_rename`. What becomes of a symbol depends on as many symbols
before and after it as the longest patterns have.
-/

namespace Arbor

variable {σ : Renaming}

/-! ## Bindings -/

namespace Bindings

/-- Bindings with the origins of their values, and their own site, renamed. -/
def rename (σ : Renaming) (b : Bindings) : Bindings :=
  ⟨Value.renameEntries σ b.values, σ.site b.site⟩

theorem rename_set (b : Bindings) (name : String) (v : Value) :
    (b.set name v).rename σ = (b.rename σ).set name (v.rename σ) := by
  have hvalues : ∀ entries : Table String Value,
      Value.renameEntries σ (entries.set name v) =
        Table.set (Value.renameEntries σ entries) name (v.rename σ) := by
    intro entries
    induction entries with
    | nil => rfl
    | cons entry rest ih =>
      obtain ⟨key, old⟩ := entry
      by_cases hkey : key = name
      · simp only [Table.set, hkey, if_true, Value.renameEntries]
      · simp only [Table.set, hkey, if_false, Value.renameEntries, ih]
  exact congrArg (Bindings.mk · (σ.site b.site)) (hvalues b.values)

theorem rename_setAll (b : Bindings) (entries : Table String Value) :
    (b.setAll entries).rename σ = (b.rename σ).setAll (Value.renameEntries σ entries) := by
  induction entries generalizing b with
  | nil => rfl
  | cons entry rest ih =>
    obtain ⟨name, v⟩ := entry
    exact (ih (b.set name v)).trans (by rw [rename_set]; rfl)

end Bindings

/-! ## Matching -/

theorem Value.renameEntries_append (xs ys : Table String Value) :
    renameEntries σ (xs ++ ys) = renameEntries σ xs ++ renameEntries σ ys := by
  simp only [renameEntries_eq_map, List.map_append]

theorem Slot.accepts_rename (slot : Slot) (v : Value) :
    slot.Accepts (v.rename σ) ↔ slot.Accepts v := by
  cases slot with
  | literal expected => rw [Accepts, Accepts, Value.same_number_rename]
  | _ => rfl

theorem Slot.capture_rename (slot : Slot) (v : Value) :
    slot.capture (v.rename σ) = Value.renameEntries σ (slot.capture v) := by
  cases slot <;> rfl

namespace Pattern

theorem matches_rename (p : Pattern) (s : Symbol) : p.Matches (s.rename σ) ↔ p.Matches s := by
  simp only [Matches, Symbol.rename, List.length_map, List.zip_map_right, List.forall_mem_map,
    Prod.map, id, Slot.accepts_rename]

theorem captures_rename (p : Pattern) (s : Symbol) :
    p.captures (s.rename σ) = Value.renameEntries σ (p.captures s) := by
  simp only [captures, Symbol.rename, List.zip_map_right, List.flatMap_map, Prod.map, id,
    Slot.capture_rename, Value.renameEntries_eq_map, List.map_flatMap]

theorem capturesAll_rename (ps : List Pattern) (w : Word) :
    capturesAll ps (Word.rename σ w) = Value.renameEntries σ (capturesAll ps w) := by
  simp only [capturesAll, Word.rename, List.zip_map_right, List.flatMap_map, Prod.map, id,
    captures_rename, Value.renameEntries_eq_map, List.map_flatMap]

/-- Patterns take no parameters from symbols behind those that they match. -/
theorem capturesAll_take (ps : List Pattern) (w : Word) :
    capturesAll ps (w.take ps.length) = capturesAll ps w := by
  induction ps generalizing w with
  | nil => rfl
  | cons p ps ih =>
    cases w with
    | nil => rfl
    | cons s w => exact congrArg (p.captures s ++ ·) (ih w)

end Pattern

namespace Rule

theorem matchesAll_rename (ps : List Pattern) (w : Word) :
    MatchesAll ps (Word.rename σ w) ↔ MatchesAll ps w := by
  simp only [MatchesAll, Word.rename, List.length_map, List.zip_map_right, List.forall_mem_map,
    Prod.map, id, Pattern.matches_rename]

/-- Two places look alike to a rule: the symbols that its left and its right patterns are held
against are the same, with the origins renamed. -/
structure Alike (σ : Renaming) (r : Rule) (left right left' right' : Word) : Prop where
  left : left'.rtake r.left.length = Word.rename σ (left.rtake r.left.length)
  right : right'.take r.right.length = Word.rename σ (right.take r.right.length)

variable {r : Rule} {s : Symbol} {left right left' right' : Word}

theorem Alike.matches_iff (h : Alike σ r left right left' right') :
    r.Matches (s.rename σ) left' right' ↔ r.Matches s left right := by
  have hleft := matchesAll_rename (σ := σ) r.left (left.rtake r.left.length)
  have hright := matchesAll_rename (σ := σ) r.right (right.take r.right.length)
  rw [← h.left] at hleft
  rw [← h.right] at hright
  exact and_congr (r.focus.matches_rename s) (and_congr hleft hright)

theorem Alike.bindingsAt_eq (h : Alike σ r left right left' right') (site : Site) :
    r.bindingsAt (σ.site site) (s.rename σ) left' right' =
      (r.bindingsAt site s left right).rename σ := by
  have hleft := Pattern.capturesAll_rename (σ := σ) r.left (left.rtake r.left.length)
  have hright := Pattern.capturesAll_rename (σ := σ) r.right (right.take r.right.length)
  rw [← h.left] at hleft
  rw [← h.right, Pattern.capturesAll_take, Pattern.capturesAll_take] at hright
  unfold List.rtake at hleft
  unfold bindingsAt captures
  rw [Bindings.rename_setAll, Value.renameEntries_append, Value.renameEntries_append,
    Pattern.captures_rename, hleft, hright]
  rfl

end Rule

/-! ## Guards and producers -/

/-- A guard is a function of what is bound: it says the same of bindings whose origins are renamed
so that different ones stay different. -/
def Guard.Equivariant (guard : Guard) : Prop :=
  ∀ ⦃σ : Renaming⦄, σ.Injective → ∀ ⦃b holds holds'⦄, guard b = .ok holds →
    guard (b.rename σ) = .ok holds' → holds' = holds

/-- A producer is a function of what is bound: of bindings whose origins are renamed it makes its
word with the origins renamed. A word that is always the same shows no origin but its rule. -/
def Producer.Equivariant : Producer → Prop
  | .word w => ∀ σ, Word.rename σ w = w
  | .function f => ∀ ⦃σ : Renaming⦄, σ.Injective → ∀ ⦃b w w'⦄, f b = .ok w →
      f (b.rename σ) = .ok w' → w' = Word.rename σ w

namespace Rule

variable {r : Rule} {s : Symbol} {left right left' right' : Word}

/-- The guard and the producer of a rule are functions of what is bound. -/
structure Equivariant (r : Rule) : Prop where
  guard : ∀ guard, r.guard = some guard → guard.Equivariant
  producer : r.producer.Equivariant

theorem Equivariant.holds (hr : r.Equivariant) (hσ : σ.Injective) {index : Nat} {b : Bindings}
    {holds holds' : Bool} (h : (r.checkGuard index b).result = .ok holds)
    (h' : (r.checkGuard index (b.rename σ)).result = .ok holds') : holds' = holds := by
  unfold checkGuard at h h'
  cases hguard : r.guard with
  | none =>
    rw [hguard] at h h'
    cases h
    cases h'
    rfl
  | some guard =>
    rw [hguard] at h h'
    exact hr.guard guard hguard hσ h h'

theorem Equivariant.product (hr : r.Equivariant) (hσ : σ.Injective) {index : Nat} {b : Bindings}
    {w w' : Word} (h : (r.product index b).result = .ok w)
    (h' : (r.product index (b.rename σ)).result = .ok w') : w' = Word.rename σ w := by
  unfold Rule.product at h h'
  have hproducer := hr.producer
  cases hkind : r.producer with
  | word v =>
    rw [hkind] at hproducer h h'
    cases h
    cases h'
    exact (hproducer σ).symm
  | function f =>
    rw [hkind] at hproducer h h'
    exact hproducer hσ h h'

/-- Where two places look alike a rule does the same. -/
theorem Equivariant.fire (hr : r.Equivariant) (hσ : σ.Injective)
    (halike : Alike σ r left right left' right') {index : Nat} {site : Site}
    {made made' : Option Word}
    (h : (r.fire index site s (.ofList left) (.ofList right)).result = .ok made)
    (h' : (r.fire index (σ.site site) (s.rename σ) (.ofList left') (.ofList right')).result =
      .ok made') : made' = made.map (Word.rename σ) := by
  unfold Rule.fire at h h'
  rw [bind?_eq _ _ _ (Window.wellPlaced_ofList _) (Window.wellPlaced_ofList _)] at h h'
  simp only [Window.items_ofList] at h h'
  by_cases hmatches : r.Matches s left right
  · rw [if_pos hmatches] at h
    rw [if_pos (halike.matches_iff.2 hmatches), halike.bindingsAt_eq] at h'
    obtain ⟨holds, hholds, h⟩ := (Traced.bind_ok_iff _ _ _).1 h
    obtain ⟨holds', hholds', h'⟩ := (Traced.bind_ok_iff _ _ _).1 h'
    obtain rfl := hr.holds hσ hholds hholds'
    cases holds' with
    | false =>
      cases h
      cases h'
      rfl
    | true =>
      obtain ⟨w, hw, h⟩ := (Traced.bind_ok_iff _ _ _).1 h
      obtain ⟨w', hw', h'⟩ := (Traced.bind_ok_iff _ _ _).1 h'
      cases h
      cases h'
      exact congrArg some (hr.product hσ hw hw')
  · rw [if_neg hmatches] at h
    rw [if_neg (mt halike.matches_iff.1 hmatches)] at h'
    cases h
    cases h'
    rfl

end Rule

/-! ## Grammars -/

namespace Grammar

/-- The guards and the producers of all rules are functions of their bindings. -/
def Equivariant (g : Grammar) : Prop := ∀ r ∈ g.rules, r.Equivariant

/-- The length of the longest left patterns. -/
def leftReach (g : Grammar) : Nat := g.rules.foldl (fun n r => max n r.left.length) 0

/-- The length of the longest right patterns. -/
def rightReach (g : Grammar) : Nat := g.rules.foldl (fun n r => max n r.right.length) 0

theorem left_length_le {g : Grammar} {r : Rule} (hr : r ∈ g.rules) :
    r.left.length ≤ g.leftReach :=
  (le_foldl_max (fun r : Rule => r.left.length) g.rules 0).2 r hr

theorem right_length_le {g : Grammar} {r : Rule} (hr : r ∈ g.rules) :
    r.right.length ≤ g.rightReach :=
  (le_foldl_max (fun r : Rule => r.right.length) g.rules 0).2 r hr

variable {site : Site} {s : Symbol} {left right left' right' piece piece' : Word}

/-- Rules that do the same one by one do the same when they are tried in order. -/
theorem applyFrom_rename (hσ : σ.Injective) {rules : List Rule}
    (hrules : ∀ r ∈ rules, r.Equivariant ∧ Rule.Alike σ r left right left' right') {index : Nat}
    (h : (applyFrom site s (.ofList left) (.ofList right) rules index).result = .ok piece)
    (h' : (applyFrom (σ.site site) (s.rename σ) (.ofList left') (.ofList right') rules
      index).result = .ok piece') : piece' = Word.rename σ piece := by
  induction rules generalizing index with
  | nil =>
    cases h
    cases h'
    rfl
  | cons r rules ih =>
    obtain ⟨⟨hr, halike⟩, hrules⟩ := List.forall_mem_cons.1 hrules
    obtain ⟨made, hmade, h⟩ := (Traced.bind_ok_iff _ _ _).1 h
    obtain ⟨made', hmade', h'⟩ := (Traced.bind_ok_iff _ _ _).1 h'
    obtain rfl := hr.fire hσ halike hmade hmade'
    cases made with
    | none => exact ih hrules h h'
    | some w =>
      cases h
      cases h'
      rfl

/-- **What becomes of a symbol does not depend on what the patterns do not reach.** -/
theorem applyBetween_rename {g : Grammar} (hg : g.Equivariant) (hσ : σ.Injective)
    (hleft : left'.rtake g.leftReach = Word.rename σ (left.rtake g.leftReach))
    (hright : right'.take g.rightReach = Word.rename σ (right.take g.rightReach))
    (h : (g.applyBetween site s left right).result = .ok piece)
    (h' : (g.applyBetween (σ.site site) (s.rename σ) left' right').result = .ok piece') :
    piece' = Word.rename σ piece := by
  refine applyFrom_rename hσ (fun r hr => ⟨hg r hr, ?_, ?_⟩) h h'
  · exact Word.rtake_alike_of_le (left_length_le hr) hleft
  · exact Word.take_alike_of_le (right_length_le hr) hright

end Grammar

end Arbor
