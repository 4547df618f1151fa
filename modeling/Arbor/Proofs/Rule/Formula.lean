import Arbor.Proofs.Rule.Compiling
import Arbor.Proofs.Rule.Uniform
import Arbor.Rule.Formula

/-!
# Formulas are functions of what is bound

Whatever a formula names, computes and compares, it does not see where values were made: evaluated
in bindings whose origins are renamed it comes to the renamed value, or fails as before
(`Formula.eval_rename`). So guards and producers that are given as formulas are functions of what is
bound, and so is whether they fail. The same goes for all rules that compile from such parts.

* `Formula.uniform_holds`, `Template.build_rename`: guards and producers that are formulas.
* `RuleSource.equivariant_of_compile`, `RuleSource.uniform_of_compile`: compiled rules.
-/

namespace Arbor

variable {σ : Renaming}

/-! ## Looking up names -/

namespace Bindings

theorem get?_rename (b : Bindings) (name : String) :
    (b.rename σ).get? name = (b.get? name).map (Value.rename σ) :=
  Value.get?_renameEntries b.values name

/-- The members of renamed bindings are their renamed members. -/
theorem member_rename (b : Bindings) :
    ∀ entry ∈ members, entry.2 (b.rename σ) = (entry.2 b).rename σ := by
  simp [members, sharedMember, ownMember, Bindings.rename, Value.rename, Value.renameEntries]

theorem member?_rename (b : Bindings) (name : String) :
    (b.rename σ).member? name = (b.member? name).map (Value.rename σ) := by
  have hfound : ∀ entries : Table String (Bindings → Value),
      (∀ entry ∈ entries, entry.2 (b.rename σ) = (entry.2 b).rename σ) →
        (entries.get? name).map (· (b.rename σ)) =
          ((entries.get? name).map (· b)).map (Value.rename σ) := by
    intro entries hentries
    induction entries with
    | nil => rfl
    | cons entry rest ih =>
      obtain ⟨hentry, hrest⟩ := List.forall_mem_cons.1 hentries
      unfold Table.get?
      split
      · exact congrArg some hentry
      · exact ih hrest
  exact hfound members (member_rename b)

end Bindings

/-! ## Evaluation -/

namespace Formula

/-- **A formula does not see where values were made.** -/
theorem eval_rename (hσ : σ.Injective) (b : Bindings) (e : Formula) :
    e.eval (b.rename σ) = (e.eval b).map (Value.rename σ) := by
  induction e with
  | named name =>
    rw [eval, eval, Bindings.get?_rename]
    cases b.get? name <;> rfl
  | «attribute» name =>
    rw [eval, eval, Bindings.get?_rename, Bindings.member?_rename]
    cases b.member? name <;> cases b.get? name <;> rfl
  | numeral text =>
    rw [eval, eval]
    cases Number.read text <;> rfl
  | isBound name =>
    rw [eval, eval, Bindings.contains, Bindings.contains, Bindings.get?_rename, Option.isSome_map]
    rfl
  | neg e ih =>
    rw [eval, eval, ih]
    cases e.eval b with
    | error fault => rfl
    | ok x => exact x.neg_rename
  | arithmetic op e f ihe ihf =>
    rw [eval, eval, ihe, ihf]
    cases e.eval b with
    | error fault => rfl
    | ok x =>
      cases f.eval b with
      | error fault => rfl
      | ok y => exact op.apply_rename x y
  | comparison op e f ihe ihf =>
    rw [eval, eval, ihe, ihf]
    cases e.eval b with
    | error fault => rfl
    | ok x =>
      cases f.eval b with
      | error fault => rfl
      | ok y =>
        have hop := op.apply_rename hσ x y
        simp only [bind, Except.bind, Except.map, hop]
        cases op.apply x y <;> rfl
  | both e f ihe ihf =>
    rw [eval, eval, ihe]
    cases e.eval b with
    | error fault => rfl
    | ok x =>
      simp only [bind, Except.bind, Except.map, Value.isTrue_rename]
      split
      · exact ihf
      · rfl
  | either e f ihe ihf =>
    rw [eval, eval, ihe]
    cases e.eval b with
    | error fault => rfl
    | ok x =>
      simp only [bind, Except.bind, Except.map, Value.isTrue_rename]
      split
      · rfl
      · exact ihf
  | not e ih =>
    rw [eval, eval, ih]
    cases e.eval b with
    | error fault => rfl
    | ok x =>
      simp only [bind, Except.bind, Except.map, Value.isTrue_rename]
      rfl

/-- A formula that serves as a guard. -/
theorem uniform_holds (e : Formula) : Guard.Uniform e.holds := by
  intro σ hσ b
  unfold Formula.holds
  rw [eval_rename hσ]
  cases e.eval b with
  | error fault => rfl
  | ok x =>
    simp only [bind, Except.bind, Except.map, Value.isTrue_rename]

theorem equivariant_holds (e : Formula) : Guard.Equivariant e.holds := e.uniform_holds.equivariant

end Formula

/-! ## Templates -/

namespace Template

/-- A symbol of a template takes the renamed values. Whether it fits an alphabet does not depend on
them. -/
theorem buildSymbol_rename (hσ : σ.Injective) (t : Template) (b : Bindings) (tag : String)
    (formulas : List Formula) :
    t.buildSymbol (b.rename σ) tag formulas =
      (t.buildSymbol b tag formulas).map (Symbol.rename σ) := by
  unfold buildSymbol
  rw [mapM_eq_map fun e _ => Formula.eval_rename hσ b e]
  cases formulas.mapM fun e => e.eval b with
  | error fault => rfl
  | ok params =>
    cases t.checkedBy with
    | none => rfl
    | some a =>
      simp only [bind, Except.bind, Except.map, Alphabet.symbol, List.length_map]
      cases a.arity tag with
      | error fault => rfl
      | ok n =>
        simp only
        split <;> rfl

/-- **What a template makes is made where the bindings were.** -/
theorem build_rename (hσ : σ.Injective) (t : Template) (b : Bindings) :
    t.build (b.rename σ) = (t.build b).map (Word.rename σ) := by
  have hsymbols : ∀ entry ∈ t.symbols, t.buildSymbol (b.rename σ) entry.1 entry.2 =
      (t.buildSymbol b entry.1 entry.2).map (Symbol.rename σ) := fun entry _ =>
    buildSymbol_rename hσ t b entry.1 entry.2
  unfold build
  rw [mapM_eq_map hsymbols]
  cases t.symbols.mapM fun entry => t.buildSymbol b entry.1 entry.2 with
  | error fault => rfl
  | ok w => exact congrArg Except.ok (Word.rename_madeBy (fun _ _ => rfl) w).symm

theorem length_build {t : Template} {b : Bindings} {w : Word} (h : t.build b = .ok w) :
    w.length = t.symbols.length := by
  obtain ⟨v, hv, h⟩ := bind_eq_ok_iff.1 h
  cases h
  rw [Word.madeBy, List.length_mapIdx, (mapM_eq_ok_iff.1 hv).length_eq]

/-- A template that serves as a producer. -/
theorem uniform_build (t : Template) : (Producer.function t.build).Uniform := by
  intro σ hσ b
  rw [build_rename hσ]
  cases t.build b <;> rfl

theorem equivariant_build (t : Template) : (Producer.function t.build).Equivariant :=
  t.uniform_build.equivariant

end Template

/-! ## Compiled rules -/

/-- A text writes numbers, which have no origin. -/
theorem Word.rename_of_parse {text : String} {w : Word} (h : Word.parse text = .ok w)
    (σ : Renaming) : Word.rename σ w = w := by
  obtain ⟨tokens, -, h⟩ := bind_eq_ok_iff.1 h
  have hread := (mapM_eq_ok_iff.1 h).flip
  refine Word.rename_of_numbers (forall_of_forall₂ hread fun s t hs v hv => ?_) σ
  obtain ⟨numbers, -, hs⟩ := bind_eq_ok_iff.1 hs
  cases hs
  obtain ⟨x, -, rfl⟩ := List.mem_map.1 hv
  exact ⟨x, rfl⟩

/-- A producer, as it is handed in, is a function of what is bound. Of symbols that are handed in
none has an origin, and a text has none to show. -/
def ProducerSource.Equivariant : ProducerSource → Prop
  | .list items => ∀ item ∈ items, ∀ s, item = .symbol s → ∀ σ, s.rename σ = s
  | .function f => (Producer.function f).Equivariant
  | .text _ | .unusable => True

/-- So is whether it fails. -/
def ProducerSource.Uniform : ProducerSource → Prop
  | .list items => ∀ item ∈ items, ∀ s, item = .symbol s → ∀ σ, s.rename σ = s
  | .function f => (Producer.function f).Uniform
  | .text _ | .unusable => True

namespace RuleSource

variable {source : RuleSource} {a : Alphabet} {index : Nat} {r : Rule}

/-- A guard is compiled as it is handed in. -/
theorem guard_of_compile (h : source.compile a index = .ok r) {guard : Guard}
    (hr : r.guard = some guard) : source.guard = .function guard := by
  obtain ⟨-, -, -, -, -, -, hread, -⟩ := compile_eq_ok_iff.1 h
  rw [hr] at hread
  cases hsource : source.guard with
  | absent =>
    rw [hsource] at hread
    cases hread
  | function f =>
    rw [hsource] at hread
    cases hread
    rfl
  | unusable =>
    rw [hsource] at hread
    cases hread

/-- A function is compiled as it is handed in, and all else to a word, which shows no origin but the
rule if the symbols that are handed in have none. -/
theorem producer_of_compile (h : source.compile a index = .ok r)
    (hplain : ∀ items, source.producer = .list items → ∀ item ∈ items, ∀ s, item = .symbol s →
      ∀ σ, s.rename σ = s) :
    (∃ f, source.producer = .function f ∧ r.producer = .function f) ∨
      ∃ w, r.producer = .word w ∧ ∀ σ, Word.rename σ w = w := by
  obtain ⟨-, -, -, -, -, -, -, hread⟩ := compile_eq_ok_iff.1 h
  cases hsource : source.producer with
  | text text =>
    rw [hsource] at hread
    obtain ⟨w, hw, hr⟩ := bind_eq_ok_iff.1 hread
    refine Or.inr ⟨_, (Except.ok.inj hr).symm, fun σ => ?_⟩
    have hparse := (Alphabet.parse_eq_ok_iff.1 hw).2
    rw [Word.rename_madeBy (fun _ _ => rfl), Word.rename_of_parse hparse]
  | list items =>
    rw [hsource] at hread
    obtain ⟨w, hw, hr⟩ := bind_eq_ok_iff.1 hread
    have hitems := (List.forall₂_and_left items w).2 ⟨hplain items hsource, mapM_eq_ok_iff.1 hw⟩
    have hsymbols : ∀ s ∈ w, ∀ σ, s.rename σ = s := forall_of_forall₂ hitems.flip
      fun s item h => h.1 s (readItem_eq_ok_iff.1 h.2).1
    refine Or.inr ⟨_, (Except.ok.inj hr).symm, fun σ => ?_⟩
    rw [Word.rename_madeBy (fun _ _ => rfl), Word.rename, List.map_congr_left (hsymbols · · σ),
      List.map_id']
  | function f =>
    rw [hsource] at hread
    exact Or.inl ⟨f, rfl, (Except.ok.inj hread).symm⟩
  | unusable =>
    rw [hsource] at hread
    cases hread

/-- **Rules compile to functions of what is bound.** -/
theorem equivariant_of_compile
    (hguard : ∀ guard, source.guard = .function guard → guard.Equivariant)
    (hproducer : source.producer.Equivariant) (h : source.compile a index = .ok r) :
    r.Equivariant := by
  refine ⟨fun guard hr => hguard guard (guard_of_compile h hr), ?_⟩
  rcases producer_of_compile h fun items hitems => by rwa [hitems] at hproducer with
    ⟨f, hf, hr⟩ | ⟨w, hr, hw⟩
  · rw [hf] at hproducer
    rwa [hr]
  · rwa [hr]

/-- Rules that fail for what is bound, and not for where it was made, compile to such rules. -/
theorem uniform_of_compile (hguard : ∀ guard, source.guard = .function guard → guard.Uniform)
    (hproducer : source.producer.Uniform) (h : source.compile a index = .ok r) : r.Uniform := by
  refine ⟨fun guard hr => hguard guard (guard_of_compile h hr), ?_⟩
  rcases producer_of_compile h fun items hitems => by rwa [hitems] at hproducer with
    ⟨f, hf, hr⟩ | ⟨w, hr, hw⟩
  · rw [hf] at hproducer
    rwa [hr]
  · rwa [hr]

end RuleSource

end Arbor
