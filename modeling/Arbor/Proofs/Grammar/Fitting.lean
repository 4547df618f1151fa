import Arbor.Proofs.Evolution.Pieces
import Arbor.Proofs.Rule.Compiling

/-!
# Grammars stay inside their alphabet

The words that rules always give are checked when the rules are added, and nothing else is checked
later. This is enough: matching and copying make no new symbols, so if functions build their symbols
through the alphabet too, every symbol of every generation fits it. Where there is no function to
call, there is nothing left that could fail.

* `fits_of_compile`: the words that compiled rules always give.
* `Over.fits_of_generation`: one generation.
* `evolve_fits`: any number of generations.
-/

namespace Arbor

/-- The function builds every symbol of its words through the alphabet. -/
def Alphabet.Builds (a : Alphabet) (f : Bindings → Except Fault Word) : Prop :=
  ∀ b w, f b = .ok w → ∀ s ∈ w, ∃ tag params, a.symbol tag params = .ok s

/-! ## Compiled rules -/

/-- The symbols of a word that a rule always gives have been checked. -/
theorem RuleSource.fits_of_compile {source : RuleSource} {a : Alphabet} {index : Nat} {r : Rule}
    {w : Word} (h : source.compile a index = .ok r) (hw : r.producer = .word w) :
    ∀ s ∈ w, a.fits s = true := by
  obtain ⟨-, -, -, -, -, -, -, hproducer⟩ := compile_eq_ok_iff.1 h
  rw [hw] at hproducer
  cases hsource : source.producer with
  | text word =>
    rw [hsource] at hproducer
    obtain ⟨parsed, hparse, hparsed⟩ := bind_eq_ok_iff.1 hproducer
    cases hparsed
    exact Alphabet.fits_madeBy _ parsed (Alphabet.parse_eq_ok_iff.1 hparse).1
  | list items =>
    rw [hsource] at hproducer
    obtain ⟨read, hread, hmade⟩ := bind_eq_ok_iff.1 hproducer
    cases hmade
    refine Alphabet.fits_madeBy _ read ?_
    exact forall_of_forall₂ (mapM_eq_ok_iff.1 hread).flip fun s item h => (readItem_eq_ok_iff.1 h).2
  | function f =>
    rw [hsource] at hproducer
    cases hproducer
  | unusable =>
    rw [hsource] at hproducer
    cases hproducer

namespace Grammar

/-- The grammar that the attempt to add a rule leaves, whether the rule compiles or not. -/
def attempt (g : Grammar) (source : RuleSource) : Grammar := (add source).reached g

/-- The grammar over an alphabet after attempts to add rules. -/
def ofAttempts (a : Alphabet) (sources : List RuleSource) : Grammar :=
  sources.foldl attempt (empty a)

theorem ofRules_eq_ok_iff {a : Alphabet} {sources : List RuleSource} {g : Grammar} :
    ofRules a sources = .ok g ↔ (sources.forM add).run (empty a) = .ok () g := by
  rw [ofRules]
  cases (sources.forM add).run (empty a) <;> simp

/-- If all rules compile, attempts are all it takes. -/
theorem ofAttempts_eq {a : Alphabet} {sources : List RuleSource} {g : Grammar}
    (h : ofRules a sources = .ok g) : ofAttempts a sources = g := by
  rw [ofRules_eq_ok_iff] at h
  unfold ofAttempts
  generalize empty a = start at h ⊢
  induction sources generalizing start with
  | nil =>
    cases h
    rfl
  | cons source sources ih =>
    rw [List.forM_eq_forM, List.forM_cons, Action.bind_run_ok_iff] at h
    obtain ⟨_, next, hnext, h⟩ := h
    rw [List.foldl_cons, attempt, Action.reached_of_ok hnext]
    exact ih next h

/-- The grammar has this alphabet, and its rules have been compiled over it. -/
structure Over (a : Alphabet) (g : Grammar) : Prop where
  alphabet : g.alphabet = a
  compiled : ∀ r ∈ g.rules, ∃ (source : RuleSource) (index : Nat), source.compile a index = .ok r

theorem Over.attempt {a : Alphabet} {g : Grammar} (h : g.Over a) (source : RuleSource) :
    (g.attempt source).Over a := by
  cases hadd : (add source).run g with
  | error fault g' =>
    rw [Grammar.attempt, Action.reached_of_error hadd, (add_run_error_iff.1 hadd).2]
    exact h
  | ok _ g' =>
    obtain ⟨r, hr, rfl⟩ := add_run_ok_iff.1 hadd
    rw [Grammar.attempt, Action.reached_of_ok hadd]
    refine ⟨h.alphabet, fun r' hr' => ?_⟩
    rcases List.mem_append.1 hr' with hold | hnew
    · exact h.compiled r' hold
    · rw [List.mem_singleton.1 hnew]
      rw [h.alphabet] at hr
      exact ⟨source, _, hr⟩

theorem over_ofAttempts (a : Alphabet) (sources : List RuleSource) :
    (ofAttempts a sources).Over a := by
  have hempty : (empty a).Over a := ⟨rfl, List.forall_mem_nil _⟩
  unfold ofAttempts
  generalize empty a = start at hempty ⊢
  induction sources generalizing start with
  | nil => exact hempty
  | cons source sources ih => exact ih _ (hempty.attempt source)

/-! ## Generations -/

/-- What a rule gives fits if its function, if it has one, builds symbols through the alphabet. -/
theorem Over.fits_of_produces {a : Alphabet} {g : Grammar} (h : g.Over a) {r : Rule}
    (hr : r ∈ g.rules) (hf : ∀ f, r.producer = .function f → a.Builds f) {w : Word}
    (hw : r.Produces w) : ∀ s ∈ w, a.fits s = true := by
  cases hw with
  | word hproducer =>
    obtain ⟨source, index, hcompile⟩ := h.compiled r hr
    exact source.fits_of_compile hcompile hproducer
  | @function f b _ hproducer hb =>
    intro s hs
    obtain ⟨tag, params, hsymbol⟩ := hf f hproducer b w hb s hs
    exact (Alphabet.symbol_eq_ok_iff.1 hsymbol).1

theorem Over.fits_of_generation {a : Alphabet} {g : Grammar} (h : g.Over a)
    (hf : ∀ r ∈ g.rules, ∀ f, r.producer = .function f → a.Builds f) (w v : Word)
    (hw : ∀ s ∈ w, a.fits s = true) (hv : (g.generation w).result = .ok v) :
    ∀ s ∈ v, a.fits s = true := by
  obtain ⟨pieces, hpieces, rfl⟩ := exists_pieces hv
  rw [List.forall_mem_flatten]
  refine forall_of_forall₂ ((List.forall₂_and_left w pieces).2 ⟨hw, hpieces⟩).flip ?_
  rintro piece s ⟨hs, rfl | ⟨r, hr, -, hproduces⟩⟩
  · exact List.forall_mem_singleton.2 hs
  · exact h.fits_of_produces hr (hf r hr) hproduces

/-- Without guards and functions, something becomes of every symbol. -/
theorem exists_applyBetween {g : Grammar}
    (h : ∀ r ∈ g.rules, r.guard = none ∧ ∃ w, r.producer = .word w) (site : Site) (s : Symbol)
    (left right : Word) : ∃ piece, (g.applyBetween site s left right).result = .ok piece := by
  have hfirst := firstMatch_applyBetween g site s left right
  generalize g.applyBetween site s left right = t at hfirst ⊢
  cases hfirst with
  | word => exact ⟨_, rfl⟩
  | @function earlier r later f hrules hearlier hfires hproducer =>
    obtain ⟨w, hw⟩ := (h r (by simp [hrules])).2
    rw [hproducer] at hw
    cases hw
  | @fault earlier r later fault hrules hearlier hfaults =>
    obtain ⟨-, guard, hguard, -⟩ := hfaults
    rw [(h r (by simp [hrules])).1] at hguard
    cases hguard
  | unchanged => exact ⟨_, rfl⟩

theorem exists_evolve {g : Grammar}
    (h : ∀ r ∈ g.rules, r.guard = none ∧ ∃ w, r.producer = .word w) (w : Word) (n : Nat) :
    ∃ v, (g.evolve w n).result = .ok v := by
  refine exists_evolve_of (P := fun _ => True) (fun w _ => ?_) trivial n
  obtain ⟨v, hv⟩ := exists_generation_of fun s (_ : s ∈ w) => fun site left right =>
    exists_applyBetween h site s left right
  exact ⟨v, hv, trivial⟩

/-- **Grammars stay inside their alphabet.** Add any rules to a grammar, by itself or all at once.
If the functions of those that compile build their symbols through the alphabet, words over the
alphabet evolve to words over the alphabet. If none of the rules has a guard or a function, every
word evolves for any number of generations, whatever its symbols. -/
theorem evolve_fits (a : Alphabet) (sources : List RuleSource) :
    let g := ofAttempts a sources
    (∀ g', ofRules a sources = .ok g' → g' = g) ∧
    ((∀ r ∈ g.rules, ∀ f, r.producer = .function f → a.Builds f) →
      ∀ w n v, (∀ s ∈ w, a.fits s = true) → (g.evolve w n).result = .ok v →
        ∀ s ∈ v, a.fits s = true) ∧
    ((∀ r ∈ g.rules, r.guard = none ∧ ∃ w, r.producer = .word w) →
      ∀ w n, ∃ v, (g.evolve w n).result = .ok v) := by
  intro g
  refine ⟨fun g' h => (ofAttempts_eq h).symm, fun hf w n v hw hv => ?_, exists_evolve⟩
  exact evolve_induction ((over_ofAttempts a sources).fits_of_generation hf) hw hv

/-- The second rule is not added, since its focus is not in the alphabet. The third one calls a
function; without it, words with foreign symbols evolve as well. -/
theorem evolve_fits_attempts :
    let a : Alphabet := ⟨[("A", .count 0), ("B", .count 0)]⟩
    let double : Bindings → Except Fault Word := fun _ => do
      let s ← a.symbol "A" []
      return [s, s]
    let sources : List RuleSource := [⟨"A", none, none, .absent, .text "B A"⟩,
      ⟨"C", none, none, .absent, .text ""⟩, ⟨"B", some "A", none, .absent, .function double⟩]
    let w : Word := [⟨"B", []⟩, ⟨"A", []⟩, ⟨"A", []⟩, ⟨"A", []⟩]
    (∀ r ∈ (ofAttempts a sources).rules, ∀ f, r.producer = .function f → a.Builds f) ∧
    ((ofAttempts a sources).evolve [⟨"A", []⟩, ⟨"B", []⟩] 1).result = .ok w ∧
    (∀ s ∈ w, a.fits s = true) ∧
    (∀ r ∈ (ofAttempts a (sources.take 2)).rules, r.guard = none ∧ ∃ w, r.producer = .word w) ∧
    ∃ v, ((ofAttempts a (sources.take 2)).evolve [⟨"A", []⟩, ⟨"?", []⟩] 9).result = .ok v := by
  intro a double sources w
  have hall : ofAttempts a sources = ⟨a, [⟨[], ⟨"A", []⟩, [], none, .word [⟨"B", []⟩, ⟨"A", []⟩]⟩,
      ⟨[⟨"A", []⟩], ⟨"B", []⟩, [], none, .function double⟩]⟩ := by cbv
  have hfirst : ofAttempts a (sources.take 2) =
      ⟨a, [⟨[], ⟨"A", []⟩, [], none, .word [⟨"B", []⟩, ⟨"A", []⟩]⟩]⟩ := by cbv
  have hbuilds : ∀ r ∈ (ofAttempts a sources).rules, ∀ f, r.producer = .function f →
      a.Builds f := by
    rw [hall]
    simp only [List.forall_mem_cons]
    refine ⟨fun f hf => ?_, fun f hf b v hv s hs => ?_, List.forall_mem_nil _⟩
    · cases hf
    · cases hf
      cases hv
      refine ⟨"A", [], ?_⟩
      simp only [List.mem_cons, List.not_mem_nil, or_false, or_self] at hs
      rw [hs]
      rfl
  have hstatic : ∀ r ∈ (ofAttempts a (sources.take 2)).rules,
      r.guard = none ∧ ∃ w, r.producer = .word w := by
    rw [hfirst]
    exact List.forall_mem_singleton.2 ⟨rfl, _, rfl⟩
  have hevolve : ((ofAttempts a sources).evolve [⟨"A", []⟩, ⟨"B", []⟩] 1).result = .ok w := by
    rw [hall]
    rfl
  exact ⟨hbuilds, hevolve, (evolve_fits a sources).2.1 hbuilds _ 1 w (by decide) hevolve, hstatic,
    (evolve_fits a (sources.take 2)).2.2 hstatic _ 9⟩

end Grammar

end Arbor
