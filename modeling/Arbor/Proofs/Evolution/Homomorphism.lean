import Arbor.Proofs.Evolution.Locality

/-!
# Context-free evolution is a homomorphism

If no rule of a grammar looks at what stands before or after a symbol, what becomes of a block of a
word is what becomes of the block alone. So two words that are put together evolve as each of them
does, and if one of them comes to a fault in some generation they do so together. Nothing is assumed
of the lengths: symbols may be erased.

Alone and within a word a block is at other sites, which renames the origins of what is made there.

* `ContextFree.applyBetween`: the contexts of a symbol do not matter.
* `ContextFree.offspring`: the same symbols become the same in two words.
* `exists_offspring_block`: one generation of a block, within a word and alone.
* `Joined.generation`: one generation of two words that are put together.
* `evolve_append`: any number of generations.
-/

namespace Arbor

/-! ## Words put together -/

/-- A word is one word and then another, but for the origins. -/
def Word.Joined (w a b : Word) : Prop :=
  ∃ σ τ : Renaming, σ.Injective ∧ τ.Injective ∧ w = Word.rename σ a ++ Word.rename τ b

theorem Word.joined_append (a b : Word) : Joined (a ++ b) a b :=
  ⟨.identity, .identity, Renaming.injective_identity, Renaming.injective_identity, by
    rw [rename_identity, rename_identity]⟩

/-- Words of numbers are put together as they are. -/
theorem Word.Joined.eq_append {w a b : Word} (h : Joined w a b)
    (hnumbers : ∀ s ∈ a ++ b, ∀ value ∈ s.params, ∃ x, value = .number x) : w = a ++ b := by
  obtain ⟨σ, τ, -, -, rfl⟩ := h
  rw [List.forall_mem_append] at hnumbers
  rw [rename_of_numbers hnumbers.1, rename_of_numbers hnumbers.2]

/-- What comes of a whole and of its two parts: of the whole something comes exactly if something
comes of both parts, and then it is these put together. -/
inductive Concatenates : Option Word → Option Word → Option Word → Prop
  | both {w a b} : w.Joined a b → Concatenates (some w) (some a) (some b)
  | first (y) : Concatenates none none y
  | second (x) : Concatenates none x none

/-- If something comes of both parts, what comes next is again put together. -/
theorem Concatenates.bind {x y z : Option Word} {f : Word → Option Word} (h : Concatenates x y z)
    (hf : ∀ w a b, Word.Joined w a b → Concatenates (f w) (f a) (f b)) :
    Concatenates (x.bind f) (y.bind f) (z.bind f) := by
  cases h with
  | both hjoined => exact hf _ _ _ hjoined
  | first y => exact .first _
  | second x => exact .second _

namespace Grammar

variable {g : Grammar} {σ : Renaming}

/-! ## One generation -/

/-- No rule looks at what stands before or after a symbol. -/
def ContextFree (g : Grammar) : Prop := ∀ r ∈ g.rules, r.left = [] ∧ r.right = []

/-- **What becomes of a symbol does not depend on its contexts**, and neither does whether anything
becomes of it. -/
theorem ContextFree.applyBetween (hfree : g.ContextFree) (hg : g.Uniform) (hσ : σ.Injective)
    (site : Site) (s : Symbol) (left right left' right' : Word) :
    (g.applyBetween (σ.site site) (s.rename σ) left' right').value? =
      (g.applyBetween site s left right).value?.map (Word.rename σ) := by
  refine applyFrom_uniform hσ (fun r hr => ⟨hg r hr, ?_, ?_⟩) 0
  · rw [(hfree r hr).1, List.length_nil, List.rtake_zero, List.rtake_zero, Word.rename_nil]
  · rw [(hfree r hr).2, List.length_nil, List.take_zero, List.take_zero, Word.rename_nil]

/-- What becomes of the same symbol at places of two words. -/
theorem ContextFree.successor (hfree : g.ContextFree) (hg : g.Uniform) (hσ : σ.Injective)
    {w w' : Word} {i i' : Nat} (hsymbol : w'[i']? = w[i]?.map (Symbol.rename σ))
    (hsite : σ.site ⟨Word.nextGeneration w, i⟩ = ⟨Word.nextGeneration w', i'⟩) :
    (g.successor w' i').value? = (g.successor w i).value?.map (Word.rename σ) := by
  unfold Grammar.successor
  rw [hsymbol, ← hsite]
  cases w[i]? with
  | none => rfl
  | some s => exact hfree.applyBetween hg hσ _ s _ _ _ _

theorem offspring_succ (g : Grammar) (w : Word) (first count : Nat) :
    g.offspring w first (count + 1) = (g.successor w first).bind fun piece =>
      (g.offspring w (first + 1) count).bind fun rest => .ofResult (.ok (piece ++ rest)) := by
  rw [offspring, List.range'_succ, Traced.join_cons]
  rfl

/-- What becomes of the same symbols, side by side, in two words. -/
theorem ContextFree.offspring (hfree : g.ContextFree) (hg : g.Uniform) (hσ : σ.Injective)
    {w w' : Word} {first first' count : Nat}
    (hsymbol : ∀ j < count, w'[first' + j]? = w[first + j]?.map (Symbol.rename σ))
    (hsite : ∀ j, σ.site ⟨Word.nextGeneration w, first + j⟩ =
      ⟨Word.nextGeneration w', first' + j⟩) :
    (g.offspring w' first' count).value? =
      (g.offspring w first count).value?.map (Word.rename σ) := by
  induction count generalizing first first' with
  | zero => rfl
  | succ count ih =>
    have hfirst : (g.successor w' first').value? =
        (g.successor w first).value?.map (Word.rename σ) :=
      hfree.successor hg hσ (hsymbol 0 (Nat.succ_pos count)) (hsite 0)
    have hrest : (g.offspring w' (first' + 1) count).value? =
        (g.offspring w (first + 1) count).value?.map (Word.rename σ) := by
      apply ih
      · intro j hj
        rw [Nat.add_assoc, Nat.add_assoc]
        exact hsymbol (1 + j) (by omega)
      · intro j
        rw [Nat.add_assoc, Nat.add_assoc]
        exact hsite (1 + j)
    rw [offspring_succ, offspring_succ]
    simp only [Traced.value?_bind, hfirst, hrest, Traced.value?_ofResult]
    cases (g.successor w first).value? with
    | none => rfl
    | some piece =>
      cases (g.offspring w (first + 1) count).value? with
      | none => rfl
      | some rest => simp

/-- **One generation of a block is one generation of it alone**, at other sites. -/
theorem exists_offspring_block (hfree : g.ContextFree) (hg : g.Uniform) (hσ : σ.Injective)
    {w a t b : Word} (hw : w = a ++ (Word.rename σ t ++ b)) :
    ∃ τ : Renaming, τ.Injective ∧ (g.offspring w a.length t.length).value? =
      (g.generation t).value?.map (Word.rename τ) := by
  have halike : Parts.Alike σ 0 0 ⟨[], t, []⟩ ⟨a, Word.rename σ t, b⟩ := ⟨by simp, rfl, by simp⟩
  obtain ⟨τ, hτ, halike, hsite⟩ := halike.exists_advance hσ 0 a.length
  have hblock : Word.rename σ t = Word.rename τ t := halike.block
  have hword : Parts.word ⟨[], t, []⟩ = t := List.append_nil t
  have hword' : Parts.word ⟨a, Word.rename σ t, b⟩ = w := hw.symm
  rw [hword, hword'] at hsite
  refine ⟨τ, hτ, ?_⟩
  rw [generation_eq_offspring]
  refine hfree.offspring hg hτ (fun j hj => ?_) hsite
  have hj' : j < (Word.rename τ t).length := by rwa [Word.length_rename]
  rw [hw, hblock, List.getElem?_append_right (Nat.le_add_right _ _), Nat.add_sub_cancel_left,
    List.getElem?_append_left hj', Nat.zero_add, Word.rename, List.getElem?_map]

/-- **One generation of two words that are put together.** -/
theorem Joined.generation (hfree : g.ContextFree) (hg : g.Uniform) {w a b : Word}
    (h : w.Joined a b) :
    Concatenates (g.generation w).value? (g.generation a).value? (g.generation b).value? := by
  obtain ⟨σ, τ, hσ, hτ, hw⟩ := h
  obtain ⟨σ', hσ', hfirst⟩ := exists_offspring_block hfree hg hσ (a := []) hw
  have hw' : w = Word.rename σ a ++ (Word.rename τ b ++ []) := by rw [hw, List.append_nil]
  obtain ⟨τ', hτ', hsecond⟩ := exists_offspring_block hfree hg hτ hw'
  rw [List.length_nil] at hfirst
  rw [Word.length_rename] at hsecond
  have hlength : w.length = a.length + b.length := by
    rw [hw, List.length_append, Word.length_rename, Word.length_rename]
  rw [generation_eq_offspring g w, hlength, offspring_add]
  simp only [Traced.value?_bind, hfirst, Nat.zero_add, hsecond, Traced.value?_ofResult]
  cases (g.generation a).value? with
  | none => exact .first _
  | some a' =>
    cases (g.generation b).value? with
    | none => exact .second _
    | some b' => exact .both ⟨σ', τ', hσ', hτ', rfl⟩

/-! ## Any number of generations -/

theorem Joined.evolve (hfree : g.ContextFree) (hg : g.Uniform) {w a b : Word} (h : w.Joined a b)
    (n : Nat) :
    Concatenates (g.evolve w n).value? (g.evolve a n).value? (g.evolve b n).value? := by
  induction n generalizing w a b with
  | zero => exact .both h
  | succ n ih =>
    simp only [evolve_succ, Traced.value?_bind]
    exact (Joined.generation hfree hg h).bind fun _ _ _ hnext => ih hnext

/-- **Context-free evolution is a homomorphism.** Two words that are put together evolve to
something exactly if both of them do, and then to what they evolve to, put together.

Since the two are at other sites within the word than alone, this is up to a renaming of the origins
of each. Numbers have none, so what are words of numbers are put together as they are. -/
theorem evolve_append (g : Grammar) (hfree : g.ContextFree) (hg : g.Uniform) (u v : Word)
    (n : Nat) :
    ((∃ w, (g.evolve (u ++ v) n).result = .ok w) ↔
      (∃ a, (g.evolve u n).result = .ok a) ∧ ∃ b, (g.evolve v n).result = .ok b) ∧
    ∀ w a b, (g.evolve (u ++ v) n).result = .ok w → (g.evolve u n).result = .ok a →
      (g.evolve v n).result = .ok b →
        (∃ σ τ : Renaming, σ.Injective ∧ τ.Injective ∧ w = Word.rename σ a ++ Word.rename τ b) ∧
        ((∀ s ∈ a ++ b, ∀ value ∈ s.params, ∃ x, value = .number x) → w = a ++ b) := by
  have hevolve := Joined.evolve hfree hg (Word.joined_append u v) n
  simp only [← Traced.value?_eq_some_iff]
  generalize (g.evolve (u ++ v) n).value? = x at hevolve ⊢
  generalize (g.evolve u n).value? = y at hevolve ⊢
  generalize (g.evolve v n).value? = z at hevolve ⊢
  cases hevolve with
  | @both w a b hjoined =>
    refine ⟨iff_of_true ⟨w, rfl⟩ ⟨⟨a, rfl⟩, b, rfl⟩, ?_⟩
    rintro _ _ _ ⟨⟩ ⟨⟩ ⟨⟩
    exact ⟨hjoined, hjoined.eq_append⟩
  | first y => exact ⟨by simp, nofun⟩
  | second x => exact ⟨by simp, nofun⟩

/-- A letter counts up to three and sheds a `B` on the way, which is gone one generation later. -/
theorem evolve_append_shed :
    let guard : Formula := .comparison .less (.named "x") (.numeral "3")
    let product : Template :=
      ⟨[("A", [.arithmetic .add (.named "x") (.numeral "1")]), ("B", [])], none⟩
    let g : Grammar := ⟨⟨[]⟩,
      [⟨[], ⟨"A", [.named "x"]⟩, [], some guard.holds, .function product.build⟩,
        ⟨[], ⟨"B", []⟩, [], none, .word []⟩]⟩
    let a (n : Int) : Symbol := ⟨"A", [.number (.int n)]⟩
    let b : Symbol := ⟨"B", []⟩
    g.ContextFree ∧ g.Uniform ∧
    (g.evolve ([b, a 1] ++ [a 0, ⟨"C", []⟩]) 2).result = .ok [a 3, b, a 2, b, ⟨"C", []⟩] ∧
    (g.evolve [b, a 1] 2).result = .ok [a 3, b] ∧
    (g.evolve [a 0, ⟨"C", []⟩] 2).result = .ok [a 2, b, ⟨"C", []⟩] ∧
    ((∃ w, (g.evolve ([b, a 1] ++ [a 0, ⟨"C", []⟩]) 2).result = .ok w) ↔
      (∃ x, (g.evolve [b, a 1] 2).result = .ok x) ∧
        ∃ y, (g.evolve [a 0, ⟨"C", []⟩] 2).result = .ok y) ∧
    ∀ w x y, (g.evolve ([b, a 1] ++ [a 0, ⟨"C", []⟩]) 2).result = .ok w →
      (g.evolve [b, a 1] 2).result = .ok x → (g.evolve [a 0, ⟨"C", []⟩] 2).result = .ok y →
        (∃ σ τ : Renaming, σ.Injective ∧ τ.Injective ∧ w = Word.rename σ x ++ Word.rename τ y) ∧
        ((∀ s ∈ x ++ y, ∀ value ∈ s.params, ∃ x, value = .number x) → w = x ++ y) := by
  intro guard product g a b
  have hfree : g.ContextFree := by simp [g, ContextFree]
  have hg : g.Uniform := by
    refine List.forall_mem_cons.2 ⟨⟨fun f hf => ?_, product.uniform_build⟩,
      List.forall_mem_singleton.2 ⟨nofun, fun _ => rfl⟩⟩
    obtain rfl := Option.some.inj hf
    exact guard.uniform_holds
  exact ⟨hfree, hg, rfl, rfl, rfl, evolve_append g hfree hg _ _ 2⟩

end Grammar

end Arbor
