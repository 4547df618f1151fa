import Arbor.Proofs.Rule.Renaming

/-!
# Rules that do the same everywhere

A guard and a producer are functions of what is bound, and so is whether they fail: a guard that
fails, or a producer that does, fails for all bindings that differ only in where their values were
made (`Rule.Uniform`). This says more than `Rule.Equivariant`, which is about what they give where
they do not fail.

At two places that look alike such a rule either fails at both of them or does the same
(`Rule.Uniform.fire`), and so do rules that are tried in order (`Grammar.applyFrom_uniform`).
-/

namespace Arbor

variable {σ : Renaming}

/-- A guard says the same of bindings with their origins renamed, if it says anything. -/
def Guard.Uniform (guard : Guard) : Prop :=
  ∀ ⦃σ : Renaming⦄, σ.Injective → ∀ b, (guard (b.rename σ)).toOption = (guard b).toOption

/-- A producer makes the renamed word of bindings with their origins renamed, if it makes one. -/
def Producer.Uniform : Producer → Prop
  | .word w => ∀ σ, Word.rename σ w = w
  | .function f => ∀ ⦃σ : Renaming⦄, σ.Injective → ∀ b,
      (f (b.rename σ)).toOption = (f b).toOption.map (Word.rename σ)

theorem Guard.Uniform.equivariant {guard : Guard} (h : guard.Uniform) : guard.Equivariant := by
  intro σ hσ b holds holds' hholds hholds'
  have hsame := h hσ b
  rw [hholds, hholds'] at hsame
  exact Option.some.inj hsame

theorem Producer.Uniform.equivariant {producer : Producer} (h : producer.Uniform) :
    producer.Equivariant := by
  cases producer with
  | word w => exact h
  | function f =>
    intro σ hσ b w w' hw hw'
    have hsame := h hσ b
    rw [hw, hw'] at hsame
    exact Option.some.inj hsame

namespace Rule

variable {r : Rule} {s : Symbol} {left right left' right' : Word}

/-- The guard and the producer of a rule are functions of what is bound, and so is whether they
fail. -/
structure Uniform (r : Rule) : Prop where
  guard : ∀ guard, r.guard = some guard → guard.Uniform
  producer : r.producer.Uniform

theorem Uniform.holds (hr : r.Uniform) (hσ : σ.Injective) (index : Nat) (b : Bindings) :
    (r.checkGuard index (b.rename σ)).value? = (r.checkGuard index b).value? := by
  unfold checkGuard
  cases hguard : r.guard with
  | none => rfl
  | some guard => exact hr.guard guard hguard hσ b

theorem Uniform.product (hr : r.Uniform) (hσ : σ.Injective) (index : Nat) (b : Bindings) :
    (r.product index (b.rename σ)).value? = (r.product index b).value?.map (Word.rename σ) := by
  unfold Rule.product
  have hproducer := hr.producer
  cases hkind : r.producer with
  | word w =>
    rw [hkind] at hproducer
    exact congrArg some (hproducer σ).symm
  | function f =>
    rw [hkind] at hproducer
    exact hproducer hσ b

/-- Where two places look alike a rule does the same, or fails at both. -/
theorem Uniform.fire (hr : r.Uniform) (hσ : σ.Injective)
    (halike : Alike σ r left right left' right') (index : Nat) (site : Site) :
    (r.fire index (σ.site site) (s.rename σ) (.ofList left') (.ofList right')).value? =
      (r.fire index site s (.ofList left) (.ofList right)).value?.map
        (Option.map (Word.rename σ)) := by
  unfold Rule.fire
  rw [bind?_eq _ _ _ (Window.wellPlaced_ofList _) (Window.wellPlaced_ofList _),
    bind?_eq _ _ _ (Window.wellPlaced_ofList _) (Window.wellPlaced_ofList _)]
  simp only [Window.items_ofList]
  by_cases hmatches : r.Matches s left right
  · rw [if_pos hmatches, if_pos (halike.matches_iff.2 hmatches), halike.bindingsAt_eq]
    simp only [Traced.value?_bind, hr.holds hσ]
    cases (r.checkGuard index (r.bindingsAt site s left right)).value? with
    | none => rfl
    | some holds =>
      cases holds with
      | false => rfl
      | true =>
        simp only [Option.bind_some, if_true, Traced.value?_bind, hr.product hσ]
        cases (r.product index (r.bindingsAt site s left right)).value? <;> rfl
  · rw [if_neg hmatches, if_neg (mt halike.matches_iff.1 hmatches)]
    rfl

end Rule

namespace Grammar

variable {site : Site} {s : Symbol} {left right left' right' : Word}

/-- The guards and the producers of all rules are functions of what is bound, and so is whether they
fail. -/
def Uniform (g : Grammar) : Prop := ∀ r ∈ g.rules, r.Uniform

/-- **Rules that are tried in order do the same at places that look alike to them**, or fail at
both. -/
theorem applyFrom_uniform (hσ : σ.Injective) {rules : List Rule}
    (hrules : ∀ r ∈ rules, r.Uniform ∧ Rule.Alike σ r left right left' right') (index : Nat) :
    (applyFrom (σ.site site) (s.rename σ) (.ofList left') (.ofList right') rules index).value? =
      (applyFrom site s (.ofList left) (.ofList right) rules index).value?.map
        (Word.rename σ) := by
  induction rules generalizing index with
  | nil => rfl
  | cons r rules ih =>
    obtain ⟨⟨hr, halike⟩, hrules⟩ := List.forall_mem_cons.1 hrules
    simp only [applyFrom, Traced.value?_bind, hr.fire hσ halike]
    cases (r.fire index site s (.ofList left) (.ofList right)).value? with
    | none => rfl
    | some made =>
      cases made with
      | none => exact ih hrules (index + 1)
      | some w => rfl

end Grammar

end Arbor
