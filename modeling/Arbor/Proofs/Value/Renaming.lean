import Arbor.Value.Operation
import Arbor.Word.Symbol
import Mathlib.Logic.Function.Basic
import Mathlib.Tactic.SplitIfs

/-!
# Renaming origins

Values that are not a number keep their origin: where they were made. Two words made in the same
way at other places differ in these origins and in nothing else. A renaming takes the origins of
one to those of the other: it moves the places of a first word and the sites at which rules fired,
and leaves alone what a rule always gives.

* `rename_congr`: a renaming matters only where the value shows a site.
* `generation_lt`: the sites that a value shows are of generations before its next one.
* `same_rename`, `apply_rename`: comparisons and arithmetic do not see a renaming that keeps
  different origins apart.
-/

namespace Arbor

/-- What becomes of origins: of those in a first word, by symbol and parameter, and of sites. -/
structure Renaming where
  seed : Nat × Nat → Nat × Nat
  site : Site → Site

namespace Renaming

/-- Different origins stay different. -/
structure Injective (σ : Renaming) : Prop where
  seed : Function.Injective σ.seed
  site : Function.Injective σ.site

def identity : Renaming := ⟨id, id⟩

theorem injective_identity : identity.Injective := ⟨fun _ _ h => h, fun _ _ h => h⟩

end Renaming

variable {σ τ : Renaming}

/-! ## Origins -/

def Source.sites : Source → List Site
  | .firing site => [site]
  | .seed | .rule _ => []

def Origin.rename (σ : Renaming) : Origin → Origin
  | ⟨.seed, i, j⟩ => ⟨.seed, (σ.seed (i, j)).1, (σ.seed (i, j)).2⟩
  | ⟨.rule index, i, j⟩ => ⟨.rule index, i, j⟩
  | ⟨.firing site, i, j⟩ => ⟨.firing (σ.site site), i, j⟩

theorem Origin.rename_identity (origin : Origin) : origin.rename .identity = origin := by
  obtain ⟨source, i, j⟩ := origin
  cases source <;> rfl

theorem Origin.rename_congr {origin : Origin} (hseed : σ.seed = τ.seed)
    (hsite : ∀ site ∈ origin.source.sites, σ.site site = τ.site site) :
    origin.rename σ = origin.rename τ := by
  obtain ⟨source, i, j⟩ := origin
  cases source with
  | seed => simp only [rename, hseed]
  | rule index => rfl
  | firing site => simp only [rename, hsite site List.mem_cons_self]

theorem Origin.sites_rename (origin : Origin) :
    (origin.rename σ).source.sites = origin.source.sites.map σ.site := by
  obtain ⟨source, i, j⟩ := origin
  cases source <;> rfl

theorem Origin.rename_injective (hσ : σ.Injective) : Function.Injective (Origin.rename σ) := by
  rintro ⟨source, i, j⟩ ⟨other, i', j'⟩ h
  cases source <;> cases other <;> simp only [rename, mk.injEq, Source.firing.injEq,
    Source.rule.injEq, reduceCtorEq, false_and, true_and] at h ⊢
  · exact Prod.mk.inj (hσ.seed (Prod.ext h.1 h.2))
  · exact h
  · exact ⟨hσ.site h.1, h.2⟩

/-! ## Values -/

namespace Value

mutual

def rename (σ : Renaming) : Value → Value
  | .notANumber origin => .notANumber (origin.rename σ)
  | .table entries => .table (renameEntries σ entries)
  | .member kind name owner entries =>
    .member kind name (owner.map σ.site) (renameEntries σ entries)
  | v => v

/-- The entries of a table with the origins of their values renamed. -/
def renameEntries (σ : Renaming) : List (String × Value) → List (String × Value)
  | [] => []
  | (name, value) :: rest => (name, value.rename σ) :: renameEntries σ rest

end

mutual

def sites : Value → List Site
  | .notANumber origin => origin.source.sites
  | .table entries => entrySites entries
  | .member _ _ owner entries => owner.toList ++ entrySites entries
  | _ => []

def entrySites : List (String × Value) → List Site
  | [] => []
  | (_, value) :: rest => value.sites ++ entrySites rest

end

mutual

theorem rename_identity : ∀ v : Value, v.rename .identity = v
  | .notANumber origin => congrArg notANumber origin.rename_identity
  | .table entries => congrArg table (renameEntries_identity entries)
  | .member kind name owner entries => by
    rw [rename, renameEntries_identity entries, Renaming.identity, Option.map_id_fun, id]
  | .number _ | .string _ | .slots _ => rfl

theorem renameEntries_identity :
    ∀ entries : List (String × Value), renameEntries .identity entries = entries
  | [] => rfl
  | (name, value) :: rest => by
    rw [renameEntries, rename_identity value, renameEntries_identity rest]

end

mutual

/-- A renaming matters only for what a value shows. -/
theorem rename_congr (hseed : σ.seed = τ.seed) :
    ∀ v : Value, (∀ site ∈ v.sites, σ.site site = τ.site site) → v.rename σ = v.rename τ
  | .notANumber _, h => congrArg notANumber (Origin.rename_congr hseed h)
  | .table entries, h => congrArg table (renameEntries_congr hseed entries h)
  | .member kind name owner entries, h => by
    have howner : owner.map σ.site = owner.map τ.site := by
      cases owner with
      | none => rfl
      | some site => exact congrArg some (h site (List.mem_append_left _ List.mem_cons_self))
    rw [rename, rename, howner,
      renameEntries_congr hseed entries fun site hsite =>
        h site (List.mem_append_right _ hsite)]
  | .number _, _ | .string _, _ | .slots _, _ => rfl

theorem renameEntries_congr (hseed : σ.seed = τ.seed) : ∀ entries : List (String × Value),
    (∀ site ∈ entrySites entries, σ.site site = τ.site site) →
      renameEntries σ entries = renameEntries τ entries
  | [], _ => rfl
  | (name, value) :: rest, h => by
    rw [renameEntries, renameEntries,
      rename_congr hseed value fun site hsite => h site (List.mem_append_left _ hsite),
      renameEntries_congr hseed rest fun site hsite => h site (List.mem_append_right _ hsite)]

end

mutual

theorem sites_rename : ∀ v : Value, (v.rename σ).sites = v.sites.map σ.site
  | .notANumber origin => origin.sites_rename
  | .table entries => sites_renameEntries entries
  | .member _ _ owner entries => by
    rw [rename, sites, sites, sites_renameEntries entries, List.map_append]
    cases owner <;> rfl
  | .number _ | .string _ | .slots _ => rfl

theorem sites_renameEntries : ∀ entries : List (String × Value),
    entrySites (renameEntries σ entries) = (entrySites entries).map σ.site
  | [] => rfl
  | (_, value) :: rest => by
    rw [renameEntries, entrySites, entrySites, sites_rename value, sites_renameEntries rest,
      List.map_append]

end

mutual

/-- The sites that a value shows are of generations before its next one. -/
theorem generation_lt {site : Site} : ∀ v : Value, site ∈ v.sites →
    site.generation < v.nextGeneration
  | .notANumber ⟨.firing _, _, _⟩, h => by
    rw [List.mem_singleton.1 h]
    exact Nat.lt_succ_self _
  | .table entries, h => entryGeneration_lt entries h
  | .member _ _ owner entries, h => by
    rcases List.mem_append.1 h with h | h
    · rw [Option.mem_toList.1 h]
      exact Nat.lt_of_lt_of_le (Nat.lt_succ_self _) (Nat.le_max_left _ _)
    · exact Nat.lt_of_lt_of_le (entryGeneration_lt entries h) (Nat.le_max_right _ _)
  | .notANumber ⟨.seed, _, _⟩, h | .notANumber ⟨.rule _, _, _⟩, h
  | .number _, h | .string _, h | .slots _, h => by cases h

theorem entryGeneration_lt {site : Site} : ∀ entries : List (String × Value),
    site ∈ entrySites entries → site.generation < nextEntryGeneration entries
  | (_, value) :: rest, h => by
    rcases List.mem_append.1 h with h | h
    · exact Nat.lt_of_lt_of_le (generation_lt value h) (Nat.le_max_left _ _)
    · exact Nat.lt_of_lt_of_le (entryGeneration_lt rest h) (Nat.le_max_right _ _)

end

theorem renameEntries_eq_map (entries : List (String × Value)) :
    renameEntries σ entries = entries.map fun entry => (entry.1, entry.2.rename σ) := by
  induction entries with
  | nil => rfl
  | cons entry rest ih => rw [renameEntries, ih, List.map_cons]

theorem get?_renameEntries (entries : List (String × Value)) (name : String) :
    Table.get? (renameEntries σ entries) name =
      (Table.get? entries name).map (Value.rename σ) := by
  induction entries with
  | nil => rfl
  | cons entry rest ih =>
    obtain ⟨key, value⟩ := entry
    simp only [renameEntries, Table.get?, ih]
    split <;> rfl

/-- A value that is made at an origin and then renamed is made at the renamed origin. -/
theorem rename_madeAt (origin : Origin) (v : Value) :
    (v.madeAt origin).rename σ = (v.rename σ).madeAt (origin.rename σ) := by
  cases v with
  | number x =>
    cases x with
    | float x =>
      simp only [rename, madeAt]
      split <;> rfl
    | _ => rfl
  | _ => rfl

/-! ## What does not see a renaming -/

theorem plain_rename (v : Value) : (v.rename σ).plain = v.plain.rename σ := by
  cases v <;> rfl

theorem isTrue_rename (v : Value) : (v.rename σ).isTrue = v.isTrue := by
  cases v with
  | table entries => cases entries <;> rfl
  | _ => rfl

theorem same_number_rename (x : Number) (v : Value) :
    (Value.number x).same (v.rename σ) = (Value.number x).same v := by
  cases v <;> rfl

section Injective

variable (hσ : σ.Injective)

include hσ

theorem isCopy_rename (v w : Value) : (v.rename σ).isCopy (w.rename σ) = v.isCopy w := by
  cases v with
  | number x => cases x <;> cases w <;> rfl
  | notANumber origin =>
    cases w with
    | notANumber other => exact decide_eq_decide.2 (Origin.rename_injective hσ).eq_iff
    | _ => rfl
  | _ => rfl

mutual

theorem same_rename : ∀ v w : Value, (v.rename σ).same (w.rename σ) = v.same w
  | .table xs, .table ys => by
    have hlength : ∀ entries : List (String × Value),
        (renameEntries σ entries).length = entries.length := fun entries => by
      rw [renameEntries_eq_map, List.length_map]
    simp only [rename, same, hlength, sameEntries_rename xs ys]
  | .member kind name owner _, .member other named owned _ => by
    have howner : (owner.map σ.site == owned.map σ.site) = (owner == owned) :=
      Bool.eq_iff_iff.2 (by simp only [beq_iff_eq, (Option.map_injective hσ.site).eq_iff])
    simp only [rename, same, howner]
  | .number _, w | .string _, w | .slots _, w | .notANumber _, w => by cases w <;> rfl
  | .table _, .number _ | .table _, .notANumber _ | .table _, .string _ | .table _, .slots _
  | .table _, .member .. => rfl
  | .member .., .number _ | .member .., .notANumber _ | .member .., .string _
  | .member .., .slots _ | .member .., .table _ => rfl

theorem sameEntries_rename : ∀ xs ys : List (String × Value),
    sameEntries (renameEntries σ xs) (renameEntries σ ys) = sameEntries xs ys
  | [], _ => rfl
  | (name, x) :: rest, ys => by
    simp only [renameEntries, sameEntries, get?_renameEntries, sameEntries_rename rest ys]
    cases Table.get? ys name with
    | none => rfl
    | some y => simp only [Option.map_some, isCopy_rename hσ, same_rename x y]

end

end Injective

/-! ## Arithmetic -/

theorem map_number_rename (result : Except Fault Number) :
    (result.map number).map (rename σ) = result.map number := by
  cases result <;> rfl

theorem copies_rename (n : Int) (v : Value) :
    (v.rename σ).copies n = (v.copies n).map (rename σ) := by
  cases v with
  | string s =>
    simp only [rename, copies]
    split_ifs <;> rfl
  | slots k =>
    simp only [rename, copies]
    split_ifs <;> rfl
  | _ => rfl

theorem repeated_rename (v count : Value) :
    (v.rename σ).repeated (count.rename σ) = (v.repeated count).map (rename σ) := by
  cases count with
  | number x =>
    cases x with
    | int n => exact copies_rename n v
    | truth b => exact copies_rename (Number.ofTruth b) v
    | _ => rfl
  | _ => rfl

theorem add_rename (v w : Value) :
    (v.rename σ).add (w.rename σ) = (v.add w).map (rename σ) := by
  unfold add
  rw [plain_rename, plain_rename]
  cases v.plain <;> cases w.plain <;> first | rfl | exact (map_number_rename _).symm

theorem sub_rename (v w : Value) :
    (v.rename σ).sub (w.rename σ) = (v.sub w).map (rename σ) := by
  unfold sub
  rw [plain_rename, plain_rename]
  cases v.plain <;> cases w.plain <;> first | rfl | exact (map_number_rename _).symm

theorem mul_rename (v w : Value) :
    (v.rename σ).mul (w.rename σ) = (v.mul w).map (rename σ) := by
  unfold mul
  rw [plain_rename, plain_rename]
  cases v.plain with
  | number x =>
    cases w.plain with
    | number y => exact (map_number_rename _).symm
    | string s => exact repeated_rename (.string s) (.number x)
    | slots n => exact repeated_rename (.slots n) (.number x)
    | _ => rfl
  | string s => exact repeated_rename (.string s) _
  | slots n => exact repeated_rename (.slots n) _
  | _ => cases w.plain <;> rfl

theorem neg_rename (v : Value) : (v.rename σ).neg = v.neg.map (rename σ) := by
  unfold neg
  rw [plain_rename]
  cases v.plain <;> rfl

end Value

/-- What arithmetic comes to depends on origins only through what it hands on. -/
theorem ArithmeticOp.apply_rename (op : ArithmeticOp) (v w : Value) :
    op.apply (v.rename σ) (w.rename σ) = (op.apply v w).map (Value.rename σ) := by
  cases op with
  | add => exact Value.add_rename v w
  | sub => exact Value.sub_rename v w
  | mul => exact Value.mul_rename v w

/-- Comparisons depend on origins only as far as they are the same or different. -/
theorem ComparisonOp.apply_rename (hσ : σ.Injective) (op : ComparisonOp) (v w : Value) :
    op.apply (v.rename σ) (w.rename σ) = op.apply v w := by
  unfold apply
  rw [Value.plain_rename, Value.plain_rename]
  have hsame := Value.same_rename hσ v.plain w.plain
  generalize v.plain = v at hsame ⊢
  generalize w.plain = w at hsame ⊢
  cases v <;> cases w <;> cases op <;>
    first
    | rfl
    | exact congrArg Except.ok hsame
    | exact congrArg (fun same => Except.ok !same) hsame

end Arbor
