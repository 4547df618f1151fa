import Arbor.Proofs.Value.Renaming
import Mathlib.Data.List.DropRight

/-!
# Renaming the origins of a word

A word is renamed symbol by symbol, so renaming goes along with cutting words apart and putting them
together. Since the sites that a word shows are older than its next generation
(`Word.generation_lt`), the sites of that generation can be renamed without regard to them
(`Renaming.advance`).
-/

namespace Arbor

variable {σ τ : Renaming}

/-! ## Symbols -/

namespace Symbol

/-- A symbol with the origins of its parameters renamed. -/
def rename (σ : Renaming) (s : Symbol) : Symbol := ⟨s.tag, s.params.map (Value.rename σ)⟩

/-- The sites that the parameters of a symbol show. -/
def sites (s : Symbol) : List Site := s.params.flatMap Value.sites

theorem rename_identity (s : Symbol) : s.rename .identity = s := by
  rw [rename, funext Value.rename_identity, List.map_id']

theorem rename_congr (hseed : σ.seed = τ.seed) {s : Symbol}
    (h : ∀ site ∈ s.sites, σ.site site = τ.site site) : s.rename σ = s.rename τ := by
  refine congrArg (Symbol.mk s.tag) (List.map_congr_left fun v hv => ?_)
  exact Value.rename_congr hseed v fun site hsite => h site (List.mem_flatMap.2 ⟨v, hv, hsite⟩)

theorem sites_rename (s : Symbol) : (s.rename σ).sites = s.sites.map σ.site := by
  rw [sites, sites, rename, List.flatMap_map, List.map_flatMap]
  exact congrArg (List.flatMap · s.params) (funext Value.sites_rename)

end Symbol

/-- The largest of some numbers is at least each of them and the number it is compared with. -/
theorem le_foldl_max {α : Type} (f : α → Nat) (xs : List α) (n : Nat) :
    n ≤ xs.foldl (fun n x => max n (f x)) n ∧
      ∀ x ∈ xs, f x ≤ xs.foldl (fun n x => max n (f x)) n := by
  induction xs generalizing n with
  | nil => simp
  | cons x xs ih =>
    obtain ⟨hfirst, hrest⟩ := ih (max n (f x))
    refine ⟨Nat.le_trans (Nat.le_max_left _ _) hfirst, List.forall_mem_cons.2 ⟨?_, hrest⟩⟩
    exact Nat.le_trans (Nat.le_max_right _ _) hfirst

theorem Symbol.generation_lt {s : Symbol} {site : Site} (h : site ∈ s.sites) :
    site.generation < s.nextGeneration := by
  obtain ⟨v, hv, hsite⟩ := List.mem_flatMap.1 h
  exact Nat.lt_of_lt_of_le (Value.generation_lt v hsite) ((le_foldl_max _ s.params 0).2 v hv)

/-! ## Words -/

namespace Word

def rename (σ : Renaming) (w : Word) : Word := w.map (Symbol.rename σ)

def sites (w : Word) : List Site := w.flatMap Symbol.sites

@[simp] theorem rename_nil : rename σ [] = [] := rfl

@[simp] theorem length_rename (w : Word) : (rename σ w).length = w.length := List.length_map _

@[simp] theorem rename_append (w v : Word) : rename σ (w ++ v) = rename σ w ++ rename σ v :=
  List.map_append

theorem rename_take (n : Nat) (w : Word) : rename σ (w.take n) = (rename σ w).take n :=
  List.map_take

theorem rename_drop (n : Nat) (w : Word) : rename σ (w.drop n) = (rename σ w).drop n :=
  List.map_drop

theorem rename_rtake (n : Nat) (w : Word) : rename σ (w.rtake n) = (rename σ w).rtake n := by
  rw [List.rtake, List.rtake, length_rename, rename_drop]

theorem rename_rdrop (n : Nat) (w : Word) : rename σ (w.rdrop n) = (rename σ w).rdrop n := by
  rw [List.rdrop, List.rdrop, length_rename, rename_take]

theorem rename_identity (w : Word) : rename .identity w = w := by
  rw [rename, funext Symbol.rename_identity, List.map_id']

/-- Numbers have no origin. -/
theorem rename_of_numbers {w : Word} (h : ∀ s ∈ w, ∀ v ∈ s.params, ∃ x, v = Value.number x)
    (σ : Renaming) : rename σ w = w := by
  refine (List.map_congr_left fun s hs => ?_).trans (List.map_id w)
  refine congrArg (Symbol.mk s.tag) ((List.map_congr_left fun v hv => ?_).trans (List.map_id _))
  obtain ⟨x, rfl⟩ := h s hs v hv
  rfl

theorem rename_congr (hseed : σ.seed = τ.seed) {w : Word}
    (h : ∀ site ∈ sites w, σ.site site = τ.site site) : rename σ w = rename τ w :=
  List.map_congr_left fun s hs =>
    Symbol.rename_congr hseed fun site hsite => h site (List.mem_flatMap.2 ⟨s, hs, hsite⟩)

theorem sites_rename (w : Word) : sites (rename σ w) = (sites w).map σ.site := by
  rw [sites, sites, rename, List.flatMap_map, List.map_flatMap]
  exact congrArg (List.flatMap · w) (funext Symbol.sites_rename)

/-- The sites of part of a word are among those of the word. -/
theorem sites_subset {v w : Word} (h : v ⊆ w) : sites v ⊆ sites w := fun _ hsite =>
  let ⟨s, hs, hmem⟩ := List.mem_flatMap.1 hsite
  List.mem_flatMap.2 ⟨s, h hs, hmem⟩

/-- The sites that a word shows are of generations before its next one. -/
theorem generation_lt {w : Word} {site : Site} (h : site ∈ sites w) :
    site.generation < nextGeneration w := by
  obtain ⟨s, hs, hsite⟩ := List.mem_flatMap.1 h
  exact Nat.lt_of_lt_of_le (Symbol.generation_lt hsite) ((le_foldl_max _ w 0).2 s hs)

/-- A word made by a source and then renamed is made by the renamed source. -/
theorem rename_madeBy {source other : Source}
    (h : ∀ i j, Origin.rename σ ⟨source, i, j⟩ = ⟨other, i, j⟩) (w : Word) :
    rename σ (madeBy source w) = madeBy other (rename σ w) := by
  refine List.ext_getElem (by simp [madeBy]) fun i hi hi' => ?_
  simp only [rename, madeBy, List.getElem_map, List.getElem_mapIdx]
  refine congrArg (Symbol.mk _) (List.ext_getElem (by simp [Symbol.rename, Symbol.madeBy])
    fun j hj hj' => ?_)
  simp only [Symbol.rename, Symbol.madeBy, List.getElem_map, List.getElem_mapIdx,
    Value.rename_madeAt, h]

end Word

/-! ## Ends of words -/

section Ends

variable {α : Type}

theorem rdrop_append_rtake (xs : List α) (n : Nat) : xs.rdrop n ++ xs.rtake n = xs :=
  List.take_append_drop _ xs

theorem length_rtake (xs : List α) (n : Nat) : (xs.rtake n).length = min n xs.length := by
  rw [List.rtake, List.length_drop]
  omega

/-- The last symbols of a word are among more of its last symbols. -/
theorem rtake_rtake {m n : Nat} (h : m ≤ n) (xs : List α) : (xs.rtake n).rtake m = xs.rtake m := by
  simp only [List.rtake_eq_reverse_take_reverse, List.reverse_reverse, List.take_take,
    Nat.min_eq_left h]

theorem rtake_append (xs ys : List α) (n : Nat) :
    (xs ++ ys).rtake n = xs.rtake (n - ys.length) ++ ys.rtake n := by
  simp only [List.rtake_eq_reverse_take_reverse, List.reverse_append, List.take_append,
    List.length_reverse]

theorem rtake_rdrop (xs : List α) (m n : Nat) :
    (xs.rdrop n).rtake m = (xs.rtake (m + n)).rdrop n := by
  simp only [List.rtake, List.rdrop, List.length_take, List.length_drop, List.drop_take]
  have hstart : min (xs.length - n) xs.length - m = xs.length - (m + n) := by omega
  rw [hstart]
  congr 1
  omega

theorem rdrop_eq_nil {xs : List α} {n : Nat} (h : (xs.rtake n).length < n) : xs.rdrop n = [] := by
  rw [length_rtake] at h
  rw [List.rdrop, Nat.sub_eq_zero_of_le (by omega), List.take_zero]

end Ends

namespace Word

variable {v w v' w' : Word} {m n : Nat}

/-- Words with the same last symbols have the same fewer last symbols. -/
theorem rtake_alike_of_le (h : m ≤ n) (hw : w'.rtake n = rename σ (w.rtake n)) :
    w'.rtake m = rename σ (w.rtake m) := by
  rw [← rtake_rtake h w', hw, ← rename_rtake, rtake_rtake h]

/-- Words with the same first symbols have the same fewer first symbols. -/
theorem take_alike_of_le (h : m ≤ n) (hw : w'.take n = rename σ (w.take n)) :
    w'.take m = rename σ (w.take m) := by
  rw [← Nat.min_eq_left h, ← List.take_take, hw, ← rename_take, List.take_take]

/-- Words put together have the same last symbols if the second ones are the same and the first ones
have the same last symbols, as many as are left over. -/
theorem rtake_alike_append (hw : w'.rtake (n - v.length) = rename σ (w.rtake (n - v.length)))
    (hv : v' = rename σ v) : (w' ++ v').rtake n = rename σ ((w ++ v).rtake n) := by
  rw [hv, rtake_append, rtake_append, rename_append, rename_rtake n v, length_rename, hw]

/-- Words put together have the same first symbols if the first ones are the same and the second
ones have the same first symbols, as many as are left over. -/
theorem take_alike_append (hw : w'.take (n - v.length) = rename σ (w.take (n - v.length)))
    (hv : v' = rename σ v) : (v' ++ w').take n = rename σ ((v ++ w).take n) := by
  rw [hv, List.take_append, List.take_append, rename_append, rename_take n v, length_rename, hw]

end Word

/-! ## New sites -/

namespace Renaming

/-- A renaming of the sites that are shown, and of those of a generation from a place on, which go
to another generation from a place on. No other site is sent to that generation. -/
def advance (σ : Renaming) (shown : List Site) (first first' : Site) : Renaming where
  seed := σ.seed
  site site :=
    if site ∈ shown then σ.site site
    else if site.generation = first.generation ∧ first.place ≤ site.place then
      ⟨first'.generation, first'.place + (site.place - first.place)⟩
    else ⟨first'.generation + 1 + site.generation, site.place⟩

variable {shown : List Site} {first first' : Site}

theorem advance_shown {site : Site} (h : site ∈ shown) :
    (σ.advance shown first first').site site = σ.site site := if_pos h

theorem advance_new (h : ∀ site ∈ shown, site.generation < first.generation) (j : Nat) :
    (σ.advance shown first first').site ⟨first.generation, first.place + j⟩ =
      ⟨first'.generation, first'.place + j⟩ := by
  have hnew : (⟨first.generation, first.place + j⟩ : Site) ∉ shown := fun hmem =>
    absurd (h _ hmem) (Nat.lt_irrefl _)
  simp only [advance, if_neg hnew, Nat.le_add_right, and_self, if_true, Nat.add_sub_cancel_left]

theorem Injective.advance (hσ : σ.Injective)
    (h : ∀ site ∈ shown, (σ.site site).generation < first'.generation) :
    (σ.advance shown first first').Injective := by
  refine ⟨hσ.seed, fun site other heq => ?_⟩
  -- Old sites stay before the new generation, new ones fill it, and the rest goes behind it.
  have hold : ∀ site ∈ shown, ∀ generation place, first'.generation ≤ generation →
      σ.site site ≠ ⟨generation, place⟩ := by
    intro site hsite generation place hle heq
    have hlt := h site hsite
    rw [heq] at hlt
    exact absurd hlt (Nat.not_lt.2 hle)
  obtain ⟨generation, place⟩ := site
  obtain ⟨generation', place'⟩ := other
  simp only [Renaming.advance] at heq
  split_ifs at heq with hsite hother hnew' hnew hother hnew' hother hnew'
  · exact hσ.site heq
  · exact absurd heq (hold _ hsite _ _ (Nat.le_refl _))
  · exact absurd heq (hold _ hsite _ _ (by omega))
  · exact absurd heq.symm (hold _ hother _ _ (Nat.le_refl _))
  · simp only [Site.mk.injEq] at heq hnew hnew' ⊢
    omega
  · simp only [Site.mk.injEq] at heq
    omega
  · exact absurd heq.symm (hold _ hother _ _ (by omega))
  · simp only [Site.mk.injEq] at heq
    omega
  · simp only [Site.mk.injEq] at heq ⊢
    omega

end Renaming

end Arbor
