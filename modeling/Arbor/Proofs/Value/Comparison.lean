import Arbor.Proofs.Binary64.Nearest
import Arbor.Proofs.Number.Exact
import Arbor.Value.Basic
import Arbor.Word.Symbol
import Mathlib.Data.List.Forall2
import Mathlib.Data.List.Perm.Subperm

/-!
# Equality of values goes both ways

Tables are compared by looking up each name of the one in the other, so that it is not plain that
equality goes both ways. It does because two tables of the same length in which each name occurs
once have the same names if the names of the one are among those of the other.

* `Value.same_comm`: equality of values.
* `Word.same_iff_forall₂`: words are equal if their symbols are, place by place.
* `Symbol.sameItem_comm`, `Symbol.sameItem_self`: symbols as items of sequences.
* `isEqv_iff_forall₂`, `isEqv_comm`, `isEqv_self`: sequences, place by place.
-/

namespace Arbor

namespace Number

theorem same_comm (a b : Number) : a.same b = b.same a := by
  rw [Bool.eq_iff_iff, same_iff, same_iff]
  constructor
  · rintro ⟨v, ha, hb⟩
    exact ⟨v, hb, ha⟩
  · rintro ⟨v, hb, ha⟩
    exact ⟨v, ha, hb⟩

end Number

namespace Table

variable {κ α : Type} [DecidableEq κ] {t : Table κ α} {name : κ} {value : α}

theorem mem_of_get? (h : t.get? name = some value) : (name, value) ∈ t := by
  induction t with
  | nil => cases h
  | cons entry rest ih =>
    obtain ⟨other, old⟩ := entry
    rw [get?] at h
    split at h
    · rename_i heq
      cases h
      rw [heq]
      exact List.mem_cons_self
    · exact List.mem_cons_of_mem _ (ih h)

/-- Where each name occurs once, an entry is what is found under its name. -/
theorem get?_of_mem (hnames : t.names.Nodup) (h : (name, value) ∈ t) :
    t.get? name = some value := by
  induction t with
  | nil => cases h
  | cons entry rest ih =>
    obtain ⟨other, old⟩ := entry
    obtain ⟨hnew, hrest⟩ := List.nodup_cons.1 hnames
    rcases List.mem_cons.1 h with heq | hmem
    · cases heq
      exact if_pos rfl
    · have hne : other ≠ name := by
        rintro rfl
        exact hnew (List.mem_map.2 ⟨_, hmem, rfl⟩)
      rw [get?, if_neg hne]
      exact ih hrest hmem

end Table

namespace Value

mutual

/-- In every table that a value is made of each name occurs once. -/
def Distinct : Value → Prop
  | .table entries => (Table.names entries).Nodup ∧ DistinctEntries entries
  | _ => True

/-- The values of a table are made of tables in which each name occurs once. -/
def DistinctEntries : List (String × Value) → Prop
  | [] => True
  | (_, value) :: rest => value.Distinct ∧ DistinctEntries rest

end

theorem DistinctEntries.of_mem {entries : List (String × Value)} (h : DistinctEntries entries)
    {entry : String × Value} (hentry : entry ∈ entries) : entry.2.Distinct := by
  induction entries with
  | nil => cases hentry
  | cons first rest ih =>
    obtain ⟨hfirst, hrest⟩ := h
    rcases List.mem_cons.1 hentry with rfl | hmem
    · exact hfirst
    · exact ih hrest hmem

theorem isCopy_comm (v w : Value) : v.isCopy w = w.isCopy v := by
  cases v with
  | number x =>
    cases w with
    | number y =>
      cases x with
      | float x =>
        cases y with
        | float y => exact Bool.and_comm _ _
        | _ => rfl
      | _ => cases y <;> rfl
    | _ => cases x <;> rfl
  | notANumber origin =>
    cases w with
    | notANumber other => exact Bool.beq_comm
    | number y => cases y <;> rfl
    | _ => rfl
  | _ =>
    cases w with
    | number y => cases y <;> rfl
    | _ => rfl

theorem sameEntries_iff {xs ys : List (String × Value)} :
    sameEntries xs ys = true ↔ ∀ entry ∈ xs, ∃ y, Table.get? ys entry.1 = some y ∧
      (entry.2.isCopy y = true ∨ entry.2.same y = true) := by
  induction xs with
  | nil => simp [sameEntries]
  | cons entry rest ih =>
    obtain ⟨name, x⟩ := entry
    rw [sameEntries, Bool.and_eq_true, ih, List.forall_mem_cons]
    refine and_congr_left fun _ => ?_
    cases Table.get? ys name with
    | none => simp
    | some y => simp

/-- A table whose names are among those of another one, of the same length, has all of them. -/
theorem names_subset {xs ys : Table String Value} (hxs : xs.names.Nodup)
    (hlength : xs.length = ys.length) (hsub : xs.names ⊆ ys.names) : ys.names ⊆ xs.names := by
  have hperm := (List.subperm_of_subset hxs hsub).perm_of_length_le (by
    simp only [Table.names, List.length_map]
    omega)
  exact hperm.symm.subset

mutual

theorem same_symm : ∀ v w : Value, v.Distinct → w.Distinct → v.same w = true → w.same v = true
  | .number x, w, _, _, h => by
    cases w with
    | number y =>
      rw [same] at h ⊢
      rwa [Number.same_comm]
    | _ => cases h
  | .notANumber _, w, _, _, h => by cases w <;> cases h
  | .string s, w, _, _, h => by
    cases w with
    | string t =>
      rw [same] at h ⊢
      rwa [Bool.beq_comm]
    | _ => cases h
  | .slots n, w, _, _, h => by
    cases w with
    | slots m =>
      rw [same] at h ⊢
      rwa [Bool.beq_comm]
    | _ => cases h
  | .member kind name owner _, w, _, _, h => by
    cases w with
    | member other named owned entries =>
      simp only [same, Bool.and_eq_true, beq_iff_eq] at h ⊢
      exact ⟨⟨h.1.1.symm, h.1.2.symm⟩, h.2.symm⟩
    | _ => cases h
  | .table xs, w, hxs, hw, h => by
    cases w with
    | table ys =>
      rw [same, Bool.and_eq_true, beq_iff_eq, sameEntries_iff] at h
      obtain ⟨hlength, hfound⟩ := h
      rw [same, Bool.and_eq_true, beq_iff_eq, sameEntries_iff]
      refine ⟨hlength.symm, fun entry hentry => ?_⟩
      -- each name of the second table is a name of the first, where it finds an entry
      have hsub : Table.names xs ⊆ Table.names ys := by
        intro name hname
        obtain ⟨found, hmem, rfl⟩ := List.mem_map.1 hname
        obtain ⟨y, hy, -⟩ := hfound found hmem
        exact List.mem_map.2 ⟨_, Table.mem_of_get? hy, rfl⟩
      obtain ⟨⟨name, x⟩, hx, hname⟩ := List.mem_map.1
        (names_subset hxs.1 hlength hsub (List.mem_map.2 ⟨_, hentry, rfl⟩))
      obtain ⟨y, hy, hsame⟩ := hfound _ hx
      obtain ⟨name', y'⟩ := entry
      obtain rfl : name = name' := hname
      obtain rfl : y' = y := by
        rw [Table.get?_of_mem hw.1 hentry] at hy
        exact Option.some.inj hy
      refine ⟨x, Table.get?_of_mem hxs.1 hx, ?_⟩
      rcases hsame with hcopy | hsame
      · left
        rwa [isCopy_comm]
      · exact Or.inr (same_symm_of_mem xs hxs.2 _ hx y' (hw.2.of_mem hentry) hsame)
    | _ => cases h

theorem same_symm_of_mem : ∀ xs : List (String × Value), DistinctEntries xs → ∀ entry ∈ xs,
    ∀ w : Value, w.Distinct → entry.2.same w = true → w.same entry.2 = true
  | (_, v) :: rest, hxs, entry, hentry, w, hw, h => by
    rcases List.mem_cons.1 hentry with rfl | hmem
    · exact same_symm v w hxs.1 hw h
    · exact same_symm_of_mem rest hxs.2 entry hmem w hw h

end

/-- **Equality of values goes both ways.** -/
theorem same_comm {v w : Value} (hv : v.Distinct) (hw : w.Distinct) : v.same w = w.same v :=
  Bool.eq_iff_iff.2 ⟨same_symm v w hv hw, same_symm w v hw hv⟩

theorem sameItem_comm {v w : Value} (hv : v.Distinct) (hw : w.Distinct) :
    v.sameItem w = w.sameItem v := by
  rw [sameItem, sameItem, isCopy_comm, same_comm hv hw]

/-- A parameter as symbols declare them: an integer, a truth value or a double. -/
inductive Numeric : Value → Prop
  | int (n : Int) : Numeric (.number (.int n))
  | truth (b : Bool) : Numeric (.number (.truth b))
  | float (x : Float) : Numeric (.number (.float x))
  | notANumber (origin : Origin) : Numeric (.notANumber origin)

/-- What is not a number is one and the same as itself, and every other number equals itself. -/
theorem Numeric.sameItem_self {v : Value} (h : v.Numeric) : v.sameItem v = true := by
  cases h with
  | int n =>
    have hsame : (Number.int n).same (.int n) = true := (Number.same_iff _ _).2 ⟨_, rfl, rfl⟩
    simpa [sameItem, same] using Or.inr hsame
  | truth b =>
    have hsame : (Number.truth b).same (.truth b) = true := (Number.same_iff _ _).2 ⟨_, rfl, rfl⟩
    simpa [sameItem, same] using Or.inr hsame
  | notANumber origin => simp [sameItem, isCopy]
  | float x =>
    cases hx : Binary64.isNotANumber x with
    | true => simp [sameItem, isCopy, hx]
    | false =>
      obtain ⟨v, hv⟩ := Binary64.exists_exactValue hx
      have hsame : (Number.float x).same (.float x) = true := (Number.same_iff _ _).2 ⟨v, hv, hv⟩
      simpa [sameItem, same] using Or.inr hsame

end Value

/-! ## Sequences -/

section Sequences

variable {α : Type} {same : α → α → Bool}

theorem isEqv_iff_forall₂ {l m : List α} :
    l.isEqv m same = true ↔ List.Forall₂ (fun a b => same a b = true) l m := by
  induction l generalizing m with
  | nil => cases m <;> simp
  | cons a l ih =>
    cases m with
    | nil => simp
    | cons b m => rw [List.isEqv_cons_cons, Bool.and_eq_true, ih, List.forall₂_cons]

theorem isEqv_comm {l m : List α} (h : ∀ a ∈ l, ∀ b ∈ m, same a b = same b a) :
    l.isEqv m same = m.isEqv l same := by
  induction l generalizing m with
  | nil => cases m <;> rfl
  | cons a l ih =>
    cases m with
    | nil => rfl
    | cons b m =>
      have hhead := h a List.mem_cons_self b List.mem_cons_self
      have htail := ih fun a ha b hb =>
        h a (List.mem_cons_of_mem _ ha) b (List.mem_cons_of_mem _ hb)
      rw [List.isEqv_cons_cons, List.isEqv_cons_cons, hhead, htail]

theorem isEqv_self {l : List α} (h : ∀ a ∈ l, same a a = true) : l.isEqv l same = true := by
  rw [isEqv_iff_forall₂, List.forall₂_same]
  exact h

end Sequences

namespace Symbol

/-- The parameters of a symbol are made of tables in which each name occurs once. -/
def Distinct (s : Symbol) : Prop := ∀ v ∈ s.params, v.Distinct

theorem sameItem_comm {s t : Symbol} (hs : s.Distinct) (ht : t.Distinct) :
    s.sameItem t = t.sameItem s := by
  have hparams := isEqv_comm fun v hv w hw => Value.sameItem_comm (hs v hv) (ht w hw)
  rw [sameItem, sameItem, hparams, Bool.beq_comm]

theorem sameItem_self {s : Symbol} (h : ∀ v ∈ s.params, v.Numeric) : s.sameItem s = true := by
  rw [sameItem, isEqv_self fun v hv => (h v hv).sameItem_self, beq_self_eq_true, Bool.and_self]

end Symbol

namespace Word

theorem same_iff_forall₂ {w v : Word} :
    same w v = true ↔ List.Forall₂ (fun s t => s.same t = true) w v := by
  induction w generalizing v with
  | nil =>
    cases v with
    | nil => exact iff_of_true rfl .nil
    | cons t v => exact iff_of_false Bool.false_ne_true fun h => nomatch h
  | cons s w ih =>
    cases v with
    | nil => exact iff_of_false Bool.false_ne_true fun h => nomatch h
    | cons t v => rw [same, Bool.and_eq_true, ih, List.forall₂_cons]

end Word

end Arbor
