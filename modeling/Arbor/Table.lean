/-!
# Tables

A table gives values to names and keeps the order in which the names were first given one. Each
name occurs once in a table that was built with `set`.
-/

namespace Arbor

/-- Values by name, in order. -/
abbrev Table (κ : Type u) (α : Type v) := List (κ × α)

namespace Table

variable {κ : Type u} {α : Type v}

def names (t : Table κ α) : List κ := t.map (·.1)

variable [DecidableEq κ]

def get? (t : Table κ α) (name : κ) : Option α :=
  match t with
  | [] => none
  | (other, value) :: rest => if other = name then some value else get? rest name

/-- `t` with `name` given `value`, in its old place if it has one and at the end otherwise. -/
def set (t : Table κ α) (name : κ) (value : α) : Table κ α :=
  match t with
  | [] => [(name, value)]
  | (other, old) :: rest =>
    if other = name then (other, value) :: rest else (other, old) :: set rest name value

theorem get?_set (t : Table κ α) (name other : κ) (value : α) :
    (t.set name value).get? other = if name = other then some value else t.get? other := by
  induction t with
  | nil => simp [set, get?]
  | cons entry rest ih =>
    obtain ⟨key, old⟩ := entry
    by_cases hkey : key = name
    · subst hkey
      simp only [set, if_true, get?]
      split <;> rfl
    · simp only [set, hkey, if_false, get?, ih]
      by_cases hother : key = other
      · subst hother
        simp [Ne.symm hkey]
      · simp [hother]

/-- A new name is set after all others. -/
theorem set_of_notMem {t : Table κ α} {name : κ} (h : name ∉ t.names) (value : α) :
    t.set name value = t ++ [(name, value)] := by
  induction t with
  | nil => rfl
  | cons entry rest ih =>
    have hother : entry.1 ≠ name := fun heq => h (heq ▸ List.mem_cons_self)
    rw [set, if_neg hother, ih fun hmem => h (List.mem_cons_of_mem _ hmem)]
    rfl

theorem get?_eq_none {t : Table κ α} {name : κ} (h : name ∉ t.names) : t.get? name = none := by
  induction t with
  | nil => rfl
  | cons entry rest ih =>
    have hother : entry.1 ≠ name := fun heq => h (heq ▸ List.mem_cons_self)
    exact (if_neg hother).trans (ih fun hmem => h (List.mem_cons_of_mem _ hmem))

/-- An entry of a table in which a name is set holds the new value or was there before. -/
theorem mem_set {t : Table κ α} {name : κ} {value : α} {entry : κ × α}
    (h : entry ∈ t.set name value) : entry.2 = value ∨ entry ∈ t := by
  induction t with
  | nil => exact Or.inl (by rw [List.mem_singleton.1 h])
  | cons first rest ih =>
    rw [Table.set] at h
    split at h
    · rcases List.mem_cons.1 h with rfl | h
      · exact Or.inl rfl
      · exact Or.inr (List.mem_cons_of_mem _ h)
    · rcases List.mem_cons.1 h with rfl | h
      · exact Or.inr List.mem_cons_self
      · exact (ih h).imp_right (List.mem_cons_of_mem _)

end Table

end Arbor
