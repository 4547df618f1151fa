import Arbor.Window

/-!
# The items a window shows

A well placed window shows the items of its array from `start` up to `stop`, as a list. What is
read at an index is read in that list, whatever else the array holds, so two windows that show
the same items cannot be told apart by reading them.
-/

namespace Arbor.Window

variable {α : Type}

/-- The window lies within its array. -/
def WellPlaced (w : Window α) : Prop := 0 ≤ w.start ∧ w.start ≤ w.stop ∧ w.stop ≤ w.data.size

instance (w : Window α) : Decidable w.WellPlaced := inferInstanceAs (Decidable (_ ∧ _ ∧ _))

def items (w : Window α) : List α := (w.data.toList.drop w.start.toNat).take w.length.toNat

theorem length_items {w : Window α} (h : w.WellPlaced) : (w.items.length : Int) = w.length := by
  obtain ⟨hstart, hstop, hsize⟩ := h
  simp only [items, length, List.length_take, List.length_drop, Array.length_toList]
  omega

/-- Reading at an index that is not negative reads the list of items. -/
theorem get?_natCast {w : Window α} (h : w.WellPlaced) (i : Nat) : w.get? i = w.items[i]? := by
  have hlen := length_items h
  obtain ⟨hstart, hstop, hsize⟩ := h
  have hneg : ¬ ((i : Int) < 0) := by omega
  have hpos : (0 : Int) ≤ i := by omega
  by_cases hi : (i : Int) < w.length
  · have hplace : ¬ (w.start + (i : Int) < 0) := by omega
    have hnat : (w.start + (i : Int)).toNat = w.start.toNat + i := by omega
    simp only [get?, if_neg hneg, decide_eq_true hpos, decide_eq_true hi, Bool.and_self, if_true,
      item?, if_neg hplace, hnat]
    rw [items, List.getElem?_take_of_lt (by omega), List.getElem?_drop, Array.getElem?_toList]
  · have hnone : w.items[i]? = none := List.getElem?_eq_none (by omega)
    simp only [get?, if_neg hneg, decide_eq_false hi, Bool.and_false, Bool.false_eq_true, if_false,
      hnone]

theorem wellPlaced_ofList (items : List α) : (ofList items).WellPlaced := by
  simp [WellPlaced, ofList]

@[simp] theorem items_ofList (items : List α) : (ofList items).items = items := by
  simp [Window.items, ofList, length]

/-! ## The two sides of a place -/

theorem wellPlaced_before {data : Array α} {i : Nat} (hi : i ≤ data.size) :
    WellPlaced ⟨data, 0, i⟩ := by
  simp only [WellPlaced]
  omega

theorem wellPlaced_after {data : Array α} {i : Nat} (hi : i < data.size) :
    WellPlaced ⟨data, i + 1, data.size⟩ := by
  simp only [WellPlaced]
  omega

theorem items_before (data : Array α) (i : Nat) :
    items ⟨data, 0, i⟩ = data.toList.take i := by
  simp [items, length]

theorem items_after (data : Array α) (i : Nat) :
    items ⟨data, i + 1, data.size⟩ = data.toList.drop (i + 1) := by
  have hstart : ((i : Int) + 1).toNat = i + 1 := by omega
  have hlength : ((data.size : Int) - (i + 1)).toNat = data.size - (i + 1) := by omega
  simp only [items, length, hstart, hlength]
  exact List.take_of_length_le (by simp)

end Arbor.Window
