import Arbor.Proofs.Fault.Outcome
import Arbor.Proofs.Value.Comparison
import Arbor.Proofs.Window.Slices

/-!
# A window as a sequence

A window that lies within its array answers as the list of its items would. Its operations are of
three kinds. Some walk along the places of the array from where the window starts, some read at one
index after another, and some copy all items beforehand. The walks and the readings meet the items
one by one, in order (`forall₂_places`, `map_get?`), so that what they come to is computed from the
list.

* `get_eq_item`: reading at an index, in the window and in the list of its items.
* `toList_eq`, `reversed_eq`, `contains_eq`, `count_eq`, `decides_index`: walks and searches.
* `sameAsWord_eq`, `sameAsValue_eq`, `same_eq`, `same_comm`: comparisons.
* `views_items`: all of it, for windows of symbols.
-/

namespace Arbor

/-- A list meets its places in order. -/
theorem forall₂_range {α : Type} {R : Nat → α → Prop} {l : List α}
    (h : ∀ i a, l[i]? = some a → R i a) : List.Forall₂ R (List.range l.length) l := by
  refine List.forall₂_iff_get.2 ⟨List.length_range, fun i _ hi => ?_⟩
  simp only [List.get_eq_getElem, List.getElem_range]
  exact h i _ (List.getElem?_eq_getElem hi)

namespace Window

variable {α : Type} {w : Window α}

/-- The window lies within its array, and the places of the array are machine words. -/
structure Addressable (w : Window α) : Prop where
  placed : w.WellPlaced
  counted : Capacity.isWord w.data.size = true

/-! ## Reading at an index -/

/-- Places up to one that is a machine word are machine words. -/
theorem isWord_of_le {n i : Int} (hn : Capacity.isWord n = true) (hneg : -n ≤ i) (hi : i ≤ n) :
    Capacity.isWord i = true := by
  simp only [Capacity.isWord, Bool.and_eq_true, decide_eq_true_eq] at hn ⊢
  omega

theorem item_eq_ok {data : Array α} {i : Int} {a : α} (hword : Capacity.isWord i = true)
    (ha : item? data i = some a) : item data i = .ok a := by
  simp [item, hword, ha]

theorem item_eq_error {data : Array α} {i : Int} (hnone : item? data i = none) :
    ∃ fault, item data i = .error fault ∧ fault.kind = .outOfRange := by
  by_cases hword : Capacity.isWord i = true
  · exact ⟨.sequenceIndex, by simp [item, hword, hnone], rfl⟩
  · exact ⟨.placeTooLarge, by simp [item, hword], rfl⟩

/-- A place where there is an item lies within the array, counted from either end. -/
theorem bounds_of_item? {data : Array α} {i : Int} {a : α} (h : item? data i = some a) :
    -(data.size : Int) ≤ i ∧ i < data.size := by
  simp only [item?] at h
  by_cases hneg : (if i < 0 then i + data.size else i) < 0
  · rw [if_pos hneg] at h
    cases h
  · rw [if_neg hneg] at h
    obtain ⟨hlt, -⟩ := Array.getElem?_eq_some_iff.1 h
    split at hneg <;> omega

/-- Where an item of the window lies in the array. -/
theorem item_place (h : w.Addressable) {i : Nat} {a : α} (ha : w.items[i]? = some a) :
    item w.data (w.start + i) = .ok a := by
  have hlen := length_items h.placed
  obtain ⟨hstart, hlength, hsize⟩ := extent h.placed
  have hi : i < w.items.length := (List.getElem?_eq_some_iff.1 ha).1
  rw [getElem?_items hstart (by omega)] at ha
  refine item_eq_ok (isWord_of_le h.counted (by omega) (by omega)) ?_
  rw [item?, if_neg (by omega), if_neg (by omega), ha]

/-- An index of a window is looked up in the list of its items. -/
theorem get_eq (h : w.Addressable) (i : Int) :
    w.get i = match item? w.items.toArray i with
      | some a => .ok a
      | none => .error .windowIndex := by
  have hlen := length_items h.placed
  simp only [get, item?, List.size_toArray, hlen, List.getElem?_toArray]
  generalize (if i < 0 then i + w.length else i) = p
  by_cases hpos : 0 ≤ p
  · obtain ⟨k, rfl⟩ := Int.eq_ofNat_of_zero_le hpos
    rw [if_neg (Int.not_lt.2 hpos), Int.toNat_natCast]
    cases hitem : w.items[k]? with
    | some a =>
      have hk : k < w.items.length := (List.getElem?_eq_some_iff.1 hitem).1
      have hinside : (0 ≤ (k : Int) && (k : Int) < w.length) = true := by
        simp only [Bool.and_eq_true, decide_eq_true_eq]
        omega
      rw [if_pos hinside, item_place h hitem]
    | none =>
      have hk := List.getElem?_eq_none_iff.1 hitem
      have hbehind : ¬ (0 ≤ (k : Int) && (k : Int) < w.length) = true := by
        simp only [Bool.and_eq_true, decide_eq_true_eq]
        omega
      rw [if_neg hbehind]
  · have hbefore : ¬ (0 ≤ p && p < w.length) = true := by
      simp only [Bool.and_eq_true, decide_eq_true_eq]
      omega
    rw [if_neg hbefore, if_pos (Int.not_le.1 hpos)]

/-- Reading at an index gives the item of the list there, or is out of range of both. -/
theorem get_eq_item (h : w.Addressable) (i : Int) :
    (∃ a, w.get i = .ok a ∧ item w.items.toArray i = .ok a) ∨
      ∃ fault fault', w.get i = .error fault ∧ item w.items.toArray i = .error fault' ∧
        fault.kind = .outOfRange ∧ fault'.kind = .outOfRange := by
  have hget := get_eq h i
  cases hitem : item? w.items.toArray i with
  | some a =>
    rw [hitem] at hget
    have hbounds := bounds_of_item? hitem
    rw [List.size_toArray, length_items h.placed] at hbounds
    obtain ⟨hstart, hlength, hsize⟩ := extent h.placed
    exact Or.inl ⟨a, hget, item_eq_ok (isWord_of_le h.counted (by omega) (by omega)) hitem⟩
  | none =>
    rw [hitem] at hget
    obtain ⟨fault, hfault, hkind⟩ := item_eq_error hitem
    exact Or.inr ⟨_, fault, hget, hfault, rfl, hkind⟩

/-! ## Walks -/

theorem reach_eq (h : w.WellPlaced) : w.reach = w.items.length := by
  have hlen := length_items h
  obtain ⟨hstart, hlength, hsize⟩ := extent h
  rw [reach]
  omega

theorem size_eq (h : w.Addressable) : w.size = .ok w.items.length := by
  have hlen := length_items h.placed
  obtain ⟨hstart, hlength, hsize⟩ := extent h.placed
  have hword : Capacity.isWord w.length = true := isWord_of_le h.counted (by omega) (by omega)
  rw [size, if_neg (by omega), hword, ← hlen]
  rfl

/-- A walk meets the items in order. -/
theorem forall₂_places (h : w.Addressable) :
    List.Forall₂ (fun (i : Nat) a => item w.data (w.start + i) = .ok a) (List.range w.reach)
      w.items := by
  rw [reach_eq h.placed]
  exact forall₂_range fun i a ha => item_place h ha

theorem toList_eq (h : w.Addressable) : w.toList = .ok w.items :=
  mapM_eq_ok_iff.2 (forall₂_places h)

theorem reversed_eq (h : w.Addressable) : w.reversed = .ok w.items.reverse := by
  rw [reversed, size_eq h]
  refine mapM_eq_ok_iff.2 ?_
  rw [reach_eq h.placed, ← List.length_reverse]
  refine forall₂_range fun i a ha => ?_
  have hi : i < w.items.length := by
    simpa using (List.getElem?_eq_some_iff.1 ha).1
  have hlast : (w.items.length : Int) - 1 - i = ((w.items.length - 1 - i : Nat) : Int) := by omega
  have hitem : item? w.items.toArray ((w.items.length - 1 - i : Nat) : Int) = some a := by
    rw [List.getElem?_reverse hi] at ha
    simp only [item?]
    rw [if_neg (by omega), if_neg (by omega), Int.toNat_natCast, List.getElem?_toArray, ha]
  rw [List.length_reverse, hlast, get_eq h, hitem]

/-! ## Searches -/

section Searches

variable (isIt : α → Bool)

/-- A search of places meets the item that it looks for if there is one. -/
theorem search_eq {data : Array α} {places : List Int} {items : List α}
    (h : List.Forall₂ (fun place a => item data place = .ok a) places items) :
    search data isIt places = .ok (items.any isIt) := by
  induction h with
  | nil => rfl
  | @cons place a places items hitem _ ih =>
    rw [search, hitem, List.any_cons]
    cases hit : isIt a with
    | true => simp [hit]
    | false => simpa [hit] using ih

theorem contains_eq (h : w.Addressable) : w.contains isIt = .ok (w.items.any isIt) :=
  search_eq isIt (List.forall₂_map_left_iff.2 (forall₂_places h))

theorem count_eq (h : w.Addressable) : w.count isIt = .ok (w.items.countP isIt) := by
  rw [count, toList_eq h]
  rfl

/-- Reading at one index after another meets the items in order. -/
theorem map_get? (h : w.WellPlaced) :
    ((List.range w.reach).map fun (i : Nat) => w.get? i) = w.items.map some := by
  refine List.ext_getElem? fun i => ?_
  rw [List.getElem?_map, List.getElem?_map, reach_eq h]
  by_cases hi : i < w.items.length
  · rw [List.getElem?_range hi, Option.map_some, get?_natCast h, List.getElem?_eq_getElem hi]
    rfl
  · rw [List.getElem?_eq_none (by simpa using hi), List.getElem?_eq_none (by omega)]
    rfl

/-- Looking for an index finds the first one, or that there is none. -/
theorem decides_index (h : w.WellPlaced) :
    Decides .value (w.index isIt) (∃ a ∈ w.items, isIt a = true) fun i =>
      w.items.findIdx? isIt = some i := by
  have hall : (w.items.map some).takeWhile Option.isSome = w.items.map some := by
    simp [List.takeWhile_eq_self_iff]
  have hany : (fun item : Option α => item.any isIt) ∘ some = isIt := rfl
  rw [index, map_get? h, hall, List.findIdx?_map, hany]
  cases hfound : w.items.findIdx? isIt with
  | some i =>
    obtain ⟨hi, hit, -⟩ := List.findIdx?_eq_some_iff_getElem.1 hfound
    exact .ok ⟨_, List.getElem_mem hi, hit⟩ rfl
  | none =>
    refine .error ?_ rfl
    rintro ⟨a, ha, hit⟩
    rw [List.findIdx?_eq_none_iff.1 hfound a ha] at hit
    cases hit

end Searches

/-! ## Comparisons -/

/-- A list of the items is no longer than the array, so that there is room for it. -/
theorem sizedList_eq (h : w.Addressable) : w.sizedList = .ok w.items := by
  have hlen := length_items h.placed
  obtain ⟨hstart, hlength, hsize⟩ := extent h.placed
  have hroom : ¬ max Capacity.items w.data.size < (w.items.length : Int) := by omega
  rw [sizedList, size_eq h, toList_eq h]
  exact if_neg hroom

section Comparisons

variable {w u : Window Symbol}

theorem sameAsWord_eq (h : w.Addressable) (word : Word) :
    w.sameAsWord word = .ok (w.items.isEqv word Symbol.sameItem) := by
  rw [sameAsWord, sizedList_eq h]
  rfl

theorem sameAsValue_eq (h : w.Addressable) (values : List Json) :
    w.sameAsValue (.list values) = .ok (w.items.isEmpty && values.isEmpty) := by
  rw [sameAsValue, sizedList_eq h]
  rfl

theorem same_eq (hw : w.Addressable) (hu : u.Addressable) :
    w.same u = .ok (w.items.isEqv u.items Symbol.sameItem) := by
  rw [same, sizedList_eq hw, sizedList_eq hu]
  rfl

/-- Equality of windows goes both ways, whatever arrays they view. -/
theorem same_comm (hw : w.Addressable) (hu : u.Addressable) (hdw : ∀ s ∈ w.items, s.Distinct)
    (hdu : ∀ s ∈ u.items, s.Distinct) : w.same u = u.same w := by
  rw [same_eq hw hu, same_eq hu hw,
    isEqv_comm fun s hs t ht => Symbol.sameItem_comm (hdw s hs) (hdu t ht)]

/-! ## The whole sequence -/

/-- The window behaves as the word `v`: the two cannot be told apart by their length, by reading at
an index from either end, by walking along them in either direction, by searching them for a symbol
or by slicing them forwards. Compared with a word, a list of other values or another window, the
window is equal if `v` is, place by place. Two symbols in the same place are equal if each of their
parameters is equal or one and the same; so a window equals its own symbols, also where a parameter
is not a number. -/
structure Views (w : Window Symbol) (v : Word) : Prop where
  size : w.size = .ok v.length
  get (i : Int) : (∃ s, w.get i = .ok s ∧ item v.toArray i = .ok s) ∨
    ∃ fault fault', w.get i = .error fault ∧ item v.toArray i = .error fault' ∧
      fault.kind = .outOfRange ∧ fault'.kind = .outOfRange
  toList : w.toList = .ok v
  reversed : w.reversed = .ok v.reverse
  contains (isIt : Symbol → Bool) : w.contains isIt = .ok (v.any isIt)
  index (isIt : Symbol → Bool) :
    Decides .value (w.index isIt) (∃ s ∈ v, isIt s = true) fun i => v.findIdx? isIt = some i
  count (isIt : Symbol → Bool) : w.count isIt = .ok (v.countP isIt)
  sameAsWord (word : Word) : ∃ b, w.sameAsWord word = .ok b ∧
    (b = true ↔ List.Forall₂ (fun s t => s.sameItem t = true) v word)
  sameAsValue (values : List Json) : ∃ b, w.sameAsValue (.list values) = .ok b ∧
    (b = true ↔ v = [] ∧ values = [])
  same (u : Window Symbol) : u.Addressable → ∃ b, w.same u = .ok b ∧
    (b = true ↔ List.Forall₂ (fun s t => s.sameItem t = true) v u.items)
  symm (u : Window Symbol) : u.Addressable → (∀ s ∈ v, s.Distinct) → (∀ s ∈ u.items, s.Distinct) →
    w.same u = u.same w
  own : (∀ s ∈ v, ∀ x ∈ s.params, x.Numeric) → w.sameAsWord v = .ok true ∧
    ∀ u : Window Symbol, u.Addressable → u.items = v → w.same u = .ok true
  slice (s : Slice) : 0 < s.stride → w.slice s = .ok (s.take v.toArray)

/-- **A window behaves as the sequence that it views.** -/
theorem views_items (w : Window Symbol) (h : w.Addressable) : w.Views w.items where
  size := size_eq h
  get := get_eq_item h
  toList := toList_eq h
  reversed := reversed_eq h
  contains isIt := contains_eq isIt h
  index isIt := decides_index isIt h.placed
  count isIt := count_eq isIt h
  sameAsWord word := ⟨_, sameAsWord_eq h word, isEqv_iff_forall₂⟩
  sameAsValue values := ⟨_, sameAsValue_eq h values, by simp⟩
  same _ hu := ⟨_, same_eq h hu, isEqv_iff_forall₂⟩
  symm _ hu hdw hdu := same_comm h hu hdw hdu
  own hnumeric := by
    have hself := isEqv_self fun s hs => Symbol.sameItem_self (hnumeric s hs)
    refine ⟨by rw [sameAsWord_eq h, hself], fun u hu hitems => ?_⟩
    rw [same_eq h hu, hitems, hself]
  slice _ := slice_forward h.placed

/-- The last two symbols of a word, which are also the first two of another one. The parameter of
`B` is not a number, but it is the same one in both; a third word has one that was made apart. -/
theorem views_items_shared :
    let shared : Symbol := ⟨"B", [.notANumber ⟨.seed, 1, 0⟩]⟩
    let apart : Symbol := ⟨"B", [.notANumber ⟨.rule 0, 0, 0⟩]⟩
    let w : Window Symbol := ⟨#[⟨"A", []⟩, shared, ⟨"A", [.number (.int 1)]⟩], 1, 3⟩
    let u : Window Symbol := ⟨#[shared, ⟨"A", [.number (.int 1)]⟩, ⟨"B", []⟩], 0, 2⟩
    w.Addressable ∧ w.Views [shared, ⟨"A", [.number (.int 1)]⟩] ∧ u.Addressable ∧
      w.same u = .ok true ∧ u.same w = .ok true ∧
      w.sameAsWord [apart, ⟨"A", [.number (.int 1)]⟩] = .ok false := by
  intro shared apart w u
  have hw : w.Addressable := ⟨by decide, by decide⟩
  have hu : u.Addressable := ⟨by decide, by decide⟩
  have hitems : w.items = [shared, ⟨"A", [.number (.int 1)]⟩] := rfl
  have hitems' : u.items = w.items := rfl
  have hnumeric : ∀ s ∈ w.items, ∀ x ∈ s.params, x.Numeric := by
    rw [hitems]
    simp only [shared, List.forall_mem_cons]
    exact ⟨⟨.notANumber _, List.forall_mem_nil _⟩, ⟨.int 1, List.forall_mem_nil _⟩,
      List.forall_mem_nil _⟩
  have hdistinct : ∀ s ∈ w.items, s.Distinct := by
    rw [hitems]
    simp [shared, Symbol.Distinct, Value.Distinct]
  have hviews := views_items w hw
  have hsame : w.same u = .ok true := (hviews.own hnumeric).2 u hu hitems'
  have hsymm := hviews.symm u hu hdistinct (hitems' ▸ hdistinct)
  refine ⟨hw, hitems ▸ hviews, hu, hsame, hsymm ▸ hsame, ?_⟩
  obtain ⟨b, hb, hiff⟩ := hviews.sameAsWord [apart, ⟨"A", [.number (.int 1)]⟩]
  have hfalse : b = false := by
    rw [← Bool.not_eq_true, hiff, hitems, List.forall₂_cons]
    rintro ⟨hapart, -⟩
    exact absurd hapart (by decide)
  rw [hb, hfalse]

end Comparisons

end Window

end Arbor
