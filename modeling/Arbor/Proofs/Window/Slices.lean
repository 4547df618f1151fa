import Arbor.Proofs.Window.Items
import Mathlib.Data.List.Basic
import Mathlib.Tactic.SplitIfs

/-!
# Slices of a window

A slice of a window asks for the items at some places, in strides. The places are worked out within
the window, moved by where the window starts and then looked up in the array as a slice of it.

Forwards this is the slice of the items that the window shows. Backwards it is so unless the window
starts where the array does. There, a slice that stops before the first item stops before place
`-1`, and that is read as the last place of the array.

* `Slice.mem_places_forward`, `Slice.mem_places_backward`: between which places a slice stays.
* `Window.take_moved`: when the slice of the array is the slice of the items.
* `Window.slice_forward`: slices with a positive stride.
* `Window.slice_backward`: what slices with a negative stride give, and when it is what is asked
  for.
-/

namespace Arbor

variable {α : Type}

namespace Slice

/-! ## Places -/

/-- The places of a slice, from `first` on and before `last` in strides of `stride`. -/
def places (first last stride : Int) : List Int :=
  (List.range (count first last stride)).map fun i : Nat => first + i * stride

theorem take_eq (s : Slice) (data : Array α) :
    s.take data = (places (s.first data.size) (s.last data.size) s.stride).filterMap fun p =>
      data[p.toNat]? := by
  rw [places, List.filterMap_map]
  rfl

variable {first last stride p : Int}

theorem length_places : (places first last stride).length = count first last stride := by
  simp [places]

/-- Places that are moved are in strides from where they are moved to. -/
theorem places_add (d first last stride : Int) :
    places (d + first) (d + last) stride = (places first last stride).map (d + ·) := by
  have hcount : count (d + first) (d + last) stride = count first last stride := by
    simp only [count, Int.add_lt_add_iff_left]
    rw [Int.add_sub_add_left, Int.add_sub_add_left]
  rw [places, places, hcount, List.map_map]
  refine List.map_congr_left fun i _ => ?_
  simp only [Function.comp_apply, Int.add_assoc]

theorem mem_places_forward (hstride : 0 < stride) (hp : p ∈ places first last stride) :
    first ≤ p ∧ p < last := by
  obtain ⟨i, hi, rfl⟩ := List.mem_map.1 hp
  rw [List.mem_range, count, if_neg (by omega)] at hi
  have hpos : 0 ≤ (i : Int) * stride := Int.mul_nonneg (by omega) (by omega)
  split_ifs at hi with hlt
  · have hle : (i : Int) ≤ (last - first - 1) / stride := by omega
    have hbound := (Int.le_ediv_iff_mul_le hstride).1 hle
    omega
  · omega

theorem mem_places_backward (hstride : stride < 0) (hp : p ∈ places first last stride) :
    last < p ∧ p ≤ first := by
  obtain ⟨i, hi, rfl⟩ := List.mem_map.1 hp
  rw [List.mem_range, count, if_pos hstride] at hi
  have hpos : 0 ≤ (i : Int) * -stride := Int.mul_nonneg (by omega) (by omega)
  rw [Int.mul_neg] at hpos
  split_ifs at hi with hlt
  · have hle : (i : Int) ≤ (first - last - 1) / -stride := by omega
    have hbound := (Int.le_ediv_iff_mul_le (by omega)).1 hle
    rw [Int.mul_neg] at hbound
    omega
  · omega

/-- A backward slice has a place exactly if it starts behind where it stops. -/
theorem places_eq_nil_iff (hstride : stride < 0) :
    places first last stride = [] ↔ first ≤ last := by
  rw [← List.length_eq_zero_iff, length_places, count, if_pos hstride]
  split_ifs with hlt
  · have hpos : 0 ≤ (first - last - 1) / -stride := Int.ediv_nonneg (by omega) (by omega)
    omega
  · simp only [true_iff]
    omega

/-! ## Ends -/

section Ends

variable {s : Slice} {n e : Int}

theorem clamp_of_inside (hneg : 0 ≤ e) (he : e ≤ if stride < 0 then n - 1 else n) :
    clamp n stride e = e := by
  simp only [clamp]
  split_ifs at he ⊢ <;> omega

theorem clamp_bounds (hn : 0 ≤ n) :
    (if stride < 0 then -1 else 0) ≤ clamp n stride e ∧
      clamp n stride e ≤ if stride < 0 then n - 1 else n := by
  simp only [clamp]
  split_ifs <;> omega

/-- The first place of a slice is at an item, one before the items or one behind them. -/
theorem first_bounds (hn : 0 ≤ n) :
    (if s.stride < 0 then -1 else 0) ≤ s.first n ∧
      s.first n ≤ if s.stride < 0 then n - 1 else n := by
  unfold first
  cases s.low with
  | some low => exact clamp_bounds hn
  | none =>
    simp only
    split_ifs <;> omega

/-- So is the place that it stops before. -/
theorem last_bounds (hn : 0 ≤ n) :
    (if s.stride < 0 then -1 else 0) ≤ s.last n ∧
      s.last n ≤ if s.stride < 0 then n - 1 else n := by
  unfold last
  cases s.high with
  | some high => exact clamp_bounds hn
  | none =>
    simp only
    split_ifs <;> omega

end Ends

/-- The slice in the same strides that starts at the end of the items and stops before place `e`. -/
def fromEnd (s : Slice) (e : Int) : Slice := ⟨none, some e, s.step⟩

theorem ends_fromEnd {s : Slice} {n e : Int} (hs : s.stride < 0) (hneg : 0 ≤ e) (he : e < n) :
    (s.fromEnd e).first n = n - 1 ∧ (s.fromEnd e).last n = e := by
  refine ⟨if_pos hs, clamp_of_inside hneg ?_⟩
  rw [if_pos (show (s.fromEnd e).stride < 0 from hs)]
  omega

/-- A slice that goes backwards is empty exactly if it does not start behind where it stops. -/
theorem take_eq_nil_iff (s : Slice) (data : Array α) (hs : s.stride < 0) :
    s.take data = [] ↔ s.first data.size ≤ s.last data.size := by
  have hfirst := s.first_bounds (n := data.size) (Int.natCast_nonneg _)
  have hlast := s.last_bounds (n := data.size) (Int.natCast_nonneg _)
  rw [if_pos hs, if_pos hs] at hfirst hlast
  rw [← places_eq_nil_iff hs, take_eq, List.filterMap_eq_nil_iff]
  constructor
  · intro hnone
    refine List.eq_nil_iff_forall_not_mem.2 fun p hp => ?_
    have hbounds := mem_places_backward hs hp
    have hsome := Array.getElem?_eq_none_iff.1 (hnone p hp)
    omega
  · intro hnil p hp
    rw [hnil] at hp
    cases hp

def backwards : Slice := ⟨none, none, some (-1)⟩

theorem take_backwards (data : Array α) : backwards.take data = data.toList.reverse := by
  have hcount : count (backwards.first data.size) (backwards.last data.size) backwards.stride =
      data.size := by
    simp only [backwards, first, last, stride, count, Option.getD_some, Int.reduceNeg,
      Int.reduceLT, if_true]
    split_ifs <;> omega
  have hmap : (List.range data.size).map (fun i : Nat =>
      data[(backwards.first data.size + i * backwards.stride).toNat]?) =
        data.toList.reverse.map some := by
    refine List.ext_getElem (by simp) fun i hi _ => ?_
    have hi : i < data.size := by simpa using hi
    have hplace : (backwards.first data.size + i * backwards.stride).toNat = data.size - 1 - i := by
      simp only [backwards, first, stride, Option.getD_some, Int.reduceNeg, Int.reduceLT, if_true]
      omega
    rw [List.getElem_map, List.getElem_map, List.getElem_range, List.getElem_reverse, hplace,
      Array.getElem?_eq_getElem (by omega)]
    simp
  rw [take, hcount]
  calc (List.range data.size).filterMap _
      = ((List.range data.size).map _).filterMap id := (List.filterMap_map ..).symm
    _ = (data.toList.reverse.map some).filterMap id := by rw [hmap]
    _ = data.toList.reverse := by simp

end Slice

namespace Window

variable {w : Window α} {s : Slice}

/-! ## Places in the window and in the array -/

theorem extent (h : w.WellPlaced) :
    0 ≤ w.start ∧ 0 ≤ w.length ∧ w.start + w.length ≤ w.data.size := by
  obtain ⟨hstart, hstop, hsize⟩ := h
  have hlength : w.length = w.stop - w.start := rfl
  omega

theorem getElem?_items {k : Nat} (hstart : 0 ≤ w.start) (hk : k < w.length) :
    w.items[k]? = w.data[(w.start + k).toNat]? := by
  have hplace : (w.start + (k : Int)).toNat = w.start.toNat + k := by omega
  rw [items, List.getElem?_take_of_lt (by omega), List.getElem?_drop, Array.getElem?_toList, hplace]

/-- A slice with its ends moved by where the window starts. -/
def moved (w : Window α) (s : Slice) : Slice :=
  ⟨some (w.start + s.first w.length), some (w.start + s.last w.length), s.step⟩

theorem slice_eq (h : w.WellPlaced) (hs : s.stride ≠ 0) :
    w.slice s = .ok ((w.moved s).take w.data) := by
  rw [slice, if_neg (Int.not_lt.2 (extent h).2.1), if_neg hs]
  rfl

/-- A slice of the array is the slice of the items if its ends are still where they were moved to
and all its places are in the window. -/
theorem take_moved (h : w.WellPlaced)
    (hfirst : (w.moved s).first w.data.size = w.start + s.first w.length)
    (hlast : (w.moved s).last w.data.size = w.start + s.last w.length)
    (hplaces : ∀ p ∈ Slice.places (s.first w.length) (s.last w.length) s.stride,
      0 ≤ p ∧ p < w.length) : (w.moved s).take w.data = s.take w.items.toArray := by
  have hstride : (w.moved s).stride = s.stride := rfl
  rw [Slice.take_eq, Slice.take_eq, hfirst, hlast, hstride, Slice.places_add, List.filterMap_map,
    List.size_toArray, length_items h]
  refine List.filterMap_congr fun p hp => ?_
  obtain ⟨hpos, hlt⟩ := hplaces p hp
  have hnat : ((p.toNat : Nat) : Int) = p := Int.toNat_of_nonneg hpos
  have hitem : w.items.toArray[p.toNat]? = w.items[p.toNat]? := List.getElem?_toArray
  rw [Function.comp_apply, hitem, getElem?_items h.1 (by omega), hnat]

/-- **A slice that goes forwards is the slice of the items.** -/
theorem slice_forward (h : w.WellPlaced) (hs : 0 < s.stride) :
    w.slice s = .ok (s.take w.items.toArray) := by
  have hneg : ¬ s.stride < 0 := by omega
  obtain ⟨hstart, hlength, hsize⟩ := extent h
  have hfirst := s.first_bounds hlength
  have hlast := s.last_bounds hlength
  rw [if_neg hneg, if_neg hneg] at hfirst hlast
  have hinside : ∀ e : Int, 0 ≤ e → e ≤ w.length →
      Slice.clamp w.data.size s.stride (w.start + e) = w.start + e := by
    intro e hpos hle
    refine Slice.clamp_of_inside (by omega) ?_
    rw [if_neg hneg]
    omega
  rw [slice_eq h (by omega),
    take_moved h (hinside _ hfirst.1 hfirst.2) (hinside _ hlast.1 hlast.2)]
  intro p hp
  have hbounds := Slice.mem_places_forward hs hp
  omega

/-! ## Backwards -/

/-- The ends of a backward slice are at items or one before them. -/
theorem backward_bounds (h : w.WellPlaced) (hs : s.stride < 0) :
    (-1 ≤ s.first w.length ∧ s.first w.length < w.length) ∧
      -1 ≤ s.last w.length ∧ s.last w.length < w.length := by
  have hfirst := s.first_bounds (extent h).2.1
  have hlast := s.last_bounds (extent h).2.1
  rw [if_pos hs, if_pos hs] at hfirst hlast
  omega

/-- Where the ends of a backward slice lie in the array: where they were moved to, or at its last
item if that is one before the array. -/
theorem ends_moved (h : w.WellPlaced) (hs : s.stride < 0) :
    (w.moved s).first w.data.size =
        (if 0 ≤ w.start + s.first w.length then w.start + s.first w.length else w.data.size - 1) ∧
      (w.moved s).last w.data.size =
        (if 0 ≤ w.start + s.last w.length then w.start + s.last w.length else w.data.size - 1) := by
  obtain ⟨hstart, hlength, hsize⟩ := extent h
  obtain ⟨hfirst, hlast⟩ := backward_bounds h hs
  have hclamp : ∀ e : Int, -1 ≤ e → e < w.length →
      Slice.clamp w.data.size s.stride (w.start + e) =
        if 0 ≤ w.start + e then w.start + e else w.data.size - 1 := by
    intro e hle hlt
    simp only [Slice.clamp, if_pos hs]
    split_ifs <;> omega
  exact ⟨hclamp _ hfirst.1 hfirst.2, hclamp _ hlast.1 hlast.2⟩

theorem take_items_eq_nil_iff (h : w.WellPlaced) (hs : s.stride < 0) :
    s.take w.items.toArray = [] ↔ s.first w.length ≤ s.last w.length := by
  rw [Slice.take_eq_nil_iff _ _ hs, List.size_toArray, length_items h]

/-- What a slice that goes backwards gives. If the window starts where the array does and one end
of the slice lies before the first item, that end is taken for the end of the array: a slice that
should stop there gives nothing, and one that should start there starts at the end of the array. -/
theorem slice_of_backward (h : w.WellPlaced) (hs : s.stride < 0) :
    w.slice s = .ok (
      if 0 < w.start ∨ (0 ≤ s.first w.length ↔ 0 ≤ s.last w.length) then s.take w.items.toArray
      else if 0 ≤ s.first w.length then []
      else (s.fromEnd (s.last w.length)).take w.data) := by
  obtain ⟨hstart, hlength, hsize⟩ := extent h
  obtain ⟨hfirst, hlast⟩ := backward_bounds h hs
  obtain ⟨hfirst', hlast'⟩ := ends_moved h hs
  rw [slice_eq h (by omega)]
  refine congrArg Except.ok ?_
  by_cases hinside : 0 ≤ w.start + s.first w.length ∧ 0 ≤ w.start + s.last w.length
  · rw [if_pos hinside.1] at hfirst'
    rw [if_pos hinside.2] at hlast'
    rw [if_pos (by omega)]
    refine take_moved h hfirst' hlast' fun p hp => ?_
    have hbounds := Slice.mem_places_backward hs hp
    omega
  · -- the window starts where the array does, and an end of the slice lies before it
    have hzero : w.start = 0 := by omega
    rw [hzero, Int.zero_add] at hfirst' hlast' hinside
    by_cases hneg : 0 ≤ s.first w.length
    · rw [if_neg (by omega), if_pos hneg, Slice.take_eq_nil_iff (w.moved s) _ hs, hfirst', hlast',
        if_pos hneg, if_neg (by omega)]
      omega
    · by_cases hneg' : 0 ≤ s.last w.length
      · have hends := Slice.ends_fromEnd (n := w.data.size) hs hneg' (by omega)
        rw [if_neg (by omega), if_neg hneg, Slice.take_eq, Slice.take_eq, hfirst', hlast',
          if_neg hneg, if_pos hneg', hends.1, hends.2]
        rfl
      · have hnil : (w.moved s).take w.data = [] := by
          refine (Slice.take_eq_nil_iff (w.moved s) _ hs).2 (Int.le_of_eq ?_)
          rw [hfirst', hlast', if_neg hneg, if_neg hneg']
        rw [if_pos (by omega), hnil, eq_comm, take_items_eq_nil_iff h hs]
        omega

/-- **When a backward slice is the slice of the items.** In a window that starts behind the start of
the array it always is. In one that starts where the array does it is if the slice starts and stops
at items, or starts and stops before them, or should be empty because it starts before the items and
stops at the last item of the array. Otherwise it is not: one that should stop before the first item
is empty, so that the window is not reversed unless it is empty, and one that should be empty shows
items from the end of the array, which may lie outside the window. -/
theorem slice_backward (w : Window α) (s : Slice) (h : w.WellPlaced) (hs : s.stride < 0) :
    (w.slice s = .ok (s.take w.items.toArray) ↔
      0 < w.start ∨ (0 ≤ s.first w.length ↔ 0 ≤ s.last w.length) ∨
        s.last w.length = w.data.size - 1) ∧
    w.slice s = .ok (
      if 0 < w.start ∨ (0 ≤ s.first w.length ↔ 0 ≤ s.last w.length) then s.take w.items.toArray
      else if 0 ≤ s.first w.length then []
      else (s.fromEnd (s.last w.length)).take w.data) ∧
    (w.slice Slice.backwards = .ok w.items.reverse ↔ 0 < w.start ∨ w.items = []) := by
  obtain ⟨hstart, hlength, hsize⟩ := extent h
  obtain ⟨hfirst, hlast⟩ := backward_bounds h hs
  have hnil := take_items_eq_nil_iff h hs
  refine ⟨?_, slice_of_backward h hs, ?_⟩
  · rw [slice_of_backward h hs, Except.ok.injEq]
    by_cases hagree : 0 < w.start ∨ (0 ≤ s.first w.length ↔ 0 ≤ s.last w.length)
    · rw [if_pos hagree, ← or_assoc]
      simp only [hagree, true_or]
    · rw [if_neg hagree]
      by_cases hneg : 0 ≤ s.first w.length
      · rw [if_pos hneg, eq_comm, hnil]
        omega
      · have hgap : s.take w.items.toArray = [] := hnil.2 (by omega)
        have hends := Slice.ends_fromEnd (s := s) (n := w.data.size) (e := s.last w.length) hs
          (by omega) (by omega)
        rw [if_neg hneg, hgap, Slice.take_eq_nil_iff (s.fromEnd _) _ hs, hends.1, hends.2]
        omega
  · have hstride : Slice.backwards.stride < 0 := by decide
    have hends : Slice.backwards.first w.length = w.length - 1 ∧
        Slice.backwards.last w.length = -1 := ⟨rfl, rfl⟩
    have hitems := length_items h
    rw [slice_of_backward h hstride, hends.1, hends.2, Except.ok.injEq, Slice.take_backwards]
    by_cases hempty : w.items = []
    · rw [hempty, List.length_nil] at hitems
      rw [if_pos (by omega)]
      simp [hempty]
    · have hpos := List.length_pos_of_ne_nil hempty
      by_cases hbehind : 0 < w.start
      · simp [hbehind]
      · rw [if_neg (by omega), if_pos (by omega), eq_comm, List.reverse_eq_nil_iff]
        simp [hempty, hbehind]

/-- The first two of three letters, from far before them back to behind the first: nothing lies
there, but the third letter comes up. -/
theorem slice_backward_beyond :
    let w : Window Char := ⟨#['a', 'b', 'c'], 0, 2⟩
    let s : Slice := ⟨some (-5), some 0, some (-1)⟩
    w.WellPlaced ∧ s.stride < 0 ∧ s.take w.items.toArray = [] ∧ w.slice s = .ok ['c', 'b'] ∧
      ((w.slice s = .ok (s.take w.items.toArray) ↔
        0 < w.start ∨ (0 ≤ s.first w.length ↔ 0 ≤ s.last w.length) ∨
          s.last w.length = w.data.size - 1) ∧
      w.slice s = .ok (
        if 0 < w.start ∨ (0 ≤ s.first w.length ↔ 0 ≤ s.last w.length) then s.take w.items.toArray
        else if 0 ≤ s.first w.length then []
        else (s.fromEnd (s.last w.length)).take w.data) ∧
      (w.slice Slice.backwards = .ok w.items.reverse ↔ 0 < w.start ∨ w.items = [])) := by
  intro w s
  have hw : w.WellPlaced := by decide
  have hs : s.stride < 0 := by decide
  have hslice : w.slice s = .ok ['c', 'b'] :=
    (slice_eq hw (by decide)).trans (congrArg Except.ok (by decide))
  exact ⟨hw, hs, by decide, hslice, slice_backward w s hw hs⟩

/-- A word seen through a window that starts with it is not reversed by a backward slice. -/
theorem not_forall_slice_backward :
    ¬ ∀ (w : Window Symbol) (s : Slice), w.WellPlaced → s.stride < 0 →
      w.slice s = .ok (s.take w.items.toArray) := by
  intro hall
  have hreversed := hall ⟨#[⟨"A", []⟩, ⟨"B", []⟩], 0, 2⟩ Slice.backwards (by decide) (by decide)
  have hempty : Window.slice ⟨#[⟨"A", []⟩, ⟨"B", []⟩], 0, 2⟩ Slice.backwards =
      .ok ([] : Word) := rfl
  rw [hempty, Slice.take_backwards] at hreversed
  exact absurd (Except.ok.inj hreversed) (by simp [items, length])

end Window

end Arbor
