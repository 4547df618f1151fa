import Arbor.Word.Symbol

/-!
# Brackets in words

A closing bracket matches the nearest opening bracket before it that is not yet matched. Reading a
word from its end, it is enough to count the closing brackets without a match (`surplus`): an
opening bracket takes one of them away. The spine of a word is what is left of it when matched
groups are deleted with all that is in them, and the other brackets as well.

* `balanced_iff`: what the counting finds out.
* `spine_group`, `spine_opening`: what the spine deletes and what it keeps.
* `spine_concat_letter`, `spine_concat_opening`, `spine_concat_closing`: how the spine changes
  with one more symbol at the end of the word, and likewise the groups that are still open.
* `dyck_iff_balanced`: every bracket has a match exactly when no part of the word from its start
  closes more groups than it opens, and the whole word closes all of them.
-/

namespace Arbor

/-- The two brackets. -/
inductive Bracket
  | opening
  | closing
  deriving DecidableEq

def Symbol.bracket? (s : Symbol) : Option Bracket :=
  if s.tag = "[" then some .opening else if s.tag = "]" then some .closing else none

theorem Symbol.bracket?_eq_opening {s : Symbol} : s.bracket? = some .opening ↔ s.tag = "[" := by
  unfold bracket?
  by_cases hopen : s.tag = "["
  · simp [hopen]
  · by_cases hclose : s.tag = "]" <;> simp [hopen, hclose]

theorem Symbol.bracket?_eq_closing {s : Symbol} : s.bracket? = some .closing ↔ s.tag = "]" := by
  unfold bracket?
  by_cases hopen : s.tag = "["
  · simp [hopen]
  · by_cases hclose : s.tag = "]" <;> simp [hopen, hclose]

theorem Symbol.bracket?_eq_none {s : Symbol} : s.bracket? = none ↔ s.tag ≠ "[" ∧ s.tag ≠ "]" := by
  unfold bracket?
  by_cases hopen : s.tag = "["
  · simp [hopen]
  · by_cases hclose : s.tag = "]" <;> simp [hopen, hclose]

namespace Word

/-- The number of closing brackets without a match. -/
def surplus : Word → Nat
  | [] => 0
  | s :: w =>
    match s.bracket? with
    | some .opening => surplus w - 1
    | some .closing => surplus w + 1
    | none => surplus w

/-- What stands before each opening bracket without a match, from left to right. -/
def unfinished : Word → List Word
  | [] => []
  | s :: w =>
    let later := (unfinished w).map (s :: ·)
    if s.bracket? = some .opening ∧ surplus w = 0 then [] :: later else later

/-- The word without its matched groups and without its other brackets. A letter is in a group
when a closing bracket after it finds no match on the way back to it; so of a word with a closing
bracket that has no match at all, only what follows the last of these is kept. -/
def spine : Word → Word
  | [] => []
  | s :: w => if s.bracket? = none ∧ surplus w = 0 then s :: spine w else spine w

/-- Every bracket of the word has a match. -/
inductive Balanced : Word → Prop
  | nil : Balanced []
  | letter {s w} : s.bracket? = none → Balanced w → Balanced (s :: w)
  | group {a b u w} : a.bracket? = some .opening → Balanced u → b.bracket? = some .closing →
      Balanced w → Balanced (a :: (u ++ b :: w))

def BracketFree (w : Word) : Prop := ∀ s ∈ w, s.bracket? = none

section Cons

variable {s : Symbol} (w : Word)

theorem surplus_cons_opening (hs : s.bracket? = some .opening) :
    surplus (s :: w) = surplus w - 1 := by
  rw [surplus, hs]

theorem surplus_cons_closing (hs : s.bracket? = some .closing) :
    surplus (s :: w) = surplus w + 1 := by
  rw [surplus, hs]

theorem surplus_cons_letter (hs : s.bracket? = none) : surplus (s :: w) = surplus w := by
  rw [surplus, hs]

theorem length_unfinished_cons :
    (unfinished (s :: w)).length =
      (unfinished w).length + if s.bracket? = some .opening ∧ surplus w = 0 then 1 else 0 := by
  rw [unfinished]
  split <;> simp

theorem spine_cons_bracket {b : Bracket} (hs : s.bracket? = some b) :
    spine (s :: w) = spine w := by
  rw [spine, if_neg]
  rintro ⟨hnone, -⟩
  rw [hs] at hnone
  cases hnone

end Cons

/-! ## Words without brackets -/

theorem bracketFree_spine (w : Word) : BracketFree (spine w) := by
  induction w with
  | nil => exact List.forall_mem_nil _
  | cons s w ih =>
    rw [spine]
    split
    · rename_i h
      exact List.forall_mem_cons.2 ⟨h.1, ih⟩
    · exact ih

/-! ## Words side by side -/

/-- The second word closes the groups that the first leaves open. -/
theorem surplus_append (u w : Word) :
    surplus (u ++ w) = surplus u + (surplus w - (unfinished u).length) := by
  induction u with
  | nil => simp [surplus, unfinished]
  | cons s u ih =>
    rw [List.cons_append, length_unfinished_cons]
    match hs : s.bracket? with
    | some .opening =>
      rw [surplus_cons_opening _ hs, surplus_cons_opening _ hs, ih]
      by_cases hu : surplus u = 0
      · rw [if_pos ⟨rfl, hu⟩]
        omega
      · rw [if_neg fun h => hu h.2]
        omega
    | some .closing =>
      rw [surplus_cons_closing _ hs, surplus_cons_closing _ hs, ih, if_neg (by simp)]
      omega
    | none =>
      rw [surplus_cons_letter _ hs, surplus_cons_letter _ hs, ih, if_neg (by simp)]
      omega

/-- Where the first word leaves no group open, the groups left open are those of the second. -/
theorem unfinished_append {u : Word} (hu : unfinished u = []) (w : Word) :
    unfinished (u ++ w) = (unfinished w).map (u ++ ·) := by
  induction u with
  | nil => simp
  | cons s u ih =>
    have hopen : ¬ (s.bracket? = some .opening ∧ surplus u = 0) := by
      intro h
      rw [unfinished, if_pos h] at hu
      cases hu
    rw [unfinished, if_neg hopen, List.map_eq_nil_iff] at hu
    have hopen' : ¬ (s.bracket? = some .opening ∧ surplus (u ++ w) = 0) := by
      rintro ⟨hs, hsurplus⟩
      rw [surplus_append] at hsurplus
      exact hopen ⟨hs, by omega⟩
    rw [List.cons_append, unfinished, if_neg hopen', ih hu, List.map_map]
    rfl

/-! ## Matching -/

theorem Balanced.counts {w : Word} (h : Balanced w) : surplus w = 0 ∧ unfinished w = [] := by
  induction h with
  | nil => exact ⟨rfl, rfl⟩
  | letter hs _ ih =>
    refine ⟨by rw [surplus_cons_letter _ hs, ih.1], ?_⟩
    rw [unfinished, ih.2, if_neg (by simp [hs])]
    rfl
  | @group a b u w ha _ hb _ ihu ihw =>
    have hclose : surplus (u ++ b :: w) = 1 := by
      rw [surplus_append, ihu.1, ihu.2, surplus_cons_closing _ hb, ihw.1]
      rfl
    have hnone : unfinished (b :: w) = [] := by
      rw [unfinished, ihw.2, if_neg (by simp [hb])]
      rfl
    refine ⟨by rw [surplus_cons_opening _ ha, hclose], ?_⟩
    rw [unfinished, if_neg (by simp [hclose]), unfinished_append ihu.2, hnone]
    rfl

theorem surplus_balanced_append {u : Word} (hu : Balanced u) (w : Word) :
    surplus (u ++ w) = surplus w := by
  rw [surplus_append, hu.counts.1, hu.counts.2]
  simp

/-- A surplus comes from a closing bracket that nothing before it matches. -/
theorem exists_closing {w : Word} (h : 0 < surplus w) :
    ∃ u b v, w = u ++ b :: v ∧ Balanced u ∧ b.bracket? = some .closing := by
  induction hn : w.length using Nat.strongRecOn generalizing w with
  | ind n ih =>
    cases w with
    | nil => exact absurd h (Nat.lt_irrefl 0)
    | cons s w =>
      have hlt : w.length < n := by
        rw [← hn]
        exact Nat.lt_succ_self _
      match hs : s.bracket? with
      | some .closing => exact ⟨[], s, w, rfl, .nil, hs⟩
      | none =>
        rw [surplus_cons_letter w hs] at h
        obtain ⟨u, b, v, rfl, hu, hb⟩ := ih w.length hlt h rfl
        exact ⟨s :: u, b, v, rfl, .letter hs hu, hb⟩
      | some .opening =>
        -- the first closing bracket matches `s`, so there has to be a second one
        rw [surplus_cons_opening w hs] at h
        obtain ⟨u, b, v, rfl, hu, hb⟩ := ih w.length hlt (by omega) rfl
        rw [surplus_balanced_append hu, surplus_cons_closing v hb] at h
        have hv : v.length < n := by
          simp only [List.length_append, List.length_cons] at hlt
          omega
        obtain ⟨u', b', v', rfl, hu', hb'⟩ := ih v.length hv h rfl
        exact ⟨s :: (u ++ b :: u'), b', v', by simp, .group hs hu hb hu', hb'⟩

theorem balanced_iff {w : Word} : Balanced w ↔ surplus w = 0 ∧ unfinished w = [] := by
  refine ⟨Balanced.counts, ?_⟩
  rintro ⟨hsurplus, hunfinished⟩
  induction hn : w.length using Nat.strongRecOn generalizing w with
  | ind n ih =>
    cases w with
    | nil => exact .nil
    | cons s w =>
      have hlt : w.length < n := by
        rw [← hn]
        exact Nat.lt_succ_self _
      have hopen : ¬ (s.bracket? = some .opening ∧ surplus w = 0) := by
        intro h
        rw [unfinished, if_pos h] at hunfinished
        cases hunfinished
      rw [unfinished, if_neg hopen, List.map_eq_nil_iff] at hunfinished
      match hs : s.bracket? with
      | some .closing =>
        rw [surplus_cons_closing w hs] at hsurplus
        cases hsurplus
      | none =>
        rw [surplus_cons_letter w hs] at hsurplus
        exact .letter hs (ih w.length hlt hsurplus hunfinished rfl)
      | some .opening =>
        rw [surplus_cons_opening w hs] at hsurplus
        have hpos : 0 < surplus w := Nat.pos_of_ne_zero fun h => hopen ⟨hs, h⟩
        obtain ⟨u, b, v, rfl, hu, hb⟩ := exists_closing hpos
        rw [surplus_balanced_append hu, surplus_cons_closing v hb] at hsurplus
        rw [unfinished_append hu.counts.2, List.map_eq_nil_iff, unfinished,
          if_neg (by simp [hb]), List.map_eq_nil_iff] at hunfinished
        have hv : v.length < n := by
          simp only [List.length_append, List.length_cons] at hlt
          omega
        exact .group hs hu hb (ih v.length hv hsurplus hunfinished rfl)

/-- What follows acts on the spine of what comes before through its surplus only. -/
theorem spine_append_congr (u : Word) {w w' : Word} (hsurplus : surplus w = surplus w')
    (hspine : spine w = spine w') : spine (u ++ w) = spine (u ++ w') := by
  induction u with
  | nil => exact hspine
  | cons s u ih =>
    rw [List.cons_append, List.cons_append, spine, spine, surplus_append, surplus_append,
      hsurplus, ih]

/-- Before more closing brackets than there are groups to close, nothing is on the spine. -/
theorem spine_append_of_lt {u w : Word} (h : (unfinished u).length < surplus w) :
    spine (u ++ w) = spine w := by
  induction u with
  | nil => rfl
  | cons s u ih =>
    rw [length_unfinished_cons] at h
    have hsurplus := surplus_append u w
    rw [List.cons_append, spine, if_neg (fun hs => by omega), ih (by omega)]

/-- Matched groups are deleted with all that is in them. -/
theorem spine_group (u v w : Word) {a b : Symbol} (ha : a.bracket? = some .opening)
    (hb : b.bracket? = some .closing) (hv : Balanced v) :
    spine (u ++ a :: (v ++ b :: w)) = spine (u ++ w) := by
  have hclose := surplus_cons_closing w hb
  have hopen : surplus (v ++ b :: w) = surplus w + 1 := by
    rw [surplus_balanced_append hv, hclose]
  refine spine_append_congr u ?_ ?_
  · rw [surplus_cons_opening _ ha, hopen, Nat.add_sub_cancel]
  · have hlt : (unfinished v).length < surplus (b :: w) := by
      rw [hv.counts.2, hclose]
      exact Nat.succ_pos _
    rw [spine_cons_bracket _ ha, spine_append_of_lt hlt, spine_cons_bracket _ hb]

/-- Opening brackets without a match are deleted. -/
theorem spine_opening (u w : Word) {a : Symbol} (ha : a.bracket? = some .opening)
    (hw : surplus w = 0) : spine (u ++ a :: w) = spine (u ++ w) := by
  refine spine_append_congr u ?_ (spine_cons_bracket w ha)
  rw [surplus_cons_opening w ha, hw]

/-- The first group is matched, the second one is not. -/
example :
    spine [⟨"F", []⟩, ⟨"[", []⟩, ⟨"W", []⟩, ⟨"]", []⟩, ⟨"[", []⟩, ⟨"R", []⟩] =
      [⟨"F", []⟩, ⟨"R", []⟩] := rfl

/-! ## One more symbol at the end -/

section Concat

variable (w : Word) {s : Symbol}

theorem spine_concat_letter (hs : s.bracket? = none) : spine (w ++ [s]) = spine w ++ [s] := by
  induction w with
  | nil => simp [spine, surplus, hs]
  | cons a w ih =>
    have hsurplus : surplus (w ++ [s]) = surplus w := by
      rw [surplus_append, surplus_cons_letter [] hs]
      simp [surplus]
    rw [List.cons_append, spine, spine, hsurplus, ih]
    split <;> rfl

theorem spine_concat_opening (hs : s.bracket? = some .opening) : spine (w ++ [s]) = spine w := by
  rw [spine_opening w [] hs rfl, List.append_nil]

theorem unfinished_concat_letter (hs : s.bracket? = none) :
    unfinished (w ++ [s]) = unfinished w := by
  induction w with
  | nil => simp [unfinished, hs]
  | cons a w ih =>
    have hsurplus : surplus (w ++ [s]) = surplus w := by
      rw [surplus_append, surplus_cons_letter [] hs]
      simp [surplus]
    rw [List.cons_append, unfinished, unfinished, hsurplus, ih]

theorem unfinished_concat_opening (hs : s.bracket? = some .opening) :
    unfinished (w ++ [s]) = unfinished w ++ [w] := by
  induction w with
  | nil => simp [unfinished, hs, surplus]
  | cons a w ih =>
    have hsurplus : surplus (w ++ [s]) = surplus w := by
      rw [surplus_append, surplus_cons_opening [] hs]
      simp [surplus]
    rw [List.cons_append, unfinished, unfinished, hsurplus, ih]
    split <;> simp

theorem unfinished_concat_closing (hs : s.bracket? = some .closing) :
    unfinished (w ++ [s]) = (unfinished w).dropLast := by
  induction w with
  | nil => simp [unfinished, hs]
  | cons a w ih =>
    have hsurplus : surplus (w ++ [s]) = surplus w + (1 - (unfinished w).length) := by
      rw [surplus_append, surplus_cons_closing [] hs]
      rfl
    rw [List.cons_append, unfinished, unfinished, hsurplus, ih]
    rcases hw : unfinished w with _ | ⟨q, later⟩
    · -- the bracket matches `a`, or none of the two
      have hne : ¬ surplus w + (1 - ([] : List Word).length) = 0 := Nat.succ_ne_zero _
      rw [if_neg fun h => hne h.2]
      split <;> rfl
    · -- the bracket matches one that comes after `a`
      simp only [List.length_cons, Nat.sub_eq_zero_of_le (Nat.le_add_left 1 later.length),
        Nat.add_zero]
      split <;> simp [List.map_dropLast]

end Concat

/-- The last group that is still open: what comes before its bracket, and what is in it so far. -/
theorem exists_last_unfinished {w q : Word} {earlier : List Word}
    (h : unfinished w = earlier ++ [q]) :
    ∃ a v, w = q ++ a :: v ∧ a.bracket? = some .opening ∧ Balanced v := by
  induction w generalizing q earlier with
  | nil => simp [unfinished] at h
  | cons s w ih =>
    rcases List.eq_nil_or_concat (unfinished w) with hw | ⟨before, r, hw⟩
    · by_cases hs : s.bracket? = some .opening ∧ surplus w = 0
      · rw [unfinished, if_pos hs, hw] at h
        obtain rfl : q = [] := by
          have hlast := congrArg List.getLast? h
          simpa using hlast.symm
        exact ⟨s, w, rfl, hs.1, balanced_iff.2 ⟨hs.2, hw⟩⟩
      · rw [unfinished, if_neg hs, hw] at h
        simp at h
    · rw [List.concat_eq_append] at hw
      have hq : q = s :: r := by
        have hlast := congrArg List.getLast? h
        rw [unfinished, hw] at hlast
        split at hlast <;> simpa [List.getLast?_cons] using hlast.symm
      obtain ⟨a, v, rfl, ha, hv⟩ := ih hw
      exact ⟨a, v, by rw [hq]; rfl, ha, hv⟩

/-- A closing bracket takes the spine back to what it was before the last open group. -/
theorem spine_concat_closing {w q : Word} {s : Symbol} {earlier : List Word}
    (hs : s.bracket? = some .closing) (h : unfinished w = earlier ++ [q]) :
    spine (w ++ [s]) = spine q := by
  obtain ⟨a, v, rfl, ha, hv⟩ := exists_last_unfinished h
  rw [List.append_assoc, List.cons_append, spine_group q v [] ha hs hv, List.append_nil]

/-! ## Counting both brackets -/

def opens (w : Word) : Nat := w.countP fun s => s.bracket? = some .opening

def closes (w : Word) : Nat := w.countP fun s => s.bracket? = some .closing

/-- No part of the word from its start closes more groups than it opens, and the whole word closes
as many. -/
structure Dyck (w : Word) : Prop where
  prefixes : ∀ u : Word, u <+: w → closes u ≤ opens u
  totals : closes w = opens w

section Cons

variable {s : Symbol} (w : Word)

theorem opens_cons : opens (s :: w) = opens w + if s.bracket? = some .opening then 1 else 0 := by
  simp [opens, List.countP_cons]

theorem closes_cons :
    closes (s :: w) = closes w + if s.bracket? = some .closing then 1 else 0 := by
  simp [closes, List.countP_cons]

end Cons

/-- The closing brackets without a match are those that a deeper start would give one. -/
theorem surplus_le_iff {w : Word} {depth : Nat} :
    surplus w ≤ depth ↔ ∀ u, u <+: w → closes u ≤ depth + opens u := by
  induction w generalizing depth with
  | nil =>
    refine iff_of_true (Nat.zero_le depth) fun u hu => ?_
    rw [List.prefix_nil.1 hu]
    exact Nat.zero_le _
  | cons s w ih =>
    have hsplit : (∀ u, u <+: s :: w → closes u ≤ depth + opens u) ↔
        ∀ u, u <+: w → closes (s :: u) ≤ depth + opens (s :: u) := by
      constructor
      · intro h u hu
        exact h (s :: u) (List.cons_prefix_cons.2 ⟨rfl, hu⟩)
      · intro h u hu
        rcases List.prefix_cons_iff.1 hu with rfl | ⟨u, rfl, hrest⟩
        · exact Nat.zero_le _
        · exact h u hrest
    rw [hsplit]
    simp only [opens_cons, closes_cons]
    match hs : s.bracket? with
    | some .opening =>
      rw [surplus_cons_opening w hs, Nat.sub_le_iff_le_add, ih]
      refine forall₂_congr fun u _ => ?_
      simp only [if_true, reduceCtorEq, Option.some.injEq, if_false]
      omega
    | none =>
      rw [surplus_cons_letter w hs, ih]
      rfl
    | some .closing =>
      rw [surplus_cons_closing w hs]
      simp only [if_true, reduceCtorEq, Option.some.injEq, if_false, Nat.add_zero]
      cases depth with
      | zero =>
        refine iff_of_false (Nat.not_succ_le_zero _) fun h => ?_
        exact Nat.not_succ_le_zero _ (h [] List.nil_prefix)
      | succ depth =>
        rw [Nat.succ_le_succ_iff, ih]
        refine forall₂_congr fun u _ => ?_
        omega

/-- Brackets that match are counted on both sides. -/
theorem opens_add_surplus (w : Word) :
    opens w + surplus w = closes w + (unfinished w).length := by
  induction w with
  | nil => rfl
  | cons s w ih =>
    rw [opens_cons, closes_cons, length_unfinished_cons]
    match hs : s.bracket? with
    | some .opening =>
      rw [surplus_cons_opening w hs]
      simp only [if_true, reduceCtorEq, Option.some.injEq, if_false, true_and]
      by_cases hzero : surplus w = 0
      · rw [if_pos hzero]
        omega
      · rw [if_neg hzero]
        omega
    | none =>
      rw [surplus_cons_letter w hs]
      simpa using ih
    | some .closing =>
      rw [surplus_cons_closing w hs]
      simp only [if_true, reduceCtorEq, Option.some.injEq, if_false, false_and]
      omega

theorem dyck_iff_balanced {w : Word} : Dyck w ↔ Balanced w := by
  have hcount := opens_add_surplus w
  have hprefixes : (∀ u, u <+: w → closes u ≤ opens u) ↔ surplus w = 0 := by
    rw [← Nat.le_zero, surplus_le_iff]
    simp only [Nat.zero_add]
  rw [balanced_iff, ← List.length_eq_zero_iff]
  constructor
  · intro h
    have hsurplus := hprefixes.1 h.prefixes
    have htotals := h.totals
    exact ⟨hsurplus, by omega⟩
  · rintro ⟨hsurplus, hunfinished⟩
    exact ⟨hprefixes.2 hsurplus, by omega⟩

instance (w : Word) : Decidable (Dyck w) :=
  decidable_of_iff (surplus w = 0 ∧ (unfinished w).length = 0)
    (by rw [dyck_iff_balanced, balanced_iff, List.length_eq_zero_iff])

end Word

end Arbor
