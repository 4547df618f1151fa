import Arbor.Proofs.Window.Items
import Arbor.Rule.Compiled

/-!
# Matching a rule

Trying a rule scans the focus, the left context and the right context, and binds names on the way.
What the scan comes to can be said without it: the rule's patterns match a symbol between two
words, or they do not, and in the first case the bindings are those of the named slots, focus
first, then left, then right.

Main result: `bind?_eq`. In particular trying a rule depends on its contexts only through the
words they show (`fire_congr`), and a rule that does not match leaves no bindings behind.
-/

namespace Arbor

instance (p : Pattern) (s : Symbol) : Decidable (p.Matches s) :=
  inferInstanceAs (Decidable (_ ∧ _ ∧ ∀ place ∈ p.slots.zip s.params, place.1.Accepts place.2))

instance (patterns : List Pattern) (word : Word) : Decidable (Rule.MatchesAll patterns word) :=
  inferInstanceAs (Decidable (_ ∧ ∀ place ∈ patterns.zip word, place.1.Matches place.2))

instance (r : Rule) (s : Symbol) (left right : Word) : Decidable (r.Matches s left right) :=
  inferInstanceAs (Decidable (_ ∧ Rule.MatchesAll _ _ ∧ Rule.MatchesAll _ _))

/-- The bindings after all names of a table have been given their values, in order. -/
def Bindings.setAll (b : Bindings) (entries : Table String Value) : Bindings :=
  entries.foldl (fun b entry => b.set entry.1 entry.2) b

@[simp] theorem Bindings.setAll_nil (b : Bindings) : b.setAll [] = b := rfl

theorem Bindings.setAll_append (b : Bindings) (xs ys : Table String Value) :
    b.setAll (xs ++ ys) = (b.setAll xs).setAll ys := List.foldl_append

/-! ## One pattern -/

namespace Slot

/-- The name that a slot gives to a value, if it gives it one. -/
def capture : Slot → Value → Table String Value
  | .named name, value => [(name, value)]
  | _, _ => []

theorem bind?_eq (slot : Slot) (value : Value) (b : Bindings) :
    slot.bind? value b =
      if slot.Accepts value then some (b.setAll (slot.capture value)) else none := by
  cases slot <;> simp [bind?, Accepts, capture, Bindings.setAll]

theorem bindAll?_eq (slots : List Slot) (values : List Value) (b : Bindings) :
    bindAll? slots values b =
      if slots.length = values.length ∧ ∀ place ∈ slots.zip values, place.1.Accepts place.2 then
        some (b.setAll ((slots.zip values).flatMap fun place => place.1.capture place.2))
      else none := by
  induction slots generalizing values b with
  | nil => cases values <;> simp [bindAll?]
  | cons slot slots ih =>
    cases values with
    | nil => simp [bindAll?]
    | cons value values =>
      simp only [bindAll?, bind?_eq]
      by_cases hslot : slot.Accepts value
      · simp only [hslot, if_true, ih, List.length_cons, Nat.add_right_cancel_iff,
          List.zip_cons_cons, List.forall_mem_cons, true_and, List.flatMap_cons,
          Bindings.setAll_append]
      · simp [hslot]

end Slot

namespace Pattern

/-- The names that a pattern gives to the parameters of a symbol. -/
def captures (p : Pattern) (s : Symbol) : Table String Value :=
  (p.slots.zip s.params).flatMap fun place => place.1.capture place.2

theorem bind?_eq (p : Pattern) (s : Symbol) (b : Bindings) :
    p.bind? s b = if p.Matches s then some (b.setAll (p.captures s)) else none := by
  unfold bind? Matches captures
  by_cases htag : s.tag = p.tag
  · simp only [htag, if_true, true_and]
    exact Slot.bindAll?_eq p.slots s.params b
  · simp [htag]

/-- The names that patterns give to the parameters of the symbols of a word, place by place. -/
def capturesAll (patterns : List Pattern) (word : Word) : Table String Value :=
  (patterns.zip word).flatMap fun place => place.1.captures place.2

end Pattern

/-! ## Contexts -/

namespace Rule

theorem matchesAll_cons (p : Pattern) (ps : List Pattern) (s : Symbol) (word : Word) :
    MatchesAll (p :: ps) (s :: word) ↔ p.Matches s ∧ MatchesAll ps word := by
  simp only [MatchesAll, List.length_cons, Nat.add_right_cancel_iff, List.zip_cons_cons,
    List.forall_mem_cons]
  exact ⟨fun ⟨hlen, hp, hps⟩ => ⟨hp, hlen, hps⟩, fun ⟨hp, hlen, hps⟩ => ⟨hlen, hp, hps⟩⟩

/-- Scanning a window from an index on compares the patterns with as many of the items there. -/
theorem bindRun?_eq {w : Window Symbol} (hw : w.WellPlaced) (ps : List Pattern) (i : Nat)
    (b : Bindings) :
    bindRun? w ps i b =
      if MatchesAll ps ((w.items.drop i).take ps.length) then
        some (b.setAll (Pattern.capturesAll ps (w.items.drop i)))
      else none := by
  induction ps generalizing i b with
  | nil => simp [bindRun?, MatchesAll, Pattern.capturesAll]
  | cons p ps ih =>
    simp only [bindRun?, Window.get?_natCast hw]
    cases hs : w.items[i]? with
    | none =>
      have hdrop : w.items.drop i = [] := List.drop_eq_nil_of_le (List.getElem?_eq_none_iff.1 hs)
      simp [hdrop, MatchesAll]
    | some s =>
      obtain ⟨hi, hget⟩ := List.getElem?_eq_some_iff.1 hs
      have hdrop : w.items.drop i = s :: w.items.drop (i + 1) := by
        rw [← hget]
        exact List.drop_eq_getElem_cons hi
      have hnext : (i : Int) + 1 = (i + 1 : Nat) := by omega
      simp only [hdrop, List.length_cons, List.take_succ_cons, matchesAll_cons, Pattern.bind?_eq]
      by_cases hp : p.Matches s
      · simp only [hp, if_true, hnext, ih, true_and, Pattern.capturesAll, List.zip_cons_cons,
          List.flatMap_cons, Bindings.setAll_append]
      · simp [hp]

/-- A context matches on the left by its last symbols. -/
theorem bindLeft?_eq {w : Window Symbol} (hw : w.WellPlaced) (ps : List Pattern) (b : Bindings) :
    bindLeft? ps w b =
      if MatchesAll ps (w.items.drop (w.items.length - ps.length)) then
        some (b.setAll (Pattern.capturesAll ps (w.items.drop (w.items.length - ps.length))))
      else none := by
  have hlen := Window.length_items hw
  cases ps with
  | nil => simp [bindLeft?, MatchesAll, Pattern.capturesAll]
  | cons p ps =>
    by_cases hshort : w.items.length < (p :: ps).length
    · have hneg : w.length - ((p :: ps).length : Int) < 0 := by omega
      have hne : ¬ MatchesAll (p :: ps) (w.items.drop (w.items.length - (p :: ps).length)) := by
        intro h
        have := h.1
        rw [List.length_drop] at this
        omega
      simp only [bindLeft?, List.isEmpty_cons, Bool.false_eq_true, if_false, if_pos hneg,
        if_neg hne]
    · have hoffset :
          w.length - ((p :: ps).length : Int) = (w.items.length - (p :: ps).length : Nat) := by
        omega
      have hpos : ¬ w.length - ((p :: ps).length : Int) < 0 := by omega
      have htake : (w.items.drop (w.items.length - (p :: ps).length)).take (p :: ps).length =
          w.items.drop (w.items.length - (p :: ps).length) :=
        List.take_of_length_le (by rw [List.length_drop]; omega)
      simp only [bindLeft?, List.isEmpty_cons, Bool.false_eq_true, if_false, if_neg hpos]
      rw [hoffset, bindRun?_eq hw, htake]

/-- A context matches on the right by its first symbols. -/
theorem bindRight?_eq {w : Window Symbol} (hw : w.WellPlaced) (ps : List Pattern) (b : Bindings) :
    bindRight? ps w b =
      if MatchesAll ps (w.items.take ps.length) then
        some (b.setAll (Pattern.capturesAll ps w.items))
      else none := by
  have hlen := Window.length_items hw
  cases ps with
  | nil => simp [bindRight?, MatchesAll, Pattern.capturesAll]
  | cons p ps =>
    by_cases hshort : w.length < (p :: ps).length
    · have hne : ¬ MatchesAll (p :: ps) (w.items.take (p :: ps).length) := by
        intro h
        have := h.1
        rw [List.length_take] at this
        omega
      simp only [bindRight?, List.isEmpty_cons, Bool.false_eq_true, if_false, if_pos hshort,
        if_neg hne]
    · simp only [bindRight?, List.isEmpty_cons, Bool.false_eq_true, if_false, if_neg hshort]
      exact bindRun?_eq hw (p :: ps) 0 b

/-! ## The rule -/

/-- The names that a rule's patterns give to the parameters around a place: those of the focus,
of the symbols before it and of the symbols after it. -/
def captures (r : Rule) (s : Symbol) (left right : Word) : Table String Value :=
  r.focus.captures s ++
    (Pattern.capturesAll r.left (left.drop (left.length - r.left.length)) ++
      Pattern.capturesAll r.right right)

/-- The bindings that a rule's guard and producer are handed at a site. -/
def bindingsAt (r : Rule) (site : Site) (s : Symbol) (left right : Word) : Bindings :=
  (Bindings.empty site).setAll (r.captures s left right)

/-- **Trying a rule matches its patterns.** The scan gives bindings exactly if the patterns match,
and then those of the named slots. -/
theorem bind?_eq (r : Rule) (site : Site) (s : Symbol) {left right : Window Symbol}
    (hl : left.WellPlaced) (hr : right.WellPlaced) :
    r.bind? site s left right =
      if r.Matches s left.items right.items then
        some (r.bindingsAt site s left.items right.items)
      else none := by
  unfold bind? Matches bindingsAt captures
  rw [Pattern.bind?_eq]
  by_cases hfocus : r.focus.Matches s
  · simp only [hfocus, if_true, true_and]
    rw [bindLeft?_eq hl]
    by_cases hleft : MatchesAll r.left (left.items.drop (left.items.length - r.left.length))
    · simp only [hleft, if_true, true_and]
      rw [bindRight?_eq hr]
      simp only [Bindings.setAll_append]
    · simp [hleft]
  · simp [hfocus]

/-- Only the words that its contexts show decide what a rule does. -/
theorem fire_congr (r : Rule) (index : Nat) (site : Site) (s : Symbol)
    {left right left' right' : Window Symbol} (hl : left.WellPlaced) (hr : right.WellPlaced)
    (hl' : left'.WellPlaced) (hr' : right'.WellPlaced) (hleft : left.items = left'.items)
    (hright : right.items = right'.items) :
    r.fire index site s left right = r.fire index site s left' right' := by
  unfold fire
  rw [bind?_eq r site s hl hr, bind?_eq r site s hl' hr', hleft, hright]

end Rule

end Arbor
