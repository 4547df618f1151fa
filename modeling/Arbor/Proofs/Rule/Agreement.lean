import Arbor.Proofs.Rule.Matching
import Arbor.Proofs.Rule.Traced
import Arbor.Proofs.Value.Agreement
import Arbor.Rule.Formula

/-!
# Rules that compare and copy

Patterns, and formulas that compare and do not compute, keep agreement: a rule matches between words
that agree if it matches between one of them, what it binds agrees, its guard says the same, and the
words it makes by copying agree (`Rule.Comparing`).

A formula that fails does so in both places, though not with the same fault, as a fault can show the
kind of a number.

* `Rule.matches_agree`, `Rule.bindingsAt_agree`: matching.
* `Formula.Comparing.eval`, `Template.build_agree`: guards and producers.
* `Rule.Comparing.fire`: what a rule makes.
-/

namespace Arbor

variable {others : Prop} {α β γ : Type} {R : α → β → Prop} {as : List α} {bs : List β}

/-! ## Lists of places -/

theorem forall₂_zip_right (cs : List γ) (h : List.Forall₂ R as bs) :
    List.Forall₂ (fun p q => p.1 = q.1 ∧ R p.2 q.2) (cs.zip as) (cs.zip bs) := by
  induction h generalizing cs with
  | nil =>
    rw [List.zip_nil_right, List.zip_nil_right]
    exact .nil
  | cons hab _ ih =>
    cases cs with
    | nil => exact .nil
    | cons c cs => exact .cons ⟨rfl, hab⟩ (ih cs)

/-! ## Bindings -/

/-- Two tables of values agree if they have the same names in the same order, with values that
agree. -/
def Value.EntriesAgree (others : Prop) : Table String Value → Table String Value → Prop :=
  List.Forall₂ fun entry entry' => entry.1 = entry'.1 ∧ entry.2.Agree others entry'.2

section Entries

variable {entries entries' : Table String Value} (h : Value.EntriesAgree others entries entries')

include h

theorem Value.EntriesAgree.get? (name : String) :
    Option.Rel (Value.Agree others) (entries.get? name) (entries'.get? name) := by
  induction h with
  | nil => exact .none
  | @cons entry entry' rest rest' hentry _ ih =>
    obtain ⟨other, value⟩ := entry
    obtain ⟨other', value'⟩ := entry'
    obtain ⟨rfl, hvalue⟩ : other = other' ∧ value.Agree others value' := hentry
    unfold Table.get?
    split
    · exact .some hvalue
    · exact ih

theorem Value.EntriesAgree.set (name : String) {value value' : Value}
    (hvalue : value.Agree others value') :
    Value.EntriesAgree others (entries.set name value) (entries'.set name value') := by
  induction h with
  | nil => exact .cons ⟨rfl, hvalue⟩ .nil
  | @cons entry entry' rest rest' hentry hrest ih =>
    obtain ⟨other, old⟩ := entry
    obtain ⟨other', old'⟩ := entry'
    obtain ⟨rfl, hold⟩ : other = other' ∧ old.Agree others old' := hentry
    unfold Table.set
    split
    · exact .cons ⟨rfl, hvalue⟩ hrest
    · exact .cons ⟨rfl, hold⟩ ih

end Entries

namespace Bindings

/-- Two bindings agree if they were made at the same site and bind the same names to values that
agree. -/
structure Agree (others : Prop) (b b' : Bindings) : Prop where
  values : Value.EntriesAgree others b.values b'.values
  site : b.site = b'.site

variable {b b' : Bindings}

theorem Agree.get? (h : b.Agree others b') (name : String) :
    Option.Rel (Value.Agree others) (b.get? name) (b'.get? name) :=
  h.values.get? name

theorem Agree.contains (h : b.Agree others b') (name : String) :
    b.contains name = b'.contains name := by
  have hfound := h.get? name
  unfold Bindings.contains
  generalize b.get? name = found at hfound ⊢
  generalize b'.get? name = found' at hfound ⊢
  cases hfound <;> rfl

theorem Agree.set (h : b.Agree others b') (name : String) {value value' : Value}
    (hvalue : value.Agree others value') :
    (b.set name value).Agree others (b'.set name value') :=
  ⟨h.values.set name hvalue, h.site⟩

theorem Agree.setAll (h : b.Agree others b') {entries entries' : Table String Value}
    (hentries : Value.EntriesAgree others entries entries') :
    (b.setAll entries).Agree others (b'.setAll entries') := by
  induction hentries generalizing b b' with
  | nil => exact h
  | @cons entry entry' rest rest' hentry _ ih =>
    obtain ⟨name, value⟩ := entry
    obtain ⟨name', value'⟩ := entry'
    obtain ⟨rfl, hvalue⟩ : name = name' ∧ value.Agree others value' := hentry
    exact ih (h.set name hvalue)

/-- A name that no member has stands for what it is bound to. -/
theorem member?_eq_none {name : String} (h : name ∉ members.names) (b : Bindings) :
    b.member? name = none := by
  rw [member?, Table.get?_eq_none h]
  rfl

end Bindings

/-! ## Matching -/

theorem Slot.accepts_agree (slot : Slot) {v v' : Value} (h : v.Agree others v') :
    slot.Accepts v ↔ slot.Accepts v' := by
  cases slot with
  | literal expected => rw [Accepts, Accepts, h.same_number_eq]
  | _ => rfl

theorem Slot.capture_agree (slot : Slot) {v v' : Value} (h : v.Agree others v') :
    Value.EntriesAgree others (slot.capture v) (slot.capture v') := by
  cases slot with
  | named name => exact .cons ⟨rfl, h⟩ .nil
  | _ => exact .nil

namespace Pattern

variable {s s' : Symbol}

theorem matches_agree (p : Pattern) (h : s.Agree others s') : p.Matches s ↔ p.Matches s' := by
  obtain ⟨htag, hparams⟩ := h
  have hplaces : (∀ place ∈ p.slots.zip s.params, place.1.Accepts place.2) ↔
      ∀ place ∈ p.slots.zip s'.params, place.1.Accepts place.2 :=
    forall_mem_iff_of_forall₂ (forall₂_zip_right p.slots hparams) fun place place' hplace => by
      rw [hplace.1, place'.1.accepts_agree hplace.2]
  unfold Matches
  rw [htag, hparams.length_eq, hplaces]

theorem captures_agree (p : Pattern) (h : s.Agree others s') :
    Value.EntriesAgree others (p.captures s) (p.captures s') :=
  List.rel_flatMap (forall₂_zip_right p.slots h.2) fun place place' hplace => by
    rw [hplace.1]
    exact place'.1.capture_agree hplace.2

theorem capturesAll_agree (ps : List Pattern) {w w' : Word} (h : Word.Agree others w w') :
    Value.EntriesAgree others (capturesAll ps w) (capturesAll ps w') :=
  List.rel_flatMap (forall₂_zip_right ps h) fun place place' hplace => by
    rw [hplace.1]
    exact place'.1.captures_agree hplace.2

end Pattern

namespace Rule

variable {s s' : Symbol} {left left' right right' : Word}

theorem matchesAll_agree (ps : List Pattern) {w w' : Word} (h : Word.Agree others w w') :
    MatchesAll ps w ↔ MatchesAll ps w' := by
  have hplaces : (∀ place ∈ ps.zip w, place.1.Matches place.2) ↔
      ∀ place ∈ ps.zip w', place.1.Matches place.2 :=
    forall_mem_iff_of_forall₂ (forall₂_zip_right ps h) fun place place' hplace => by
      rw [hplace.1, place'.1.matches_agree hplace.2]
  unfold MatchesAll
  rw [h.length_eq, hplaces]

/-- A rule matches at both of two places that agree, or at none. -/
theorem matches_agree (r : Rule) (hs : s.Agree others s') (hleft : Word.Agree others left left')
    (hright : Word.Agree others right right') :
    r.Matches s left right ↔ r.Matches s' left' right' := by
  unfold Matches
  rw [r.focus.matches_agree hs, matchesAll_agree r.right (List.forall₂_take _ hright),
    matchesAll_agree r.left (List.forall₂_drop _ hleft), hleft.length_eq]

theorem bindingsAt_agree (r : Rule) (site : Site) (hs : s.Agree others s')
    (hleft : Word.Agree others left left') (hright : Word.Agree others right right') :
    (r.bindingsAt site s left right).Agree others (r.bindingsAt site s' left' right') := by
  have hempty : (Bindings.empty site).Agree others (Bindings.empty site) := ⟨.nil, rfl⟩
  refine hempty.setAll (List.rel_append (r.focus.captures_agree hs) (List.rel_append ?_ ?_))
  · rw [hleft.length_eq]
    exact Pattern.capturesAll_agree r.left (List.forall₂_drop _ hleft)
  · exact Pattern.capturesAll_agree r.right hright

end Rule

/-! ## Formulas -/

namespace Formula

/-- A formula that compares bound values and numbers, and combines what comes of it. -/
def Comparing : Formula → Prop
  | .named _ | .isBound _ => True
  | .attribute name => name ∉ Bindings.members.names
  | .numeral text => ∀ x, Number.read text = .ok x → (Value.number x).Real
  | .comparison _ e f | .both e f | .either e f => e.Comparing ∧ f.Comparing
  | .not e => e.Comparing
  | .neg _ | .arithmetic .. => False

/-- A formula that copies a bound value, or gives one of certain constants. -/
def Copying (constants : Value → Prop) : Formula → Prop
  | .named _ => True
  | .attribute name => name ∉ Bindings.members.names
  | .numeral text => ∀ x, Number.read text = .ok x → constants (.number x)
  | _ => False

variable {b b' : Bindings}

theorem eval_named_agree (hb : b.Agree others b') (name : String) :
    Together (Value.Agree others) ((named name).eval b) ((named name).eval b') := by
  have hfound := hb.get? name
  unfold eval
  generalize b.get? name = found at hfound ⊢
  generalize b'.get? name = found' at hfound ⊢
  cases hfound with
  | none => exact .error _ _
  | some hvalue => exact .ok hvalue

theorem eval_attribute_agree (hb : b.Agree others b') {name : String}
    (hname : name ∉ Bindings.members.names) :
    Together (Value.Agree others) ((«attribute» name).eval b) ((«attribute» name).eval b') := by
  have hfound := hb.get? name
  unfold eval
  rw [b.member?_eq_none hname, b'.member?_eq_none hname]
  generalize b.get? name = found at hfound ⊢
  generalize b'.get? name = found' at hfound ⊢
  cases hfound with
  | none => exact .error _ _
  | some hvalue => exact .ok hvalue

theorem eval_numeral_agree {text : String}
    (htext : ∀ x, Number.read text = .ok x → (Value.number x).Agree others (.number x)) :
    Together (Value.Agree others) ((numeral text).eval b) ((numeral text).eval b') := by
  unfold eval
  cases hread : Number.read text with
  | error fault => exact .error _ _
  | ok x => exact .ok (htext x hread)

/-- **A formula that compares comes to values that agree, or fails in both places.** -/
theorem Comparing.eval {e : Formula} (he : e.Comparing) (hb : b.Agree others b') :
    Together (Value.Agree others) (e.eval b) (e.eval b') := by
  induction e with
  | named name => exact eval_named_agree hb name
  | «attribute» name => exact eval_attribute_agree hb he
  | numeral text => exact eval_numeral_agree fun x hx => (he x hx).agree
  | isBound name =>
    unfold Formula.eval
    rw [hb.contains name]
    exact .ok (Value.agree_truth _)
  | neg e => exact he.elim
  | arithmetic op e f => exact he.elim
  | comparison op e f ihe ihf =>
    unfold Formula.eval
    refine (ihe he.1).bind fun x x' hx => (ihf he.2).bind fun y y' hy => ?_
    refine (op.apply_agree hx hy).bind fun holds holds' hholds => ?_
    rw [hholds]
    exact .ok (Value.agree_truth _)
  | both e f ihe ihf =>
    unfold Formula.eval
    refine (ihe he.1).bind fun x x' hx => ?_
    rw [hx.isTrue_eq]
    split
    · exact ihf he.2
    · exact .ok hx
  | either e f ihe ihf =>
    unfold Formula.eval
    refine (ihe he.1).bind fun x x' hx => ?_
    rw [hx.isTrue_eq]
    split
    · exact .ok hx
    · exact ihf he.2
  | not e ih =>
    unfold Formula.eval
    refine (ih he).bind fun x x' hx => ?_
    rw [hx.isTrue_eq]
    exact .ok (Value.agree_truth _)

theorem Comparing.holds {e : Formula} (he : e.Comparing) (hb : b.Agree others b') :
    Together Eq (e.holds b) (e.holds b') :=
  (he.eval hb).bind fun _ _ hx => .ok hx.isTrue_eq

theorem Copying.eval {constants : Value → Prop} {e : Formula} (he : e.Copying constants)
    (hconstants : ∀ v, constants v → v.Agree others v) (hb : b.Agree others b') :
    Together (Value.Agree others) (e.eval b) (e.eval b') := by
  cases e with
  | named name => exact eval_named_agree hb name
  | «attribute» name => exact eval_attribute_agree hb he
  | numeral text => exact eval_numeral_agree fun x hx => hconstants _ (he x hx)
  | _ => exact he.elim

end Formula

/-! ## Templates -/

namespace Template

/-- A template all of whose parameters are copied, or certain constants. -/
def Copying (constants : Value → Prop) (t : Template) : Prop :=
  ∀ entry ∈ t.symbols, ∀ e ∈ entry.2, e.Copying constants

variable {b b' : Bindings} {constants : Value → Prop}

theorem buildSymbol_agree (t : Template) (tag : String) {formulas : List Formula}
    (h : ∀ e ∈ formulas, e.Copying constants) (hconstants : ∀ v, constants v → v.Agree others v)
    (hb : b.Agree others b') :
    Together (Symbol.Agree others) (t.buildSymbol b tag formulas)
      (t.buildSymbol b' tag formulas) := by
  unfold buildSymbol
  have hparams := Together.mapM fun e he => (h e he).eval hconstants hb
  refine hparams.bind fun params params' hagree => ?_
  cases t.checkedBy with
  | none => exact .ok ⟨rfl, hagree⟩
  | some a =>
    -- whether a symbol fits depends on how many parameters it has
    simp only [Alphabet.symbol, hagree.length_eq]
    refine (Together.refl (a.arity tag)).bind fun n n' hn => ?_
    rw [hn]
    split
    · exact .ok ⟨rfl, hagree⟩
    · exact .error _ _

theorem build_agree {t : Template} (h : t.Copying constants)
    (hconstants : ∀ v, constants v → v.Agree others v) (hb : b.Agree others b') :
    Together (Word.Agree others) (t.build b) (t.build b') := by
  have hsymbols := Together.mapM fun entry hentry =>
    t.buildSymbol_agree entry.1 (h entry hentry) hconstants hb
  refine hsymbols.bind fun w w' hw => ?_
  rw [hb.site]
  exact .ok (Word.Agree.madeBy hw _)

end Template

/-! ## Rules -/

/-- A producer that is static or copies what is bound, with certain constants. -/
def Producer.Copying (constants : Value → Prop) : Producer → Prop
  | .word w => ∀ s ∈ w, ∀ v ∈ s.params, constants v
  | .function f => ∃ t : Template, t.Copying constants ∧ f = t.build

/-- A rule whose guard compares what is bound and whose producer is static or copies it. -/
structure Rule.Comparing (constants : Value → Prop) (r : Rule) : Prop where
  guard : ∀ guard, r.guard = some guard → ∃ e : Formula, e.Comparing ∧ guard = e.holds
  producer : r.producer.Copying constants

namespace Rule

variable {r : Rule} {constants : Value → Prop} {b b' : Bindings}

theorem Comparing.holds (hr : r.Comparing constants) (index : Nat) (hb : b.Agree others b') :
    Together Eq (r.checkGuard index b).result (r.checkGuard index b').result := by
  unfold checkGuard
  cases hguard : r.guard with
  | none => exact .ok rfl
  | some guard =>
    obtain ⟨e, he, rfl⟩ := hr.guard guard hguard
    exact he.holds hb

theorem Comparing.product (hr : r.Comparing constants)
    (hconstants : ∀ v, constants v → v.Agree others v) (index : Nat) (hb : b.Agree others b') :
    Together (Word.Agree others) (r.product index b).result (r.product index b').result := by
  have hproducer := hr.producer
  unfold Rule.product
  cases hkind : r.producer with
  | word w =>
    rw [hkind] at hproducer
    have hsame : Word.Agree others w w := List.forall₂_same.2 fun s hs =>
      ⟨rfl, List.forall₂_same.2 fun v hv => hconstants v (hproducer s hs v hv)⟩
    exact .ok hsame
  | function f =>
    rw [hkind] at hproducer
    obtain ⟨t, ht, rfl⟩ := hproducer
    exact Template.build_agree ht hconstants hb

variable {s s' : Symbol} {left left' right right' : Word}

/-- **At places that agree a rule makes words that agree**, or fires at none of them, or fails at
both. -/
theorem Comparing.fire (hr : r.Comparing constants)
    (hconstants : ∀ v, constants v → v.Agree others v) (index : Nat) (site : Site)
    (hs : s.Agree others s') (hleft : Word.Agree others left left')
    (hright : Word.Agree others right right') :
    Together (Option.Rel (Word.Agree others))
      (r.fire index site s (.ofList left) (.ofList right)).result
      (r.fire index site s' (.ofList left') (.ofList right')).result := by
  unfold Rule.fire
  rw [bind?_eq _ _ _ (Window.wellPlaced_ofList _) (Window.wellPlaced_ofList _),
    bind?_eq _ _ _ (Window.wellPlaced_ofList _) (Window.wellPlaced_ofList _)]
  simp only [Window.items_ofList]
  by_cases hmatches : r.Matches s left right
  · rw [if_pos hmatches, if_pos ((r.matches_agree hs hleft hright).1 hmatches)]
    have hb := r.bindingsAt_agree site hs hleft hright
    simp only [Traced.result_bind]
    refine (hr.holds index hb).bind fun holds holds' hholds => ?_
    rw [hholds]
    cases holds' with
    | false => exact .ok .none
    | true =>
      simp only [if_true, Traced.result_bind]
      exact (hr.product hconstants index hb).bind fun w w' hw => .ok (.some hw)
  · rw [if_neg hmatches, if_neg (mt (r.matches_agree hs hleft hright).2 hmatches)]
    exact .ok .none

end Rule

end Arbor
