import Arbor.Proofs.Grammar.FirstMatch
import Arbor.Proofs.Rule.Renaming
import Arbor.Proofs.Rule.WellFormed
import Arbor.Proofs.Value.Comparison

/-!
# The names that a rule binds

A rule that has compiled keeps what is written in its patterns: a slot for each argument, and in it
the name that is written there. Where the patterns match, each name is bound once, since no name is
written twice in a rule; so what it is bound to is the parameter in its place, of the symbol that
its pattern was held against.

* `written_of_read`: the patterns of a text.
* `names_captures`, `exists_mem_captures`: what a pattern that matches gives names to.
* `Bindings.values_setAll`: new names are bound one after another.
* `Grammar.add_binds`: the bindings that the guard and the producer of a rule are handed.
-/

namespace Arbor

/-! ## Patterns as they are written -/

/-- A slot that is written as a name. -/
def Pattern.IsName (text : String) : Prop := text ≠ "_" ∧ Text.isIdentifier text.toList = true

instance (text : String) : Decidable (Pattern.IsName text) :=
  inferInstanceAs (Decidable (text ≠ "_" ∧ Text.isIdentifier text.toList = true))

theorem Pattern.namesIn_of_isName {text : String} (h : IsName text) : namesIn [text] = [text] := by
  simp [namesIn, h.1, h.2]

theorem Pattern.namesIn_of_not_isName {text : String} (h : ¬ IsName text) :
    namesIn [text] = [] := by
  simpa [namesIn, IsName] using h

/-- How a slot is written. -/
inductive Slot.Written : String → Slot → Prop
  | wildcard : Written "_" .wildcard
  | named {name : String} : Pattern.IsName name → Written name (.named name)
  | literal {text : String} {x : Number} : ¬ Pattern.IsName text → Written text (.literal x)

/-- How a pattern is written: as a token with its tag and an argument for each slot. -/
structure Pattern.Written (t : Token) (p : Pattern) : Prop where
  tag : p.tag = t.tag
  slots : List.Forall₂ Slot.Written t.arguments p.slots

namespace Pattern

variable {place : Place} {a : Alphabet} {used used' : List String}

theorem written_of_readSlot {text : String} {slot : Slot}
    (h : readSlot place text used = .ok (slot, used')) : Slot.Written text slot := by
  unfold readSlot at h
  split_ifs at h with hwild hname hreserved htwice
  · cases h
    rw [hwild]
    exact .wildcard
  · cases h
    exact .named ⟨hwild, hname⟩
  · obtain ⟨x, -, h⟩ := bind_eq_ok_iff.1 h
    cases h
    exact .literal fun hnamed => hname hnamed.2

theorem written_of_readSlots {texts : List String} {slots : List Slot}
    (h : readSlots place texts used = .ok (slots, used')) :
    List.Forall₂ Slot.Written texts slots := by
  induction texts generalizing used slots with
  | nil =>
    cases h
    exact .nil
  | cons text texts ih =>
    obtain ⟨⟨slot, next⟩, hslot, h⟩ := bind_eq_ok_iff.1 h
    obtain ⟨⟨rest, last⟩, hrest, h⟩ := bind_eq_ok_iff.1 h
    cases h
    exact .cons (written_of_readSlot hslot) (ih hrest)

theorem written_of_readTokens {text : String} {tokens : List Token} {patterns : List Pattern}
    (h : readTokens place a text tokens used = .ok (patterns, used')) :
    List.Forall₂ Written tokens patterns := by
  induction tokens generalizing used patterns with
  | nil =>
    cases h
    exact .nil
  | cons t tokens ih =>
    rw [readTokens] at h
    split at h
    · cases h
    · split at h
      · cases h
      · obtain ⟨⟨slots, next⟩, hslots, h⟩ := bind_eq_ok_iff.1 h
        obtain ⟨⟨rest, last⟩, hrest, h⟩ := bind_eq_ok_iff.1 h
        cases h
        exact .cons ⟨rfl, written_of_readSlots hslots⟩ (ih hrest)

/-- The patterns of a text are written as its tokens. -/
theorem written_of_read {text : String} {patterns : List Pattern}
    (h : read place a text used = .ok (patterns, used')) :
    ∃ tokens, Token.ofText text = .ok tokens ∧ List.Forall₂ Written tokens patterns := by
  obtain ⟨tokens, htokens, h⟩ := bind_eq_ok_iff.1 h
  exact ⟨tokens, htokens, written_of_readTokens h⟩

/-- The names in a text join those used before, and none of them occurs twice. -/
theorem used_of_read {text : String} {patterns : List Pattern} (hused : used.Nodup)
    (h : read place a text used = .ok (patterns, used')) :
    used' = used ++ namesIn (slotsOf text) ∧ (used ++ namesIn (slotsOf text)).Nodup := by
  have hdecides : Decides .malformedGrammar (read place a text used) _ _ := decides_read text hused
  exact ⟨(hdecides.holds_of_ok h).1, (hdecides.exists_ok_iff.1 ⟨_, h⟩).2⟩

end Pattern

/-! ## What is given names -/

section Zip

variable {α β γ : Type} {related : α → β → Prop} {as : List α} {bs : List β} {cs : List γ}

/-- What is related to an item has a partner in the same place. -/
theorem exists_mem_zip (h : List.Forall₂ related as bs) (hlength : bs.length = cs.length) {i : Nat}
    {a : α} (hi : as[i]? = some a) :
    ∃ b c, related a b ∧ cs[i]? = some c ∧ (b, c) ∈ bs.zip cs := by
  induction h generalizing cs i with
  | nil => cases hi
  | @cons first b as bs hfirst _ ih =>
    cases cs with
    | nil => cases hlength
    | cons c cs =>
      cases i with
      | zero =>
        obtain rfl : first = a := Option.some.inj hi
        exact ⟨b, c, hfirst, rfl, List.mem_cons_self⟩
      | succ i =>
        obtain ⟨b', c', hrelated, hc, hmem⟩ := ih (Nat.succ.inj hlength) hi
        exact ⟨b', c', hrelated, hc, List.mem_cons_of_mem _ hmem⟩

open Pattern (namesIn namesIn_append)

/-- Places give the names that are written for them, if each of them does. -/
theorem names_flatMap_zip (f : β × γ → Table String Value) (texts : α → List String)
    (h : List.Forall₂ related as bs) (hlength : bs.length = cs.length)
    (hnames : ∀ a b c, related a b → (b, c) ∈ bs.zip cs → (f (b, c)).names = namesIn (texts a)) :
    Table.names ((bs.zip cs).flatMap f) = namesIn (as.flatMap texts) := by
  induction h generalizing cs with
  | nil => rfl
  | @cons a b as bs hab _ ih =>
    cases cs with
    | nil => cases hlength
    | cons c cs =>
      have hhead := hnames a b c hab List.mem_cons_self
      have hrest := ih (Nat.succ.inj hlength) fun a b c hab hmem =>
        hnames a b c hab (List.mem_cons_of_mem _ hmem)
      rw [List.zip_cons_cons, List.flatMap_cons, List.flatMap_cons, namesIn_append, ← hhead,
        ← hrest]
      exact List.map_append

end Zip

namespace Pattern

variable {t : Token} {p : Pattern} {s : Symbol} {tokens : List Token} {patterns : List Pattern}
  {word : Word} {name : String}

theorem names_capture {text : String} {slot : Slot} (h : Slot.Written text slot) (value : Value) :
    (slot.capture value).names = namesIn [text] := by
  cases h with
  | wildcard => rfl
  | named hname => exact (namesIn_of_isName hname).symm
  | literal hnot => exact (namesIn_of_not_isName hnot).symm

/-- A pattern gives names to the parameters whose slots are names, in their order. -/
theorem names_captures (h : Written t p) (hmatch : p.Matches s) :
    (p.captures s).names = namesIn t.arguments := by
  have hnames := names_flatMap_zip (fun place => place.1.capture place.2) (fun text => [text])
    h.slots hmatch.2.1 fun _ _ value hwritten _ => names_capture hwritten value
  rwa [List.flatMap_singleton'] at hnames

/-- A name is given to the parameter in its place. -/
theorem exists_mem_captures (h : Written t p) (hmatch : p.Matches s) {k : Nat}
    (hk : t.arguments[k]? = some name) (hname : IsName name) :
    ∃ v, s.params[k]? = some v ∧ (name, v) ∈ p.captures s := by
  obtain ⟨slot, v, hwritten, hv, hmem⟩ := exists_mem_zip h.slots hmatch.2.1 hk
  refine ⟨v, hv, List.mem_flatMap.2 ⟨(slot, v), hmem, ?_⟩⟩
  cases hwritten with
  | wildcard => exact absurd rfl hname.1
  | named => exact List.mem_singleton_self _
  | literal hnot => exact absurd hname hnot

/-- Patterns one after another give the names of all of their tokens. -/
theorem names_capturesAll (h : List.Forall₂ Written tokens patterns)
    (hmatch : Rule.MatchesAll patterns word) :
    (capturesAll patterns word).names = namesIn (tokens.flatMap Token.arguments) :=
  names_flatMap_zip _ _ h hmatch.1 fun _ _ _ hwritten hmem =>
    names_captures hwritten (hmatch.2 _ hmem)

end Pattern

/-! ## Bindings -/

namespace Bindings

/-- Names that are new and differ are bound one after another. -/
theorem values_setAll {b : Bindings} {entries : Table String Value}
    (h : (b.values.names ++ entries.names).Nodup) :
    (b.setAll entries).values = b.values ++ entries := by
  induction entries generalizing b with
  | nil => exact (List.append_nil _).symm
  | cons entry entries ih =>
    have hnew : entry.1 ∉ b.values.names := fun hmem =>
      (List.nodup_append.1 h).2.2 _ hmem _ List.mem_cons_self rfl
    have hset : (b.set entry.1 entry.2).values = b.values ++ [entry] :=
      Table.set_of_notMem hnew entry.2
    have hnames : (b.set entry.1 entry.2).values.names ++ Table.names entries =
        b.values.names ++ Table.names (entry :: entries) := by
      rw [hset, Table.names, List.map_append, List.append_assoc]
      rfl
    have hrest := ih (hnames ▸ h)
    rw [hset, List.append_assoc] at hrest
    exact hrest

/-- The names of a token stand for the parameters in their places of a symbol that has the token's
tag and as many parameters as the token has arguments. -/
structure Binds (b : Bindings) (t : Token) (s : Symbol) : Prop where
  tag : s.tag = t.tag
  length : s.params.length = t.arguments.length
  value : ∀ (k : Nat) (name : String), t.arguments[k]? = some name → Pattern.IsName name →
    ∃ v, s.params[k]? = some v ∧ b.get? name = some v

/-- A pattern binds the names that it is written with, if bindings hold what it captures. -/
theorem binds_of_captures {b : Bindings} (hnodup : b.values.names.Nodup) {t : Token} {p : Pattern}
    {s : Symbol} (h : p.Written t) (hmatch : p.Matches s) (hmem : p.captures s ⊆ b.values) :
    b.Binds t s where
  tag := hmatch.1.trans h.tag
  length := hmatch.2.1.symm.trans h.slots.length_eq.symm
  value k name hk hname := by
    obtain ⟨v, hv, hentry⟩ := Pattern.exists_mem_captures h hmatch hk hname
    exact ⟨v, hv, Table.get?_of_mem hnodup (hmem hentry)⟩

/-- Patterns one after another bind their names to the parameters of one symbol each. -/
theorem binds_of_capturesAll {b : Bindings} (hnodup : b.values.names.Nodup) {tokens : List Token}
    {patterns : List Pattern} {word : Word} (h : List.Forall₂ Pattern.Written tokens patterns)
    (hmatch : Rule.MatchesAll patterns word) (hmem : Pattern.capturesAll patterns word ⊆ b.values)
    {i : Nat} {t : Token} (hi : tokens[i]? = some t) :
    ∃ s, word[i]? = some s ∧ b.Binds t s := by
  obtain ⟨p, s, hwritten, hs, hplace⟩ := exists_mem_zip h hmatch.1 hi
  refine ⟨s, hs, binds_of_captures hnodup hwritten (hmatch.2 _ hplace) fun entry hentry => ?_⟩
  exact hmem (List.mem_flatMap.2 ⟨(p, s), hplace, hentry⟩)

end Bindings

/-! ## Rules -/

/-- How the patterns of a rule are written: each as a token, and no name in two slots. -/
structure Rule.Written (source : RuleSource) (focus : Token) (lefts rights : List Token)
    (r : Rule) : Prop where
  focusText : Token.ofText source.focus = .ok [focus]
  leftText : Token.ofText (source.left.getD "") = .ok lefts
  rightText : Token.ofText (source.right.getD "") = .ok rights
  focusWritten : r.focus.Written focus
  leftWritten : List.Forall₂ Pattern.Written lefts r.left
  rightWritten : List.Forall₂ Pattern.Written rights r.right
  nodup : (Pattern.namesIn ((focus :: (lefts ++ rights)).flatMap Token.arguments)).Nodup

open Pattern (namesIn namesIn_append slotsOf slotsOf_of_ok)

/-- A rule that compiles is written so. -/
theorem RuleSource.written_of_compile {source : RuleSource} {a : Alphabet} {index : Nat} {r : Rule}
    (h : source.compile a index = .ok r) :
    ∃ focus lefts rights, r.Written source focus lefts rights := by
  obtain ⟨used, used', used'', hfocus, hleft, hright, -, -⟩ := compile_eq_ok_iff.1 h
  rw [Pattern.readContext_eq] at hleft hright
  obtain ⟨focuses, hfocuses, hfocusWritten⟩ := Pattern.written_of_read hfocus
  obtain ⟨lefts, hlefts, hleftWritten⟩ := Pattern.written_of_read hleft
  obtain ⟨rights, hrights, hrightWritten⟩ := Pattern.written_of_read hright
  -- each part hands the names that it has used to the next one
  obtain ⟨rfl, hused⟩ := Pattern.used_of_read List.nodup_nil hfocus
  obtain ⟨rfl, hused'⟩ := Pattern.used_of_read hused hleft
  obtain ⟨-, hnodup⟩ := Pattern.used_of_read hused' hright
  cases hfocusWritten with
  | @cons focus _ _ _ hfocusWritten hnone =>
    cases hnone
    refine ⟨focus, lefts, rights, hfocuses, hlefts, hrights, hfocusWritten, hleftWritten,
      hrightWritten, ?_⟩
    rw [slotsOf_of_ok hfocuses, slotsOf_of_ok hlefts, slotsOf_of_ok hrights, List.nil_append,
      ← namesIn_append, ← namesIn_append, ← List.flatMap_append, ← List.flatMap_append] at hnodup
    exact hnodup

namespace Rule

variable {source : RuleSource} {focus : Token} {lefts rights : List Token} {r : Rule} {s : Symbol}
  {left right : Word}

/-- A rule whose patterns match captures the names that are written in it, in order. -/
theorem names_captures (h : r.Written source focus lefts rights) (hmatch : r.Matches s left right) :
    (r.captures s left right).names =
      namesIn ((focus :: (lefts ++ rights)).flatMap Token.arguments) := by
  obtain ⟨hfocus, hleft, hright⟩ := hmatch
  rw [captures, ← Pattern.capturesAll_take r.right, List.flatMap_cons, List.flatMap_append,
    namesIn_append, namesIn_append, ← Pattern.names_captures h.focusWritten hfocus,
    ← Pattern.names_capturesAll h.leftWritten hleft,
    ← Pattern.names_capturesAll h.rightWritten hright]
  simp only [Table.names, List.map_append]

/-- So its bindings are what it captures. -/
theorem values_bindingsAt (h : r.Written source focus lefts rights)
    (hmatch : r.Matches s left right) (site : Site) :
    (r.bindingsAt site s left right).values = r.captures s left right := by
  have hnodup : (r.captures s left right).names.Nodup := by
    rw [names_captures h hmatch]
    exact h.nodup
  exact Bindings.values_setAll (b := .empty site) hnodup

/-- A rule whose patterns match binds the names of each of its tokens: those of the focus, those of
a left one to the symbol as far before the focus as the token is from the end, and those of a right
one to the symbol as far behind it as the token is from the start. -/
theorem binds_bindingsAt (h : r.Written source focus lefts rights)
    (hmatch : r.Matches s left right) (site : Site) :
    let b := r.bindingsAt site s left right
    b.values.names = namesIn ((focus :: (lefts ++ rights)).flatMap Token.arguments) ∧
      b.values.names.Nodup ∧ b.Binds focus s ∧
      (lefts.length ≤ left.length ∧ ∀ (i : Nat) (t : Token), lefts[i]? = some t →
        ∃ symbol, left[left.length - (lefts.length - i)]? = some symbol ∧ b.Binds t symbol) ∧
      ∀ (j : Nat) (t : Token), rights[j]? = some t →
        ∃ symbol, right[j]? = some symbol ∧ b.Binds t symbol := by
  intro b
  have hvalues : b.values = r.captures s left right := values_bindingsAt h hmatch site
  have hnames : b.values.names = _ := hvalues ▸ names_captures h hmatch
  have hnodup : b.values.names.Nodup := hnames ▸ h.nodup
  obtain ⟨hfocus, hleft, hright⟩ := hmatch
  have hlength : lefts.length = r.left.length := h.leftWritten.length_eq
  have hle : r.left.length ≤ left.length := by
    have hdrop := hleft.1
    rw [List.length_drop] at hdrop
    omega
  have hcontexts : Pattern.capturesAll r.left (left.drop (left.length - r.left.length)) ++
      Pattern.capturesAll r.right right ⊆ b.values := by
    rw [hvalues]
    exact List.subset_append_right _ _
  refine ⟨hnames, hnodup, ?_, ⟨hlength ▸ hle, fun i t hi => ?_⟩, fun j t hj => ?_⟩
  · refine Bindings.binds_of_captures hnodup h.focusWritten hfocus ?_
    rw [hvalues]
    exact List.subset_append_left _ _
  · obtain ⟨symbol, hsymbol, hbinds⟩ := Bindings.binds_of_capturesAll hnodup h.leftWritten hleft
      (List.Subset.trans (List.subset_append_left _ _) hcontexts) hi
    have hi' : i < lefts.length := (List.getElem?_eq_some_iff.1 hi).1
    have hplace : left.length - r.left.length + i = left.length - (lefts.length - i) := by omega
    rw [List.getElem?_drop, hplace] at hsymbol
    exact ⟨symbol, hsymbol, hbinds⟩
  · rw [← Pattern.capturesAll_take r.right] at hcontexts
    obtain ⟨symbol, hsymbol, hbinds⟩ := Bindings.binds_of_capturesAll hnodup h.rightWritten hright
      (List.Subset.trans (List.subset_append_right _ _) hcontexts) hj
    have hj' : j < rights.length := (List.getElem?_eq_some_iff.1 hj).1
    rw [List.getElem?_take_of_lt (h.rightWritten.length_eq ▸ hj')] at hsymbol
    exact ⟨symbol, hsymbol, hbinds⟩

end Rule

/-- **Bindings are exact.** Wherever the patterns of a rule that has been added match, its guard and
its producer are handed the same bindings. These hold the names that are written in the focus, the
left and the right patterns, in this order and once each; and each name stands for the parameter in
its place: of the focus, of the symbol at distance `k - i` before it for the left pattern at index
`i` of `k`, or of the symbol at index `j` behind it for the right pattern at index `j`. -/
theorem Grammar.add_binds {g g' : Grammar} {source : RuleSource}
    (h : (add source).run g = .ok () g') :
    ∃ r focus lefts rights, g'.rules = g.rules ++ [r] ∧
      (∀ f, source.guard = .function f → r.guard = some f) ∧
      (∀ f, source.producer = .function f → r.producer = .function f) ∧
      Token.ofText source.focus = .ok [focus] ∧
      Token.ofText (source.left.getD "") = .ok lefts ∧
      Token.ofText (source.right.getD "") = .ok rights ∧
      ∀ index site s, ∀ left right : Window Symbol, left.WellPlaced → right.WellPlaced →
        r.Matches s left.items right.items →
        ∃ b : Bindings, r.bind? site s left right = some b ∧
          (r.fire index site s left right = (r.checkGuard index b).bind fun holds =>
            if holds then (r.product index b).bind fun w => .ofResult (.ok (some w))
            else .ofResult (.ok none)) ∧
          b.values.names = namesIn ((focus :: (lefts ++ rights)).flatMap Token.arguments) ∧
          b.values.names.Nodup ∧ b.Binds focus s ∧
          (lefts.length ≤ left.items.length ∧ ∀ (i : Nat) (t : Token), lefts[i]? = some t →
            ∃ symbol, left.items[left.items.length - (lefts.length - i)]? = some symbol ∧
              b.Binds t symbol) ∧
          ∀ (j : Nat) (t : Token), rights[j]? = some t →
            ∃ symbol, right.items[j]? = some symbol ∧ b.Binds t symbol := by
  obtain ⟨r, hcompile, rfl⟩ := add_run_ok_iff.1 h
  obtain ⟨focus, lefts, rights, hwritten⟩ := RuleSource.written_of_compile hcompile
  obtain ⟨-, -, -, -, -, -, hguard, hproducer⟩ := RuleSource.compile_eq_ok_iff.1 hcompile
  refine ⟨r, focus, lefts, rights, rfl, fun f hf => ?_, fun f hf => ?_, hwritten.focusText,
    hwritten.leftText, hwritten.rightText, fun index site s left right hl hr hmatch => ?_⟩
  · rw [hf] at hguard
    exact (Except.ok.inj hguard).symm
  · rw [hf] at hproducer
    exact (Except.ok.inj hproducer).symm
  · exact ⟨_, by rw [Rule.bind?_eq r site s hl hr, if_pos hmatch],
      fire_of_matches hl hr hmatch index, Rule.binds_bindingsAt hwritten hmatch site⟩

/-- A rule with two patterns on the left, a wildcard and a literal. Its names stand for the
parameters of the last two symbols of a longer context, and of the first one on the right, and these
keep their kinds. -/
theorem Grammar.add_binds_between :
    let a : Alphabet := ⟨[("A", .count 2), ("B", .count 1)]⟩
    let source : RuleSource :=
      ⟨"A(x, _)", some "B(u) B(v)", some "A(3, y)", .absent, .function fun _ => .ok []⟩
    let int (n : Int) : Value := .number (.int n)
    let left : Word := [⟨"B", [int 7]⟩, ⟨"B", [int 1]⟩, ⟨"B", [.number (.float 2.0)]⟩]
    let right : Word := [⟨"A", [.number (.float 3.0), int 5]⟩, ⟨"B", [int 9]⟩]
    ∃ g r b, (add source).run (empty a) = .ok () g ∧ g.rules = [r] ∧
      r.bind? ⟨0, 0⟩ ⟨"A", [int 4, int 6]⟩ (.ofList left) (.ofList right) = some b ∧
      b.values.names = ["x", "u", "v", "y"] ∧ b.get? "u" = some (int 1) ∧
      b.get? "v" = some (.number (.float 2.0)) ∧ b.get? "y" = some (int 5) := by
  intro a source int left right
  have hfocusText : Token.ofText "A(x, _)" = .ok [⟨"A", ["x", "_"]⟩] := by cbv
  have hleftText : Token.ofText "B(u) B(v)" = .ok [⟨"B", ["u"]⟩, ⟨"B", ["v"]⟩] := by cbv
  have hrightText : Token.ofText "A(3, y)" = .ok [⟨"A", ["3", "y"]⟩] := by cbv
  let r : Rule := ⟨[⟨"B", [.named "u"]⟩, ⟨"B", [.named "v"]⟩], ⟨"A", [.named "x", .wildcard]⟩,
    [⟨"A", [.literal (.int 3), .named "y"]⟩], none, .function fun _ => .ok []⟩
  have hread : ∀ {text : String} {tokens : List Token}, Token.ofText text = .ok tokens →
      ∀ used, Pattern.read ⟨0, source.focus⟩ a text used =
        Pattern.readTokens ⟨0, source.focus⟩ a text tokens used := by
    intro text tokens htokens used
    rw [Pattern.read, htokens]
    rfl
  have hcompile : source.compile a 0 = .ok r := by
    refine RuleSource.compile_eq_ok_iff.2 ⟨["x"], ["x", "u", "v"], ["x", "u", "v", "y"], ?_, ?_, ?_,
      rfl, rfl⟩
    · rw [hread hfocusText]
      rfl
    · rw [Pattern.readContext_eq]
      refine (hread hleftText _).trans ?_
      rfl
    · rw [Pattern.readContext_eq]
      refine (hread hrightText _).trans ?_
      rfl
  have hadd : (add source).run (empty a) = .ok () ⟨a, [r]⟩ :=
    add_run_ok_iff.2 ⟨r, hcompile, rfl⟩
  obtain ⟨r', focus, lefts, rights, hrules, -, -, hfocus, hleft, hright, hbinds⟩ := add_binds hadd
  obtain rfl : r = r' := (List.cons.inj hrules).1
  obtain rfl := (List.cons.inj (Except.ok.inj (hfocusText.symm.trans hfocus))).1
  obtain rfl := Except.ok.inj (hleftText.symm.trans hleft)
  obtain rfl := Except.ok.inj (hrightText.symm.trans hright)
  obtain ⟨b, hb, -, hnames, -, -, ⟨-, hlefts⟩, hrights⟩ := hbinds 0 ⟨0, 0⟩ ⟨"A", [int 4, int 6]⟩
    (.ofList left) (.ofList right) (Window.wellPlaced_ofList left) (Window.wellPlaced_ofList right)
    (by decide +kernel)
  rw [Window.items_ofList] at hlefts hrights
  have hname : Pattern.IsName "u" ∧ Pattern.IsName "v" ∧ Pattern.IsName "y" := by
    decide +kernel
  obtain ⟨symbol, hsymbol, hu⟩ := hlefts 0 _ rfl
  cases hsymbol
  obtain ⟨value, hvalue, hu⟩ := hu.value 0 "u" rfl hname.1
  cases hvalue
  obtain ⟨symbol, hsymbol, hv⟩ := hlefts 1 _ rfl
  cases hsymbol
  obtain ⟨value, hvalue, hv⟩ := hv.value 0 "v" rfl hname.2.1
  cases hvalue
  obtain ⟨symbol, hsymbol, hy⟩ := hrights 0 _ rfl
  cases hsymbol
  obtain ⟨value, hvalue, hy⟩ := hy.value 1 "y" rfl hname.2.2
  cases hvalue
  exact ⟨_, r, b, hadd, rfl, hb, hnames.trans (by decide +kernel), hu, hv, hy⟩

end Arbor
