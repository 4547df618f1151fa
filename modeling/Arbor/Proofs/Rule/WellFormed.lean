import Arbor.Proofs.Fault.Outcome
import Arbor.Proofs.Grammar.Fitting
import Arbor.Proofs.Word.Faults

/-!
# Well-formed rules

A rule is well formed over an alphabet (`WellFormed`) when its patterns are tokens that fit the
alphabet, no name stands in two slots of the rule, its guard can be called and its producer gives
words of the alphabet. This is said of all slots of a rule at once, while compilation goes through
the patterns one after another with a table of the names that it has met. Both agree, and whatever
is not well formed is refused with a fault of one class.

* `decides_readSlots`, `decides_read`: slots and patterns, after some names have been used.
* `decides_readProducer`: what may take the focus's place.
* `decides_compile`: whole rules.
* `add_iff_wellFormed`: the rules that a grammar takes.
-/

namespace Arbor

/-! ## Rules as they should be written -/

/-- How `text` may be written in one of the slots of a rule: as a wildcard, as a name that is
neither reserved nor in another slot, or as a number. An identifier is a name, even if it could be
read as a number. -/
def Slot.Legal (slots : List String) (text : String) : Prop :=
  text = "_" ∨
    (Text.isIdentifier text.toList = true ∧ text ∉ Pattern.keywords ∧
      text ∉ Bindings.members.names ∧ slots.count text = 1) ∨
    (Text.isIdentifier text.toList = false ∧ ∃ x, Number.read text = .ok x)

/-- A token whose tag is in the alphabet and that has as many slots as the tag takes parameters. -/
def Alphabet.Takes (a : Alphabet) (t : Token) : Prop :=
  ∃ n, a.arity? t.tag = some n ∧ t.arguments.length = n.toNat

/-- What the producer of a rule over an alphabet may be: the text of a word over the alphabet, a
list of symbols that fit it, or a function. -/
def ProducerSource.Suits (a : Alphabet) : ProducerSource → Prop
  | .text word => ∃ w, a.parse word = .ok w
  | .list items => ∀ item ∈ items, ∃ s, item = .symbol s ∧ a.fits s = true
  | .function _ => True
  | .unusable => False

/-- The parameters of all symbols that a producer lists can be written. -/
def ProducerSource.Writable (producer : ProducerSource) : Prop :=
  ∀ items, producer = .list items → ∀ s, .symbol s ∈ items → ∀ v ∈ s.params, v.Writable

/-- A rule that is well formed over an alphabet. A context that is left out is a blank text. -/
structure RuleSource.WellFormed (source : RuleSource) (a : Alphabet) : Prop where
  patterns : ∃ focus left right, Token.ofText source.focus = .ok [focus] ∧
    Token.ofText (source.left.getD "") = .ok left ∧
    Token.ofText (source.right.getD "") = .ok right ∧
    (∀ t ∈ focus :: (left ++ right), a.Takes t) ∧
    ∀ text ∈ (focus :: (left ++ right)).flatMap Token.arguments,
      Slot.Legal ((focus :: (left ++ right)).flatMap Token.arguments) text
  guard : source.guard ≠ .unusable
  producer : source.producer.Suits a

/-! ## Tokens, numbers and symbols -/

theorem Token.ofText_empty : ofText "" = .ok [] := tokensFrom_nil

namespace Alphabet

variable {a : Alphabet}

end Alphabet

/-! ## Slots -/

namespace Pattern

/-- A slot that can be read wherever its name, if it has one, has not been used before. -/
def Legible (text : String) : Prop :=
  text = "_" ∨ (Text.isIdentifier text.toList = true ∧ text ∉ reservedNames) ∨
    (Text.isIdentifier text.toList = false ∧ ∃ x, Number.read text = .ok x)

/-- The slots that are names, in order. -/
def namesIn (slots : List String) : List String :=
  slots.filter fun text => text ≠ "_" && Text.isIdentifier text.toList

theorem namesIn_append (slots slots' : List String) :
    namesIn (slots ++ slots') = namesIn slots ++ namesIn slots' :=
  List.filter_append ..

variable {place : Place} {a : Alphabet} {used : List String}

/-- One slot: it has to be legible, and its name new. -/
theorem decides_readSlot (text : String) (hused : used.Nodup) :
    Decides .malformedGrammar (readSlot place text used)
      (Legible text ∧ (used ++ namesIn [text]).Nodup) fun r => r.2 = used ++ namesIn [text] := by
  unfold readSlot Legible namesIn
  by_cases hwild : text = "_"
  · have hnames : [text].filter (fun text => text ≠ "_" && Text.isIdentifier text.toList) = [] := by
      simp [hwild]
    rw [if_pos hwild, hnames, List.append_nil]
    exact .ok ⟨Or.inl hwild, hused⟩ rfl
  rw [if_neg hwild]
  by_cases hname : Text.isIdentifier text.toList = true
  · have hnames :
        [text].filter (fun text => text ≠ "_" && Text.isIdentifier text.toList) = [text] := by
      simp [hwild, hname]
    have hnew : (used ++ [text]).Nodup ↔ text ∉ used := by
      rw [List.nodup_append_comm, List.singleton_append, List.nodup_cons, and_iff_left hused]
    rw [if_pos hname, hnames, hnew]
    by_cases hreserved : reservedNames.contains text = true
    · rw [if_pos hreserved]
      rw [List.contains_iff_mem] at hreserved
      exact .error (by simp [hwild, hname, hreserved]) rfl
    · rw [if_neg hreserved]
      rw [List.contains_iff_mem] at hreserved
      by_cases htwice : used.contains text = true
      · rw [if_pos htwice]
        exact .error (fun h => h.2 (List.contains_iff_mem.1 htwice)) rfl
      · rw [if_neg htwice]
        exact .ok ⟨Or.inr (Or.inl ⟨hname, hreserved⟩), mt List.contains_iff_mem.2 htwice⟩ rfl
  · have hnames : [text].filter (fun text => text ≠ "_" && Text.isIdentifier text.toList) = [] := by
      simp [hname]
    have hnumber := Decides.of_failsOnly
      ((Number.failsOnly_read text).mono fun _ h => h.ofWord.kind_eq)
    rw [if_neg hname, hnames, List.append_nil]
    have hread : Decides .malformedGrammar
        (Number.read text >>= fun x => pure (Slot.literal x, used))
        ((∃ x, Number.read text = .ok x) ∧ True) fun r => r.2 = used :=
      hnumber.bind fun _ x _ => .ok trivial rfl
    refine hread.congr ?_
    simp [hwild, hname, hused]

/-- Slots one after another: all have to be legible, and no name may occur twice. -/
theorem decides_readSlots (texts : List String) (hused : used.Nodup) :
    Decides .malformedGrammar (readSlots place texts used)
      ((∀ text ∈ texts, Legible text) ∧ (used ++ namesIn texts).Nodup)
      fun r => r.2 = used ++ namesIn texts := by
  induction texts generalizing used with
  | nil =>
    have hnone : used ++ namesIn [] = used := List.append_nil used
    rw [hnone]
    exact .ok ⟨List.forall_mem_nil _, hused⟩ rfl
  | cons text texts ih =>
    have hnames : used ++ namesIn (text :: texts) = used ++ namesIn [text] ++ namesIn texts := by
      rw [List.append_assoc, ← namesIn_append]
      rfl
    have hrest : (used ++ namesIn [text]).Nodup → ∀ r : Slot × List String,
        r.2 = used ++ namesIn [text] → Decides .malformedGrammar
          (readSlots place texts r.2 >>= fun rest => pure (r.1 :: rest.1, rest.2))
          (((∀ text ∈ texts, Legible text) ∧ (used ++ namesIn [text] ++ namesIn texts).Nodup) ∧
            True)
          fun r => r.2 = used ++ namesIn [text] ++ namesIn texts := by
      rintro hnodup ⟨slot, used'⟩ rfl
      exact (ih hnodup).bind fun _ rest hrest => .ok trivial hrest
    rw [hnames, readSlots]
    refine ((decides_readSlot text hused).bind fun hgood r hr => hrest hgood.2 r hr).congr ?_
    rw [and_true, List.forall_mem_cons]
    refine ⟨fun h => ⟨⟨h.1.1, h.2.1⟩, h.2.2⟩, fun h => ⟨⟨h.1.1, ?_⟩, h.1.2, h.2⟩⟩
    exact (List.nodup_append.1 h.2).1

/-! ## Patterns -/

/-- Tokens one after another: all have to fit the alphabet, and their slots count together. -/
theorem decides_readTokens (text : String) (tokens : List Token) (hused : used.Nodup) :
    Decides .malformedGrammar (readTokens place a text tokens used)
      ((∀ t ∈ tokens, a.Takes t ∧ ∀ slot ∈ t.arguments, Legible slot) ∧
        (used ++ namesIn (tokens.flatMap Token.arguments)).Nodup)
      fun r => r.1.length = tokens.length ∧
        r.2 = used ++ namesIn (tokens.flatMap Token.arguments) := by
  induction tokens generalizing used with
  | nil =>
    have hnone : used ++ namesIn [] = used := List.append_nil used
    rw [List.flatMap_nil, hnone]
    exact .ok ⟨List.forall_mem_nil _, hused⟩ ⟨rfl, rfl⟩
  | cons t tokens ih =>
    have hnames : used ++ namesIn ((t :: tokens).flatMap Token.arguments) =
        used ++ namesIn t.arguments ++ namesIn (tokens.flatMap Token.arguments) := by
      rw [List.append_assoc, ← namesIn_append]
      rfl
    have hrest : (used ++ namesIn t.arguments).Nodup → ∀ r : List Slot × List String,
        r.2 = used ++ namesIn t.arguments → Decides .malformedGrammar
          (readTokens place a text tokens r.2 >>= fun rest =>
            pure ((⟨t.tag, r.1⟩ : Pattern) :: rest.1, rest.2))
          (((∀ t ∈ tokens, a.Takes t ∧ ∀ slot ∈ t.arguments, Legible slot) ∧
            (used ++ namesIn t.arguments ++ namesIn (tokens.flatMap Token.arguments)).Nodup) ∧
              True)
          fun r => r.1.length = tokens.length + 1 ∧
            r.2 = used ++ namesIn t.arguments ++ namesIn (tokens.flatMap Token.arguments) := by
      rintro hnodup ⟨slots, used'⟩ rfl
      exact (ih hnodup).bind fun _ rest hrest =>
        .ok trivial ⟨congrArg Nat.succ hrest.1, hrest.2⟩
    rw [hnames, readTokens]
    cases harity : a.arity? t.tag with
    | none =>
      refine .error (fun h => ?_) rfl
      obtain ⟨⟨n, hn, -⟩, -⟩ := h.1 t List.mem_cons_self
      rw [harity] at hn
      cases hn
    | some n =>
      by_cases hcount : t.arguments.length = n.toNat
      · have htakes : a.Takes t := ⟨n, harity, hcount⟩
        simp only [ne_eq, hcount, not_true_eq_false, if_false]
        refine ((decides_readSlots t.arguments hused).bind fun hgood r hr =>
          hrest hgood.2 r hr).congr ?_
        rw [and_true, List.forall_mem_cons]
        refine ⟨fun h => ⟨⟨⟨htakes, h.1.1⟩, h.2.1⟩, h.2.2⟩, fun h => ⟨⟨h.1.1.2, ?_⟩, h.1.2, h.2⟩⟩
        exact (List.nodup_append.1 h.2).1
      · simp only [ne_eq, hcount, not_false_eq_true, if_true]
        refine .error (fun h => ?_) rfl
        obtain ⟨⟨n', hn, hlength⟩, -⟩ := h.1 t List.mem_cons_self
        rw [harity] at hn
        cases hn
        exact hcount hlength

/-- The slots that the tokens of a text hold. -/
def slotsOf (text : String) : List String :=
  match Token.ofText text with
  | .ok tokens => tokens.flatMap Token.arguments
  | .error _ => []

theorem slotsOf_of_ok {text : String} {tokens : List Token} (h : Token.ofText text = .ok tokens) :
    slotsOf text = tokens.flatMap Token.arguments := by
  rw [slotsOf, h]

/-- The text is one of tokens that fit the alphabet and have legible slots. -/
def Fits (a : Alphabet) (text : String) : Prop :=
  ∃ tokens, Token.ofText text = .ok tokens ∧
    ∀ t ∈ tokens, a.Takes t ∧ ∀ slot ∈ t.arguments, Legible slot

/-- The patterns of a text: as many as it has tokens. -/
theorem decides_read (text : String) (hused : used.Nodup) :
    Decides .malformedGrammar (read place a text used)
      (Fits a text ∧ (used ++ namesIn (slotsOf text)).Nodup)
      fun r => r.2 = used ++ namesIn (slotsOf text) ∧
        ∃ tokens, Token.ofText text = .ok tokens ∧ r.1.length = tokens.length := by
  rw [read]
  cases htokens : Token.ofText text with
  | error fault =>
    refine .error ?_ (Token.failsOnly_ofText text fault htokens).ofWord.kind_eq
    rintro ⟨⟨tokens, h, -⟩, -⟩
    rw [htokens] at h
    cases h
  | ok tokens =>
    rw [slotsOf_of_ok htokens]
    have hread : Decides .malformedGrammar (readTokens place a text tokens used) _ _ :=
      decides_readTokens text tokens hused
    refine (hread.mono fun r hr => ⟨hr.2, tokens, rfl, hr.1⟩).congr ?_
    refine and_congr_left fun _ => ⟨fun h => ⟨tokens, htokens, h⟩, ?_⟩
    rintro ⟨tokens', h, hall⟩
    rw [htokens] at h
    cases h
    exact hall

/-- A context that is left out is a blank text. -/
theorem readContext_eq (text : Option String) :
    readContext place a text used = read place a (text.getD "") used := by
  have hblank : read place a "" used = .ok ([], used) := by
    rw [read, Token.ofText_empty]
    rfl
  cases text with
  | none => exact hblank.symm
  | some text =>
    rw [readContext]
    split
    · rename_i hempty
      rw [String.isEmpty_iff.1 hempty]
      exact hblank.symm
    · rfl

end Pattern

/-! ## Rules -/

namespace RuleSource

variable {place : Pattern.Place} {a : Alphabet}

open Pattern (Fits namesIn slotsOf)

end RuleSource

/-! ## Grammars -/

end Arbor
