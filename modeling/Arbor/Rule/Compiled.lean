import Arbor.Rule.Pattern
import Arbor.Rule.Traced
import Arbor.Window

/-!
# Rules

A rule replaces one symbol, its focus. It fires where the focus matches its pattern, the symbols
right before the focus match its left patterns, the symbols right after it match its right
patterns, and its guard, if it has one, holds of the values bound by the patterns. Its producer
then gives the word that takes the focus's place.

A rule is given by texts for its patterns and compiled against an alphabet. Compilation looks at
the focus, the left and the right patterns, the guard and the producer, in this order, and
reports the first fault.
-/

namespace Arbor

/-- A condition on the bound values. -/
abbrev Guard := Bindings → Except Fault Bool

/-- What takes the focus's place: always the same word, or a function of the bound values. -/
inductive Producer
  | word (w : Word)
  | function (f : Bindings → Except Fault Word)

/-- A rule ready for use. -/
structure Rule where
  left : List Pattern
  focus : Pattern
  right : List Pattern
  guard : Option Guard
  producer : Producer

namespace Rule

/-! ## Firing -/

/-- The bindings after the items of `w` from index `i` on have met `patterns`, if they match. -/
def bindRun? (w : Window Symbol) : List Pattern → Int → Bindings → Option Bindings
  | [], _, b => some b
  | p :: ps, i, b =>
    match w.get? i with
    | none => none
    | some s =>
      match p.bind? s b with
      | some b => bindRun? w ps (i + 1) b
      | none => none

/-- The bindings after the last items of `w` have met `patterns`, if they match. -/
def bindLeft? (patterns : List Pattern) (w : Window Symbol) (b : Bindings) : Option Bindings :=
  let offset := w.length - patterns.length
  if patterns.isEmpty then some b
  else if offset < 0 then none
  else bindRun? w patterns offset b

/-- The bindings after the first items of `w` have met `patterns`, if they match. -/
def bindRight? (patterns : List Pattern) (w : Window Symbol) (b : Bindings) : Option Bindings :=
  if patterns.isEmpty then some b
  else if w.length < patterns.length then none
  else bindRun? w patterns 0 b

/-- The bindings that a rule's patterns make at a site of a symbol between two windows, if they
match. -/
def bind? (r : Rule) (site : Site) (s : Symbol) (left right : Window Symbol) : Option Bindings :=
  match r.focus.bind? s (.empty site) with
  | none => none
  | some b =>
    match bindLeft? r.left left b with
    | none => none
    | some b => bindRight? r.right right b

/-- Whether the guard of the rule at `index` holds; a rule without a guard makes no call. -/
def checkGuard (r : Rule) (index : Nat) (b : Bindings) : Traced Bool :=
  match r.guard with
  | none => .ofResult (.ok true)
  | some guard => .ofCall ⟨.guard, index, b⟩ (guard b)

/-- The product of the rule at `index`; a word that is always the same takes no call. -/
def product (r : Rule) (index : Nat) (b : Bindings) : Traced Word :=
  match r.producer with
  | .word w => .ofResult (.ok w)
  | .function f => .ofCall ⟨.produce, index, b⟩ (f b)

/-- The word that the rule at `index` makes of `s` at a site, if it fires. -/
def fire (r : Rule) (index : Nat) (site : Site) (s : Symbol) (left right : Window Symbol) :
    Traced (Option Word) :=
  match r.bind? site s left right with
  | none => .ofResult (.ok none)
  | some b =>
    (r.checkGuard index b).bind fun holds =>
      if holds then (r.product index b).bind fun w => .ofResult (.ok (some w))
      else .ofResult (.ok none)

/-- Whether the symbols of a word match patterns, place by place. -/
def MatchesAll (patterns : List Pattern) (word : Word) : Prop :=
  patterns.length = word.length ∧ ∀ place ∈ patterns.zip word, place.1.Matches place.2

/-- Whether a rule's patterns match: the focus matches, the last symbols of `left` match the left
patterns and the first symbols of `right` the right patterns. A context shorter than its
patterns matches only if there are none. -/
def Matches (r : Rule) (s : Symbol) (left right : Word) : Prop :=
  r.focus.Matches s ∧ MatchesAll r.left (left.drop (left.length - r.left.length)) ∧
    MatchesAll r.right (right.take r.right.length)

end Rule

/-! ## Rules as they are written -/

/-- A guard as it is handed in. -/
inductive GuardSource
  | absent
  | function (guard : Guard)
  | unusable

/-- An item of a list that is handed in as a word: a symbol, or a value that is none. -/
inductive ProducerItem
  | symbol (s : Symbol)
  | other

/-- A producer as it is handed in: the text of a word, a list, a function, or a value that is none
of these. A list is a word if all its items are symbols. -/
inductive ProducerSource
  | text (word : String)
  | list (items : List ProducerItem)
  | function (f : Bindings → Except Fault Word)
  | unusable

/-- A rule as it is written. -/
structure RuleSource where
  focus : String
  left : Option String
  right : Option String
  guard : GuardSource
  producer : ProducerSource

namespace RuleSource

def readGuard (place : Pattern.Place) : GuardSource → Except Fault (Option Guard)
  | .absent => .ok none
  | .function guard => .ok (some guard)
  | .unusable => .error (place.fault .guardNotFunction)

/-- The symbol that an item of a list is, which has to fit the alphabet. -/
def readItem (place : Pattern.Place) (a : Alphabet) : ProducerItem → Except Fault Symbol
  | .symbol s => a.check s
  | .other => .error (place.fault .productNotWord)

/-- The producer of a rule; the symbols of a given word have to fit the alphabet. Such a word is
made once, so that whenever the rule fires it gives copies. -/
def readProducer (place : Pattern.Place) (a : Alphabet) : ProducerSource → Except Fault Producer
  | .text word => do
    let w ← a.parse word
    return .word (Word.madeBy (.rule place.index) w)
  | .list items => do
    let w ← items.mapM (readItem place a)
    return .word (Word.madeBy (.rule place.index) w)
  | .function f => .ok (.function f)
  | .unusable => .error (place.fault .productNotWord)

def compile (source : RuleSource) (a : Alphabet) (index : Nat) : Except Fault Rule := do
  let place : Pattern.Place := ⟨index, source.focus⟩
  let (focuses, used) ← Pattern.read place a source.focus []
  match focuses with
  | [focus] =>
    let (left, used) ← Pattern.readContext place a source.left used
    let (right, _) ← Pattern.readContext place a source.right used
    let guard ← readGuard place source.guard
    let producer ← readProducer place a source.producer
    return ⟨left, focus, right, guard, producer⟩
  | _ => throw (place.fault .focusNotOneModule)

end RuleSource

end Arbor
