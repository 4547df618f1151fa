import Arbor.Alphabet
import Arbor.Rule.Bindings

/-!
# Patterns

A pattern matches a single symbol. It has a tag and a slot for each parameter: a name, which
matches any value and is bound to it; a wildcard, which matches any value; or a literal, which
matches the numbers equal to it. Patterns are written in word notation.

Within one rule a name occurs in one slot only, and the words that formulas reserve, or that
belong to bindings as such, cannot be names.
-/

namespace Arbor

/-- What a pattern requires of a parameter. -/
inductive Slot
  | wildcard
  | named (name : String)
  | literal (value : Number)

/-- A tag with a slot for each parameter. -/
structure Pattern where
  tag : String
  slots : List Slot

namespace Slot

/-- The bindings after the parameter `value` has met the slot, if it matches. -/
def bind? (slot : Slot) (value : Value) (b : Bindings) : Option Bindings :=
  match slot with
  | .wildcard => some b
  | .named name => some (b.set name value)
  | .literal expected => if (Value.number expected).same value then some b else none

/-- The bindings after all parameters have met their slots, if they match. -/
def bindAll? : List Slot → List Value → Bindings → Option Bindings
  | [], [], b => some b
  | slot :: slots, value :: values, b =>
    match slot.bind? value b with
    | some b => bindAll? slots values b
    | none => none
  | _, _, _ => none

/-- Whether a parameter meets the slot: a literal takes the numbers equal to it, all else any. -/
def Accepts : Slot → Value → Prop
  | .literal expected, value => (Value.number expected).same value = true
  | _, _ => True

instance (slot : Slot) (value : Value) : Decidable (slot.Accepts value) := by
  cases slot <;> unfold Accepts <;> infer_instance

end Slot

namespace Pattern

/-- The bindings after `s` has met the pattern, if it matches. -/
def bind? (p : Pattern) (s : Symbol) (b : Bindings) : Option Bindings :=
  if s.tag = p.tag then Slot.bindAll? p.slots s.params b else none

/-- Whether a symbol matches: the same tag, and a parameter that its slot accepts in each place.
-/
def Matches (p : Pattern) (s : Symbol) : Prop :=
  s.tag = p.tag ∧ p.slots.length = s.params.length ∧
    ∀ place ∈ p.slots.zip s.params, place.1.Accepts place.2

/-! ## Reading patterns -/

def keywords : List String := [
  "False", "None", "True", "and", "as", "assert", "async", "await", "break", "class",
  "continue", "def", "del", "elif", "else", "except", "finally", "for", "from", "global", "if",
  "import", "in", "is", "lambda", "nonlocal", "not", "or", "pass", "raise", "return", "try",
  "while", "with", "yield"]

def reservedNames : List String := keywords ++ Bindings.members.names

/-- Where a pattern stands: in which rule, by index and focus. -/
structure Place where
  index : Nat
  focus : String

def Place.fault (place : Place) (cause : RuleFault) : Fault := .inRule place.index place.focus cause

/-- The slot that `text` writes, and the names used so far. -/
def readSlot (place : Place) (text : String) (used : List String) :
    Except Fault (Slot × List String) :=
  if text = "_" then .ok (.wildcard, used)
  else if Text.isIdentifier text.toList then
    if reservedNames.contains text then .error (place.fault (.reservedName text))
    else if used.contains text then .error (place.fault (.boundTwice text))
    else .ok (.named text, used ++ [text])
  else do
    let value ← Number.read text
    return (.literal value, used)

/-- The slots that `texts` write, and the names used so far. -/
def readSlots (place : Place) : List String → List String → Except Fault (List Slot × List String)
  | [], used => .ok ([], used)
  | text :: texts, used => do
    let (slot, used) ← readSlot place text used
    let (slots, used) ← readSlots place texts used
    return (slot :: slots, used)

/-- The patterns that `tokens`, the tokens of `text`, write, and the names used so far. -/
def readTokens (place : Place) (a : Alphabet) (text : String) :
    List Token → List String → Except Fault (List Pattern × List String)
  | [], used => .ok ([], used)
  | token :: tokens, used =>
    match a.arity? token.tag with
    | none => .error (place.fault (.unknownTag token.tag text))
    | some n =>
      if token.arguments.length ≠ n.toNat then
        .error (place.fault (.slotCount token.tag n.text text token.arguments.length))
      else do
        let (slots, used) ← readSlots place token.arguments used
        let (patterns, used) ← readTokens place a text tokens used
        return (⟨token.tag, slots⟩ :: patterns, used)

/-- The patterns that `text` writes, and the names used so far. -/
def read (place : Place) (a : Alphabet) (text : String) (used : List String) :
    Except Fault (List Pattern × List String) := do
  let tokens ← Token.ofText text
  readTokens place a text tokens used

/-- The patterns of a context that may be left out. -/
def readContext (place : Place) (a : Alphabet) (text : Option String) (used : List String) :
    Except Fault (List Pattern × List String) :=
  match text with
  | none => .ok ([], used)
  | some text => if text.isEmpty then .ok ([], used) else read place a text used

end Pattern

end Arbor
