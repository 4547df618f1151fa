import Arbor.Action
import Arbor.Rule.Compiled

/-!
# Grammars

A grammar is an alphabet and a list of rules over it. Rules are tried in the order in which they
were added and the first that fires decides; a symbol for which none fires stays as it is.

A rule can be offered to a grammar as a whole, or as a producer for a frame that holds all the rest
of it. A grammar accepts an offer if it is a rule that compiles, and else reports the first fault.
-/

namespace Arbor

/-- What is written of a rule before its producer is. -/
structure RuleFrame where
  focus : String
  left : Option String
  right : Option String
  guard : GuardSource

/-- The rule that a producer makes of a frame. -/
def RuleFrame.around (frame : RuleFrame) (producer : ProducerSource) : RuleSource :=
  ⟨frame.focus, frame.left, frame.right, frame.guard, producer⟩

/-- What can be offered to a grammar: a rule, a producer for a frame, or a value of some kind that
is no rule. -/
inductive Offer
  | rule (source : RuleSource)
  | framed (frame : RuleFrame) (producer : ProducerSource)
  | other (kind : String)

/-- An ordered list of rules over an alphabet. -/
structure Grammar where
  alphabet : Alphabet
  rules : List Rule

namespace Grammar

def empty (a : Alphabet) : Grammar := ⟨a, []⟩

def size (g : Grammar) : Nat := g.rules.length

/-- Adds a rule, which has to compile. -/
def add (source : RuleSource) : Action Grammar Unit := do
  let g ← get
  let rule ← Action.ofResult (source.compile g.alphabet g.size)
  set { g with rules := g.rules ++ [rule] }

/-- Adds what is offered, which has to be a rule. -/
def accept : Offer → Action Grammar Unit
  | .rule source => add source
  | .framed frame producer => add (frame.around producer)
  | .other kind => throw (.notARule kind)

/-- The grammar with the given rules, each of which has to compile. -/
def ofRules (a : Alphabet) (sources : List RuleSource) : Except Fault Grammar :=
  match (sources.forM add).run (empty a) with
  | .ok _ g => .ok g
  | .error fault _ => .error fault

/-- What becomes at a site of `s` between `left` and `right` by `rules`, the first of which has
`index`. -/
def applyFrom (site : Site) (s : Symbol) (left right : Window Symbol) :
    List Rule → Nat → Traced Word
  | [], _ => .ofResult (.ok [s])
  | r :: rules, index =>
    (r.fire index site s left right).bind fun
      | some w => .ofResult (.ok w)
      | none => applyFrom site s left right rules (index + 1)

/-- What becomes at a site of `s` between `left` and `right`. -/
def apply (g : Grammar) (site : Site) (s : Symbol) (left right : Window Symbol) : Traced Word :=
  applyFrom site s left right g.rules 0

/-- What becomes at a site of `s` between two words. -/
def applyBetween (g : Grammar) (site : Site) (s : Symbol) (left right : Word) : Traced Word :=
  g.apply site s (.ofList left) (.ofList right)

end Grammar

end Arbor
