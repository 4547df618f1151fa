import Arbor.Json.Display
import Arbor.Word.Notation

/-!
# Alphabets

An alphabet is a set of tags, each with the number of parameters it takes, in a fixed order. A
symbol fits an alphabet when its tag is in it and it has as many parameters as the tag takes.

An alphabet can be made from values of any kind, which are then checked: tags must be tags of the
word notation and arities natural numbers. A truth value is taken for an arity, as the one or
zero it counts as, but is still written as a truth value.
-/

namespace Arbor

/-- The number of parameters that a tag takes. -/
inductive Arity
  | count (n : Nat)
  | truth (b : Bool)
  deriving DecidableEq, Repr

namespace Arity

def toNat : Arity → Nat
  | .count n => n
  | .truth b => if b then 1 else 0

/-- An arity as messages show it: with all its digits. The limit of `Number.intText` is not kept
here, so a fault that concerns an arity beyond it still has its message. -/
def text : Arity → String
  | .count n => n.repr
  | .truth b => if b then "True" else "False"

def ofJson? : Json → Option Arity
  | .int n => if 0 ≤ n then some (.count n.toNat) else none
  | .truth b => some (.truth b)
  | _ => none

end Arity

/-- Tags with their arities, in order; no tag occurs twice. -/
structure Alphabet where
  entries : Table String Arity

namespace Alphabet

/-- Why a value cannot be looked up: lists and objects are not compared with tags. -/
def unhashable? : Json → Option Fault
  | .list _ => some (.unhashable "list")
  | .object _ => some (.unhashable "dict")
  | _ => none

/-- Why a value cannot serve as a tag of an alphabet under construction, where a list of values
that can be looked up can itself be looked up. -/
def unhashableTag? : Json → Option Fault
  | .list items => items.findSome? unhashable?
  | value => unhashable? value

/-- `entries` with `tag` given `arity`; a tag that is there already keeps its place. -/
def put (tag arity : Json) : List (Json × Json) → List (Json × Json)
  | [] => [(tag, arity)]
  | entry :: rest =>
    if entry.1.same tag then (entry.1, arity) :: rest else entry :: put tag arity rest

/-- The distinct tags of `entries`, each with the last arity given to it. -/
def distinct (entries : List (Json × Json)) : Except Fault (List (Json × Json)) :=
  entries.foldlM (fun found entry =>
    match unhashableTag? entry.1 with
    | some fault => .error fault
    | none => .ok (put entry.1 entry.2 found)) []

/-- A tag with its arity, checked: the arity first. -/
def checkEntry (entry : Json × Json) : Except Fault (String × Arity) :=
  match Arity.ofJson? entry.2 with
  | none => .error (.badArity entry.1.displayTag)
  | some arity =>
    match entry.1.string? with
    | some tag =>
      if Token.isTag tag then .ok (tag, arity) else .error (.badTag entry.1.displayTag)
    | none => .error (.badTag entry.1.displayTag)

def ofEntries (entries : List (Json × Json)) : Except Fault Alphabet := do
  let entries ← (← distinct entries).mapM checkEntry
  return ⟨entries⟩

def size (a : Alphabet) : Nat := a.entries.length

def tags (a : Alphabet) : List String := a.entries.map (·.1)

/-- The arity of `tag`, if it is in the alphabet. -/
def arity? (a : Alphabet) (tag : String) : Option Arity := a.entries.get? tag

def contains (a : Alphabet) (tag : String) : Bool := (a.arity? tag).isSome

/-- The alphabet as messages show it. -/
def text (a : Alphabet) : String :=
  "Alphabet(" ++
    ", ".intercalate (a.entries.map fun entry => entry.1 ++ "/" ++ entry.2.text) ++ ")"

def arity (a : Alphabet) (tag : String) : Except Fault Arity :=
  match a.arity? tag with
  | some n => .ok n
  | none => .error (.foreignTag (Text.quoted tag) a.text)

def containsValue (a : Alphabet) (value : Json) : Except Fault Bool :=
  match unhashable? value with
  | some fault => .error fault
  | none => .ok (value.string?.any a.contains)

/-- The arity of a value, which has to be a tag of the alphabet. -/
def arityOfValue (a : Alphabet) (value : Json) : Except Fault Arity :=
  match unhashable? value with
  | some fault => .error fault
  | none =>
    match value.string?.bind a.arity? with
    | some n => .ok n
    | none => .error (.foreignTag value.display a.text)

/-- Whether a symbol fits: its tag is in the alphabet and takes as many parameters as it has. -/
def fits (a : Alphabet) (s : Symbol) : Bool :=
  match a.arity? s.tag with
  | some n => s.params.length == n.toNat
  | none => false

/-- The symbol with the given tag and parameters, which has to fit. -/
def symbol (a : Alphabet) (tag : String) (params : List Value) : Except Fault Symbol := do
  let n ← a.arity tag
  if params.length = n.toNat then return ⟨tag, params⟩
  else throw (.parameterCount tag n.text params.length)

def check (a : Alphabet) (s : Symbol) : Except Fault Symbol := do
  let n ← a.arity s.tag
  if s.params.length = n.toNat then return s
  else
    let shown ← s.text
    throw (.symbolArity shown s.tag)

/-- The word that `text` writes; its symbols have to fit, and are checked one after another with
their parameters read first. -/
def parse (a : Alphabet) (text : String) : Except Fault Word := do
  let tokens ← Token.ofText text
  tokens.mapM fun t => do
    let params ← t.numbers
    a.symbol t.tag (params.map Value.number)

end Alphabet

end Arbor
