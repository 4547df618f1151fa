import Arbor.Decimal.Numeral
import Arbor.Number.Basic
import Arbor.Table
import Arbor.Value.Origin

/-!
# Values

What a parameter holds and what a formula comes to. Nearly always it is a number. A few names
belong to the bindings of a rule as such; a formula can name them too, and what they stand for is
handed on like a number is: a string, a number of slots, the table of the bound names, or a member
that does something with the bindings. All of them can be told apart, shown and taken for true or
false, and strings and slots can be joined, repeated and ordered.

What is not a number differs from everything, itself included. In a table it is found again if it
is the one that was there before, and for this it keeps its origin.
-/

namespace Arbor

/-- The kinds of members that do something: with the bindings they belong to, or, as the class
itself, make new ones. -/
inductive MemberKind
  | class_
  | method
  | wrapper
  | builtin
  deriving DecidableEq, Repr

/-- The value of a parameter. What is not a number has an origin once it is part of a word. A
member knows the bindings that it belongs to, where they were made and what they hold, if it
belongs to some and not to all. -/
inductive Value
  | number (x : Number)
  | notANumber (origin : Origin)
  | string (s : String)
  | slots (n : Nat)
  | table (entries : List (String × Value))
  | member (kind : MemberKind) (name : String) (owner : Option Site)
      (entries : List (String × Value))

def MemberKind.name : MemberKind → String
  | .class_ => "type"
  | .method => "method"
  | .wrapper => "method-wrapper"
  | .builtin => "builtin_function_or_method"

namespace Value

instance : Inhabited Value := ⟨.number default⟩

instance : Coe Number Value := ⟨.number⟩

/-- A value without its origin. -/
def plain : Value → Value
  | .notANumber _ => .number .notANumber
  | v => v

def kind : Value → String
  | .number x => x.kind
  | .notANumber _ => Number.notANumber.kind
  | .string _ => "str"
  | .slots _ => "tuple"
  | .table _ => "dict"
  | .member kind .. => kind.name

/-- Whether a value counts as true: zero and what is empty do not. -/
def isTrue : Value → Bool
  | .number x => x.isTrue
  | .notANumber _ => Number.notANumber.isTrue
  | .string s => !s.isEmpty
  | .slots n => n != 0
  | .table entries => !entries.isEmpty
  | .member .. => true

/-! ## Origins -/

/-- A value made at `origin`, which only what is not a number and has none yet takes note of. -/
def madeAt (origin : Origin) : Value → Value
  | .number (.float x) => if Binary64.isNotANumber x then .notANumber origin else .number (.float x)
  | v => v

/-- Whether two values that are not a number are one and the same. Those without an origin are
taken for one. -/
def isCopy : Value → Value → Bool
  | .notANumber origin, .notANumber other => origin == other
  | .number (.float x), .number (.float y) =>
    Binary64.isNotANumber x && Binary64.isNotANumber y
  | _, _ => false

mutual

/-- The first number above those of all generations that a value shows. -/
def nextGeneration : Value → Nat
  | .notANumber origin => origin.source.nextGeneration
  | .table entries => nextEntryGeneration entries
  | .member _ _ owner entries =>
    max ((owner.map Site.nextGeneration).getD 0) (nextEntryGeneration entries)
  | _ => 0

/-- The first number above those of all generations that the values of a table show. -/
def nextEntryGeneration : List (String × Value) → Nat
  | [] => 0
  | (_, value) :: rest => max value.nextGeneration (nextEntryGeneration rest)

end

/-! ## Nesting -/

mutual

/-- How deep tables are nested in a value. A method shows the bindings it belongs to, which takes
it as deep as four tables. -/
def depth : Value → Nat
  | .table entries => entryDepth entries + 1
  | .member .method _ _ entries => entryDepth entries + 4
  | _ => 0

/-- How deep tables are nested in the values of a table. -/
def entryDepth : List (String × Value) → Nat
  | [] => 0
  | (_, value) :: rest => max value.depth (entryDepth rest)

end

/-! ## Comparison -/

mutual

/-- Equality: numbers by value, tables without regard to order, members by name and by where the
bindings they belong to were made. What is not a number equals nothing. -/
def same : Value → Value → Bool
  | .number x, .number y => x.same y
  | .string s, .string t => s == t
  | .slots n, .slots m => n == m
  | .table xs, .table ys => xs.length == ys.length && sameEntries xs ys
  | .member kind name owner _, .member other named owned _ =>
    kind == other && name == named && owner == owned
  | _, _ => false

/-- Whether each entry of the first table is the same in the second: equal, or if it is not a
number, a copy. -/
def sameEntries : List (String × Value) → List (String × Value) → Bool
  | [], _ => true
  | (name, x) :: rest, ys =>
    (match Table.get? ys name with
    | some y => x.isCopy y || same x y
    | none => false) && sameEntries rest ys

end

def sameLists : List Value → List Value → Bool
  | [], [] => true
  | a :: as, b :: bs => a.same b && sameLists as bs
  | _, _ => false

/-- Whether two values are taken for the same item in sequences: they are one and the same, or they
are equal. -/
def sameItem (a b : Value) : Bool := a.isCopy b || a.same b

/-- How two sequences of one kind lie to each other: strings by their characters, slots by their
number. Nothing else is ordered but numbers. -/
def order? : Value → Value → Option Ordering
  | .string s, .string t => some (compare s t)
  | .slots n, .slots m => some (compare n m)
  | _, _ => none

/-! ## Values as numbers -/

/-- The number that a value stands for as a length or a diameter: a string stands for the double
that it writes. -/
def measure : Value → Except Fault Number
  | .number x => .ok x
  | .notANumber _ => .ok .notANumber
  | .string s =>
    match Decimal.readFloat? s.toList with
    | some x => .ok (.float x)
    | none => .error (.notADouble s)
  | v => .error (.notMeasurable v.kind)

/-- The number that a value stands for as an angle, which has to be a real number. -/
def angle : Value → Except Fault Number
  | .number .nonreal => .error (.notReal Number.nonreal.kind)
  | .number x => .ok x
  | .notANumber _ => .ok .notANumber
  | v => .error (.notReal v.kind)

end Value

end Arbor
