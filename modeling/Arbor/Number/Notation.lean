import Arbor.Decimal.Shortest
import Arbor.Number.Basic

/-!
# Number notation

Two texts are made of a number. Its plain text shows whether it is an integer or a double; in a
word, a double that is integral and below `1e16` is written as the integer it equals. A text is
read as an integer if it can be, and otherwise as a double.
-/

namespace Arbor.Number

/-- The text of an integer; integers of more than `Decimal.maxDigits` digits have none. -/
def intText (n : Int) : Except Fault String :=
  if n.natAbs < Nat.pow 10 Decimal.maxDigits then .ok n.repr else .error .intTooLong

def text : Number → Except Fault String
  | .int n => intText n
  | .float x => .ok (Decimal.floatText x)
  | .truth b => .ok (if b then "True" else "False")
  | .nonreal => .ok "nonreal"

/-- The integer that a double is written as in a word, if it is. -/
def wordInt? (x : Float) : Option Int :=
  match Binary64.toInt? x with
  | some n => if n.natAbs < Nat.pow 10 16 then some n else none
  | none => none

def wordText : Number → Except Fault String
  | .float x =>
    match wordInt? x with
    | some n => intText n
    | none => .ok (Decimal.floatText x)
  | a => a.text

/-- The number that a text denotes, if any. -/
def read? (s : List Char) : Option Number :=
  match Decimal.readInt? s with
  | some n => some (.int n)
  | none => (Decimal.readFloat? s).map .float

/-- The number that `s` denotes. -/
def read (s : String) : Except Fault Number :=
  match read? s.toList with
  | some a => .ok a
  | none => .error (.notANumber s)

end Arbor.Number
