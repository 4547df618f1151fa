import Arbor.Binary64.Order
import Arbor.Binary64.Rounding
import Arbor.Fault

/-!
# Numbers

A parameter is an integer of any size or a double, and the two stay distinct: `4` is not written
as `4.0` is. A comparison yields a truth value, which counts as `1` or `0` wherever a number is
needed. A negative number raised to a fractional power leaves the real line; nothing asks for the
value of such a power, so none is kept, but it can be told from every real number.

Integers are exact. When a double meets an integer in arithmetic the integer is rounded to a
double first, which fails beyond the largest double; comparisons never round.
-/

namespace Arbor

/-- The value of a parameter. -/
inductive Number
  | int (n : Int)
  | float (x : Float)
  | truth (b : Bool)
  | nonreal

namespace Number

instance : Inhabited Number := ⟨.int 0⟩

def notANumber : Number := .float Binary64.notANumber

def kind : Number → String
  | .int _ => "int"
  | .float _ => "float"
  | .truth _ => "bool"
  | .nonreal => "complex"

def ofTruth (b : Bool) : Int := if b then 1 else 0

def roundInt (n : Int) : Except Fault Float :=
  match Binary64.ofInt? n with
  | some x => .ok x
  | none => .error .intTooLargeForDouble

def toFloat : Number → Except Fault Float
  | .int n => roundInt n
  | .float x => .ok x
  | .truth b => roundInt (ofTruth b)
  | .nonreal => .error (.notMeasurable nonreal.kind)

/-! ## Comparison -/

/-- How `a` lies to `b`, by their exact values. -/
def compare? : Number → Number → Option Ordering
  | .nonreal, _ | _, .nonreal => none
  | .float x, .float y => Binary64.compare? x y
  | .float x, .int n => (Binary64.compareInt? n x).map Ordering.swap
  | .float x, .truth b => (Binary64.compareInt? (ofTruth b) x).map Ordering.swap
  | .int n, .float y => Binary64.compareInt? n y
  | .truth b, .float y => Binary64.compareInt? (ofTruth b) y
  | .int n, .int m => some (compare n m)
  | .int n, .truth b => some (compare n (ofTruth b))
  | .truth b, .int n => some (compare (ofTruth b) n)
  | .truth b, .truth c => some (compare (ofTruth b) (ofTruth c))

/-- Numerical equality: `4` and `4.0` are the same number. -/
def same (a b : Number) : Bool := compare? a b == some .eq

def less (a b : Number) : Bool := compare? a b == some .lt

def atMost (a b : Number) : Bool := less a b || same a b

/-- A number is true unless it is zero. -/
def isTrue : Number → Bool
  | .int n => n != 0
  | .float x => !(x == 0.0)
  | .truth b => b
  | .nonreal => true

/-! ## Arithmetic -/

/-- A binary operation: exact on integers, otherwise on doubles. An operand that is not real makes
the result so, once the other operand has been rounded. -/
def combine (onInts : Int → Int → Int) (onFloats : Float → Float → Float) :
    Number → Number → Except Fault Number
  | .int n, .int m => .ok (.int (onInts n m))
  | .int n, .truth c => .ok (.int (onInts n (ofTruth c)))
  | .truth b, .int m => .ok (.int (onInts (ofTruth b) m))
  | .truth b, .truth c => .ok (.int (onInts (ofTruth b) (ofTruth c)))
  | .nonreal, .nonreal => .ok .nonreal
  | .nonreal, b => do
    let _ ← b.toFloat
    return .nonreal
  | a, .nonreal => do
    let _ ← a.toFloat
    return .nonreal
  | a, b => do
    let x ← a.toFloat
    let y ← b.toFloat
    return .float (onFloats x y)

def add : Number → Number → Except Fault Number := combine (· + ·) (· + ·)

def sub : Number → Number → Except Fault Number := combine (· - ·) (· - ·)

def mul : Number → Number → Except Fault Number := combine (· * ·) (· * ·)

def neg : Number → Number
  | .int n => .int (-n)
  | .float x => .float (-x)
  | .truth b => .int (-ofTruth b)
  | .nonreal => .nonreal

end Number

end Arbor
