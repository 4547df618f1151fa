import Arbor.Capacity
import Arbor.Value.Basic

/-!
# Operations on values

Arithmetic and comparisons. Numbers are computed with and compared as numbers. Beyond them, two
strings or two numbers of slots can be added, which joins them, multiplied by an integer, which
repeats them, and compared; every other pair of values can only be told apart. An operation makes
a new value, so what it comes to has no origin.
-/

namespace Arbor

inductive ArithmeticOp
  | add
  | sub
  | mul
  deriving DecidableEq, Repr

/-- The comparisons. -/
inductive ComparisonOp
  | less
  | atMost
  | greater
  | atLeast
  | equal
  | different
  deriving DecidableEq, Repr

def ArithmeticOp.sign : ArithmeticOp → String
  | .add => "+"
  | .sub => "-"
  | .mul => "*"

def ComparisonOp.sign : ComparisonOp → String
  | .less => "<"
  | .atMost => "<="
  | .greater => ">"
  | .atLeast => ">="
  | .equal => "=="
  | .different => "!="

namespace Value

/-! ## Sequences -/

/-- Whether a value is a sequence, which can be joined and repeated. -/
def isSequence : Value → Bool
  | .string _ | .slots _ => true
  | _ => false

/-- `n` copies of a sequence, one after another; there are none of them if `n` is negative. What
cannot be counted in machine words or does not fit into memory is refused. -/
def copies (n : Int) : Value → Except Fault Value
  | .string s =>
    if !Capacity.isWord n then .error .lengthTooLarge
    else if !Capacity.isWord (max 0 n * s.length) then .error .repeatedTooLong
    else if Capacity.characters < n * s.length then .error .outOfMemory
    else if s.isEmpty then .ok (.string s)
    else .ok (.string (String.join (List.replicate n.toNat s)))
  | .slots k =>
    if !Capacity.isWord n then .error .lengthTooLarge
    else if Capacity.items < n * k then .error .outOfMemory
    else .ok (.slots (n.toNat * k))
  | v => .ok v

/-- A sequence repeated as often as `count` says, which has to be an integer. -/
def repeated (v count : Value) : Except Fault Value :=
  match count with
  | .number (.int n) => v.copies n
  | .number (.truth b) => v.copies (Number.ofTruth b)
  | count => .error (.notACount count.kind)

/-! ## Arithmetic -/

/-- The fault of an operation that has no meaning for its operands. -/
def wrongOperands (op : ArithmeticOp) (a b : Value) : Fault :=
  .wrongOperands op.sign a.kind b.kind

/-- `a + b`: the sum of numbers, or two sequences of one kind joined. -/
def add (a b : Value) : Except Fault Value :=
  match a.plain, b.plain with
  | .number x, .number y => (x.add y).map .number
  | .string s, .string t => .ok (.string (s ++ t))
  | .slots n, .slots m => .ok (.slots (n + m))
  | a, b =>
    if a.isSequence then .error (.wrongAddend a.kind b.kind)
    else .error (wrongOperands .add a b)

def sub (a b : Value) : Except Fault Value :=
  match a.plain, b.plain with
  | .number x, .number y => (x.sub y).map .number
  | a, b => .error (wrongOperands .sub a b)

/-- `a * b`: the product of numbers, or a sequence repeated. If both are sequences, the first is
to be repeated. -/
def mul (a b : Value) : Except Fault Value :=
  match a.plain, b.plain with
  | .number x, .number y => (x.mul y).map .number
  | a, b =>
    if a.isSequence then a.repeated b
    else if b.isSequence then b.repeated a
    else .error (wrongOperands .mul a b)

def neg (a : Value) : Except Fault Value :=
  match a.plain with
  | .number x => .ok (.number x.neg)
  | v => .error (.wrongOperand "-" v.kind)

end Value

def ArithmeticOp.apply : ArithmeticOp → Value → Value → Except Fault Value
  | .add => Value.add
  | .sub => Value.sub
  | .mul => Value.mul

/-! ## Comparisons -/

/-- Whether a comparison holds of numbers. A number that has no order to another, as that which is
not a number, differs from it. -/
def ComparisonOp.onNumbers : ComparisonOp → Number → Number → Bool
  | .less, a, b => a.less b
  | .atMost, a, b => a.atMost b
  | .greater, a, b => b.less a
  | .atLeast, a, b => b.atMost a
  | .equal, a, b => a.same b
  | .different, a, b => !a.same b

/-- Whether a comparison holds of two values that lie to each other in the given way. -/
def ComparisonOp.admits : ComparisonOp → Ordering → Bool
  | .less, o => o == .lt
  | .atMost, o => o != .gt
  | .greater, o => o == .gt
  | .atLeast, o => o != .lt
  | .equal, o => o == .eq
  | .different, o => o != .eq

/-- Whether a comparison holds. Whatever the values are they are equal or different, but not all
of them are ordered. -/
def ComparisonOp.apply (op : ComparisonOp) (a b : Value) : Except Fault Bool :=
  match a.plain, b.plain with
  | .number x, .number y => .ok (op.onNumbers x y)
  | a, b =>
    match op with
    | .equal => .ok (a.same b)
    | .different => .ok (!a.same b)
    | op =>
      match a.order? b with
      | some o => .ok (op.admits o)
      | none => .error (.incomparable op.sign a.kind b.kind)

end Arbor
