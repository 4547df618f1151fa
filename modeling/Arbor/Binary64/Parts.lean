/-!
# The parts of a double

A double is a sign, a natural mantissa and a power of two, an infinity, or not a number. All
exact work on doubles (rounding, printing, comparison with integers) goes through this view, so
that it is done in `Nat` and `Int`.
-/

namespace Arbor.Binary64

/-- What a double stands for: `finite s m q` is `±m * 2 ^ q`, negative when `s` is `true`. -/
inductive Parts
  | notANumber
  | infinite (negative : Bool)
  | finite (negative : Bool) (mantissa : Nat) (exponent : Int)
  deriving DecidableEq, Repr

/-- The parts of `x`, read off its 64 bits. The mantissa is below `2 ^ 53` and the exponent at
least `-1074`; a zero has mantissa `0` and keeps its sign. -/
def parts (x : Float) : Parts :=
  let bits := x.toBits.toNat
  let negative := decide (Nat.pow 2 63 ≤ bits)
  let field : Nat := bits / Nat.pow 2 52 % 2048
  let fraction := bits % Nat.pow 2 52
  if field = 2047 then
    if fraction = 0 then .infinite negative else .notANumber
  else if field = 0 then .finite negative fraction (-1074)
  else .finite negative (fraction + Nat.pow 2 52) ((field : Int) - 1075)

/-- `m * 2 ^ q` as a quotient of two natural numbers, the second positive. -/
def ratio (m : Nat) (q : Int) : Nat × Nat :=
  if 0 ≤ q then (m * Nat.pow 2 q.toNat, 1) else (m, Nat.pow 2 (-q).toNat)

theorem ratio_snd_pos (m : Nat) (q : Int) : 0 < (ratio m q).2 := by
  unfold ratio
  split
  · exact Nat.one_pos
  · exact Nat.pow_pos (by decide)

def signed (negative : Bool) (n : Nat) : Int := if negative then -(n : Int) else n

def toInt? (x : Float) : Option Int :=
  match parts x with
  | .finite negative m q =>
    let (num, den) := ratio m q
    if num % den = 0 then some (signed negative (num / den)) else none
  | _ => none

/-- Whether `x` is finite with no fractional part. -/
def isIntegral (x : Float) : Bool := (toInt? x).isSome

def isOddIntegral (x : Float) : Bool :=
  match toInt? x with
  | some n => n % 2 != 0
  | none => false

/-- Whether the sign of `x` is minus. Not a number has none. -/
def isNegative (x : Float) : Bool :=
  match parts x with
  | .notANumber => false
  | .infinite negative => negative
  | .finite negative _ _ => negative

def isInfinite (x : Float) : Bool :=
  match parts x with
  | .infinite _ => true
  | _ => false

def isNotANumber (x : Float) : Bool :=
  match parts x with
  | .notANumber => true
  | _ => false

end Arbor.Binary64
