import Arbor.Number.Basic

/-!
# Powers

A natural power of an integer is exact. Every other power is one of doubles: zero has no negative
power, a negative number has a fractional power only off the real line, and a result beyond the
largest double is a fault rather than an infinity.
-/

namespace Arbor.Number

/-- `x ^ y` for an infinite `y`, by how the magnitude of `x` lies to one. -/
def powInfinite (x y : Float) : Float :=
  if x.abs == 1.0 then 1.0
  else if decide (0.0 < y) == decide (1.0 < x.abs) then y.abs
  else 0.0

/-- `x ^ y` for an infinite `x` and a finite `y`, with the sign of `x` for odd powers. -/
def powOfInfinite (x y : Float) : Float :=
  let odd := Binary64.isOddIntegral y
  if 0.0 < y then if odd then x else x.abs
  else if odd then Binary64.ofSignedBits (Binary64.isNegative x) 0 else 0.0

/-- `x ^ y` for finite `x` and `y`, both nonzero and `x` positive. -/
def powFinite (x y : Float) (tooLarge : Fault) : Except Fault Float :=
  let power := x.pow y
  if Binary64.isInfinite power then .error tooLarge else .ok power

/-- `x ^ y` on doubles. -/
def floatPow (x y : Float) : Except Fault Number :=
  if y == 0.0 then .ok (.float 1.0)
  else if Binary64.isNotANumber x then .ok (.float x)
  else if Binary64.isNotANumber y then .ok (.float (if x == 1.0 then 1.0 else y))
  else if Binary64.isInfinite y then .ok (.float (powInfinite x y))
  else if Binary64.isInfinite x then .ok (.float (powOfInfinite x y))
  else if x == 0.0 then
    if y < 0.0 then .error .zeroToNegativePower
    else .ok (.float (if Binary64.isOddIntegral y then x else 0.0))
  else if x < 0.0 then
    if Binary64.isIntegral y then do
      let power ← if x == -1.0 then pure 1.0 else powFinite (-x) y .powerOutOfRange
      return .float (if Binary64.isOddIntegral y then -power else power)
    else do
      let _ ← powFinite (-x) y .nonrealPowerOutOfRange
      return .nonreal
  else if x == 1.0 then .ok (.float 1.0)
  else do
    let power ← powFinite x y .powerOutOfRange
    return .float power

/-- `n ^ m` on integers. The powers of -1, 0 and 1 recur with every second exponent, so they
are taken from the first two. -/
def intPow (n : Int) (m : Nat) : Int :=
  if n.natAbs ≤ 1 && 2 < m then Int.pow n (2 - m % 2) else Int.pow n m

def pow (a b : Number) : Except Fault Number :=
  let exact (n m : Int) : Except Fault Number :=
    if 0 ≤ m then .ok (.int (intPow n m.toNat))
    else do
      let x ← roundInt n
      let y ← roundInt m
      floatPow x y
  match a, b with
  | .int n, .int m => exact n m
  | .int n, .truth c => exact n (ofTruth c)
  | .truth b, .int m => exact (ofTruth b) m
  | .truth b, .truth c => exact (ofTruth b) (ofTruth c)
  | .nonreal, _ | _, .nonreal => .ok .nonreal
  | a, b => do
    let x ← a.toFloat
    let y ← b.toFloat
    floatPow x y

end Arbor.Number
