import Arbor.Binary64.Parts

/-!
# Rounding to a double

The double nearest to a positive quotient of natural numbers, a tie going to the even mantissa.
A double `m * 2 ^ q` with `-1074 ≤ q` has the bit pattern `(q + 1074) * 2 ^ 52 + m`, also when
`m` is `2 ^ 53`, where the carry moves into the exponent, and when it is subnormal; patterns
beyond the largest finite double become the infinity.
-/

namespace Arbor.Binary64

/-- The natural number nearest to `num / den`, a tie going to the even one. -/
def roundHalfEven (num den : Nat) : Nat :=
  let whole := num / den
  let twice := 2 * (num % den)
  if twice < den then whole
  else if den < twice then whole + 1
  else whole + whole % 2

def infinityBits : Nat := 0x7ff0000000000000

/-- `num / den / 2 ^ q` as a quotient. -/
def scaleDown (num den : Nat) (q : Int) : Nat × Nat :=
  if 0 ≤ q then (num, den * Nat.pow 2 q.toNat) else (num * Nat.pow 2 (-q).toNat, den)

/-- The greatest `e` with `2 ^ e ≤ num / den`, for positive `num` and `den`. -/
def log2Ratio (num den : Nat) : Int :=
  let e : Int := (Nat.log2 num : Int) - Nat.log2 den
  let (n, d) := scaleDown num den e
  if n < d then e - 1 else e

/-- The bit pattern of the double nearest to `num / den`. -/
def nearestBits (num den : Nat) : Nat :=
  if num = 0 then 0
  else
    let q := max (log2Ratio num den - 52) (-1074)
    let (n, d) := scaleDown num den q
    min ((q + 1074).toNat * Nat.pow 2 52 + roundHalfEven n d) infinityBits

/-- The double with the given sign whose magnitude has the given bit pattern. -/
def ofSignedBits (negative : Bool) (bits : Nat) : Float :=
  Float.ofBits (UInt64.ofNat (if negative then bits + Nat.pow 2 63 else bits))

/-- The double nearest to `±num / den`. -/
def nearest (negative : Bool) (num den : Nat) : Float :=
  ofSignedBits negative (nearestBits num den)

/-- The double nearest to `n`, or `none` when that is an infinity. -/
def ofInt? (n : Int) : Option Float :=
  let bits := nearestBits n.natAbs 1
  if bits = infinityBits then none else some (ofSignedBits (n < 0) bits)

def infinity (negative : Bool) : Float := ofSignedBits negative infinityBits

/-- The canonical double that is not a number. -/
def notANumber : Float := Float.ofBits 0x7ff8000000000000

end Arbor.Binary64
