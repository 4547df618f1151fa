import Arbor.Binary64.Parts

/-!
# Comparing doubles

Two doubles are compared as the hardware compares them, and a double with an integer by their
exact values: neither side is rounded first. Not a number is comparable with nothing.
-/

namespace Arbor.Binary64

/-- How `x` lies to `y`; zeros of either sign are equal. -/
def compare? (x y : Float) : Option Ordering :=
  if x < y then some .lt
  else if x == y then some .eq
  else if y < x then some .gt
  else none

/-- How the integer `n` lies to the exact value of `x`. -/
def compareInt? (n : Int) (x : Float) : Option Ordering :=
  match parts x with
  | .notANumber => none
  | .infinite negative => some (if negative then .gt else .lt)
  | .finite negative m q =>
    let (num, den) := ratio m q
    some (compare (n * den) (signed negative num))

end Arbor.Binary64
