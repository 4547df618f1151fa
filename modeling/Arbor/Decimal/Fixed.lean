import Arbor.Decimal.Shortest

/-!
# A fixed number of digits

Text of a double with a given number of digits after the point, positionally or with an
exponent. Both are the exact value of the double rounded once, a tie going to the even digit, and
both keep the sign of zero and of a value that rounds to zero.
-/

namespace Arbor.Decimal

/-- `n / 10 ^ places` written with `places` digits after the point, and no point if there are
none. -/
def pointed (n places : Nat) : List Char :=
  let digits := padLeft (places + 1) (Nat.repr n).toList
  let whole := digits.length - places
  if places = 0 then digits else digits.take whole ++ '.' :: digits.drop whole

/-- `m * 2 ^ q` in units of `10 ^ -places`, rounded. -/
def fixedUnits (places m : Nat) (q : Int) : Nat :=
  let (num, den) := Binary64.ratio m q
  Binary64.roundHalfEven (num * Nat.pow 10 places) den

/-- `x` after its sign, by `body` if it is finite. -/
def withSign (x : Float) (body : Nat → Int → List Char) : String :=
  match Binary64.parts x with
  | .notANumber => "nan"
  | .infinite negative => if negative then "-inf" else "inf"
  | .finite negative m q => String.ofList (if negative then '-' :: body m q else body m q)

/-- `x` with `places` digits after the point. -/
def fixed (places : Nat) (x : Float) : String :=
  withSign x fun m q => pointed (fixedUnits places m q) places

/-- The digits and the exponent of the leading digit of `m * 2 ^ q`, rounded to one digit before
and `places` after the point. -/
def scientificUnits (places m : Nat) (q : Int) : Nat × Int :=
  if m = 0 then (0, 0)
  else
    let (num, den) := Binary64.ratio m q
    let lead := leadingExponent num den - 1
    let (n, d) := scaleDown10 num den (lead - places)
    let units := Binary64.roundHalfEven n d
    if units = Nat.pow 10 (places + 1) then (Nat.pow 10 places, lead + 1) else (units, lead)

/-- `x` with one digit before the point, `places` after it, and an exponent. -/
def scientific (places : Nat) (x : Float) : String :=
  withSign x fun m q =>
    let (units, lead) := scientificUnits places m q
    let sign := if lead < 0 then '-' else '+'
    pointed units places ++
      'e' :: sign :: padLeft numberLayout.exponentDigits (Nat.repr lead.natAbs).toList

end Arbor.Decimal
