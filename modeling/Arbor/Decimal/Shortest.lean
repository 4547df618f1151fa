import Arbor.Binary64.Rounding

/-!
# The shortest decimal of a double

Of all decimals that read back as a given double, the shortest has the fewest digits, and among
those it is the nearest to the double, a tie going to the even last digit. The digits are found
by trying one digit, then two, and so on: on each grid of decimals only the two neighbours of
the double have to be tried, and every candidate is tried by reading it.
-/

namespace Arbor.Decimal

/-- `num / den / 10 ^ g` as a quotient. -/
def scaleDown10 (num den : Nat) (g : Int) : Nat × Nat :=
  if 0 ≤ g then (num, den * Nat.pow 10 g.toNat) else (num * Nat.pow 10 (-g).toNat, den)

/-- The least exponent from `k` on, tried at most `fuel` times, with `num / den < 10 ^ k`. -/
def raiseTo (num den : Nat) (k : Int) : Nat → Int
  | 0 => k
  | fuel + 1 =>
    let (n, d) := scaleDown10 num den k
    if n < d then k else raiseTo num den (k + 1) fuel

/-- The exponent `k` with `10 ^ (k - 1) ≤ num / den < 10 ^ k`, for positive `num` and `den`. The
binary logarithm gives it to within two. -/
def leadingExponent (num den : Nat) : Int :=
  raiseTo num den (Binary64.log2Ratio num den * 30103 / 100000 - 1) 5

/-- `n * 10 ^ g` rounded to a double, as a bit pattern. -/
def decimalBits (n : Nat) (g : Int) : Nat :=
  if 0 ≤ g then Binary64.nearestBits (n * Nat.pow 10 g.toNat) 1
  else Binary64.nearestBits n (Nat.pow 10 (-g).toNat)

/-- Of the two neighbours of `num / den` on the grid of multiples of `10 ^ g`, the nearer one
whose rounding is `bits`. -/
def gridHit? (bits num den : Nat) (g : Int) : Option Nat :=
  let (n, d) := scaleDown10 num den g
  let low := n / d
  let twice := 2 * (n % d)
  let lowReads := decimalBits low g == bits
  let highReads := decimalBits (low + 1) g == bits
  let lowFirst := twice < d || (twice == d && low % 2 == 0)
  if lowReads && (lowFirst || !highReads) then some low
  else if highReads then some (low + 1)
  else none

/-- The first hit on the grids with `count`, `count + 1`, … digits, at most `fuel` of them. -/
def searchGrids (bits num den : Nat) (k : Int) (count : Nat) : Nat → Option (Nat × Int)
  | 0 => none
  | fuel + 1 =>
    match gridHit? bits num den (k - count) with
    | some n => some (n, k - count)
    | none => searchGrids bits num den k (count + 1) fuel

/-- `n` without its trailing zeros, at most `fuel` of them, and the exponent that makes up for
them. -/
def stripZeros (n : Nat) (g : Int) : Nat → Nat × Int
  | 0 => (n, g)
  | fuel + 1 => if n % 10 = 0 then stripZeros (n / 10) (g + 1) fuel else (n, g)

/-- Digits `n` and exponent `g` of the shortest decimal `n * 10 ^ g` of the positive double
`m * 2 ^ q`. Seventeen digits always suffice; were they not to, the exact value would be taken. -/
def shortest (m : Nat) (q : Int) : Nat × Int :=
  let (num, den) := Binary64.ratio m q
  let bits := Binary64.nearestBits num den
  match searchGrids bits num den (leadingExponent num den) 1 17 with
  | some (n, g) => stripZeros n g 17
  | none => if 0 ≤ q then (m * Nat.pow 2 q.toNat, 0) else (m * Nat.pow 5 (-q).toNat, q)

/-- How a shortest decimal is laid out: positional when the exponent of its leading digit is at
least `lowest` and below `highest`, otherwise with an exponent of at least `exponentDigits`
digits. -/
structure Layout where
  lowest : Int
  highest : Int
  exponentDigits : Nat

/-- Numbers are written positionally from `1e-4` up to, but not including, `1e16`. -/
def numberLayout : Layout := ⟨-4, 16, 2⟩

/-- `s` with zeros in front to at least `width` characters. -/
def padLeft (width : Nat) (s : List Char) : List Char :=
  List.replicate (width - s.length) '0' ++ s

/-- The text of `n * 10 ^ g`, for an `n` that does not end in zero. A positional text always has
a point with at least one digit on either side. -/
def Layout.text (layout : Layout) (n : Nat) (g : Int) : List Char :=
  let digits := (Nat.repr n).toList
  let lead := g + digits.length - 1
  if layout.lowest ≤ lead && lead < layout.highest then
    if 0 ≤ g then digits ++ List.replicate g.toNat '0' ++ ['.', '0']
    else if 0 ≤ lead then
      digits.take (lead + 1).toNat ++ '.' :: digits.drop (lead + 1).toNat
    else '0' :: '.' :: List.replicate (-lead - 1).toNat '0' ++ digits
  else
    let fraction := if digits.length ≤ 1 then [] else '.' :: digits.drop 1
    let sign := if lead < 0 then '-' else '+'
    digits.take 1 ++ fraction ++
      'e' :: sign :: padLeft layout.exponentDigits (Nat.repr lead.natAbs).toList

/-- The text of a double: its shortest decimal, `inf` or `nan`, after a minus if it has one. -/
def floatText (x : Float) : String :=
  match Binary64.parts x with
  | .notANumber => "nan"
  | .infinite negative => if negative then "-inf" else "inf"
  | .finite negative m q =>
    let body := if m = 0 then "0.0".toList
      else let (n, g) := shortest m q; numberLayout.text n g
    String.ofList (if negative then '-' :: body else body)

end Arbor.Decimal
