import Arbor.Decimal.Fixed
import Arbor.Fault

/-!
# Text in markup

Titles are escaped, attributes are not, and coordinates are written as plain decimals without
superfluous zeros.
-/

namespace Arbor.Markup

/-- A code point as it stands in the text of an element. -/
def escapePoint : CodePoint → LooseText
  | .char '&' => "&amp;"
  | .char '<' => "&lt;"
  | .char '>' => "&gt;"
  | p => [p]

/-- A text as it stands in the text of an element. -/
def escape (t : LooseText) : LooseText := t.flatMap escapePoint

/-- A tag between its opening and its closing, with its attributes in order. Their values are
written as they are. -/
def tag (opening : String) (attributes : List (String × LooseText)) (closing : String) :
    LooseText :=
  LooseText.ofString opening ++
    attributes.flatMap (fun (name, value) =>
      LooseText.ofString (" " ++ name ++ "=\"") ++ value ++ LooseText.ofString "\"") ++
    LooseText.ofString closing

/-- `s` without its trailing characters that are `c`. -/
def dropTrailing (c : Char) (s : List Char) : List Char := (s.reverse.dropWhile (· == c)).reverse

/-- A decimal without the zeros that end its fraction, and without its point if no fraction is
left. A text without a point stays as it is. -/
def stripFraction (s : List Char) : List Char :=
  if s.contains '.' then dropTrailing '.' (dropTrailing '0' s) else s

/-- The places that a double can have other than zero. -/
def placesOfDouble : Nat := 1074

/-- A coordinate rounded to `places` places. No coordinate is written as minus zero, and no zeros
are worked out beyond the places that a double has. -/
def coordinate (places : Nat) (x : Float) : String :=
  let x := if x == 0.0 then 0.0 else x
  let s := stripFraction (Decimal.fixed (min places placesOfDouble) x).toList
  if s = [] ∨ s = ['-', '0'] then "0" else String.ofList s

/-- The greatest number of places that a decimal can have. -/
def maxPlaces : Int := Nat.pow 2 31 - 1

/-- The greatest number of places that can be asked for. -/
def maxPlacesRead : Int := Nat.pow 2 63 - 1

/-- A number of places, which must not be negative or too great. -/
def readPlaces (places : Int) : Except Fault Nat :=
  if places < 0 then .error .missingPrecision
  else if maxPlacesRead < places then .error .precisionUnreadable
  else if maxPlaces < places then .error .precisionTooBig
  else .ok places.toNat

end Arbor.Markup
