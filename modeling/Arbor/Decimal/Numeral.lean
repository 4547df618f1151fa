import Arbor.Binary64.Rounding
import Arbor.Text.Blank
import Arbor.Text.Digit

/-!
# Reading numerals

An integer numeral is an optional sign and a run of digits. A decimal numeral is an optional
sign, digits with at most one point among or beside them, and an optional exponent; or a
spelling of infinity or of not-a-number. Within a run of digits a single underscore may separate
two digits. Digits of every script count, and blanks around a numeral do not, except for the
four information separators, which no numeral may touch.
-/

namespace Arbor.Decimal

/-- The most digits of an integer that is read or written. -/
def maxDigits : Nat := 4300

/-- `c` with digits of every script folded to ASCII and blanks from U+0080 on to a space. -/
def foldChar (c : Char) : Char :=
  if c.toNat < 0x80 then c
  else if Text.isBlank c then ' '
  else match Text.digit? c with
    | some d => Nat.digitChar d
    | none => c

/-- The blanks of ASCII that may surround a numeral. -/
def isPadding (c : Char) : Bool := c == ' ' || (0x9 ≤ c.toNat && c.toNat ≤ 0xd)

/-- The characters of a numeral: folded to ASCII, without the blanks around them. -/
def bare (s : List Char) : List Char :=
  let folded := (s.map foldChar).dropWhile isPadding
  (folded.reverse.dropWhile isPadding).reverse

def asciiDigit? (c : Char) : Option Nat := if c.isDigit then some (c.toNat - 48) else none

/-- The leading run of digits, in which single underscores may separate digits, and the rest. -/
def digitRun : List Char → List Nat × List Char
  | [] => ([], [])
  | c :: rest =>
    match asciiDigit? c, rest with
    | none, _ => ([], c :: rest)
    | some d, '_' :: e :: more =>
      if e.isDigit then
        let (ds, out) := digitRun (e :: more)
        (d :: ds, out)
      else ([d], rest)
    | some d, rest =>
      let (ds, out) := digitRun rest
      (d :: ds, out)

/-- The number that a run of digits denotes. -/
def valueOf (digits : List Nat) : Nat := digits.foldl (fun n d => 10 * n + d) 0

/-- The sign at the start of a numeral, `true` for minus, and the rest. -/
def takeSign : List Char → Bool × List Char
  | '-' :: rest => (true, rest)
  | '+' :: rest => (false, rest)
  | rest => (false, rest)

/-- The integer that `s` denotes; `none` when it is no integer numeral or has more than
`maxDigits` digits, leading zeros among them. -/
def readInt? (s : List Char) : Option Int :=
  let (negative, unsigned) := takeSign (bare s)
  match digitRun unsigned with
  | ([], _) => none
  | (digits, []) =>
    if digits.length ≤ maxDigits then some (Binary64.signed negative (valueOf digits)) else none
  | _ => none

/-- The double nearest to `±0.d₁d₂… * 10 ^ point` for the digits `d₁ d₂ …`. Magnitudes beyond
all doubles are settled by the position of the leading digit alone, so that no power of ten
grows with the numeral's exponent. -/
def nearestDecimal (negative : Bool) (digits : List Nat) (point : Int) : Float :=
  let significant := digits.dropWhile (· == 0)
  let lead : Int := point - (digits.length - significant.length : Nat)
  if significant.isEmpty || lead < -330 then Binary64.nearest negative 0 1
  else if 310 < lead then Binary64.infinity negative
  else
    let e := lead - significant.length
    let n := valueOf significant
    if 0 ≤ e then Binary64.nearest negative (n * Nat.pow 10 e.toNat) 1
    else Binary64.nearest negative n (Nat.pow 10 (-e).toNat)

/-- The digits of a numeral before and after its point, and the rest. -/
def takeFraction (s : List Char) : List Nat × List Nat × List Char :=
  match digitRun s with
  | (whole, '.' :: rest) =>
    let (fraction, out) := digitRun rest
    (whole, fraction, out)
  | (whole, out) => (whole, [], out)

/-- The exponent that makes up the whole of `s`; nothing at all is exponent zero. -/
def readExponent? : List Char → Option Int
  | [] => some 0
  | c :: rest =>
    if c == 'e' || c == 'E' then
      let (negative, unsigned) := takeSign rest
      match digitRun unsigned with
      | ([], _) => none
      | (digits, []) => some (Binary64.signed negative (valueOf digits))
      | _ => none
    else none

/-- The double nearest to the decimal numeral `s`. -/
def readFloat? (s : List Char) : Option Float :=
  let (negative, unsigned) := takeSign (bare s)
  let word := unsigned.map Char.toLower
  if word == "inf".toList || word == "infinity".toList then some (Binary64.infinity negative)
  else if word == "nan".toList then some Binary64.notANumber
  else
    let (whole, fraction, rest) := takeFraction unsigned
    if whole.isEmpty && fraction.isEmpty then none
    else (readExponent? rest).map fun e =>
      nearestDecimal negative (whole ++ fraction) (whole.length + e)

end Arbor.Decimal
