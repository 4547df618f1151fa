import Arbor.Text.Loose
import Arbor.Text.Printable

/-!
# Quoted text

Messages show a text between quotes, with every character that does not print written as an
escape. Single quotes are used unless the text holds a single quote and no double quote, so at
most one kind of quote ever needs an escape.
-/

namespace Arbor.Text

/-- The quote that surrounds `s`. -/
def quoteFor (s : List Char) : Char :=
  if s.contains '\'' && !s.contains '"' then '"' else '\''

/-- The last `width` hexadecimal digits of `n`, in lower case. -/
def hexDigits (width n : Nat) : List Char :=
  (List.range width).reverse.map fun place => Nat.digitChar (n / Nat.pow 16 place % 16)

/-- `c` as it stands inside a text surrounded by `quote`. An escape by number takes two, four or
eight digits, as few as hold the character. -/
def quotedChar (quote c : Char) : List Char :=
  if c == quote || c == '\\' then ['\\', c]
  else if c == '\n' then ['\\', 'n']
  else if c == '\r' then ['\\', 'r']
  else if c == '\t' then ['\\', 't']
  else if isPrintable c then [c]
  else if c.toNat ≤ 0xff then '\\' :: 'x' :: hexDigits 2 c.toNat
  else if c.toNat ≤ 0xffff then '\\' :: 'u' :: hexDigits 4 c.toNat
  else '\\' :: 'U' :: hexDigits 8 c.toNat

/-- `s` between quotes. -/
def quoted (s : String) : String :=
  let quote := quoteFor s.toList
  String.ofList (quote :: s.toList.flatMap (quotedChar quote) ++ [quote])

/-- A surrogate as an escape by number. -/
def escapedSurrogate (place : Fin 0x800) : List Char :=
  '\\' :: 'u' :: hexDigits 4 (CodePoint.surrogate place).code

/-- A code point as it stands inside a text surrounded by `quote`; no surrogate prints. -/
def quotedPoint (quote : Char) : CodePoint → List Char
  | .char c => quotedChar quote c
  | .surrogate place => escapedSurrogate place

end Arbor.Text

namespace Arbor.LooseText

def quoted (t : LooseText) : String :=
  let quote := Text.quoteFor (t.filterMap CodePoint.char?)
  String.ofList (quote :: t.flatMap (Text.quotedPoint quote) ++ [quote])

/-- The text with its lone surrogates written as escapes, so that it can be printed. -/
def escaped (t : LooseText) : String :=
  String.ofList <| t.flatMap fun
    | .char c => [c]
    | .surrogate place => Text.escapedSurrogate place

end Arbor.LooseText
