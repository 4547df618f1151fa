import Arbor.Decimal.Numeral
import Arbor.Json.Value

/-!
# Reading documents

A reader for JSON that reports where and why a document is malformed. Beyond the standard it
takes `NaN`, `Infinity` and `-Infinity` for numbers. A name that occurs twice in an object keeps
its first place and takes its last value.

Lists and objects may be nested to a given depth only; a document that goes deeper is refused
where it does so, whatever follows.

The nesting of calls is bounded by a number that starts at twice the length of the document. No
two steps in a row go without consuming a character, so the bound always exceeds the characters
that are left and is never met.
-/

namespace Arbor.Json

/-- The unread rest of a document and the number of characters before it. -/
structure Cursor where
  rest : List Char
  offset : Nat

/-- Why reading stopped: the document is malformed at an offset, or it is not but one of its
integers has too many digits or its lists and objects are nested too deep. -/
inductive Stop
  | malformed (cause : JsonFault) (offset : Nat)
  | fault (cause : Fault)

namespace Cursor

/-- The cursor `n` characters on. -/
def advance (c : Cursor) (n : Nat) : Cursor := ⟨c.rest.drop n, c.offset + n⟩

/-- The cursor past the blanks that JSON allows between tokens. -/
def skipBlanks (c : Cursor) : Cursor :=
  let blanks := c.rest.takeWhile fun d => d == ' ' || d == '\t' || d == '\n' || d == '\r'
  c.advance blanks.length

end Cursor

/-! ## Texts -/

def hexDigit? (c : Char) : Option Nat :=
  if c.isDigit then some (c.toNat - 48)
  else if 'a' ≤ c && c ≤ 'f' then some (c.toNat - 87)
  else if 'A' ≤ c && c ≤ 'F' then some (c.toNat - 55)
  else none

/-- The number written by the first four characters in hexadecimal. -/
def hexFour? : List Char → Option Nat
  | a :: b :: c :: d :: _ => do
    let a ← hexDigit? a
    let b ← hexDigit? b
    let c ← hexDigit? c
    let d ← hexDigit? d
    return ((a * 16 + b) * 16 + c) * 16 + d
  | _ => none

/-- The character that follows a backslash and stands for itself or a control. -/
def simpleEscape? : Char → Option Char
  | '"' => some '"'
  | '\\' => some '\\'
  | '/' => some '/'
  | 'b' => some '\x08'
  | 'f' => some '\x0c'
  | 'n' => some '\n'
  | 'r' => some '\r'
  | 't' => some '\t'
  | _ => none

/-- The code point of an escape by number, `c` being the cursor at its four digits, with the
number of characters it takes from there on. A high surrogate joins the low one that an escape
right after it gives; other surrogates stand alone. An escape that ends the document is
malformed, since nothing closes the text. -/
def unicodeEscape (c : Cursor) : Except Stop (CodePoint × Nat) :=
  if (c.rest.drop 4).isEmpty then .error (.malformed .badUnicodeEscape (c.offset - 1))
  else match hexFour? c.rest with
  | none => .error (.malformed .badUnicodeEscape (c.offset - 1))
  | some high =>
    if 0xd800 ≤ high && high ≤ 0xdbff && !(c.rest.drop 10).isEmpty then
      match c.rest.drop 4 with
      | '\\' :: 'u' :: more =>
        match hexFour? more with
        | none => .error (.malformed .badUnicodeEscape (c.offset + 5))
        | some low =>
          if 0xdc00 ≤ low && low ≤ 0xdfff then
            .ok (.ofCode (0x10000 + (high - 0xd800) * 0x400 + (low - 0xdc00)), 10)
          else .ok (.ofCode high, 4)
      | _ => .ok (.ofCode high, 4)
    else .ok (.ofCode high, 4)

/-- The rest of a text that was opened at `start`, after the code points of `read` in reverse. -/
def readText (start : Nat) : Nat → Cursor → LooseText → Except Stop (LooseText × Cursor)
  | 0, _, _ => .error (.malformed .unterminatedText start)
  | fuel + 1, c, read =>
    match c.rest with
    | [] => .error (.malformed .unterminatedText start)
    | '"' :: _ => .ok (read.reverse, c.advance 1)
    | '\\' :: 'u' :: _ => do
      let (d, taken) ← unicodeEscape (c.advance 2)
      readText start fuel (c.advance (2 + taken)) (d :: read)
    | ['\\'] => .error (.malformed .unterminatedText start)
    | '\\' :: e :: _ =>
      match simpleEscape? e with
      | some d => readText start fuel (c.advance 2) (.char d :: read)
      | none => .error (.malformed .badEscape c.offset)
    | d :: _ =>
      if d.toNat ≤ 0x1f then .error (.malformed .controlCharacter c.offset)
      else readText start fuel (c.advance 1) (.char d :: read)

/-! ## Numbers -/

/-- The characters of a number: its integer part, its fraction with the point, and its exponent
with the `e`. -/
structure NumberText where
  whole : List Char
  fraction : List Char
  exponent : List Char

/-- The integer part of a number: a minus or nothing, then zero or digits that start with
another. -/
def wholePart? (s : List Char) : Option (List Char) :=
  let (sign, unsigned) := match s with
    | '-' :: rest => (['-'], rest)
    | rest => ([], rest)
  match unsigned with
  | '0' :: _ => some (sign ++ ['0'])
  | c :: _ => if c.isDigit then some (sign ++ unsigned.takeWhile Char.isDigit) else none
  | [] => none

/-- The fraction that `s` starts with: a point and at least one digit. -/
def fractionPart (s : List Char) : List Char :=
  match s with
  | '.' :: rest =>
    let digits := rest.takeWhile Char.isDigit
    if digits.isEmpty then [] else '.' :: digits
  | _ => []

/-- The exponent that `s` starts with: an `e`, perhaps a sign, and at least one digit. -/
def exponentPart (s : List Char) : List Char :=
  match s with
  | [] => []
  | e :: rest =>
    if e == 'e' || e == 'E' then
      let (sign, unsigned) := match rest with
        | '-' :: more => (['-'], more)
        | '+' :: more => (['+'], more)
        | more => ([], more)
      let digits := unsigned.takeWhile Char.isDigit
      if digits.isEmpty then [] else e :: sign ++ digits
    else []

/-- The number that `s` starts with. -/
def numberText? (s : List Char) : Option NumberText := do
  let whole ← wholePart? s
  let fraction := fractionPart (s.drop whole.length)
  let exponent := exponentPart (s.drop (whole.length + fraction.length))
  return ⟨whole, fraction, exponent⟩

/-- The value of a number: an integer unless it has a fraction or an exponent. -/
def NumberText.value (t : NumberText) : Except Stop Json :=
  if t.fraction.isEmpty && t.exponent.isEmpty then
    match Decimal.readInt? t.whole with
    | some n => .ok (.int n)
    | none => .error (.fault (.numeralTooLong (t.whole.filter Char.isDigit).length))
  else
    match Decimal.readFloat? (t.whole ++ t.fraction ++ t.exponent) with
    | some x => .ok (.float x)
    | none => .ok (.float Binary64.notANumber)

/-! ## Values -/

/-- The words that stand for a value by themselves. -/
def words : List (String × Json) := [
  ("null", .null),
  ("true", .truth true),
  ("false", .truth false),
  ("NaN", .float Binary64.notANumber),
  ("Infinity", .float (Binary64.infinity false)),
  ("-Infinity", .float (Binary64.infinity true))]

/-- The value at `c` if it is a word or a number. -/
def readScalar (c : Cursor) : Except Stop (Json × Cursor) :=
  match words.find? fun entry => entry.1.toList.isPrefixOf c.rest with
  | some (word, value) => .ok (value, c.advance word.length)
  | none =>
    match numberText? c.rest with
    | some t => do
      let value ← t.value
      return (value, c.advance (t.whole.length + t.fraction.length + t.exponent.length))
    | none => .error (.malformed .expectingValue c.offset)

mutual

/-- The value at `c`, in which lists and objects may be nested `depth` deep. -/
def readValue : Nat → Nat → Cursor → Except Stop (Json × Cursor)
  | 0, _, c => .error (.malformed .expectingValue c.offset)
  | fuel + 1, depth, c =>
    match c.rest, depth with
    | '"' :: _, _ => do
      let (s, after) ← readText c.offset fuel (c.advance 1) []
      return (.text s, after)
    | '[' :: _, 0 => .error (.fault (.nestedTooDeep .list))
    | '[' :: _, depth + 1 =>
      let c := (c.advance 1).skipBlanks
      match c.rest with
      | ']' :: _ => .ok (.list [], c.advance 1)
      | _ => readItems fuel depth c []
    | '\x7b' :: _, 0 => .error (.fault (.nestedTooDeep .object))
    | '\x7b' :: _, depth + 1 =>
      let c := (c.advance 1).skipBlanks
      match c.rest with
      | '\x7d' :: _ => .ok (.object [], c.advance 1)
      | _ => readFields fuel depth c []
    | _, _ => readScalar c

/-- The items of a list from `c` on, after those of `read` in reverse. -/
def readItems : Nat → Nat → Cursor → List Json → Except Stop (Json × Cursor)
  | 0, _, c, _ => .error (.malformed .expectingValue c.offset)
  | fuel + 1, depth, c, read => do
    let (item, after) ← readValue fuel depth c
    let after := after.skipBlanks
    match after.rest with
    | ']' :: _ => return (.list (item :: read).reverse, after.advance 1)
    | ',' :: _ => readItems fuel depth (after.advance 1).skipBlanks (item :: read)
    | _ => .error (.malformed .expectingComma after.offset)

/-- The fields of an object from `c` on, added to those of `read`. -/
def readFields : Nat → Nat → Cursor → Table LooseText Json → Except Stop (Json × Cursor)
  | 0, _, c, _ => .error (.malformed .expectingName c.offset)
  | fuel + 1, depth, c, read =>
    match c.rest with
    | '"' :: _ => do
      let (name, after) ← readText c.offset fuel (c.advance 1) []
      let colon := after.skipBlanks
      match colon.rest with
      | ':' :: _ =>
        let (value, after) ← readValue fuel depth (colon.advance 1).skipBlanks
        let after := after.skipBlanks
        let read := read.set name value
        match after.rest with
        | '\x7d' :: _ => return (.object read, after.advance 1)
        | ',' :: _ => readFields fuel depth (after.advance 1).skipBlanks read
        | _ => .error (.malformed .expectingComma after.offset)
      | _ => .error (.malformed .expectingColon colon.offset)
    | _ => .error (.malformed .expectingName c.offset)

end

/-- The one value that `document` holds, in which lists and objects may be nested `depth` deep. -/
def readDocument (depth : Nat) (document : List Char) : Except Stop Json := do
  if document.head? == some '\ufeff' then throw (.malformed .byteOrderMark 0)
  let start := Cursor.skipBlanks ⟨document, 0⟩
  let (value, after) ← readValue (2 * document.length + 2) depth start
  let after := after.skipBlanks
  if after.rest.isEmpty then return value else throw (.malformed .extraData after.offset)

def positionAt (document : List Char) (offset : Nat) : Position :=
  let before := document.take offset
  ⟨before.count '\n' + 1, (before.reverse.takeWhile (· != '\n')).length + 1, offset⟩

/-- `document` with each line ended by a line feed alone, whatever ended it. -/
def unifyLines : List Char → List Char
  | '\r' :: '\n' :: rest => '\n' :: unifyLines rest
  | '\r' :: rest => '\n' :: unifyLines rest
  | c :: rest => c :: unifyLines rest
  | [] => []

/-- The value that the text of the file `path` holds, nested at most `depth` deep. -/
def ofFile (depth : Nat) (path text : String) : Except Fault Json :=
  let document := unifyLines text.toList
  match readDocument depth document with
  | .ok value => .ok value
  | .error (.fault cause) => .error cause
  | .error (.malformed cause offset) =>
    .error (.invalidJson path cause (positionAt document offset))

end Arbor.Json
