import Arbor.Decimal.Numeral
import Arbor.Text.Quoted

/-!
# Faults

Everything that can go wrong, by cause, with one function for the message and one for the class
of a cause. Where a cause names a symbol, a tag or a handle, it holds the text that shows it.
-/

namespace Arbor

/-- The classes of faults. -/
inductive FaultKind
  | malformedGrammar
  | configuration
  | invalidHandle
  | stackUnderflow
  | value
  | overflow
  | zeroDivision
  | kindMismatch
  | unboundKey
  | unboundAttribute
  | outOfRange
  | undecodable
  | unencodable
  | nesting
  | memory
  | system
  deriving DecidableEq, Repr

/-- What is wrong with a rule, besides faults of the words in it. -/
inductive RuleFault
  | unknownTag (tag pattern : String)
  | slotCount (tag arity pattern : String) (given : Nat)
  | reservedName (name : String)
  | boundTwice (name : String)
  | focusNotOneModule
  | guardNotFunction
  | productNotWord
  deriving DecidableEq, Repr

/-- The kinds that a field of a configuration may have to be of. -/
inductive FieldKind
  | number
  | integer
  | text
  | truth
  | object
  deriving DecidableEq, Repr

/-- The bounds that a field of a configuration may have to keep. -/
inductive FieldBound
  | nonNegative
  | positive
  | placesOfDouble
  deriving DecidableEq, Repr

/-- Why a text is not a JSON document. -/
inductive JsonFault
  | byteOrderMark
  | expectingValue
  | expectingName
  | expectingColon
  | expectingComma
  | unterminatedText
  | controlCharacter
  | badUnicodeEscape
  | badEscape
  | extraData
  deriving DecidableEq, Repr

/-- Where a fault in a document lies: line and column count from one, characters from zero. -/
structure Position where
  line : Nat
  column : Nat
  character : Nat
  deriving DecidableEq, Repr

/-- Why a sequence of bytes is no UTF-8. -/
inductive DecodingFault
  | invalidStart
  | invalidContinuation
  | unexpectedEnd
  deriving DecidableEq, Repr

/-- What can be nested too deep: the lists or the objects of a document, directories that have to
be made, or values that are shown. -/
inductive Nesting
  | list
  | object
  | directory
  | value
  deriving DecidableEq, Repr

/-- Why the system refuses a file. -/
inductive FileCause
  | notFound
  | exists_
  | notDirectory
  | isDirectory
  | nameTooLong
  | noSpace
  | other (code : Nat) (text : String)
  deriving DecidableEq, Repr

/-- The calls that take a fixed number of arguments, with the names of their arguments. -/
structure CallShape where
  name : String
  arguments : List String
  deriving DecidableEq, Repr

/-- A cause of failure. -/
inductive Fault
  -- words and alphabets
  | unreadableWord (word : String) (offset : Nat)
  | emptyArgument (token : String)
  | notANumber (text : String)
  | badArity (tag : String)
  | badTag (tag : String)
  | foreignTag (tag alphabet : String)
  | parameterCount (tag arity : String) (given : Nat)
  | symbolArity (symbol tag : String)
  | unhashable (kind : String)
  -- rules
  | inRule (index : Nat) (focus : String) (cause : RuleFault)
  | notARule (kind : String)
  | unboundName (name : String)
  | unboundAttribute (name : String)
  | wrongOperand (op kind : String)
  | wrongOperands (op left right : String)
  | wrongAddend (kind other : String)
  | incomparable (op left right : String)
  | notACount (kind : String)
  | repeatedTooLong
  -- numbers
  | intTooLong
  | numeralTooLong (digits : Nat)
  | intTooLargeForDouble
  | zeroToNegativePower
  | powerOutOfRange
  | nonrealPowerOutOfRange
  | notReal (kind : String)
  | notMeasurable (kind : String)
  | notADouble (text : String)
  | angleNotFinite
  -- windows
  | windowIndex
  | sequenceIndex
  | placeTooLarge
  | lengthTooLarge
  | outOfMemory
  | negativeLength
  | negativeSliceLength
  | zeroStep
  | notFound
  -- trees and their interpretation
  | foreignHandle (handle : String)
  | handleOutOfRange (handle : String)
  | emptyTree
  | popEmpty
  | neverPopped (count : Nat)
  | noRoot
  | missingArguments (call : CallShape) (given : Nat)
  | surplusArguments (call : CallShape) (given : Nat)
  -- configurations
  | invalidJson (path : String) (cause : JsonFault) (position : Position)
  | nestedTooDeep (what : Nesting)
  | wrongKind (path : String) (kind : FieldKind)
  | outsideBound (path : String) (bound : FieldBound)
  | unknownSpecies (known : List String) (name : LooseText)
  | unknownParameter (species : String) (name : LooseText)
  | unexpectedParameter (name : String)
  | repeatedParameter (name : String)
  | positionShape
  | undecodable (cause : DecodingFault) (first : UInt8) (start stop : Nat)
  -- drawings
  | noGeometry
  | noMargin
  | degenerateBox
  | missingPrecision
  | precisionTooBig
  | precisionUnreadable
  | unencodable (first : Fin 0x800) (start stop : Nat)
  -- files
  | refused (cause : FileCause) (path : String)
  | notWritten (cause : FileCause)
  | nulInPath
  | pathNotText
  deriving DecidableEq, Repr

namespace RuleFault

/-- The wording of a fault of a rule, after the rule has been named. -/
def message : RuleFault → String
  | .unknownTag tag pattern => s!"unknown tag {Text.quoted tag} in {Text.quoted pattern}"
  | .slotCount tag arity pattern given =>
    s!"{tag} takes {arity} parameter(s), pattern {Text.quoted pattern} gives {given}"
  | .reservedName name => s!"{Text.quoted name} is a reserved word"
  | .boundTwice name => s!"name {Text.quoted name} is bound twice"
  | .focusNotOneModule => "focus must be exactly one module"
  | .guardNotFunction => "guard must be callable"
  | .productNotWord => "produce must be a word or callable"

end RuleFault

def FieldKind.message : FieldKind → String
  | .number => "a number"
  | .integer => "an integer"
  | .text => "a string"
  | .truth => "a boolean"
  | .object => "an object"

def FieldBound.message : FieldBound → String
  | .nonNegative => ">= 0"
  | .positive => "> 0"
  | .placesOfDouble => "between 0 and 10"

/-- The wording of a fault of a document, before its position. -/
def JsonFault.message : JsonFault → String
  | .byteOrderMark => "Unexpected UTF-8 BOM (decode using utf-8-sig)"
  | .expectingValue => "Expecting value"
  | .expectingName => "Expecting property name enclosed in double quotes"
  | .expectingColon => "Expecting ':' delimiter"
  | .expectingComma => "Expecting ',' delimiter"
  | .unterminatedText => "Unterminated string starting at"
  | .controlCharacter => "Invalid control character at"
  | .badUnicodeEscape => "Invalid \\uXXXX escape"
  | .badEscape => "Invalid \\escape"
  | .extraData => "Extra data"

def Position.message (p : Position) : String :=
  s!"line {p.line} column {p.column} (char {p.character})"

def DecodingFault.message : DecodingFault → String
  | .invalidStart => "invalid start byte"
  | .invalidContinuation => "invalid continuation byte"
  | .unexpectedEnd => "unexpected end of data"

/-- What was being done when the nesting became too deep. -/
def Nesting.message : Nesting → String
  | .list => " while decoding a JSON array from a unicode string"
  | .object => " while decoding a JSON object from a unicode string"
  | .directory => ""
  | .value => " while getting the repr of an object"

/-- The number and the wording that the system has for a cause. -/
def FileCause.describe : FileCause → Nat × String
  | .notFound => (2, "No such file or directory")
  | .exists_ => (17, "File exists")
  | .notDirectory => (20, "Not a directory")
  | .isDirectory => (21, "Is a directory")
  | .nameTooLong => (36, "File name too long")
  | .noSpace => (28, "No space left on device")
  | .other code text => (code, text)

/-- Names between single quotes, with commas and a final "and". -/
def enumeration : List String → String
  | [] => ""
  | [a] => s!"'{a}'"
  | [a, b] => s!"'{a}' and '{b}'"
  | names =>
    let last := names.getLastD ""
    ", ".intercalate (names.dropLast.map fun a => s!"'{a}'") ++ s!", and '{last}'"

namespace Fault

def kind : Fault → FaultKind
  | .unreadableWord .. | .emptyArgument _ | .notANumber _ | .badArity _ | .badTag _
  | .foreignTag .. | .parameterCount .. | .symbolArity .. | .inRule .. | .notARule _ =>
    .malformedGrammar
  | .unhashable _ | .notReal _ | .notMeasurable _ | .notACount _ | .noMargin
  | .missingArguments .. | .surplusArguments .. | .unexpectedParameter _ | .repeatedParameter _
  | .pathNotText | .wrongOperand .. | .wrongOperands .. | .wrongAddend .. | .incomparable .. =>
    .kindMismatch
  | .unboundName _ => .unboundKey
  | .unboundAttribute _ | .noRoot => .unboundAttribute
  | .intTooLong | .numeralTooLong _ | .angleNotFinite | .negativeLength | .negativeSliceLength
  | .zeroStep | .notFound | .missingPrecision | .precisionTooBig | .precisionUnreadable
  | .nulInPath | .notADouble _ => .value
  | .intTooLargeForDouble | .powerOutOfRange | .nonrealPowerOutOfRange | .lengthTooLarge
  | .repeatedTooLong =>
    .overflow
  | .zeroToNegativePower => .zeroDivision
  | .windowIndex | .sequenceIndex | .placeTooLarge => .outOfRange
  | .outOfMemory => .memory
  | .foreignHandle _ | .handleOutOfRange _ | .emptyTree => .invalidHandle
  | .popEmpty | .neverPopped _ => .stackUnderflow
  | .undecodable .. => .undecodable
  | .unencodable .. => .unencodable
  | .nestedTooDeep _ => .nesting
  | .refused .. | .notWritten _ => .system
  | .invalidJson .. | .wrongKind .. | .outsideBound .. | .unknownSpecies ..
  | .unknownParameter .. | .positionShape | .noGeometry | .degenerateBox => .configuration

/-- The wording of a fault, in which lone surrogates are escapes. -/
def wording : Fault → String
  | .unreadableWord word offset =>
    let at_ := String.ofList ((word.toList.drop offset).take 10)
    s!"cannot parse word {Text.quoted word} at offset {offset}: {Text.quoted at_}"
  | .emptyArgument token => s!"empty argument in {Text.quoted token}"
  | .notANumber text => s!"expected a number, got {Text.quoted text}"
  | .badArity tag => s!"arity of {tag} must be a non-negative int"
  | .badTag tag => s!"invalid tag {tag}"
  | .foreignTag tag alphabet => s!"tag {tag} is not in {alphabet}"
  | .parameterCount tag arity given => s!"{tag} takes {arity} parameter(s), got {given}"
  | .symbolArity symbol tag => s!"{symbol} does not match arity of {Text.quoted tag}"
  | .unhashable kind => s!"unhashable type: '{kind}'"
  | .inRule index focus cause => s!"rule {index} ({Text.quoted focus}): {cause.message}"
  | .notARule kind => s!"expected a Rule, got {kind}"
  | .unboundName name => Text.quoted name
  | .unboundAttribute name => name
  | .wrongOperand op kind => s!"bad operand type for unary {op}: '{kind}'"
  | .wrongOperands op left right =>
    s!"unsupported operand type(s) for {op}: '{left}' and '{right}'"
  | .wrongAddend kind other => s!"can only concatenate {kind} (not \"{other}\") to {kind}"
  | .incomparable op left right =>
    s!"'{op}' not supported between instances of '{left}' and '{right}'"
  | .notACount kind => s!"can't multiply sequence by non-int of type '{kind}'"
  | .repeatedTooLong => "repeated string is too long"
  | .intTooLong =>
    s!"Exceeds the limit ({Decimal.maxDigits} digits) for integer string conversion; " ++
      "use sys.set_int_max_str_digits() to increase the limit"
  | .numeralTooLong digits =>
    s!"Exceeds the limit ({Decimal.maxDigits} digits) for integer string conversion: " ++
      s!"value has {digits} digits; use sys.set_int_max_str_digits() to increase the limit"
  | .intTooLargeForDouble => "int too large to convert to float"
  | .zeroToNegativePower => "0.0 cannot be raised to a negative power"
  | .powerOutOfRange => "(34, 'Numerical result out of range')"
  | .nonrealPowerOutOfRange => "complex exponentiation"
  | .notReal kind => s!"must be real number, not {kind}"
  | .notMeasurable kind =>
    s!"float() argument must be a string or a real number, not '{kind}'"
  | .notADouble text => s!"could not convert string to float: {Text.quoted text}"
  | .angleNotFinite => "math domain error"
  | .windowIndex => "context window index out of range"
  | .sequenceIndex => "tuple index out of range"
  | .placeTooLarge | .lengthTooLarge => "cannot fit 'int' into an index-sized integer"
  | .outOfMemory => ""
  | .negativeLength => "__len__() should return >= 0"
  | .negativeSliceLength => "length should not be negative"
  | .zeroStep => "slice step cannot be zero"
  | .notFound => ""
  | .foreignHandle handle => s!"{handle} was not issued by this tree"
  | .handleOutOfRange handle => s!"{handle} is out of range"
  | .emptyTree => "tree is empty"
  | .popEmpty => "pop with no saved state on the stack"
  | .neverPopped count => s!"{count} pushed state(s) never popped"
  | .noRoot => "'NoneType' object has no attribute 'diameter'"
  | .missingArguments call given =>
    let missing := call.arguments.drop given
    let noun := if missing.length = 1 then "argument" else "arguments"
    s!"{call.name}() missing {missing.length} required positional {noun}: " ++
      enumeration missing
  | .surplusArguments call given =>
    let taken := call.arguments.length + 1
    let noun := if taken = 1 then "argument" else "arguments"
    s!"{call.name}() takes {taken} positional {noun} but {given + 1} were given"
  | .invalidJson path cause position =>
    s!"Invalid JSON in {path}: {cause.message}: {position.message}"
  | .nestedTooDeep what => s!"maximum recursion depth exceeded{what.message}"
  | .wrongKind path kind => s!"{path} must be {kind.message}"
  | .outsideBound path bound => s!"{path} must be {bound.message}"
  | .unknownSpecies known name =>
    let names := ", ".intercalate (known.map Text.quoted)
    s!"species must be one of [{names}]; got {name.quoted}"
  | .unknownParameter species name => s!"params.{name.escaped} is not a {species} parameter"
  | .unexpectedParameter name =>
    s!"HondaParams.__init__() got an unexpected keyword argument '{name}'"
  | .repeatedParameter name =>
    s!"HondaParams.__init__() got multiple values for argument '{name}'"
  | .positionShape => "root.position must be a list of 3 numbers"
  | .undecodable cause first start stop =>
    if stop ≤ start + 1 then
      let shown := String.ofList (Text.hexDigits 2 first.toNat)
      s!"'utf-8' codec can't decode byte 0x{shown} in position {start}: {cause.message}"
    else
      s!"'utf-8' codec can't decode bytes in position {start}-{stop - 1}: {cause.message}"
  | .noGeometry => "No drawable geometry produced."
  | .noMargin => "unsupported operand type(s) for -=: 'float' and 'NoneType'"
  | .degenerateBox =>
    "Degenerate bounds after margin (width or height is zero). " ++
      "Set svg.margin > 0 to render collinear geometry."
  | .missingPrecision => "Format specifier missing precision"
  | .precisionTooBig => "precision too big"
  | .precisionUnreadable => "Too many decimal digits in format string"
  | .unencodable first start stop =>
    if stop ≤ start + 1 then
      let shown := String.ofList (Text.escapedSurrogate first)
      s!"'utf-8' codec can't encode character '{shown}' in position {start}: " ++
        "surrogates not allowed"
    else
      s!"'utf-8' codec can't encode characters in position {start}-{stop - 1}: " ++
        "surrogates not allowed"
  | .refused cause path =>
    let (code, text) := cause.describe
    s!"[Errno {code}] {text}: {Text.quoted path}"
  | .notWritten cause =>
    let (code, text) := cause.describe
    s!"[Errno {code}] {text}"
  | .nulInPath => "embedded null byte"
  | .pathNotText => "expected str, bytes or os.PathLike object, not list"

/-- The message of a fault. The one text of a document that a message does not quote is the name
of a parameter. -/
def message : Fault → LooseText
  | .unknownParameter species name =>
    LooseText.ofString "params." ++ name ++ LooseText.ofString s!" is not a {species} parameter"
  | fault => fault.wording

end Fault

end Arbor
