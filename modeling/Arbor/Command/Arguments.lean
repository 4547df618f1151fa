import Arbor.Command.Usage
import Arbor.Text.Digit
import Arbor.Text.Quoted

/-!
# Reading the command line

Words that start with a minus are flags, unless they are a minus alone, look like a negative
number, or hold a space; after a word `--` nothing is a flag. A long flag may be cut short as long
as only one flag starts that way, and short flags may be run together. Words that no part of the
command line takes are collected and reported in the end.
-/

namespace Arbor.Cli

/-- A flag found in a word: its spelling, what it asks for, and what is attached to it in the same
word, after an equals sign or right after a short flag. -/
structure FlagUse where
  spelling : String
  flag : Flag
  attached : Option String

/-- A word of the command line. A flag may be cut short, so its word is kept with it. -/
inductive Item
  | argument (word : String)
  | separator
  | flag (word : String) (use : FlagUse)
  | unknownFlag (word : String)

/-- Why reading the command line stopped: help was asked for, or a part of it is misused. -/
inductive Halt
  | help (form : Form)
  | misuse (form : Form) (message : String)

/-! ## Words -/

/-- The text before the first equals sign and the text after it. -/
def splitEquals (word : List Char) : Option (List Char × List Char) :=
  match word.dropWhile (· != '=') with
  | '=' :: after => some (word.takeWhile (· != '='), after)
  | _ => none

/-- The flag uses that `word` could be short for. -/
def candidates (form : Form) (word : List Char) : List FlagUse :=
  match word with
  | '-' :: '-' :: _ =>
    let (start, attached) : List Char × Option String := match splitEquals word with
      | some (before, after) => (before, some (String.ofList after))
      | none => (word, none)
    form.spellings.filterMap fun (spelling, flag) =>
      if start.isPrefixOf spelling.toList then some ⟨spelling, flag, attached⟩ else none
  | _ =>
    form.spellings.filterMap fun (spelling, flag) =>
      if spelling.toList = word.take 2 then
        some ⟨spelling, flag, some (String.ofList (word.drop 2))⟩
      else if word.isPrefixOf spelling.toList then some ⟨spelling, flag, none⟩
      else none

/-- Whether a word is a minus and digits with at most one point, which digits follow. -/
def looksNegative (word : List Char) : Bool :=
  let word := if word.getLast? = some '\n' then word.dropLast else word
  let isDigit (c : Char) : Bool := (Text.digit? c).isSome
  match word with
  | '-' :: rest =>
    match rest.dropWhile isDigit with
    | [] => !rest.isEmpty
    | '.' :: fraction => !fraction.isEmpty && fraction.all isDigit
    | _ => false
  | _ => false

/-- What a word is, no separator having come before it. -/
def classify (form : Form) (word : String) : Except Halt Item :=
  let cs := word.toList
  match cs with
  | '-' :: _ :: _ =>
    match form.spellings.lookup word with
    | some flag => .ok (.flag word ⟨word, flag, none⟩)
    | none =>
      let exact := (splitEquals cs).bind fun (before, after) =>
        let spelling := String.ofList before
        (form.spellings.lookup spelling).map fun flag =>
          (⟨spelling, flag, some (String.ofList after)⟩ : FlagUse)
      match exact with
      | some use => .ok (.flag word use)
      | none =>
        match candidates form cs with
        | [use] => .ok (.flag word use)
        | [] =>
          if looksNegative cs || cs.contains ' ' then .ok (.argument word)
          else .ok (.unknownFlag word)
        | several =>
          let names := ", ".intercalate (several.map FlagUse.spelling)
          .error (.misuse form s!"ambiguous option: {word} could match {names}")
  | _ => .ok (.argument word)

/-- What the words are; after a separator all are arguments. -/
def classifyAll (form : Form) : List String → Except Halt (List Item)
  | [] => .ok []
  | word :: words =>
    if word = "--" then .ok (.separator :: words.map .argument)
    else do
      let item ← classify form word
      let items ← classifyAll form words
      return item :: items

def Item.word : Item → String
  | .separator => "--"
  | .argument word | .flag word _ | .unknownFlag word => word

/-! ## Flags -/

/-- The refusal of what is attached to a flag. -/
def misattached (form : Form) (flag : Flag) (text : String) : Halt :=
  .misuse form s!"argument {flag.display}: ignored explicit argument {Text.quoted text}"

/-- The flags that a short flag and the letters run on after it stand for, in order. -/
def runOn (form : Form) (flag : Flag) : List Char → Except Halt (List Flag)
  | [] => .ok [flag]
  | c :: rest =>
    match form.spellings.lookup (String.ofList ['-', c]) with
    | some next => do
      let flags ← runOn form next rest
      return flag :: flags
    | none => .error (misattached form flag (String.ofList (c :: rest)))

/-- The flags that a word stands for, in order. None of the flags takes a value, so nothing but
further short flags may be attached, and those to a short flag only. -/
def expand (form : Form) (use : FlagUse) : Except Halt (List Flag) :=
  match use.attached with
  | none => .ok [use.flag]
  | some text =>
    if use.spelling.length = 2 && !text.isEmpty then runOn form use.flag text.toList
    else .error (misattached form use.flag text)

/-- Heeds the flags of a word: asking for help stops the reading. -/
def heed (form : Form) (use : FlagUse) : Except Halt Unit := do
  let flags ← expand form use
  if flags.contains .help then throw (.help form)

/-! ## Arguments -/

/-- The items after a leading separator, and whether there is one. -/
def skipSeparator : List Item → Bool × List Item
  | .separator :: rest => (true, rest)
  | items => (false, items)

/-- The arguments that lead `items`, at most `count` of them, with the items after them. An
argument takes the separators on either side with it; separators alone are not passed over. The
first word of what an argument takes that is spelt like the separator is not counted, which leaves
nothing of an argument that is spelt so and comes without one. -/
def takeArguments : Nat → List Item → List (Option String) × List Item
  | 0, items => ([], items)
  | count + 1, items =>
    let (before, inner) := skipSeparator items
    match inner with
    | .argument word :: rest =>
      let (after, rest) := skipSeparator rest
      let value := if word = "--" && !before && !after then none else some word
      let (values, rest) := takeArguments count rest
      (value :: values, rest)
    | _ => ([], items)

def Item.isFlag : Item → Bool
  | .flag .. | .unknownFlag _ => true
  | _ => false

/-- The arguments of a command and the words it does not take, from `items` on, `missing`
arguments being still to come. -/
def readItems (form : Form) :
    Nat → List Item → Nat → Except Halt (List (Option String) × List String)
  | 0, _, _ => .ok ([], [])
  | _ + 1, [], _ => .ok ([], [])
  | fuel + 1, item :: items, missing =>
    match item with
    | .unknownFlag word => do
      let (arguments, extras) ← readItems form fuel items missing
      return (arguments, word :: extras)
    | .flag _ use => do
      heed form use
      readItems form fuel items missing
    | _ =>
      match takeArguments missing (item :: items) with
      | ([], _) => do
        let skipped := (item :: items).takeWhile fun item => !item.isFlag
        let rest := (item :: items).dropWhile fun item => !item.isFlag
        let (arguments, extras) ← readItems form fuel rest missing
        return (arguments, skipped.map Item.word ++ extras)
      | (values, rest) => do
        let (arguments, extras) ← readItems form fuel rest (missing - values.length)
        return (values ++ arguments, extras)

/-- The arguments of a command and the words it does not take. All its arguments are required. -/
def readCommand (form : Form) (words : List String) :
    Except Halt (List (Option String) × List String) := do
  let items ← classifyAll form words
  let (arguments, extras) ← readItems form (2 * items.length + 1) items form.arguments.length
  let missing := form.arguments.drop arguments.length
  if missing.isEmpty then return (arguments, extras)
  else
    let names := ", ".intercalate missing
    throw (.misuse form s!"the following arguments are required: {names}")

/-! ## The whole command line -/

/-- What the program is asked to do. Nothing may be left of the argument for the output. -/
inductive Task
  | edges (config : String)
  | validate (config : String)
  | svg (config : String) (output : Option String)
  deriving DecidableEq, Repr

def Task.config : Task → String
  | .edges config | .validate config | .svg config _ => config

/-- A task, and whether its progress is to be logged. -/
structure Invocation where
  verbose : Bool
  task : Task
  deriving DecidableEq, Repr

def CommandName.task? : CommandName → List (Option String) → Option Task
  | .edges, [some config] => some (.edges config)
  | .validate, [some config] => some (.validate config)
  | .svg, [some config, output] => some (.svg config output)
  | _, _ => none

/-- The invocation that the words from the command on make, after flags have been read. -/
def readTask (verbose : Bool) (extras : List String) (command : String) (words : List String) :
    Except Halt Invocation := do
  match CommandName.ofText? command with
  | none =>
    let choices := ", ".intercalate (commandNames.map fun name => Text.quoted name.text)
    throw (.misuse programForm
      s!"argument cmd: invalid choice: {Text.quoted command} (choose from {choices})")
  | some name =>
    let (arguments, unread) ← readCommand name.form words
    let extras := extras ++ unread
    match name.task? arguments, extras with
    | some task, [] => return ⟨verbose, task⟩
    | _, extras =>
      let words := " ".intercalate extras
      throw (.misuse programForm s!"unrecognized arguments: {words}")

/-- The fault of a command line without a command. -/
def noCommand : Halt := .misuse programForm "the following arguments are required: cmd"

/-- The invocation that items make. The first argument is the command and takes all words after
it; a separator before it is taken for the command. -/
def readProgram (verbose : Bool) (extras : List String) : List Item → Except Halt Invocation
  | [] => .error noCommand
  | .unknownFlag word :: items => readProgram verbose (extras ++ [word]) items
  | .flag _ use :: items => do
    heed programForm use
    readProgram true extras items
  | .argument word :: items => readTask verbose extras word (items.map Item.word)
  | .separator :: [] => .error noCommand
  | .separator :: items => readTask verbose extras "--" (items.map Item.word)

/-- The invocation that the words of a command line make. -/
def readInvocation (words : List String) : Except Halt Invocation := do
  let items ← classifyAll programForm words
  readProgram false [] items

end Arbor.Cli
