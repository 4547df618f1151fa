import Arbor.Alphabet
import Arbor.Proofs.Fault.Outcome
import Arbor.Proofs.Word.Rendering

/-!
# Faults of words

A text that writes no word of an alphabet is refused for one of its tokens or numbers, whatever the
alphabet (`Fault.OfText`), or for one of its symbols (`Fault.OfWord`), and all of these faults are
of one class. A symbol that does not fit an alphabet is shown in the fault, and the one thing that
cannot be shown is an integer of too many digits.

* `Token.failsOnly_ofText`, `Number.failsOnly_read`: tokens and numbers.
* `Alphabet.failsOnly_parse`: words that are read.
* `Value.failsOnly_text`: values that are shown.
* `Alphabet.failsOnly_check`: symbols that are handed in.
-/

namespace Arbor

/-- The fault is one of a token, a number or a symbol of a word. -/
inductive Fault.OfWord : Fault → Prop
  | unreadableWord (word : String) (offset : Nat) : OfWord (.unreadableWord word offset)
  | emptyArgument (token : String) : OfWord (.emptyArgument token)
  | notANumber (text : String) : OfWord (.notANumber text)
  | foreignTag (tag alphabet : String) : OfWord (.foreignTag tag alphabet)
  | parameterCount (tag arity : String) (given : Nat) : OfWord (.parameterCount tag arity given)
  | symbolArity (symbol tag : String) : OfWord (.symbolArity symbol tag)

/-- The fault is one of a token or a number, which no alphabet has a part in. -/
inductive Fault.OfText : Fault → Prop
  | unreadableWord (word : String) (offset : Nat) : OfText (.unreadableWord word offset)
  | emptyArgument (token : String) : OfText (.emptyArgument token)
  | notANumber (text : String) : OfText (.notANumber text)

theorem Fault.OfText.ofWord {fault : Fault} (h : fault.OfText) : fault.OfWord := by
  cases h with
  | unreadableWord word offset => exact .unreadableWord word offset
  | emptyArgument token => exact .emptyArgument token
  | notANumber text => exact .notANumber text

theorem Fault.OfWord.kind_eq {fault : Fault} (h : fault.OfWord) :
    fault.kind = .malformedGrammar := by
  cases h <;> rfl

/-! ## Reading -/

theorem Token.failsOnly_ofText (text : String) : FailsOnly Fault.OfText (ofText text) := by
  intro fault h
  obtain ⟨-, -, -, -, -, ⟨-, -, rfl⟩ | ⟨-, -, -, rfl⟩⟩ := exists_stop h
  · exact .unreadableWord ..
  · exact .emptyArgument _

theorem Number.failsOnly_read (text : String) : FailsOnly Fault.OfText (read text) := by
  unfold read
  split
  · exact .ok _
  · exact .error (.notANumber text)

theorem Token.failsOnly_numbers (t : Token) : FailsOnly Fault.OfText t.numbers :=
  .mapM fun argument _ => Number.failsOnly_read argument

namespace Alphabet

variable (a : Alphabet)

theorem failsOnly_arity (tag : String) : FailsOnly Fault.OfWord (a.arity tag) := by
  unfold arity
  split
  · exact .ok _
  · exact .error (.foreignTag ..)

theorem failsOnly_symbol (tag : String) (params : List Value) :
    FailsOnly Fault.OfWord (a.symbol tag params) := by
  refine (a.failsOnly_arity tag).bind fun n _ => ?_
  split
  · exact .ok _
  · exact .error (.parameterCount ..)

theorem failsOnly_parse (text : String) : FailsOnly Fault.OfWord (a.parse text) :=
  ((Token.failsOnly_ofText text).mono fun _ => Fault.OfText.ofWord).bind fun _ _ => .mapM fun t _ =>
    (t.failsOnly_numbers.mono fun _ => Fault.OfText.ofWord).bind fun _ _ =>
      a.failsOnly_symbol t.tag _

end Alphabet

/-! ## Showing -/

theorem Number.failsOnly_text (x : Number) : FailsOnly (· = .intTooLong) x.text := by
  cases x with
  | int n =>
    rw [text, intText]
    split
    · exact .ok _
    · exact .error rfl
  | float x => exact .ok _
  | truth b => exact .ok _
  | nonreal => exact .ok _

theorem Number.failsOnly_wordText (x : Number) : FailsOnly (· = .intTooLong) x.wordText := by
  cases x with
  | float x =>
    rw [wordText]
    split
    · exact failsOnly_text (.int _)
    · exact .ok _
  | int n => exact failsOnly_text (.int n)
  | truth b => exact failsOnly_text (.truth b)
  | nonreal => exact failsOnly_text .nonreal

namespace Value

mutual

/-- Only an integer of too many digits cannot be shown, wherever it stands in a value. -/
theorem failsOnly_text : ∀ v : Value, FailsOnly (· = .intTooLong) v.text
  | .number x => by
    rw [text]
    exact x.failsOnly_text
  | .notANumber _ => by
    rw [text]
    exact Number.notANumber.failsOnly_text
  | .table entries => by
    rw [text]
    exact (failsOnly_entryTexts entries).bind fun _ _ => .ok _
  | .member .method _ _ entries => by
    rw [text]
    exact (failsOnly_entryTexts entries).bind fun _ _ => .ok _
  | .string _ | .slots _ | .member .class_ .. | .member .wrapper .. | .member .builtin .. => by
    rw [text]
    exact .ok _

theorem failsOnly_entryTexts :
    ∀ entries : List (String × Value), FailsOnly (· = .intTooLong) (entryTexts entries)
  | [] => by
    rw [entryTexts]
    exact .ok _
  | (_, value) :: rest => by
    rw [entryTexts]
    exact (failsOnly_text value).bind fun _ _ => (failsOnly_entryTexts rest).bind fun _ _ => .ok _

end

theorem failsOnly_wordText (v : Value) : FailsOnly (· = .intTooLong) v.wordText := by
  cases v with
  | number x => exact x.failsOnly_wordText
  | notANumber _ => exact Number.notANumber.failsOnly_wordText
  | string s => exact .ok s
  | _ => exact failsOnly_text _

end Value

theorem Symbol.failsOnly_text (s : Symbol) : FailsOnly (· = .intTooLong) s.text :=
  (FailsOnly.mapM fun v _ => v.failsOnly_wordText).bind fun _ _ => .ok _

theorem Alphabet.failsOnly_check (a : Alphabet) (s : Symbol) :
    FailsOnly (fun fault => fault.OfWord ∨ fault = .intTooLong) (a.check s) := by
  refine ((a.failsOnly_arity s.tag).mono fun _ => Or.inl).bind fun n _ => ?_
  split
  · exact .ok _
  · exact (s.failsOnly_text.mono fun _ => Or.inr).bind fun _ _ =>
      .error (Or.inl (.symbolArity ..))

end Arbor
