/-!
# Texts with lone surrogates

A document can name a surrogate that has no partner, which is no character. A text that may hold
some is a list of code points. Every string is such a text, and a text is a string exactly when
it holds no lone surrogate.
-/

namespace Arbor

/-- A character, or a surrogate without its partner, counted from the first surrogate on. -/
inductive CodePoint
  | char (c : Char)
  | surrogate (place : Fin 0x800)
  deriving DecidableEq, Repr

namespace CodePoint

instance : Inhabited CodePoint := ⟨.char default⟩

/-- The code point with the given code: a character unless the code is that of a surrogate. -/
def ofCode (code : Nat) : CodePoint :=
  if h : 0xd800 ≤ code ∧ code < 0xe000 then .surrogate ⟨code - 0xd800, by omega⟩
  else .char (Char.ofNat code)

def code : CodePoint → Nat
  | .char c => c.toNat
  | .surrogate place => 0xd800 + place

def char? : CodePoint → Option Char
  | .char c => some c
  | .surrogate _ => none

def isSurrogate : CodePoint → Bool
  | .char _ => false
  | .surrogate _ => true

end CodePoint

/-- A text in which surrogates may lack their partners. -/
abbrev LooseText := List CodePoint

namespace LooseText

def ofString (s : String) : LooseText := s.toList.map .char

instance : Coe String LooseText := ⟨ofString⟩

/-- The string that a text is, if it holds no lone surrogate. -/
def toString? (t : LooseText) : Option String := (t.mapM CodePoint.char?).map String.ofList

theorem mapM_char?_map_char (cs : List Char) :
    (cs.map CodePoint.char).mapM CodePoint.char? = some cs := by
  induction cs with
  | nil => rfl
  | cons c cs ih => simp [List.mapM_cons, CodePoint.char?, ih]

theorem toString?_ofString (s : String) : (ofString s).toString? = some s := by
  rw [toString?, ofString, mapM_char?_map_char, Option.map_some, String.ofList_toList]

theorem ofString_append (s t : String) : ofString (s ++ t) = ofString s ++ ofString t := by
  simp [ofString]

/-- Different strings are different texts. -/
theorem ofString_inj {s t : String} : ofString s = ofString t ↔ s = t := by
  refine ⟨fun h => ?_, fun h => h ▸ rfl⟩
  have := congrArg toString? h
  simpa [toString?_ofString] using this

end LooseText

end Arbor
