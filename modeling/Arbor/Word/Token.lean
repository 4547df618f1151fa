import Arbor.Fault
import Arbor.Text.Blank
import Arbor.Text.Identifier
import Arbor.Text.Pieces

/-!
# Tokens of word notation

A word's text is cut into tokens. A tag is an ASCII identifier or a single punctuation
character; after it, blanks aside, parentheses may hold arguments with commas between them.
Identifiers extend as far as they can, so two tags without arguments need a blank between them
if both are identifiers, while a punctuation tag may touch its neighbours.

An opening parenthesis that is never closed, or that holds another, is not part of the token
before it; then nothing can be read from there on.
-/

namespace Arbor

/-- A tag with the texts of its arguments, which are neither empty nor start or end in blanks. -/
structure Token where
  tag : String
  arguments : List String
  deriving DecidableEq, Repr

namespace Token

def isPunctuation (c : Char) : Bool := "[]+-&^/\\|!".toList.contains c

/-- The tag that `s` starts with, and the rest. -/
def takeTag? : List Char → Option (List Char × List Char)
  | [] => none
  | c :: rest =>
    if Text.isAsciiNameStart c then
      some (c :: rest.takeWhile Text.isAsciiNameInside, rest.dropWhile Text.isAsciiNameInside)
    else if isPunctuation c then some ([c], rest)
    else none

def isTag (s : String) : Bool :=
  match takeTag? s.toList with
  | some (_, []) => true
  | _ => false

/-- Whether `c` may stand between parentheses. -/
def isInside (c : Char) : Bool := c != '(' && c != ')'

/-- What the parentheses that `s` starts with, after blanks, hold, and the rest. -/
def takeParentheses? (s : List Char) : Option (List Char × List Char) :=
  match Text.trimStart s with
  | '(' :: inside =>
    match inside.dropWhile isInside with
    | ')' :: rest => some (inside.takeWhile isInside, rest)
    | _ => none
  | _ => none

/-- The arguments that parentheses hold: none if they hold blanks alone. -/
def argumentsOf (inside : List Char) : List (List Char) :=
  if (Text.trim inside).isEmpty then [] else (Text.pieces ',' inside).map Text.trim

/-- A token as it is read: the characters that write it, with the blanks before it, its tag and
arguments, and the characters after it. -/
structure Lexeme where
  written : List Char
  tag : List Char
  arguments : List (List Char)
  rest : List Char

/-- The token that `s` starts with, after blanks. -/
def read? (s : List Char) : Option Lexeme :=
  let blanks := s.takeWhile Text.isBlank
  match takeTag? (Text.trimStart s) with
  | none => none
  | some (tag, after) =>
    match takeParentheses? after with
    | some (inside, rest) =>
      let parentheses := after.takeWhile Text.isBlank ++ '(' :: inside ++ [')']
      some ⟨blanks ++ tag ++ parentheses, tag, argumentsOf inside, rest⟩
    | none => some ⟨blanks ++ tag, tag, [], after⟩

theorem takeTag?_append {s tag rest : List Char} (h : takeTag? s = some (tag, rest)) :
    tag ++ rest = s := by
  cases s with
  | nil => simp [takeTag?] at h
  | cons c s =>
    simp only [takeTag?] at h
    split at h
    · simp only [Option.some.injEq, Prod.mk.injEq] at h
      simp [← h.1, ← h.2]
    · split at h
      · simp only [Option.some.injEq, Prod.mk.injEq] at h
        simp [← h.1, h.2]
      · simp at h

theorem takeTag?_ne_nil {s tag rest : List Char} (h : takeTag? s = some (tag, rest)) :
    tag ≠ [] := by
  rintro rfl
  cases s with
  | nil => simp [takeTag?] at h
  | cons c s =>
    simp only [takeTag?] at h
    split at h
    · simp at h
    · split at h <;> simp at h

theorem takeParentheses?_append {s inside rest : List Char}
    (h : takeParentheses? s = some (inside, rest)) :
    s.takeWhile Text.isBlank ++ '(' :: (inside ++ ')' :: rest) = s := by
  unfold takeParentheses? at h
  split at h
  · rename_i all heq
    split at h
    · rename_i more hmore
      simp only [Option.some.injEq, Prod.mk.injEq] at h
      obtain ⟨rfl, rfl⟩ := h
      rw [← hmore, List.takeWhile_append_dropWhile, ← heq]
      exact List.takeWhile_append_dropWhile
    · simp at h
  · simp at h

/-- A token is written by the characters up to its rest. -/
theorem read?_append {s : List Char} {lexeme : Lexeme} (h : read? s = some lexeme) :
    lexeme.written ++ lexeme.rest = s := by
  have hs : s.takeWhile Text.isBlank ++ Text.trimStart s = s := List.takeWhile_append_dropWhile
  unfold read? at h
  split at h
  · simp at h
  · rename_i tag after htag
    have hafter := takeTag?_append htag
    split at h
    · rename_i inside rest hpar
      have hrest := takeParentheses?_append hpar
      simp only [Option.some.injEq] at h
      subst h
      simp only [List.append_assoc, List.cons_append, List.nil_append]
      rw [hrest, hafter, hs]
    · simp only [Option.some.injEq] at h
      subst h
      simp only [List.append_assoc]
      rw [hafter, hs]

/-- Reading a token consumes at least its tag. -/
theorem read?_rest_length_lt {s : List Char} {lexeme : Lexeme} (h : read? s = some lexeme) :
    lexeme.rest.length < s.length := by
  have hs := congrArg List.length (read?_append h)
  have hne : lexeme.written ≠ [] := by
    unfold read? at h
    split at h
    · simp at h
    · rename_i tag after htag
      have htag := takeTag?_ne_nil htag
      split at h <;> simp only [Option.some.injEq] at h <;> subst h <;> simp [htag]
  have := List.length_pos_iff.2 hne
  simp only [List.length_append] at hs
  omega

/-- The tokens of `s`, which stands `offset` characters into `word`. -/
def tokensFrom (word : String) (offset : Nat) (s : List Char) : Except Fault (List Token) :=
  if s.isEmpty then .ok []
  else
    match h : read? s with
    | none => .error (.unreadableWord word offset)
    | some lexeme =>
      have := read?_rest_length_lt h
      if lexeme.arguments.any List.isEmpty then
        .error (.emptyArgument (String.ofList (Text.trim lexeme.written)))
      else do
        let token := ⟨String.ofList lexeme.tag, lexeme.arguments.map String.ofList⟩
        let more ← tokensFrom word (offset + lexeme.written.length) lexeme.rest
        return token :: more
termination_by s.length

/-- The tokens of a word's text; blanks at its end do not count. -/
def ofText (text : String) : Except Fault (List Token) :=
  let s := Text.trimEnd text.toList
  tokensFrom (String.ofList s) 0 s

end Token

end Arbor
