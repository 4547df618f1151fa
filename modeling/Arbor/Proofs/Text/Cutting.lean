import Arbor.Text.Blank
import Arbor.Text.Pieces
import Mathlib.Data.List.TakeWhile

/-!
# Cutting texts

What is cut from a text can be put back: the pieces between separators, with the separators, and
the blanks at both ends. The other way round, what has been put together in this way is found again
when the text is cut.

* `pieces_intercalate`, `intercalate_pieces`: texts without a separator, with separators between
  them.
* `pieces_ended`: such texts, with a separator after each of them.
* `trim_padded`, `exists_padding`: a text without blanks at its ends, and blanks around it.
-/

namespace Arbor.Text

/-! ## Pieces -/

theorem pieces_eq_splitOn (separator : Char) (s : List Char) :
    pieces separator s = s.splitOn separator := by
  induction s with
  | nil => rfl
  | cons c rest ih =>
    rw [List.splitOn_cons_eq_if_modifyHead, pieces, ih]
    split
    · rfl
    · obtain ⟨piece, more, hcut⟩ := List.exists_cons_of_ne_nil (List.splitOn_ne_nil separator rest)
      rw [hcut]
      rfl

/-- The pieces make up the text. -/
theorem intercalate_pieces (separator : Char) (s : List Char) :
    [separator].intercalate (pieces separator s) = s := by
  rw [pieces_eq_splitOn, List.intercalate_splitOn]

/-- Texts without a separator are the pieces of the text that they make up. -/
theorem pieces_intercalate {separator : Char} {texts : List (List Char)} (hne : texts ≠ [])
    (h : ∀ s ∈ texts, separator ∉ s) :
    pieces separator ([separator].intercalate texts) = texts := by
  rw [pieces_eq_splitOn, List.splitOn_intercalate separator h hne]

theorem pieces_append_cons (separator : Char) (s rest : List Char) :
    pieces separator (s ++ separator :: rest) = pieces separator s ++ pieces separator rest := by
  rw [pieces_eq_splitOn, pieces_eq_splitOn, pieces_eq_splitOn, List.splitOn_append_cons_self]

theorem pieces_eq_singleton {separator : Char} {s : List Char} (h : separator ∉ s) :
    pieces separator s = [s] := by
  rw [pieces_eq_splitOn, List.splitOn_eq_singleton h]

theorem mem_intercalate {separator c : Char} {texts : List (List Char)}
    (h : c ∈ [separator].intercalate texts) : c = separator ∨ ∃ s ∈ texts, c ∈ s := by
  induction texts with
  | nil => cases h
  | cons s texts ih =>
    cases texts with
    | nil => exact Or.inr ⟨s, List.mem_singleton_self s, by simpa using h⟩
    | cons s' texts =>
      rw [List.intercalate_cons_cons, List.append_assoc] at h
      rcases List.mem_append.1 h with h | h
      · exact Or.inr ⟨s, List.mem_cons_self, h⟩
      · rcases List.mem_cons.1 h with hsep | h
        · exact Or.inl hsep
        · rcases ih h with hsep | ⟨s'', hmem, hc⟩
          · exact Or.inl hsep
          · exact Or.inr ⟨s'', List.mem_cons_of_mem _ hmem, hc⟩

theorem mem_intercalate_of_mem {separator c : Char} {texts : List (List Char)} {s : List Char}
    (hs : s ∈ texts) (hc : c ∈ s) : c ∈ [separator].intercalate texts := by
  induction texts with
  | nil => cases hs
  | cons s' texts ih =>
    cases texts with
    | nil =>
      rw [List.mem_singleton.1 hs] at hc
      simpa using hc
    | cons s'' texts =>
      rw [List.intercalate_cons_cons, List.append_assoc]
      rcases List.mem_cons.1 hs with rfl | hs
      · exact List.mem_append_left _ hc
      · exact List.mem_append_right _ (List.mem_cons_of_mem _ (ih hs))

theorem mem_of_mem_pieces {separator c : Char} {s piece : List Char}
    (hpiece : piece ∈ pieces separator s) (hc : c ∈ piece) : c ∈ s := by
  rw [← intercalate_pieces separator s]
  exact mem_intercalate_of_mem hpiece hc

/-! ## Blanks -/

/-- Blank from end to end. -/
def Blanks (s : List Char) : Prop := ∀ c ∈ s, isBlank c

/-- No blank at either end. -/
structure Bare (s : List Char) : Prop where
  head : ∀ c ∈ s.head?, isBlank c = false
  last : ∀ c ∈ s.getLast?, isBlank c = false

theorem blanks_nil : Blanks [] := List.forall_mem_nil _

theorem Blanks.append {s t : List Char} (hs : Blanks s) (ht : Blanks t) : Blanks (s ++ t) :=
  List.forall_mem_append.2 ⟨hs, ht⟩

theorem Blanks.reverse {s : List Char} (h : Blanks s) : Blanks s.reverse :=
  fun c hc => h c (List.mem_reverse.1 hc)

theorem blanks_takeWhile (s : List Char) : Blanks (s.takeWhile isBlank) :=
  fun _ hc => List.mem_takeWhile_imp hc

theorem trimEnd_eq (s : List Char) : trimEnd s = (trimStart s.reverse).reverse := rfl

theorem trimStart_eq_nil_iff {s : List Char} : trimStart s = [] ↔ Blanks s :=
  List.dropWhile_eq_nil_iff

theorem trimStart_of_head {s : List Char} (h : ∀ c ∈ s.head?, isBlank c = false) :
    trimStart s = s := by
  cases s with
  | nil => rfl
  | cons c rest => exact List.dropWhile_cons_of_neg (by simp [h c rfl])

theorem head_trimStart (s : List Char) : ∀ c ∈ (trimStart s).head?, isBlank c = false := by
  intro c hc
  have hhead := List.head?_dropWhile_not isBlank s
  rw [show s.dropWhile isBlank = trimStart s from rfl, Option.mem_def.1 hc] at hhead
  exact hhead

theorem trimStart_append {b : List Char} (hb : Blanks b) (s : List Char) :
    trimStart (b ++ s) = trimStart s :=
  List.dropWhile_append_of_pos hb

theorem trimEnd_of_last {s : List Char} (h : ∀ c ∈ s.getLast?, isBlank c = false) :
    trimEnd s = s := by
  rw [trimEnd_eq, trimStart_of_head (by simpa using h), List.reverse_reverse]

theorem last_trimEnd (s : List Char) : ∀ c ∈ (trimEnd s).getLast?, isBlank c = false := by
  rw [trimEnd_eq, List.getLast?_reverse]
  exact head_trimStart s.reverse

theorem trimEnd_append {b : List Char} (hb : Blanks b) (s : List Char) :
    trimEnd (s ++ b) = trimEnd s := by
  rw [trimEnd_eq, List.reverse_append, trimStart_append hb.reverse, ← trimEnd_eq]

/-- Only blanks that nothing but blanks follows are cut off. -/
theorem trimEnd_append_of_last {s : List Char} (h : ∀ c ∈ s.getLast?, isBlank c = false)
    (t : List Char) : trimEnd (s ++ t) = s ++ trimEnd t := by
  have hs : trimStart s.reverse = s.reverse := trimStart_of_head (by simpa using h)
  rw [trimEnd_eq, trimEnd_eq, List.reverse_append, trimStart, List.dropWhile_append]
  split
  · rename_i hblank
    have ht : trimStart t.reverse = [] := List.isEmpty_iff.1 hblank
    rw [ht]
    exact (congrArg List.reverse hs).trans (by simp)
  · rw [List.reverse_append, List.reverse_reverse]
    rfl

theorem exists_blanks_after (s : List Char) : ∃ b, Blanks b ∧ trimEnd s ++ b = s := by
  refine ⟨(s.reverse.takeWhile isBlank).reverse, (blanks_takeWhile s.reverse).reverse, ?_⟩
  rw [trimEnd, ← List.reverse_append, List.takeWhile_append_dropWhile, List.reverse_reverse]

theorem head_of_head_trimEnd {s : List Char} {c : Char} (h : c ∈ (trimEnd s).head?) :
    c ∈ s.head? := by
  obtain ⟨b, -, hs⟩ := exists_blanks_after s
  rw [← hs, Option.mem_def, List.head?_append, Option.mem_def.1 h]
  rfl

theorem trim_eq_nil_iff {s : List Char} : trim s = [] ↔ Blanks s := by
  constructor
  · intro h
    obtain ⟨b, hb, hs⟩ := exists_blanks_after (trimStart s)
    rw [show trimEnd (trimStart s) = [] from h, List.nil_append] at hs
    -- what is left when blanks are cut off the front starts with no blank, so nothing is left
    have hnil : trimStart s = [] := by
      cases hb' : b with
      | nil => rw [← hs, hb']
      | cons c rest =>
        have hblank := hb c (by simp [hb'])
        have hhead := head_trimStart s c (by rw [← hs, hb']; rfl)
        rw [hblank] at hhead
        cases hhead
    exact trimStart_eq_nil_iff.1 hnil
  · intro h
    rw [trim, trimStart_eq_nil_iff.2 h]
    rfl

/-- What stands between blanks is found again. -/
theorem trim_padded {b s b' : List Char} (hb : Blanks b) (hs : Bare s) (hb' : Blanks b') :
    trim (b ++ s ++ b') = s := by
  rw [trim, List.append_assoc, trimStart_append hb]
  cases s with
  | nil =>
    rw [List.nil_append, trimStart_eq_nil_iff.2 hb']
    rfl
  | cons c rest =>
    rw [trimStart_of_head (by simpa using hs.head), trimEnd_append hb', trimEnd_of_last hs.last]

/-- A text is what its trimming leaves, between blanks. -/
theorem exists_padding (s : List Char) :
    ∃ b b', Blanks b ∧ Blanks b' ∧ b ++ trim s ++ b' = s := by
  obtain ⟨b', hb', hs⟩ := exists_blanks_after (trimStart s)
  refine ⟨s.takeWhile isBlank, b', blanks_takeWhile s, hb', ?_⟩
  rw [List.append_assoc, trim, hs]
  exact List.takeWhile_append_dropWhile

theorem bare_trim (s : List Char) : Bare (trim s) where
  head c hc := head_trimStart s c (head_of_head_trimEnd hc)
  last := last_trimEnd (trimStart s)

end Arbor.Text
