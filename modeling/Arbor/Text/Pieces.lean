/-!
# Pieces of a text

A text is cut at each separator. There is one more piece than separators, and no piece holds a
separator.
-/

namespace Arbor.Text

def pieces (separator : Char) : List Char → List (List Char)
  | [] => [[]]
  | c :: rest =>
    if c == separator then [] :: pieces separator rest
    else
      match pieces separator rest with
      | piece :: more => (c :: piece) :: more
      | [] => [[c]]

theorem length_pieces (separator : Char) (s : List Char) :
    (pieces separator s).length = s.count separator + 1 := by
  induction s with
  | nil => rfl
  | cons c rest ih =>
    unfold pieces
    split
    · rename_i hc
      rw [List.length_cons, ih, beq_iff_eq.1 hc, List.count_cons_self]
    · rename_i hc
      rw [List.count_cons_of_ne (by simpa using hc)]
      split
      · rename_i heq
        simpa [heq] using ih
      · rename_i heq
        simp [heq] at ih

/-- There is a piece even when there is no separator. -/
theorem pieces_ne_nil (separator : Char) (s : List Char) : pieces separator s ≠ [] := by
  intro h
  simpa [h] using length_pieces separator s

/-- No piece holds a separator. -/
theorem notMem_of_mem_pieces {separator : Char} {s piece : List Char}
    (h : piece ∈ pieces separator s) : separator ∉ piece := by
  induction s generalizing piece with
  | nil => simp_all [pieces]
  | cons c rest ih =>
    unfold pieces at h
    split at h
    · rcases List.mem_cons.1 h with rfl | h
      · exact List.not_mem_nil
      · exact ih h
    · rename_i hc
      split at h <;> rename_i heq
      · rcases List.mem_cons.1 h with rfl | h
        · intro hmem
          rcases List.mem_cons.1 hmem with rfl | hmem
          · simp at hc
          · exact ih (heq ▸ List.mem_cons_self) hmem
        · exact ih (heq ▸ List.mem_cons_of_mem _ h)
      · exact absurd heq (pieces_ne_nil separator rest)

end Arbor.Text
