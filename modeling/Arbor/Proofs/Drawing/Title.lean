import Arbor.Proofs.Drawing.Document

/-!
# Titles

A title is the one text of a drawing that is escaped. Escaping goes over the title three times, and
each time puts in a `&`, which only the first time looks for: had it come later, it would have
escaped what the others put in. So escaping is the same as going over the title once, nothing of
the title is left that could start or end a tag, and nothing of it is lost.

* `escape_eq_replaced`: escaping, one character after the other.
* `exists_reference`: where a `&` stands in an escaped text.
* `decoded_escape`: escaped texts, decoded.
* `Svg.title_lossless`: what becomes of a title.
-/

namespace Arbor

namespace Markup

/-! ## Escaping in three passes -/

/-- A text with `new` in the place of every `c`. -/
def replaced (c : Char) (new t : LooseText) : LooseText :=
  t.flatMap fun p => if p = .char c then new else [p]

/-- Escaping is replacing the three characters one after the other, the `&` first. -/
theorem escape_eq_replaced (t : LooseText) :
    escape t = replaced '>' "&gt;" (replaced '<' "&lt;" (replaced '&' "&amp;" t)) := by
  have hpoint : ∀ p, escapePoint p = replaced '>' "&gt;" (replaced '<' "&lt;"
      (if p = .char '&' then "&amp;" else [p])) := by
    intro p
    unfold escapePoint
    split
    · decide
    · decide
    · decide
    · rename_i hamp hless hgreater
      have hother : p ≠ .char '&' ∧ p ≠ .char '<' ∧ p ≠ .char '>' := ⟨hamp, hless, hgreater⟩
      simp [replaced, hother]
  simp only [replaced, List.flatMap_assoc] at hpoint ⊢
  exact List.flatMap_congr fun p _ => hpoint p

example :
    escape (LooseText.ofString "a < b &lt; c") = LooseText.ofString "a &lt; b &amp;lt; c" := by
  decide

/-! ## References -/

/-- What follows the `&` of the references that escaping writes. -/
def references : List LooseText := ["amp;", "lt;", "gt;"]

/-- What is written for a code point has no `&`, except for one that starts a reference. -/
theorem exists_escapePoint (p : CodePoint) :
    ∃ q rest, escapePoint p = q :: rest ∧ .char '&' ∉ rest ∧
      (q = .char '&' → rest ∈ references) := by
  unfold escapePoint
  split
  · exact ⟨.char '&', "amp;", rfl, by decide, fun _ => by decide⟩
  · exact ⟨.char '&', "lt;", rfl, by decide, fun _ => by decide⟩
  · exact ⟨.char '&', "gt;", rfl, by decide, fun _ => by decide⟩
  · rename_i hamp _ _
    exact ⟨p, [], rfl, List.not_mem_nil, fun hp => absurd hp hamp⟩

theorem exists_append_of_not_mem {x y before after : LooseText} {p : CodePoint} (hp : p ∉ x)
    (h : x ++ y = before ++ p :: after) : ∃ more, y = more ++ p :: after := by
  rcases List.append_eq_append_iff.1 h with ⟨more, -, hy⟩ | ⟨more, hx, hy⟩
  · exact ⟨more, hy⟩
  · cases more with
    | nil => exact ⟨[], hy.symm⟩
    | cons q more =>
      obtain ⟨rfl, -⟩ := List.cons.inj hy
      exact absurd (by rw [hx]; simp) hp

/-- Every `&` of an escaped text starts a reference. -/
theorem exists_reference {t before after : LooseText}
    (h : escape t = before ++ .char '&' :: after) : ∃ r ∈ references, r <+: after := by
  induction t generalizing before with
  | nil => simp [escape] at h
  | cons p t ih =>
    obtain ⟨q, rest, hpoint, hrest, hreference⟩ := exists_escapePoint p
    rw [escape, List.flatMap_cons, ← escape, hpoint, List.cons_append] at h
    cases before with
    | nil =>
      obtain ⟨hq, hafter⟩ := List.cons.inj h
      exact ⟨rest, hreference hq, escape t, hafter⟩
    | cons q' before =>
      obtain ⟨more, hmore⟩ := exists_append_of_not_mem hrest (List.cons.inj h).2
      exact ih hmore

/-! ## Decoding -/

/-- A text with the references resolved from left to right, and all else left as it is. -/
def decoded : LooseText → LooseText
  | [] => []
  | .char '&' :: .char 'a' :: .char 'm' :: .char 'p' :: .char ';' :: rest =>
    .char '&' :: decoded rest
  | .char '&' :: .char 'l' :: .char 't' :: .char ';' :: rest => .char '<' :: decoded rest
  | .char '&' :: .char 'g' :: .char 't' :: .char ';' :: rest => .char '>' :: decoded rest
  | p :: rest => p :: decoded rest

/-- An escaped text is decoded as the text, also if the text itself has references in it. -/
theorem decoded_escape (t : LooseText) : decoded (escape t) = t := by
  induction t with
  | nil => rfl
  | cons p t ih =>
    rw [escape, List.flatMap_cons, ← escape]
    unfold escapePoint
    split
    · show CodePoint.char '&' :: decoded (escape t) = _
      rw [ih]
    · show CodePoint.char '<' :: decoded (escape t) = _
      rw [ih]
    · show CodePoint.char '>' :: decoded (escape t) = _
      rw [ih]
    · rename_i hamp _ _
      rw [List.singleton_append, decoded, ih]
      all_goals
        intros
        exact hamp ‹_›

theorem escape_injective : Function.Injective escape :=
  Function.LeftInverse.injective decoded_escape

end Markup

namespace Svg

open Markup

/-- Titles that are written alike are the same. -/
theorem titleLines_injective : Function.Injective fun t => titleLines (some t) := by
  intro t u h
  have hlines : ∀ t : LooseText, titleLines (some t) = if t = [] then [] else
      [LooseText.ofString "  <title>" ++ escape t ++ LooseText.ofString "</title>"] := by
    intro t
    simp [titleLines]
  simp only [hlines] at h
  by_cases ht : t = []
  · by_cases hu : u = []
    · rw [ht, hu]
    · simp [ht, hu] at h
  · by_cases hu : u = []
    · simp [ht, hu] at h
    · rw [if_neg ht, if_neg hu] at h
      have hescape := List.append_cancel_right (List.cons.inj h).1
      exact escape_injective (List.append_cancel_left hescape)

/-- **A title is escaped without loss, and has no part in the markup.** Escaping replaces three
characters one after the other. What comes out has no `<` and no `>`, every `&` in it starts one of
the references that were put in, and resolving these from left to right gives the title back. So
other titles have other elements, and wherever the line of a title stands, it is read as the two
tags of its element with the title between them. -/
theorem title_lossless (t : LooseText) :
    escape t = replaced '>' "&gt;" (replaced '<' "&lt;" (replaced '&' "&amp;" t)) ∧
      .char '<' ∉ escape t ∧ .char '>' ∉ escape t ∧
      (∀ before after, escape t = before ++ .char '&' :: after → ∃ r ∈ references, r <+: after) ∧
      decoded (escape t) = t ∧
      (∀ u, titleLines (some u) = titleLines (some t) → u = t) ∧
      ∀ before : List Mark,
        Scan.run ⟨before, .outside lineEnd⟩ (ended (titleLines (some t))) =
          some ⟨before ++ titleMarks (some t), .outside lineEnd⟩ := by
  refine ⟨escape_eq_replaced t, not_mem_escape (Or.inl rfl) t, not_mem_escape (Or.inr rfl) t, ?_,
    decoded_escape t, ?_, ?_⟩
  · intro before after h
    exact exists_reference h
  · intro u h
    exact titleLines_injective h
  · exact (readsAs_title (some t)).run_eq (List.forall_mem_nil _)

end Svg

end Arbor
