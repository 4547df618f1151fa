import Arbor.Proofs.Drawing.Reading

/-!
# Quotation marks in markup

A scan drops no quotation mark: each one starts or ends a value, or is part of a text that is read
(`quotes_step`, `quotes_run`). So a text with more quotation marks than some tags need is not read
as these tags (`quotes_of_read?`).
-/

namespace Arbor.Markup

def quotes (t : LooseText) : Nat := t.count (.char '"')

theorem quotes_append (u v : LooseText) : quotes (u ++ v) = quotes u + quotes v := List.count_append

/-- Quotation marks stand for themselves, and there are references to others. -/
theorem quotes_le_of_unescape? {t u : LooseText} (h : unescape? t = some u) :
    quotes t ≤ quotes u := by
  fun_induction unescape? t generalizing u with
  | case1 =>
    cases h
    exact Nat.le_refl _
  | case7 rest => cases h
  | _ =>
    rename_i ih
    obtain ⟨v, hv, rfl⟩ := Option.map_eq_some_iff.1 h
    have hle := ih hv
    simp [quotes, List.count_cons] at hle ⊢
    omega

/-- The quotation marks that a tag cannot be without. -/
def Tag.quotes : Tag → Nat
  | .declaration content => Markup.quotes content
  | .opening _ attributes | .empty _ attributes => 2 * attributes.length
  | .closing _ => 0

/-- The quotation marks that a tag and the text before it cannot be without. -/
def Mark.quotes (m : Mark) : Nat := Markup.quotes m.before + m.tag.quotes

/-- The quotation marks of a tag that has not ended yet. -/
def Draft.quotes (d : Draft) : Nat := Markup.quotes d.before + 2 * d.attributes.length

/-- The quotation marks since the last tag that has ended. -/
def Place.quotes : Place → Nat
  | .outside raw => Markup.quotes raw
  | .begun before | .closing before _ => Markup.quotes before
  | .declaration before content => Markup.quotes before + Markup.quotes content
  | .value d _ _ => d.quotes + 1
  | .named d | .gap d | .key d _ | .equals d _ | .closed d | .ending d => d.quotes

/-- The quotation marks of the tags that have ended, and those since. -/
def Scan.quotes (s : Scan) : Nat := (s.marks.map Mark.quotes).sum + s.place.quotes

theorem quotes_of_ne {p : CodePoint} (h : p ≠ .char '"') : quotes [p] = 0 :=
  List.count_eq_zero.2 fun hmem => h (List.mem_singleton.1 hmem).symm

theorem quotes_emit (s : Scan) (before : LooseText) (tag : Tag) :
    (s.emit before tag).quotes = (s.marks.map Mark.quotes).sum + (quotes before + tag.quotes) := by
  simp [Scan.quotes, Scan.emit, Place.quotes, Mark.quotes, quotes]

/-- What follows a name, a value or a blank is no quotation mark. -/
theorem quotes_stepTag {s s' : Scan} {d : Draft} {p : CodePoint} (h : s.stepTag d p = some s') :
    (s.marks.map Mark.quotes).sum + d.quotes + quotes [p] ≤ s'.quotes := by
  unfold Scan.stepTag at h
  split_ifs at h with hend hslash hblank <;> cases h
  · rw [quotes_emit, quotes_of_ne (by rw [hend]; decide)]
    exact Nat.le_of_eq (by rw [Draft.quotes, Tag.quotes]; rfl)
  · rw [quotes_of_ne (by rw [hslash]; decide)]
    rfl
  · have hp : p ≠ .char '"' := by
      rintro rfl
      exact absurd hblank (by decide)
    rw [quotes_of_ne hp]
    rfl

/-- No step of a scan passes over a quotation mark. -/
theorem quotes_step {s s' : Scan} {p : CodePoint} (h : s.step p = some s') :
    s.quotes + quotes [p] ≤ s'.quotes := by
  have hname : ∀ {p : CodePoint}, isNamePoint p = true → quotes [p] = 0 := fun hp =>
    quotes_of_ne (Scan.ne_of_isNamePoint hp (by decide))
  obtain ⟨marks, place⟩ := s
  cases place with
  | outside raw =>
    simp only [Scan.step] at h
    split at h
    next hp =>
      obtain ⟨before, hbefore, rfl⟩ := Option.map_eq_some_iff.1 h
      have hle := quotes_le_of_unescape? hbefore
      rw [quotes_of_ne (by rw [hp]; decide)]
      simp only [Scan.quotes, Place.quotes]
      omega
    next =>
      cases h
      simp only [Scan.quotes, Place.quotes, quotes_append]
      omega
  | begun before =>
    simp only [Scan.step] at h
    split_ifs at h with hmark hslash hpoint <;> cases h
    · rw [quotes_of_ne (by rw [hmark]; decide)]
      simp [Scan.quotes, Place.quotes, quotes]
    · rw [quotes_of_ne (by rw [hslash]; decide)]
      simp [Scan.quotes, Place.quotes]
    · rw [hname hpoint]
      simp [Scan.quotes, Place.quotes, Draft.quotes]
  | declaration before content =>
    simp only [Scan.step] at h
    split_ifs at h with hend <;> cases h
    · rw [quotes_of_ne (by rw [hend]; decide), quotes_emit]
      simp [Scan.quotes, Place.quotes, Tag.quotes]
    · simp only [Scan.quotes, Place.quotes, quotes_append]
      omega
  | closing before name =>
    simp only [Scan.step] at h
    split_ifs at h with hend hpoint <;> cases h
    · rw [quotes_of_ne (by rw [hend]; decide), quotes_emit]
      simp [Scan.quotes, Place.quotes, Tag.quotes]
    · rw [hname hpoint]
      simp [Scan.quotes, Place.quotes]
  | named d =>
    simp only [Scan.step] at h
    split at h
    next hpoint =>
      cases h
      rw [hname hpoint]
      simp [Scan.quotes, Place.quotes, Draft.quotes]
    next => exact quotes_stepTag h
  | gap d =>
    simp only [Scan.step] at h
    split at h
    next hpoint =>
      cases h
      rw [hname hpoint]
      simp [Scan.quotes, Place.quotes]
    next => exact quotes_stepTag h
  | key d key =>
    simp only [Scan.step] at h
    split_ifs at h with hequals hpoint <;> cases h
    · rw [quotes_of_ne (by rw [hequals]; decide)]
      simp [Scan.quotes, Place.quotes]
    · rw [hname hpoint]
      simp [Scan.quotes, Place.quotes]
  | equals d key =>
    simp only [Scan.step] at h
    split_ifs at h with hquote
    cases h
    rw [hquote]
    simp [Scan.quotes, Place.quotes, quotes]
  | value d key raw =>
    simp only [Scan.step] at h
    split_ifs at h with hquote hless
    · obtain ⟨value, -, rfl⟩ := Option.map_eq_some_iff.1 h
      rw [hquote]
      simp [Scan.quotes, Place.quotes, Draft.quotes, quotes]
      omega
    · cases h
      rw [quotes_of_ne hquote]
      simp [Scan.quotes, Place.quotes]
  | closed d => exact quotes_stepTag h
  | ending d =>
    simp only [Scan.step] at h
    split_ifs at h with hend
    cases h
    rw [quotes_of_ne (by rw [hend]; decide), quotes_emit]
    simp [Scan.quotes, Place.quotes, Draft.quotes, Tag.quotes]

theorem quotes_run {s s' : Scan} {t : LooseText} (h : s.run t = some s') :
    s.quotes + quotes t ≤ s'.quotes := by
  induction t generalizing s with
  | nil =>
    cases h
    exact Nat.le_refl _
  | cons p t ih =>
    rw [Scan.run_cons, Option.bind_eq_some_iff] at h
    obtain ⟨next, hstep, h⟩ := h
    have hfirst := quotes_step hstep
    have hrest := ih h
    rw [← List.singleton_append, quotes_append]
    omega

/-- Whatever a text is read as has all of its quotation marks. -/
theorem quotes_of_read? {t rest : LooseText} {marks : List Mark}
    (h : read? t = some (marks, rest)) : quotes t ≤ (marks.map Mark.quotes).sum + quotes rest := by
  unfold read? at h
  split at h
  next marks' raw hrun =>
    obtain ⟨rest', hrest, heq⟩ := Option.map_eq_some_iff.1 h
    cases heq
    have hle := quotes_run hrun
    have hraw := quotes_le_of_unescape? hrest
    simp only [Scan.quotes, Place.quotes] at hle
    omega
  next => cases h

end Arbor.Markup
