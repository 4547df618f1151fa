import Arbor.Proofs.Decimal.Fixed
import Arbor.Proofs.Drawing.Quotes

/-!
# Lines of tags

Lines in markup are read one by one, and what they are read as is put together. The coordinates
and the indents of the lines are inert; other texts that are put into the values of attributes need
not be. `ReadsAs` says of some lines that they are read as the tags they are meant to be exactly if
the texts that were put into them are inert, in a form that `ReadsAs.append` carries over to more
lines.
-/

namespace Arbor.Markup

/-! ## Coordinates -/

instance (t : LooseText) : Decidable (Inert t) :=
  inferInstanceAs (Decidable (_ ∧ _ ∧ _))

theorem Inert.append {u v : LooseText} (hu : Inert u) (hv : Inert v) : Inert (u ++ v) :=
  ⟨fun h => (List.mem_append.1 h).elim hu.1 hv.1,
    fun h => (List.mem_append.1 h).elim hu.2.1 hv.2.1,
    fun h => (List.mem_append.1 h).elim hu.2.2 hv.2.2⟩

/-- What numbers are written with is inert. -/
theorem inert_of_plain {s : String} (h : Decimal.Plain s.toList) :
    Inert (LooseText.ofString s) := by
  have hchar : ∀ c ∉ Decimal.numeralChars, CodePoint.char c ∉ LooseText.ofString s := by
    intro c hc hmem
    obtain ⟨d, hd, hcd⟩ := List.mem_map.1 hmem
    cases hcd
    exact hc (h _ hd)
  exact ⟨hchar '"' (by decide), hchar '<' (by decide), hchar '&' (by decide)⟩

theorem dropTrailing_subset (c : Char) (s : List Char) : dropTrailing c s ⊆ s := by
  intro d hd
  exact List.mem_reverse.1 (List.dropWhile_subset _ (List.mem_reverse.1 hd))

theorem stripFraction_subset (s : List Char) : stripFraction s ⊆ s := by
  unfold stripFraction
  split
  · exact List.Subset.trans (dropTrailing_subset _ _) (dropTrailing_subset _ _)
  · exact List.Subset.refl s

theorem plain_coordinate (places : Nat) (x : Float) :
    Decimal.Plain (coordinate places x).toList := by
  simp only [coordinate]
  generalize (if x == 0.0 then 0.0 else x) = y
  split
  · simp [Decimal.Plain, Decimal.numeralChars]
  · rw [String.toList_ofList]
    exact (Decimal.plain_fixed _ _).subset (stripFraction_subset _)

theorem inert_coordinate (places : Nat) (x : Float) :
    Inert (LooseText.ofString (coordinate places x)) := inert_of_plain (plain_coordinate places x)

/-! ## Quotation marks of a tag -/

theorem quotes_attribute (name : String) (value : LooseText) :
    2 + quotes value ≤
      quotes (LooseText.ofString (" " ++ name ++ "=\"") ++ value ++ LooseText.ofString "\"") := by
  have hstart : quotes (LooseText.ofString "=\"") = 1 := by decide
  have hstop : quotes (LooseText.ofString "\"") = 1 := by decide
  rw [quotes_append, quotes_append, LooseText.ofString_append, quotes_append, hstart, hstop]
  omega

/-- A tag has two quotation marks for each attribute, besides those of the values. -/
theorem quotes_tag (opening ending : String) (attributes : List (String × LooseText)) :
    2 * attributes.length + (attributes.map fun a => quotes a.2).sum ≤
      quotes (tag opening attributes ending) := by
  rw [tag, quotes_append, quotes_append]
  induction attributes with
  | nil => simp
  | cons a attributes ih =>
    obtain ⟨name, value⟩ := a
    have hattribute := quotes_attribute name value
    simp only [List.flatMap_cons, quotes_append, List.map_cons, List.sum_cons, List.length_cons]
      at hattribute ih ⊢
    omega

/-- Escaping leaves quotation marks alone. -/
theorem quotes_escape (t : LooseText) : quotes (escape t) = quotes t := by
  induction t with
  | nil => rfl
  | cons p t ih =>
    have hpoint : quotes (escapePoint p) = quotes [p] := by
      unfold escapePoint
      split <;> first | decide | rfl
    rw [escape, List.flatMap_cons, ← escape, quotes_append, ih, hpoint, ← quotes_append]
    rfl

/-! ## Lines -/

def lineEnd : LooseText := [.char '\n']

/-- Lines as a text, each of them ended. -/
def ended (lines : List LooseText) : LooseText := lines.flatMap (· ++ lineEnd)

theorem ended_append (l m : List LooseText) : ended (l ++ m) = ended l ++ ended m :=
  List.flatMap_append

theorem ended_singleton (line : LooseText) : ended [line] = line ++ lineEnd := List.append_nil _

/-- Lines into which some texts are put, and the tags that they are read as if these texts are
inert. If one of them is not, the lines are read as something else or have more quotation marks
than the tags need. -/
structure ReadsAs (lines : List LooseText) (marks : List Mark) (texts : List LooseText) : Prop where
  run_eq : (∀ t ∈ texts, Inert t) → ∀ before : List Mark,
    Scan.run ⟨before, .outside lineEnd⟩ (ended lines) = some ⟨before ++ marks, .outside lineEnd⟩
  of_run : (∀ t ∈ texts, .char '"' ∉ t) → ∀ (before : List Mark) (s : Scan),
    Scan.run ⟨before, .outside lineEnd⟩ (ended lines) = some s →
      ∃ read, read.length = marks.length ∧ s = ⟨before ++ read, .outside lineEnd⟩ ∧
        (read = marks → ∀ t ∈ texts, Inert t)
  le_quotes : (marks.map Mark.quotes).sum + (texts.map quotes).sum ≤ quotes (ended lines)

namespace ReadsAs

variable {lines lines' : List LooseText} {marks marks' : List Mark} {texts texts' : List LooseText}

theorem nil : ReadsAs [] [] [] where
  run_eq _ before := by
    rw [List.append_nil]
    rfl
  of_run _ before s h := by
    cases h
    exact ⟨[], rfl, by rw [List.append_nil], fun _ => List.forall_mem_nil _⟩
  le_quotes := Nat.le_refl _

theorem append (h : ReadsAs lines marks texts) (h' : ReadsAs lines' marks' texts') :
    ReadsAs (lines ++ lines') (marks ++ marks') (texts ++ texts') where
  run_eq hinert before := by
    rw [List.forall_mem_append] at hinert
    rw [ended_append, Scan.run_append, h.run_eq hinert.1, Option.bind_some, h'.run_eq hinert.2,
      List.append_assoc]
  of_run hquote before s hrun := by
    rw [List.forall_mem_append] at hquote
    rw [ended_append, Scan.run_append, Option.bind_eq_some_iff] at hrun
    obtain ⟨middle, hfirst, hrun⟩ := hrun
    obtain ⟨read, hlength, rfl, hread⟩ := h.of_run hquote.1 before middle hfirst
    obtain ⟨read', hlength', rfl, hread'⟩ := h'.of_run hquote.2 _ s hrun
    refine ⟨read ++ read', by rw [List.length_append, List.length_append, hlength, hlength'],
      by rw [List.append_assoc], fun heq => ?_⟩
    obtain ⟨hfst, hsnd⟩ := List.append_inj heq hlength
    exact List.forall_mem_append.2 ⟨hread hfst, hread' hsnd⟩
  le_quotes := by
    have hle := h.le_quotes
    have hle' := h'.le_quotes
    rw [ended_append, quotes_append, List.map_append, List.sum_append, List.map_append,
      List.sum_append]
    omega

/-- Lines that no text is put into. -/
theorem of_run_eq
    (hrun : ∀ before : List Mark, Scan.run ⟨before, .outside lineEnd⟩ (ended lines) =
      some ⟨before ++ marks, .outside lineEnd⟩)
    (hquotes : (marks.map Mark.quotes).sum ≤ quotes (ended lines)) : ReadsAs lines marks [] where
  run_eq _ := hrun
  of_run _ before s h := by
    rw [hrun before] at h
    cases h
    exact ⟨marks, rfl, rfl, fun _ => List.forall_mem_nil _⟩
  le_quotes := hquotes

/-- A line for each item of a list. -/
theorem map {α : Type} {line : α → LooseText} {mark : α → Mark}
    (h : ∀ a, ReadsAs [line a] [mark a] []) (l : List α) :
    ReadsAs (l.map line) (l.map mark) [] := by
  induction l with
  | nil => exact nil
  | cons a l ih => exact (h a).append ih

/-- A line that is a tag whose values are inert or among the texts. -/
theorem tag (indent : LooseText) {ending : String} {tag : LooseText → Attributes → Tag}
    (htag : ending = ">" ∧ tag = .opening ∨ ending = " />" ∧ tag = .empty)
    {opening name : String} (hname : IsName name)
    (hopening : LooseText.ofString opening = indent ++ .char '<' :: LooseText.ofString name)
    (hindent : Inert indent) {attributes : List (String × LooseText)}
    (hnames : ∀ a ∈ attributes, IsName a.1) (hvalues : ∀ a ∈ attributes, Inert a.2 ∨ a.2 ∈ texts)
    (htexts : texts.Sublist (attributes.map Prod.snd)) :
    ReadsAs [Markup.tag opening attributes ending]
      [⟨lineEnd ++ indent, tag (LooseText.ofString name) (plainAttributes attributes)⟩] texts := by
  have hending : ∀ (marks : List Mark) place (d : Draft), place.Follows d →
      Scan.run ⟨marks, place⟩ (LooseText.ofString ending) =
        some ⟨marks ++ [⟨d.before, tag d.name d.attributes⟩], .outside []⟩ := by
    intro marks place d hplace
    rcases htag with ⟨rfl, rfl⟩ | ⟨rfl, rfl⟩
    · exact Scan.run_opening hplace
    · exact Scan.run_empty hplace
  have hquotes : ∀ name attributes, (tag name attributes).quotes = 2 * attributes.length := by
    rcases htag with ⟨-, rfl⟩ | ⟨-, rfl⟩ <;> exact fun _ _ => rfl
  have hinj : ∀ name, Function.Injective (tag name) := by
    rcases htag with ⟨-, rfl⟩ | ⟨-, rfl⟩ <;> exact fun _ _ _ h => by injection h
  have hinert : Inert (lineEnd ++ indent) := Inert.append (by decide) hindent
  have hbefore : unescape? (lineEnd ++ indent) = some (lineEnd ++ indent) :=
    unescape?_of_not_mem hinert.2.2
  have hrun : ∀ before : List Mark, (∀ t ∈ texts, .char '"' ∉ t) →
      Scan.run ⟨before, .outside lineEnd⟩ (ended [Markup.tag opening attributes ending]) =
        (readAttributes? attributes).map fun read =>
          ⟨before ++ [⟨lineEnd ++ indent, tag (LooseText.ofString name) read⟩],
            .outside lineEnd⟩ := by
    intro before hquote
    have hvalue : ∀ a ∈ attributes, .char '"' ∉ a.2 := fun a ha =>
      (hvalues a ha).elim (·.1) (hquote a.2)
    rw [ended_singleton, Scan.run_append,
      Scan.run_tag hending hname hopening hindent.2.1 hnames hvalue hbefore]
    cases readAttributes? attributes <;> rfl
  refine ⟨fun hinert before => ?_, fun hquote before s h => ?_, ?_⟩
  · have hplain : ∀ a ∈ attributes, .char '<' ∉ a.2 ∧ .char '&' ∉ a.2 := fun a ha =>
      ((hvalues a ha).elim id (hinert a.2)).2
    rw [hrun before fun t ht => (hinert t ht).1, readAttributes?_eq_plain_iff.2 hplain]
    rfl
  · rw [hrun before hquote, Option.map_eq_some_iff] at h
    obtain ⟨read, hread, rfl⟩ := h
    refine ⟨[⟨lineEnd ++ indent, tag (LooseText.ofString name) read⟩], rfl, rfl,
      fun heq t ht => ⟨hquote t ht, ?_⟩⟩
    obtain ⟨-, htags⟩ := Mark.mk.inj (List.singleton_injective heq)
    rw [hinj _ htags, readAttributes?_eq_plain_iff] at hread
    obtain ⟨a, ha, rfl⟩ := List.mem_map.1 (htexts.subset ht)
    exact hread a ha
  · have hle := quotes_tag opening ending attributes
    have hsum := (htexts.map quotes).sum_le_sum fun n _ => Nat.zero_le n
    have hbeforeQuotes : quotes (lineEnd ++ indent) = 0 := List.count_eq_zero.2 hinert.1
    rw [List.map_map] at hsum
    simp only [Function.comp_def] at hsum
    simp only [List.map_cons, List.map_nil, List.sum_cons, List.sum_nil, Mark.quotes, hquotes,
      hbeforeQuotes, ended_singleton, quotes_append, plainAttributes, List.length_map]
    omega

/-- The line that closes an element. -/
theorem close {line name : String} (indent : LooseText) (hname : IsName name)
    (hline : LooseText.ofString line =
      indent ++ .char '<' :: .char '/' :: (LooseText.ofString name ++ [.char '>']))
    (hindent : Inert indent) :
    ReadsAs [LooseText.ofString line]
      [⟨lineEnd ++ indent, .closing (LooseText.ofString name)⟩] [] := by
  have hinert : Inert (lineEnd ++ indent) := Inert.append (by decide) hindent
  refine of_run_eq (fun before => ?_) ?_
  · rw [ended_singleton, hline, Scan.run_append,
      Scan.run_close hname hindent.2.1 (unescape?_of_not_mem hinert.2.2)]
    rfl
  · have hquotes : quotes (lineEnd ++ indent) = 0 := List.count_eq_zero.2 hinert.1
    simp [Mark.quotes, Tag.quotes, hquotes]

end ReadsAs

end Arbor.Markup
