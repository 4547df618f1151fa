import Arbor.Drawing.Svg
import Arbor.Proofs.Drawing.Lines
import Arbor.Proofs.Fault.Outcome

/-!
# What a drawing is read as

Of the texts that are put into a drawing only the title is escaped. The background, the stroke and
the line cap are written as they are, so the drawing is read as it is meant exactly if they are
inert (`read?_documentLines_iff`). What it is meant to be has one element for each segment and
nothing that the texts have put there (`elements_documentMarks`).
-/

namespace Arbor

/-- The attributes of a tag that starts an element with a name. -/
def Markup.Tag.attributes? (name : LooseText) : Markup.Tag → Option Markup.Attributes
  | .opening n attributes | .empty n attributes => if n = name then some attributes else none
  | .declaration _ | .closing _ => none

namespace Svg

open Markup

/-- The attributes of the elements with a name, in the order of the elements. -/
def elements (name : String) (marks : List Mark) : List Attributes :=
  marks.filterMap fun mark => mark.tag.attributes? (LooseText.ofString name)

def declarationMark : Mark := ⟨[], .declaration "xml version=\"1.0\" encoding=\"UTF-8\"?"⟩

/-- The tags of a title, with the title before the second. -/
def titleMarks (title : Option LooseText) : List Mark :=
  (title.filter fun text => !text.isEmpty).toList.flatMap fun text =>
    [⟨"\n  ", .opening "title" []⟩, ⟨text, .closing "title"⟩]

def backgroundMarks (places : Nat) (box : ViewBox) (background : Option LooseText) : List Mark :=
  (background.filter showsBackground).toList.map fun fill =>
    ⟨"\n  ", .empty "rect" (plainAttributes (backgroundAttributes places box fill))⟩

def segmentMark (places : Nat) (style : SvgStyle) (s : Segment) : Mark :=
  ⟨"\n    ", .empty "line" (plainAttributes (segmentAttributes places style s))⟩

/-- The tags that a document is meant to have, and the texts before them. -/
def documentMarks (segments : List Segment) (options : SvgOptions) (title : Option LooseText)
    (places : Nat) (b : Bounds) (box : ViewBox) : List Mark :=
  declarationMark ::
    ([⟨"\n", .opening "svg" (plainAttributes (openingAttributes places box options))⟩] ++
      titleMarks title ++ backgroundMarks places box options.background ++
      [⟨"\n  ", .opening "g" (plainAttributes (groupAttributes places b options))⟩] ++
      segments.map (segmentMark places options.style) ++
      [⟨"\n  ", .closing "g"⟩, ⟨"\n", .closing "svg"⟩])

/-- The texts that are put into the values of attributes. -/
def insertedTexts (options : SvgOptions) : List LooseText :=
  (options.background.filter showsBackground).toList ++
    [options.style.stroke, options.style.lineCap]

theorem sizeAttributes_inert (places : Nat) {name : String} (h : IsName name)
    (size : Option Float) : ∀ a ∈ sizeAttributes places name size, IsName a.1 ∧ Inert a.2 := by
  unfold sizeAttributes
  split
  · split
    · exact List.forall_mem_nil _
    · exact List.forall_mem_singleton.2 ⟨h, inert_coordinate _ _⟩
  · exact List.forall_mem_nil _

theorem openingAttributes_inert (places : Nat) (box : ViewBox) (options : SvgOptions) :
    ∀ a ∈ openingAttributes places box options, IsName a.1 ∧ Inert a.2 := by
  have hblank : Inert (LooseText.ofString " ") := by decide
  have hcoordinate := inert_coordinate places
  simp only [openingAttributes, List.forall_mem_append, List.forall_mem_cons]
  refine ⟨⟨⟨by decide, by decide, ⟨by decide, ?_⟩, List.forall_mem_nil _⟩, ?_⟩, ?_⟩
  · simp only [LooseText.ofString_append]
    exact ((((((hcoordinate _).append hblank).append (hcoordinate _)).append hblank).append
      (hcoordinate _)).append hblank).append (hcoordinate _)
  · exact sizeAttributes_inert places (by decide) options.width
  · exact sizeAttributes_inert places (by decide) options.height

theorem readsAs_opening (places : Nat) (box : ViewBox) (options : SvgOptions) :
    ReadsAs [openingLine places box options]
      [⟨"\n", .opening "svg" (plainAttributes (openingAttributes places box options))⟩] [] := by
  have h := openingAttributes_inert places box options
  exact ReadsAs.tag "" (Or.inl ⟨rfl, rfl⟩) (by decide) rfl (by decide) (fun a ha => (h a ha).1)
    (fun a ha => Or.inl (h a ha).2) (List.nil_sublist _)

theorem readsAs_title (title : Option LooseText) :
    ReadsAs (titleLines title) (titleMarks title) [] := by
  cases title with
  | none => exact ReadsAs.nil
  | some text =>
    rw [titleLines, titleMarks, Option.filter_some]
    cases text.isEmpty with
    | true => exact ReadsAs.nil
    | false =>
      have hopen : ∀ before : List Mark,
          Scan.run ⟨before, .outside lineEnd⟩ (LooseText.ofString "  <title>") =
            some ⟨before ++ [⟨"\n  ", .opening "title" []⟩], .outside []⟩ := fun _ => rfl
      have hclose : ∀ before : List Mark, Scan.run ⟨before, .outside []⟩
          (escape text ++ LooseText.ofString "</title>") =
            some ⟨before ++ [⟨text, .closing "title"⟩], .outside []⟩ := fun before =>
        Scan.run_close (show IsName "title" by decide) (not_mem_escape (Or.inl rfl) text)
          (show unescape? ([] ++ escape text) = some text from unescape?_escape text)
      refine ReadsAs.of_run_eq (fun before => ?_) ?_
      · show Scan.run _ (ended [_ ++ _ ++ _]) = _
        rw [ended_singleton, Scan.run_append, List.append_assoc, Scan.run_append, hopen,
          Option.bind_some, hclose, Option.bind_some, List.append_assoc]
        rfl
      · have hquotes : quotes "\n  " = 0 := by decide
        simp [ended_singleton, quotes_append, quotes_escape, Mark.quotes, Tag.quotes, hquotes]
        omega

theorem readsAs_background (places : Nat) (box : ViewBox) (background : Option LooseText) :
    ReadsAs (backgroundLines places box background) (backgroundMarks places box background)
      (background.filter showsBackground).toList := by
  cases background with
  | none => exact ReadsAs.nil
  | some fill =>
    rw [backgroundLines, backgroundMarks, Option.filter_some]
    split
    next hshown =>
      have hcoordinate := inert_coordinate places
      refine ReadsAs.tag "  " (Or.inr ⟨rfl, rfl⟩) (by decide) rfl (by decide) ?_ ?_ ?_
      · simp only [backgroundAttributes, List.forall_mem_cons]
        decide
      · simp [backgroundAttributes, hcoordinate]
      · simp [backgroundAttributes]
    next => exact ReadsAs.nil

theorem readsAs_group (places : Nat) (b : Bounds) (options : SvgOptions) :
    ReadsAs [groupLine places b options]
      [⟨"\n  ", .opening "g" (plainAttributes (groupAttributes places b options))⟩]
      [options.style.stroke, options.style.lineCap] := by
  refine ReadsAs.tag "  " (Or.inl ⟨rfl, rfl⟩) (by decide) rfl (by decide) ?_ ?_ ?_
  · simp only [groupAttributes, List.forall_mem_append, List.forall_mem_cons]
    refine ⟨?_, by decide⟩
    split
    · exact List.forall_mem_singleton.2 (show IsName "transform" by decide)
    · exact List.forall_mem_nil _
  · simp only [groupAttributes, List.forall_mem_append, List.forall_mem_cons]
    refine ⟨?_, by simp⟩
    split
    · have htranslate : Inert (LooseText.ofString "translate(0,") := by decide
      refine List.forall_mem_singleton.2 (Or.inl ?_)
      simp only [LooseText.ofString_append]
      exact (htranslate.append (inert_coordinate _ _)).append (by decide)
    · exact List.forall_mem_nil _
  · rw [groupAttributes, List.map_append]
    exact List.sublist_append_right _ _

theorem readsAs_segment (places : Nat) (style : SvgStyle) (s : Segment) :
    ReadsAs [segmentLine places style s] [segmentMark places style s] [] := by
  have hcoordinate := inert_coordinate places
  refine ReadsAs.tag "    " (Or.inr ⟨rfl, rfl⟩) (by decide) rfl (by decide) ?_ ?_
    (List.nil_sublist _)
  · simp only [segmentAttributes, List.forall_mem_cons]
    decide
  · simp [segmentAttributes, hcoordinate]

def declarationLine : LooseText := "<?xml version=\"1.0\" encoding=\"UTF-8\"?>"

theorem readsAs_tail (segments : List Segment) (options : SvgOptions) (title : Option LooseText)
    (places : Nat) (b : Bounds) (box : ViewBox) :
    ReadsAs (documentLines segments options title places b box).tail
      (documentMarks segments options title places b box).tail (insertedTexts options) := by
  have hclose : ReadsAs [LooseText.ofString "  </g>", LooseText.ofString "</svg>"]
      [⟨"\n  ", .closing "g"⟩, ⟨"\n", .closing "svg"⟩] [] :=
    (ReadsAs.close "  " (show IsName "g" by decide) rfl (by decide)).append
      (ReadsAs.close "" (show IsName "svg" by decide) rfl (by decide))
  have h := (((((readsAs_opening places box options).append (readsAs_title title)).append
    (readsAs_background places box options.background)).append
    (readsAs_group places b options)).append
    (ReadsAs.map (readsAs_segment places options.style) segments)).append hclose
  rw [List.append_nil, List.append_nil] at h
  exact h

/-- A document is read as the tags it is meant to have exactly if the texts that are put into the
values of attributes are inert. -/
theorem read?_documentLines_iff (segments : List Segment) (options : SvgOptions)
    (title : Option LooseText) (places : Nat) (b : Bounds) (box : ViewBox) :
    read? (ended (documentLines segments options title places b box)) =
        some (documentMarks segments options title places b box, lineEnd) ↔
      ∀ t ∈ insertedTexts options, Inert t := by
  have h := readsAs_tail segments options title places b box
  have hlines : documentLines segments options title places b box =
      declarationLine :: (documentLines segments options title places b box).tail := rfl
  have hmarks : documentMarks segments options title places b box =
      declarationMark :: (documentMarks segments options title places b box).tail := rfl
  generalize (documentLines segments options title places b box).tail = lines at h hlines
  generalize (documentMarks segments options title places b box).tail = marks at h hmarks
  have hended : ended (declarationLine :: lines) = (declarationLine ++ lineEnd) ++ ended lines :=
    List.flatMap_cons
  have hfirst : Scan.run ⟨[], .outside []⟩ (declarationLine ++ lineEnd) =
      some ⟨[declarationMark], .outside lineEnd⟩ := rfl
  rw [hlines, hmarks, hended]
  constructor
  · intro hread
    have hquotes := quotes_of_read? hread
    have hdeclaration : quotes (declarationLine ++ lineEnd) = declarationMark.quotes := by decide
    have hlineEnd : quotes lineEnd = 0 := rfl
    have hle := h.le_quotes
    rw [quotes_append, hdeclaration, hlineEnd, List.map_cons, List.sum_cons] at hquotes
    have hsum : ((insertedTexts options).map quotes).sum = 0 := by omega
    have hquote : ∀ t ∈ insertedTexts options, .char '"' ∉ t := fun t ht =>
      List.count_eq_zero.1 (List.sum_eq_zero_iff.1 hsum _ (List.mem_map_of_mem ht))
    unfold read? at hread
    rw [Scan.run_append, hfirst, Option.bind_some] at hread
    cases hrun : Scan.run ⟨[declarationMark], .outside lineEnd⟩ (ended lines) with
    | none =>
      rw [hrun] at hread
      cases hread
    | some s =>
      obtain ⟨read, -, rfl, hinert⟩ := h.of_run hquote _ s hrun
      rw [hrun] at hread
      obtain ⟨rest, -, heq⟩ := Option.map_eq_some_iff.1 hread
      exact hinert (List.cons.inj (Prod.mk.inj heq).1).2
  · intro hinert
    unfold read?
    rw [Scan.run_append, hfirst, Option.bind_some, h.run_eq hinert]
    rfl

theorem elements_append (name : String) (l m : List Mark) :
    elements name (l ++ m) = elements name l ++ elements name m := List.filterMap_append

theorem elements_cons (name : String) (before : LooseText) (tag : Tag) (marks : List Mark) :
    elements name (⟨before, tag⟩ :: marks) =
      (tag.attributes? (LooseText.ofString name)).toList ++ elements name marks := by
  rw [elements, List.filterMap_cons, ← elements]
  cases tag.attributes? (LooseText.ofString name) <;> rfl

theorem elements_map {α : Type} (before n : LooseText) (attributes : α → Attributes) (l : List α)
    (name : String) :
    elements name (l.map fun a => ⟨before, .empty n (attributes a)⟩) =
      if n = LooseText.ofString name then l.map attributes else [] := by
  induction l with
  | nil => exact (ite_self _).symm
  | cons a l ih =>
    rw [List.map_cons, elements_cons, ih, Tag.attributes?]
    split <;> rfl

theorem elements_titleMarks (name : String) (title : Option LooseText) :
    elements name (titleMarks title) =
      if name = "title" then (title.filter fun text => !text.isEmpty).toList.map fun _ => []
      else [] := by
  rw [titleMarks]
  cases title.filter fun text => !text.isEmpty with
  | none => exact (ite_self _).symm
  | some text =>
    show elements name [_, _] = _
    rw [elements_cons, elements_cons, Tag.attributes?, Tag.attributes?]
    by_cases hname : "title" = name
    · simp [hname, elements]
    · simp [hname, LooseText.ofString_inj, Ne.symm hname, elements]

/-- The elements of a document, whatever texts are put into it. -/
theorem elements_documentMarks (segments : List Segment) (options : SvgOptions)
    (title : Option LooseText) (places : Nat) (b : Bounds) (box : ViewBox) :
    let marks := documentMarks segments options title places b box
    (elements "svg" marks).length = 1 ∧ (elements "title" marks).length ≤ 1 ∧
      (elements "rect" marks).length ≤ 1 ∧ (elements "g" marks).length = 1 ∧
      elements "line" marks =
        segments.map fun s => plainAttributes (segmentAttributes places options.style s) := by
  have hline : segments.map (segmentMark places options.style) = segments.map fun s =>
    ⟨"\n    ", .empty "line" (plainAttributes (segmentAttributes places options.style s))⟩ := rfl
  simp only [documentMarks, declarationMark, hline, backgroundMarks, elements_cons,
    elements_append, elements_map, elements_titleMarks, Tag.attributes?, LooseText.ofString_inj]
  simp [elements]

/-- The bounds of a document, its box and the places of its coordinates. -/
theorem exists_of_render {segments : List Segment} {options : SvgOptions}
    {title : Option LooseText} {document : LooseText}
    (h : render segments options title = .ok document) :
    ∃ b box places, (Bounds.ofSegments segments).bind (widen · options.margin) = .ok b ∧
      viewBox b = .ok box ∧ readPlaces options.places = .ok places ∧
      document = ended (documentLines segments options title places b box) := by
  obtain ⟨bounds, hbounds, h⟩ := bind_eq_ok_iff.1 h
  obtain ⟨b, hb, h⟩ := bind_eq_ok_iff.1 h
  obtain ⟨box, hbox, h⟩ := bind_eq_ok_iff.1 h
  obtain ⟨places, hplaces, h⟩ := bind_eq_ok_iff.1 h
  cases h
  refine ⟨b, box, places, ?_, hbox, hplaces, rfl⟩
  rw [hbounds]
  exact hb

/-- A drawing is read as the tags it is meant to have exactly if the texts that are put into the
values of attributes are inert. These tags are those of one document with one group, at most one
title and at most one background, and a line for each segment, in their order. -/
theorem render_read_iff {segments : List Segment} {options : SvgOptions} {title : Option LooseText}
    {document : LooseText} (h : render segments options title = .ok document) :
    ∃ b box places, (Bounds.ofSegments segments).bind (widen · options.margin) = .ok b ∧
      viewBox b = .ok box ∧ readPlaces options.places = .ok places ∧
      let marks := documentMarks segments options title places b box
      (read? document = some (marks, lineEnd) ↔ ∀ t ∈ insertedTexts options, Inert t) ∧
        (elements "svg" marks).length = 1 ∧ (elements "title" marks).length ≤ 1 ∧
        (elements "rect" marks).length ≤ 1 ∧ (elements "g" marks).length = 1 ∧
        elements "line" marks =
          segments.map fun s => plainAttributes (segmentAttributes places options.style s) := by
  obtain ⟨b, box, places, hb, hbox, hplaces, rfl⟩ := exists_of_render h
  exact ⟨b, box, places, hb, hbox, hplaces, read?_documentLines_iff _ _ _ _ _ _,
    elements_documentMarks _ _ _ _ _ _⟩

/-- A title with a `<` and a background with a plain name. -/
theorem render_read_white : ∃ document marks,
    render [⟨⟨0.0, 0.0⟩, ⟨1.0, 1.0⟩, 1.0⟩] { background := some "white" } (some "a < \"b\"") =
      .ok document ∧
    read? document = some (marks, lineEnd) ∧ (elements "line" marks).length = 1 := by
  have hok : (render [⟨⟨0.0, 0.0⟩, ⟨1.0, 1.0⟩, 1.0⟩] { background := some "white" }
      (some "a < \"b\"")).isOk = true := by decide +kernel
  cases hrender : render [⟨⟨0.0, 0.0⟩, ⟨1.0, 1.0⟩, 1.0⟩] { background := some "white" }
      (some "a < \"b\"") with
  | error =>
    rw [hrender] at hok
    cases hok
  | ok document =>
    obtain ⟨b, box, places, -, -, -, hread, -, -, -, -, hline⟩ := render_read_iff hrender
    exact ⟨document, _, rfl, hread.2 (by decide +kernel), congrArg List.length hline⟩

/-- A stroke that is a quotation mark ends the value it is put into, and what follows is no tag. -/
theorem not_forall_render_read : ¬ ∀ segments options title document,
    segments ≠ [] → render segments options title = .ok document →
      ∃ marks rest, read? document = some (marks, rest) ∧
        (∃ group, elements "g" marks = [group] ∧
          (LooseText.ofString "stroke", options.style.stroke) ∈ group ∧
          (LooseText.ofString "stroke-linecap", options.style.lineCap) ∈ group) ∧
        (elements "svg" marks).length = 1 ∧ (elements "title" marks).length ≤ 1 ∧
        (elements "rect" marks).length ≤ 1 ∧
        (elements "line" marks).length = segments.length := by
  intro h
  have hnone : (render [⟨⟨0.0, 0.0⟩, ⟨1.0, 1.0⟩, 1.0⟩] { style := { stroke := "\"" } }
      none).map (fun document => (read? document).isNone) = .ok true := by decide +kernel
  cases hrender : render [⟨⟨0.0, 0.0⟩, ⟨1.0, 1.0⟩, 1.0⟩] { style := { stroke := "\"" } } none with
  | error =>
    rw [hrender] at hnone
    cases hnone
  | ok document =>
    obtain ⟨marks, rest, hread, -⟩ := h _ _ _ document (List.cons_ne_nil _ _) hrender
    rw [hrender, Except.map, hread] at hnone
    cases hnone

end Svg

end Arbor
