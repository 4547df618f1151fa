import Arbor.Plan
import Arbor.Proofs.Drawing.Coordinate
import Arbor.Proofs.Drawing.Document
import Arbor.Proofs.Plan.Fields
import Arbor.Proofs.Text.Cutting

/-!
# The box of a drawing

A drawing is refused if its box has no extent. This is decided on the doubles of the box, and what
is written are these doubles rounded, so a box can be written that has no extent (as in
`not_forall_render_box`), or one with an infinity for an entry. `render_box_iff` says when it is not
so: the corner is finite, and the extent and the size that is asked for are finite and more than
half a unit in the last place that is written.
-/

namespace Arbor

open Binary64 (NonNegative Positive)

/-! ## Options that can be read -/

/-- What is checked of options when they are read. -/
structure SvgOptions.Checked (options : SvgOptions) : Prop where
  places : 0 ≤ options.places ∧ options.places ≤ 10
  width : ∀ x ∈ options.width, Positive x
  height : ∀ x ∈ options.height, Positive x

namespace Plan

theorem of_field {β : Type} {fields : Table LooseText Json} {name : String} {default b : β}
    {read : Json → Except Fault β} {P : β → Prop} (hdefault : P default)
    (hread : ∀ value, read value = .ok b → P b) (h : field fields name default read = .ok b) :
    P b := by
  unfold field at h
  split at h
  · exact hread _ h
  · cases h
    exact hdefault

theorem of_optional {β : Type} {fields : Table LooseText Json} {name : String} {b : Option β}
    {read : Json → Except Fault β} {P : β → Prop} (hread : ∀ value x, read value = .ok x → P x)
    (h : optional fields name read = .ok b) : ∀ x ∈ b, P x := by
  unfold optional at h
  split at h
  · cases h
    intro x hx
    cases hx
  · cases h
    intro x hx
    cases hx
  · obtain ⟨x, hx, h⟩ := bind_eq_ok_iff.1 h
    cases h
    rintro _ ⟨⟩
    exact hread _ x hx

theorem positive_of_readPositive {path : String} {value : Json} {x : Float}
    (h : readPositive path value = .ok x) : Positive x := by
  obtain ⟨y, -, h⟩ := bind_eq_ok_iff.1 h
  by_cases hpos : 0.0 < y
  · rw [if_pos hpos] at h
    cases h
    exact (Binary64.positive_iff x).1 hpos
  · rw [if_neg hpos] at h
    cases h

theorem bounds_of_readPlaces {path : String} {value : Json} {n : Int}
    (h : readPlaces path value = .ok n) : 0 ≤ n ∧ n ≤ 10 := by
  obtain ⟨m, hm, hbounds⟩ := (decides_readPlaces path).exists_ok_iff.1 ⟨n, h⟩
  cases hm.symm.trans ((decides_readPlaces path).holds_of_ok h)
  exact hbounds

theorem checked_of_readSvg {value : Json} {options : SvgOptions}
    (h : readSvg value = .ok options) : options.Checked := by
  obtain ⟨fields, -, h⟩ := bind_eq_ok_iff.1 h
  obtain ⟨margin, -, h⟩ := bind_eq_ok_iff.1 h
  obtain ⟨places, hplaces, h⟩ := bind_eq_ok_iff.1 h
  obtain ⟨flipY, -, h⟩ := bind_eq_ok_iff.1 h
  obtain ⟨width, hwidth, h⟩ := bind_eq_ok_iff.1 h
  obtain ⟨height, hheight, h⟩ := bind_eq_ok_iff.1 h
  obtain ⟨style, -, h⟩ := bind_eq_ok_iff.1 h
  obtain ⟨background, -, h⟩ := bind_eq_ok_iff.1 h
  cases h
  exact {
    places := of_field (P := fun n : Int => 0 ≤ n ∧ n ≤ 10) (by decide)
      (fun _ => bounds_of_readPlaces) hplaces
    width := of_optional (fun _ _ => positive_of_readPositive) hwidth
    height := of_optional (fun _ _ => positive_of_readPositive) hheight }

end Plan

namespace Svg

open Markup
open Decimal (IsDecimal IsPositiveDecimal)

/-! ## Reading the box -/

/-- The attributes of the document element, from the second line of a document. -/
def opening? (document : LooseText) : Option Attributes :=
  ((document.splitOn (.char '\n'))[1]?.bind read?).bind fun read => (elements "svg" read.1).head?

def entries? (attributes : Attributes) : Option (List (List Char)) :=
  ((attributes.lookup (LooseText.ofString "viewBox")).bind LooseText.toString?).map fun s =>
    Text.pieces ' ' s.toList

/-- The element has a view box of plain decimals, with a positive extent, and the size that it has,
if any, is of positive plain decimals. -/
structure HasExtent (attributes : Attributes) : Prop where
  box : ∃ x y width height, entries? attributes = some [x, y, width, height] ∧
    IsDecimal x ∧ IsDecimal y ∧ IsPositiveDecimal width ∧ IsPositiveDecimal height
  size : ∀ name ∈ ["width", "height"], ∀ value ∈ attributes.lookup (LooseText.ofString name),
    ∃ text, value = LooseText.ofString text ∧ IsPositiveDecimal text.toList

theorem not_mem_coordinate {c : Char} (hc : c ∉ Decimal.numeralChars) (places : Nat) (x : Float) :
    c ∉ (coordinate places x).toList := fun h => hc (plain_coordinate places x c h)

/-- What is written in the view box is read as its four entries. -/
theorem entries?_opening (places : Nat) (box : ViewBox) (options : SvgOptions) :
    entries? (plainAttributes (openingAttributes places box options)) =
      some [(coordinate places box.minX).toList, (coordinate places box.minY).toList,
        (coordinate places box.width).toList, (coordinate places box.height).toList] := by
  have hblank : ∀ x, ' ' ∉ (coordinate places x).toList := not_mem_coordinate (by decide) places
  have hlookup : (plainAttributes (openingAttributes places box options)).lookup
      (LooseText.ofString "viewBox") = some (LooseText.ofString (
        coordinate places box.minX ++ " " ++ coordinate places box.minY ++ " " ++
          coordinate places box.width ++ " " ++ coordinate places box.height)) := rfl
  have hspace : " ".toList = [' '] := rfl
  rw [entries?, hlookup, Option.bind_some, LooseText.toString?_ofString, Option.map_some]
  simp only [String.toList_append, hspace, List.append_assoc, List.nil_append,
    List.cons_append, Text.pieces_append_cons, Text.pieces_eq_singleton (hblank _)]

theorem newline_not_mem_ofString {s : String} (h : '\n' ∉ s.toList) :
    .char '\n' ∉ LooseText.ofString s := by
  intro hmem
  obtain ⟨c, hc, heq⟩ := List.mem_map.1 hmem
  cases heq
  exact h hc

/-- A tag is on one line. -/
theorem newline_not_mem_tag {opening ending : String} {attributes : List (String × LooseText)}
    (hopening : '\n' ∉ opening.toList) (hending : '\n' ∉ ending.toList)
    (h : ∀ a ∈ attributes, '\n' ∉ a.1.toList ∧ .char '\n' ∉ a.2) :
    .char '\n' ∉ tag opening attributes ending := by
  intro hmem
  rcases List.mem_append.1 hmem with hmem | hmem
  · rcases List.mem_append.1 hmem with hmem | hmem
    · exact newline_not_mem_ofString hopening hmem
    · obtain ⟨⟨name, value⟩, ha, hmem⟩ := List.mem_flatMap.1 hmem
      obtain ⟨hname, hvalue⟩ := h _ ha
      have hstart : '\n' ∉ (" " ++ name ++ "=\"").toList := by simp [hname]
      have hquote : .char '\n' ∉ LooseText.ofString "\"" := by decide
      simp only [List.mem_append, newline_not_mem_ofString hstart, hvalue, hquote, or_self] at hmem
  · exact newline_not_mem_ofString hending hmem

theorem newline_not_mem_opening (places : Nat) (box : ViewBox) (options : SvgOptions) :
    .char '\n' ∉ openingLine places box options := by
  have hcoordinate : ∀ x, '\n' ∉ (coordinate places x).toList :=
    not_mem_coordinate (by decide) places
  have hsize : ∀ name : String, '\n' ∉ name.toList → ∀ size, ∀ a ∈ sizeAttributes places name size,
      '\n' ∉ a.1.toList ∧ .char '\n' ∉ a.2 := by
    intro name hname size
    unfold sizeAttributes
    split
    · split
      · exact List.forall_mem_nil _
      · exact List.forall_mem_singleton.2 ⟨hname, newline_not_mem_ofString (hcoordinate _)⟩
    · exact List.forall_mem_nil _
  refine newline_not_mem_tag (by decide) (by decide) ?_
  simp only [openingAttributes, List.forall_mem_append, List.forall_mem_cons]
  refine ⟨⟨⟨⟨by decide, by decide⟩, ⟨by decide, by decide⟩, ⟨by decide, ?_⟩, List.forall_mem_nil _⟩,
    hsize _ (by decide) _⟩, hsize _ (by decide) _⟩
  exact newline_not_mem_ofString (by simp [toString, hcoordinate])

theorem read?_opening (places : Nat) (box : ViewBox) (options : SvgOptions) :
    read? (openingLine places box options) = some
      ([⟨[], .opening "svg" (plainAttributes (openingAttributes places box options))⟩], []) := by
  have h := openingAttributes_inert places box options
  have hplain := readAttributes?_eq_plain_iff.2 fun a ha => (h a ha).2.2
  have hopening : LooseText.ofString "<svg" = [] ++ .char '<' :: LooseText.ofString "svg" := rfl
  have hbefore : unescape? ([] ++ []) = some [] := rfl
  have hrun : Scan.run ⟨[], .outside []⟩ (openingLine places box options) = _ :=
    Scan.run_tag (fun _ _ _ hplace => Scan.run_opening hplace) (by decide) hopening
      List.not_mem_nil (fun a ha => (h a ha).1) (fun a ha => (h a ha).2.1) hbefore
  rw [read?, hrun, hplain]
  rfl

/-- The document element is what the second line of a document says. -/
theorem opening?_ended (segments : List Segment) (options : SvgOptions)
    (title : Option LooseText) (places : Nat) (b : Bounds) (box : ViewBox) :
    opening? (ended (documentLines segments options title places b box)) =
      some (plainAttributes (openingAttributes places box options)) := by
  obtain ⟨more, hmore⟩ : ∃ more, documentLines segments options title places b box =
      declarationLine :: openingLine places box options :: more := ⟨_, rfl⟩
  have hdeclaration : .char '\n' ∉ declarationLine := by decide
  have hended : ∀ (line : LooseText) lines, ended (line :: lines) =
      line ++ .char '\n' :: ended lines := fun line lines =>
    List.flatMap_cons.trans (List.append_assoc ..)
  rw [opening?, hmore, hended, hended, List.splitOn_append_cons_self,
    List.splitOn_append_cons_self, List.splitOn_eq_singleton hdeclaration,
    List.splitOn_eq_singleton (newline_not_mem_opening places box options)]
  show ((some (openingLine places box options)).bind read?).bind _ = _
  rw [Option.bind_some, read?_opening]
  rfl

/-! ## Extents -/

/-- A size that is positive has an attribute. -/
theorem sizeAttributes_eq (places : Nat) (name : String) {size : Option Float}
    (hsize : ∀ x ∈ size, Positive x) : sizeAttributes places name size =
      size.toList.map fun x => (name, LooseText.ofString (coordinate places x)) := by
  cases size with
  | none => rfl
  | some x =>
    have hzero : ¬ (x == 0.0) = true := by
      intro heq
      obtain ⟨u, hx, hu⟩ := (Binary64.beq_iff x 0.0).1 heq
      obtain ⟨u', hx', hpos⟩ := hsize x rfl
      cases hx.symm.trans hx'
      cases hu.symm.trans Binary64.exactValue?_zeroFloat
      exact lt_irrefl _ hpos
    exact if_neg hzero

/-- The attributes of the size are those that are asked for. -/
theorem lookup_size (places : Nat) (box : ViewBox) {options : SvgOptions}
    (hoptions : options.Checked) :
    let attributes := plainAttributes (openingAttributes places box options)
    attributes.lookup (LooseText.ofString "width") =
        options.width.map (fun x => LooseText.ofString (coordinate places x)) ∧
      attributes.lookup (LooseText.ofString "height") =
        options.height.map (fun x => LooseText.ofString (coordinate places x)) := by
  simp only [openingAttributes, sizeAttributes_eq _ _ hoptions.width,
    sizeAttributes_eq _ _ hoptions.height]
  cases options.width <;> cases options.height <;> exact ⟨rfl, rfl⟩

theorem hasExtent_opening_iff {places : Nat} (hplaces : places ≤ placesOfDouble) (box : ViewBox)
    {options : SvgOptions} (hoptions : options.Checked) :
    HasExtent (plainAttributes (openingAttributes places box options)) ↔
      Binary64.Finite box.minX ∧ Binary64.Finite box.minY ∧ Shows places box.width ∧
        Shows places box.height ∧
        ∀ x ∈ options.width.toList ++ options.height.toList, Shows places x := by
  obtain ⟨hwidth, hheight⟩ := lookup_size places box hoptions
  have hshows : ∀ (size : Option Float),
      (∀ value ∈ size.map fun x => LooseText.ofString (coordinate places x),
        ∃ text, value = LooseText.ofString text ∧ IsPositiveDecimal text.toList) ↔
      ∀ x ∈ size.toList, Shows places x := by
    intro size
    cases size with
    | none => simp
    | some x =>
      simp only [Option.map_some, Option.mem_some_iff, forall_eq', Option.toList_some,
        List.mem_singleton, forall_eq]
      constructor
      · rintro ⟨text, heq, hpos⟩
        rw [← LooseText.ofString_inj.1 heq] at hpos
        exact (isPositiveDecimal_coordinate_iff hplaces).1 hpos
      · intro h
        exact ⟨_, rfl, (isPositiveDecimal_coordinate_iff hplaces).2 h⟩
  have hsize : (∀ name ∈ ["width", "height"], ∀ value ∈
      (plainAttributes (openingAttributes places box options)).lookup (LooseText.ofString name),
        ∃ text, value = LooseText.ofString text ∧ IsPositiveDecimal text.toList) ↔
      ∀ x ∈ options.width.toList ++ options.height.toList, Shows places x := by
    rw [List.forall_mem_cons, List.forall_mem_singleton, hwidth, hheight, hshows, hshows,
      List.forall_mem_append]
  have hentries := entries?_opening places box options
  constructor
  · rintro ⟨⟨x, y, width, height, heq, hx, hy, hw, hh⟩, hs⟩
    rw [hentries] at heq
    cases heq
    exact ⟨isDecimal_coordinate_iff.1 hx, isDecimal_coordinate_iff.1 hy,
      (isPositiveDecimal_coordinate_iff hplaces).1 hw,
      (isPositiveDecimal_coordinate_iff hplaces).1 hh, hsize.1 hs⟩
  · rintro ⟨hx, hy, hw, hh, hs⟩
    exact ⟨⟨_, _, _, _, hentries, isDecimal_coordinate_iff.2 hx, isDecimal_coordinate_iff.2 hy,
      (isPositiveDecimal_coordinate_iff hplaces).2 hw,
      (isPositiveDecimal_coordinate_iff hplaces).2 hh⟩, hsize.2 hs⟩

/-- The box of a drawing and the size that is asked for are plain decimals, and the extent and the
size are positive, exactly if the corner of the box is finite, and its extent and the size are
finite and more than half a unit in the last place that is written. -/
theorem render_box_iff {value : Json} {segments : List Segment} {options : SvgOptions}
    {title : Option LooseText} {document : LooseText}
    (hoptions : Plan.readSvg value = .ok options)
    (h : render segments options title = .ok document) :
    ∃ b box attributes,
      (Bounds.ofSegments segments).bind (widen · options.margin) = .ok b ∧ viewBox b = .ok box ∧
        opening? document = some attributes ∧
        (HasExtent attributes ↔
          Binary64.Finite box.minX ∧ Binary64.Finite box.minY ∧
            Shows options.places.toNat box.width ∧ Shows options.places.toNat box.height ∧
            ∀ x ∈ options.width.toList ++ options.height.toList, Shows options.places.toNat x) := by
  have hchecked := Plan.checked_of_readSvg hoptions
  obtain ⟨b, box, places, hb, hbox, hread, rfl⟩ := exists_of_render h
  have hplaces : options.places.toNat = places := by
    unfold readPlaces at hread
    split_ifs at hread
    exact Except.ok.inj hread
  have hmost : options.places.toNat ≤ placesOfDouble := by
    have hten := hchecked.places.2
    unfold placesOfDouble
    omega
  subst hplaces
  exact ⟨b, box, _, hb, hbox, opening?_ended .., hasExtent_opening_iff hmost box hchecked⟩

/-- A drawing with the options that are read if there are none. -/
theorem render_box_iff_default : ∃ options document attributes,
    Plan.readSvg (.object []) = .ok options ∧
      render [⟨⟨0.0, 0.0⟩, ⟨1.0, 1.0⟩, 1.0⟩] options none = .ok document ∧
      opening? document = some attributes ∧ HasExtent attributes := by
  have hoptions : Plan.readSvg (.object []) = .ok {} := rfl
  have hok : (render [⟨⟨0.0, 0.0⟩, ⟨1.0, 1.0⟩, 1.0⟩] {} none).isOk = true := by decide +kernel
  have hparts : (((Bounds.ofSegments [⟨⟨0.0, 0.0⟩, ⟨1.0, 1.0⟩, 1.0⟩]).bind
      (widen · (some 10.0))).bind viewBox).map (fun box =>
        [box.minX, box.minY, box.width, box.height].map Binary64.parts) =
      .ok [.finite true 5629499534213120 (-49), .finite true 5629499534213120 (-49),
        .finite false 5910974510923776 (-48), .finite false 5910974510923776 (-48)] := by
    decide +kernel
  cases h : render [⟨⟨0.0, 0.0⟩, ⟨1.0, 1.0⟩, 1.0⟩] {} none with
  | error =>
    rw [h] at hok
    cases hok
  | ok document =>
    obtain ⟨b, box, attributes, hb, hbox, hopening, hextent⟩ := render_box_iff hoptions h
    have hb' : (Bounds.ofSegments [⟨⟨0.0, 0.0⟩, ⟨1.0, 1.0⟩, 1.0⟩]).bind
        (widen · (some 10.0)) = .ok b := hb
    rw [hb', Except.bind, hbox] at hparts
    simp only [Except.map, List.map_cons, List.map_nil, Except.ok.injEq, List.cons.injEq,
      and_true] at hparts
    obtain ⟨hx, hy, hw, hh⟩ := hparts
    have hshows : ∀ x, Binary64.parts x = .finite false 5910974510923776 (-48) →
        Shows 3 x := by
      intro x hx
      refine ⟨_, congrArg Binary64.Parts.exactValue? hx, ?_⟩
      norm_num [Binary64.signed]
    exact ⟨_, document, attributes, hoptions, h, hopening, hextent.2
      ⟨Binary64.finite_of_parts hx, Binary64.finite_of_parts hy, hshows _ hw, hshows _ hh,
        List.forall_mem_nil _⟩⟩

/-- A box without a margin around what is smaller than half a unit in the last place has zeros for
its extent. -/
theorem not_forall_render_box : ¬ ∀ (value : Json) (segments : List Segment) (options : SvgOptions)
    (title : Option LooseText) (document : LooseText), segments ≠ [] →
      Plan.readSvg value = .ok options → render segments options title = .ok document →
      ∃ attributes, opening? document = some attributes ∧ HasExtent attributes := by
  intro hall
  have hzeros : ((Plan.readSvg (.object [("margin", .int 0)])).bind fun options =>
      (render [⟨⟨0.0, 0.0⟩, ⟨0.0001, 0.0001⟩, 1.0⟩] options none).map
        fun document => (opening? document).bind entries?) =
      .ok (some [['0'], ['0'], ['0'], ['0']]) := by
    decide +kernel
  cases hoptions : Plan.readSvg (.object [("margin", .int 0)]) with
  | error =>
    rw [hoptions] at hzeros
    cases hzeros
  | ok options =>
    rw [hoptions, Except.bind] at hzeros
    cases h : render [⟨⟨0.0, 0.0⟩, ⟨0.0001, 0.0001⟩, 1.0⟩] options none with
    | error =>
      rw [h] at hzeros
      cases hzeros
    | ok document =>
      obtain ⟨attributes, hopening, hextent⟩ :=
        hall _ _ options none document (List.cons_ne_nil _ _) hoptions h
      obtain ⟨x, y, width, height, hentries, -, -, ⟨v, hv, hpos⟩, -⟩ := hextent.box
      rw [h, Except.map, hopening, Option.bind_some, hentries] at hzeros
      cases hzeros
      exact hpos.ne' (hv.unique Decimal.denotes_zero.1)

end Svg

end Arbor
