import Arbor.Drawing.Markup
import Mathlib

/-!
# Reading markup

What a text in markup consists of is found by a scanner that goes through it one code point at a
time: tags with their attributes, and the texts between them. A tag that is not well formed stops
it, as does a `<` in the value of an attribute, or a `&` that starts no reference to a character.
Blanks in values are left as they are.

* `unescape?_escape`: escaped texts are read as they were.
* `Scan.run_tag`: a tag whose attributes have no quotation marks in their values is read as it was
  written, with the references in the values resolved.
* `readAttributes?_eq_plain_iff`: which values are read as they were written.
-/

namespace Arbor.Markup

/-! ## References -/

/-- A text with its references to characters resolved. Any other `&` is a fault. -/
def unescape? : LooseText → Option LooseText
  | [] => some []
  | .char '&' :: .char 'a' :: .char 'm' :: .char 'p' :: .char ';' :: rest =>
    (unescape? rest).map (.char '&' :: ·)
  | .char '&' :: .char 'l' :: .char 't' :: .char ';' :: rest =>
    (unescape? rest).map (.char '<' :: ·)
  | .char '&' :: .char 'g' :: .char 't' :: .char ';' :: rest =>
    (unescape? rest).map (.char '>' :: ·)
  | .char '&' :: .char 'q' :: .char 'u' :: .char 'o' :: .char 't' :: .char ';' :: rest =>
    (unescape? rest).map (.char '"' :: ·)
  | .char '&' :: .char 'a' :: .char 'p' :: .char 'o' :: .char 's' :: .char ';' :: rest =>
    (unescape? rest).map (.char '\'' :: ·)
  | p :: rest => if p = .char '&' then none else (unescape? rest).map (p :: ·)

/-- What is no `&` stands for itself. -/
theorem unescape?_cons {p : CodePoint} (h : p ≠ .char '&') (rest : LooseText) :
    unescape? (p :: rest) = (unescape? rest).map (p :: ·) := by
  rw [unescape?]
  · rw [if_neg h]
  all_goals
    intros
    exact h ‹_›

theorem unescape?_of_not_mem {t : LooseText} (h : .char '&' ∉ t) : unescape? t = some t := by
  induction t with
  | nil => rfl
  | cons p t ih =>
    rw [unescape?_cons (List.ne_of_not_mem_cons h).symm, ih (List.not_mem_of_not_mem_cons h)]
    rfl

/-- An escaped text is read as the text. -/
theorem unescape?_escape (t : LooseText) : unescape? (escape t) = some t := by
  induction t with
  | nil => rfl
  | cons p t ih =>
    rw [escape, List.flatMap_cons, ← escape]
    unfold escapePoint
    split
    · show unescape? (.char '&' :: .char 'a' :: .char 'm' :: .char 'p' :: .char ';' :: escape t) = _
      rw [unescape?, ih]
      rfl
    · show unescape? (.char '&' :: .char 'l' :: .char 't' :: .char ';' :: escape t) = _
      rw [unescape?, ih]
      rfl
    · show unescape? (.char '&' :: .char 'g' :: .char 't' :: .char ';' :: escape t) = _
      rw [unescape?, ih]
      rfl
    · rename_i hamp _ _
      rw [List.singleton_append, unescape?_cons hamp, ih]
      rfl

/-- A reference is longer than the character it stands for. -/
theorem length_of_unescape? {t u : LooseText} (h : unescape? t = some u) :
    u.length ≤ t.length ∧ (.char '&' ∈ t → u.length < t.length) := by
  fun_induction unescape? t generalizing u with
  | case1 =>
    cases h
    simp
  | case7 rest => cases h
  | case8 p rest _ _ _ _ _ hp ih =>
    obtain ⟨v, hv, rfl⟩ := Option.map_eq_some_iff.1 h
    obtain ⟨hle, hlt⟩ := ih hv
    refine ⟨Nat.succ_le_succ hle, fun hmem => Nat.succ_lt_succ (hlt ?_)⟩
    exact (List.mem_cons.1 hmem).resolve_left (Ne.symm hp)
  | _ rest ih =>
    obtain ⟨v, hv, rfl⟩ := Option.map_eq_some_iff.1 h
    have hle := (ih hv).1
    simp only [List.length_cons]
    omega

/-- Only a text without references stands for itself. -/
theorem unescape?_eq_self_iff {t : LooseText} : unescape? t = some t ↔ .char '&' ∉ t :=
  ⟨fun h hmem => Nat.lt_irrefl _ ((length_of_unescape? h).2 hmem), unescape?_of_not_mem⟩

/-! ## The scanner -/

/-- The attributes of a tag, by name and in order. -/
abbrev Attributes := List (LooseText × LooseText)

/-- A tag and what it holds. -/
inductive Tag
  | declaration (content : LooseText)
  | opening (name : LooseText) (attributes : Attributes)
  | empty (name : LooseText) (attributes : Attributes)
  | closing (name : LooseText)
  deriving DecidableEq

/-- A tag and the text between it and the tag before. -/
structure Mark where
  before : LooseText
  tag : Tag
  deriving DecidableEq

/-- A tag that has not ended yet. -/
structure Draft where
  before : LooseText
  name : LooseText
  attributes : Attributes

/-- Where in the markup a scan is. What is not resolved yet is raw. -/
inductive Place
  | outside (raw : LooseText)
  | begun (before : LooseText)
  | declaration (before content : LooseText)
  | closing (before name : LooseText)
  | named (d : Draft)
  | gap (d : Draft)
  | key (d : Draft) (key : LooseText)
  | equals (d : Draft) (key : LooseText)
  | value (d : Draft) (key raw : LooseText)
  | closed (d : Draft)
  | ending (d : Draft)

/-- The tags that have ended, and the place after them. -/
structure Scan where
  marks : List Mark
  place : Place

def isBlank (p : CodePoint) : Bool := (LooseText.ofString " \t\n\r").contains p

def isNamePoint (p : CodePoint) : Bool :=
  !isBlank p && !(LooseText.ofString "\"'<>/=&?!").contains p

namespace Scan

/-- The scan after the end of a tag. -/
def emit (s : Scan) (before : LooseText) (tag : Tag) : Scan :=
  ⟨s.marks ++ [⟨before, tag⟩], .outside []⟩

/-- What may follow the name of a tag, a value or a blank, besides a name. -/
def stepTag (s : Scan) (d : Draft) (p : CodePoint) : Option Scan :=
  if p = .char '>' then some (s.emit d.before (.opening d.name d.attributes))
  else if p = .char '/' then some ⟨s.marks, .ending d⟩
  else if isBlank p then some ⟨s.marks, .gap d⟩
  else none

/-- The scan after one more code point. -/
def step (s : Scan) (p : CodePoint) : Option Scan :=
  match s.place with
  | .outside raw =>
    if p = .char '<' then (unescape? raw).map fun before => ⟨s.marks, .begun before⟩
    else some ⟨s.marks, .outside (raw ++ [p])⟩
  | .begun before =>
    if p = .char '?' then some ⟨s.marks, .declaration before []⟩
    else if p = .char '/' then some ⟨s.marks, .closing before []⟩
    else if isNamePoint p then some ⟨s.marks, .named ⟨before, [p], []⟩⟩
    else none
  | .declaration before content =>
    if p = .char '>' then some (s.emit before (.declaration content))
    else some ⟨s.marks, .declaration before (content ++ [p])⟩
  | .closing before name =>
    if p = .char '>' then some (s.emit before (.closing name))
    else if isNamePoint p then some ⟨s.marks, .closing before (name ++ [p])⟩
    else none
  | .named d =>
    if isNamePoint p then some ⟨s.marks, .named { d with name := d.name ++ [p] }⟩
    else s.stepTag d p
  | .gap d => if isNamePoint p then some ⟨s.marks, .key d [p]⟩ else s.stepTag d p
  | .key d key =>
    if p = .char '=' then some ⟨s.marks, .equals d key⟩
    else if isNamePoint p then some ⟨s.marks, .key d (key ++ [p])⟩
    else none
  | .equals d key => if p = .char '"' then some ⟨s.marks, .value d key []⟩ else none
  | .value d key raw =>
    if p = .char '"' then (unescape? raw).map fun value =>
      ⟨s.marks, .closed { d with attributes := d.attributes ++ [(key, value)] }⟩
    else if p = .char '<' then none
    else some ⟨s.marks, .value d key (raw ++ [p])⟩
  | .closed d => s.stepTag d p
  | .ending d =>
    if p = .char '>' then some (s.emit d.before (.empty d.name d.attributes)) else none

def run (s : Scan) (t : LooseText) : Option Scan := t.foldlM step s

end Scan

/-- The tags of a text in markup with the texts before them, and the text after the last tag. -/
def read? (t : LooseText) : Option (List Mark × LooseText) :=
  match (Scan.mk [] (.outside [])).run t with
  | some ⟨marks, .outside raw⟩ => (unescape? raw).map (marks, ·)
  | _ => none

namespace Scan

/-! ## Texts and names -/

variable {marks : List Mark} {t : LooseText}

theorem run_append (s : Scan) (u v : LooseText) : s.run (u ++ v) = (s.run u).bind (·.run v) :=
  List.foldlM_append

theorem run_cons (s : Scan) (p : CodePoint) (t : LooseText) :
    s.run (p :: t) = (s.step p).bind (·.run t) := List.foldlM_cons

/-- A place that collects what is read. -/
theorem run_collect {place : LooseText → Place}
    (h : ∀ held, ∀ p ∈ t, step ⟨marks, place held⟩ p = some ⟨marks, place (held ++ [p])⟩)
    (held : LooseText) : run ⟨marks, place held⟩ t = some ⟨marks, place (held ++ t)⟩ := by
  induction t generalizing held with
  | nil =>
    rw [List.append_nil]
    rfl
  | cons p t ih =>
    rw [run_cons, h held p List.mem_cons_self, Option.bind_some,
      ih (fun held q hq => h held q (List.mem_cons_of_mem p hq)), List.append_assoc]
    rfl

theorem run_outside (h : .char '<' ∉ t) (raw : LooseText) :
    run ⟨marks, .outside raw⟩ t = some ⟨marks, .outside (raw ++ t)⟩ := by
  have hstep : ∀ held, ∀ p ∈ t,
      step ⟨marks, .outside held⟩ p = some ⟨marks, .outside (held ++ [p])⟩ :=
    fun held p hp => if_neg (ne_of_mem_of_not_mem hp h)
  exact run_collect hstep raw

/-- The rest of the name of a tag. -/
theorem run_named (h : ∀ p ∈ t, isNamePoint p = true) (before name : LooseText)
    (attributes : Attributes) :
    run ⟨marks, .named ⟨before, name, attributes⟩⟩ t =
      some ⟨marks, .named ⟨before, name ++ t, attributes⟩⟩ := by
  have hstep : ∀ held, ∀ p ∈ t, step ⟨marks, .named ⟨before, held, attributes⟩⟩ p =
      some ⟨marks, .named ⟨before, held ++ [p], attributes⟩⟩ := fun held p hp => if_pos (h p hp)
  exact run_collect hstep name

/-- No code point of a name ends it. -/
theorem ne_of_isNamePoint {p q : CodePoint} (hp : isNamePoint p = true)
    (hq : isNamePoint q = false) : p ≠ q := by
  rintro rfl
  rw [hp] at hq
  cases hq

theorem run_closing (h : ∀ p ∈ t, isNamePoint p = true) (before name : LooseText) :
    run ⟨marks, .closing before name⟩ t = some ⟨marks, .closing before (name ++ t)⟩ := by
  have hstep : ∀ held, ∀ p ∈ t,
      step ⟨marks, .closing before held⟩ p = some ⟨marks, .closing before (held ++ [p])⟩ :=
    fun held p hp => (if_neg (ne_of_isNamePoint (h p hp) (by decide))).trans (if_pos (h p hp))
  exact run_collect hstep name

theorem run_key (h : ∀ p ∈ t, isNamePoint p = true) (d : Draft) (key : LooseText) :
    run ⟨marks, .key d key⟩ t = some ⟨marks, .key d (key ++ t)⟩ := by
  have hstep : ∀ held, ∀ p ∈ t,
      step ⟨marks, .key d held⟩ p = some ⟨marks, .key d (held ++ [p])⟩ :=
    fun held p hp => (if_neg (ne_of_isNamePoint (h p hp) (by decide))).trans (if_pos (h p hp))
  exact run_collect hstep key

end Scan

/-! ## Values -/

/-- A value as it is written between quotation marks, resolved. -/
def readValue? (raw : LooseText) : Option LooseText :=
  if .char '<' ∈ raw then none else unescape? raw

/-- The attributes of a tag as they are written, resolved. -/
def readAttributes? : List (String × LooseText) → Option Attributes
  | [] => some []
  | (name, value) :: rest =>
    (readValue? value).bind fun read =>
      (readAttributes? rest).map ((LooseText.ofString name, read) :: ·)

namespace Scan

variable {marks : List Mark} {t : LooseText}

/-- A value up to its end, and the quotation mark that ends it. -/
theorem run_value (h : .char '"' ∉ t) (d : Draft) (key raw : LooseText)
    (hraw : .char '<' ∉ raw) :
    run ⟨marks, .value d key raw⟩ (t ++ [.char '"']) =
      (readValue? (raw ++ t)).map fun value =>
        ⟨marks, .closed { d with attributes := d.attributes ++ [(key, value)] }⟩ := by
  induction t generalizing raw with
  | nil =>
    rw [List.append_nil, readValue?, if_neg hraw]
    show (Option.map _ (unescape? raw)).bind _ = _
    cases unescape? raw <;> rfl
  | cons p t ih =>
    obtain ⟨hp, ht⟩ := not_or.1 (mt List.mem_cons.2 h)
    rw [List.cons_append, run_cons]
    by_cases hless : p = .char '<'
    · subst hless
      have hmem : CodePoint.char '<' ∈ raw ++ .char '<' :: t := by simp
      rw [readValue?, if_pos hmem]
      rfl
    · have hstep : step ⟨marks, .value d key raw⟩ p = some ⟨marks, .value d key (raw ++ [p])⟩ :=
        (if_neg (Ne.symm hp)).trans (if_neg hless)
      have hraw' : CodePoint.char '<' ∉ raw ++ [p] := by
        simp [hraw, Ne.symm hless]
      rw [hstep, Option.bind_some, ih ht _ hraw', List.append_assoc]
      rfl

end Scan

/-! ## Written tags -/

/-- A string that can be the name of a tag or of an attribute. -/
def IsName (name : String) : Prop :=
  LooseText.ofString name ≠ [] ∧ ∀ p ∈ LooseText.ofString name, isNamePoint p = true

instance (name : String) : Decidable (IsName name) := instDecidableAnd

/-- Where attributes can follow: after the name of a tag, or after a value. -/
def Place.Follows (place : Place) (d : Draft) : Prop := place = .named d ∨ place = .closed d

namespace Scan

variable {marks : List Mark} {place : Place} {d : Draft}

theorem step_follows (h : place.Follows d) {p : CodePoint} (hp : isNamePoint p = false) :
    step ⟨marks, place⟩ p = stepTag ⟨marks, place⟩ d p := by
  rcases h with rfl | rfl
  · exact if_neg (by rw [hp]; exact Bool.false_ne_true)
  · rfl

/-- An attribute as it is written. -/
theorem run_attribute (hplace : place.Follows d) {key : String} (hkey : IsName key)
    {value : LooseText} (hvalue : .char '"' ∉ value) :
    run ⟨marks, place⟩
        (LooseText.ofString (" " ++ key ++ "=\"") ++ value ++ LooseText.ofString "\"") =
      (readValue? value).map fun read => ⟨marks, .closed { d with
        attributes := d.attributes ++ [(LooseText.ofString key, read)] }⟩ := by
  obtain ⟨p, rest, hpoints⟩ := List.exists_cons_of_ne_nil hkey.1
  have hname := hkey.2
  rw [hpoints, List.forall_mem_cons] at hname
  have htext : LooseText.ofString (" " ++ key ++ "=\"") ++ value ++ LooseText.ofString "\"" =
      .char ' ' :: p :: (rest ++ (.char '=' :: .char '"' :: (value ++ [.char '"']))) := by
    rw [LooseText.ofString_append, LooseText.ofString_append, hpoints]
    simp [LooseText.ofString]
  have hblank : step ⟨marks, place⟩ (.char ' ') = some ⟨marks, .gap d⟩ := by
    rw [step_follows hplace (by decide)]
    rfl
  have hfirst : step ⟨marks, .gap d⟩ p = some ⟨marks, .key d [p]⟩ := if_pos hname.1
  rw [htext, run_cons, hblank, Option.bind_some, run_cons, hfirst, Option.bind_some, run_append,
    run_key hname.2, Option.bind_some, hpoints]
  exact run_value hvalue d (p :: rest) [] List.not_mem_nil

/-- The attributes of a tag as they are written, and what ends it. -/
theorem run_attributes {ending : LooseText} {tag : LooseText → Attributes → Tag}
    (hending : ∀ place (d : Draft), place.Follows d → run ⟨marks, place⟩ ending =
      some ⟨marks ++ [⟨d.before, tag d.name d.attributes⟩], .outside []⟩)
    {attributes : List (String × LooseText)} (hnames : ∀ a ∈ attributes, IsName a.1)
    (hvalues : ∀ a ∈ attributes, .char '"' ∉ a.2) (hplace : place.Follows d) :
    run ⟨marks, place⟩ (attributes.flatMap (fun (name, value) =>
        LooseText.ofString (" " ++ name ++ "=\"") ++ value ++ LooseText.ofString "\"") ++ ending) =
      (readAttributes? attributes).map fun read =>
        ⟨marks ++ [⟨d.before, tag d.name (d.attributes ++ read)⟩], .outside []⟩ := by
  induction attributes generalizing place d with
  | nil =>
    rw [List.flatMap_nil, List.nil_append, hending place d hplace]
    show _ = some (Scan.mk (marks ++ [⟨d.before, tag d.name (d.attributes ++ [])⟩]) _)
    rw [List.append_nil]
  | cons a attributes ih =>
    obtain ⟨key, value⟩ := a
    obtain ⟨hname, hnames⟩ := List.forall_mem_cons.1 hnames
    obtain ⟨hvalue, hvalues⟩ := List.forall_mem_cons.1 hvalues
    rw [List.flatMap_cons, List.append_assoc, run_append, run_attribute hplace hname hvalue,
      readAttributes?]
    cases readValue? value with
    | none => rfl
    | some read =>
      rw [Option.map_some, Option.bind_some, ih hnames hvalues (Or.inr rfl), Option.bind_some,
        Option.map_map]
      simp only [Function.comp_def, List.append_assoc, List.singleton_append]

/-- The end of a tag that opens an element. -/
theorem run_opening (hplace : place.Follows d) :
    run ⟨marks, place⟩ (LooseText.ofString ">") =
      some ⟨marks ++ [⟨d.before, .opening d.name d.attributes⟩], .outside []⟩ := by
  show (step ⟨marks, place⟩ (.char '>')).bind _ = _
  rw [step_follows hplace (by decide)]
  rfl

/-- The end of a tag that is an element of its own. -/
theorem run_empty (hplace : place.Follows d) :
    run ⟨marks, place⟩ (LooseText.ofString " />") =
      some ⟨marks ++ [⟨d.before, .empty d.name d.attributes⟩], .outside []⟩ := by
  show (step ⟨marks, place⟩ (.char ' ')).bind _ = _
  rw [step_follows hplace (by decide)]
  rfl

/-- A tag as it is written, after some text. -/
theorem run_tag {ending : String} {tag : LooseText → Attributes → Tag}
    (hending : ∀ (marks : List Mark) place (d : Draft), place.Follows d →
      run ⟨marks, place⟩ (LooseText.ofString ending) =
        some ⟨marks ++ [⟨d.before, tag d.name d.attributes⟩], .outside []⟩)
    {opening name : String} {indent : LooseText} (hname : IsName name)
    (hopening : LooseText.ofString opening = indent ++ .char '<' :: LooseText.ofString name)
    (hindent : .char '<' ∉ indent) {attributes : List (String × LooseText)}
    (hnames : ∀ a ∈ attributes, IsName a.1) (hvalues : ∀ a ∈ attributes, .char '"' ∉ a.2)
    {raw before : LooseText} (hbefore : unescape? (raw ++ indent) = some before) :
    run ⟨marks, .outside raw⟩ (Markup.tag opening attributes ending) =
      (readAttributes? attributes).map fun read =>
        ⟨marks ++ [⟨before, tag (LooseText.ofString name) read⟩], .outside []⟩ := by
  obtain ⟨p, rest, hpoints⟩ := List.exists_cons_of_ne_nil hname.1
  have hrest := hname.2
  rw [hpoints, List.forall_mem_cons] at hrest
  have hless : step ⟨marks, .outside (raw ++ indent)⟩ (.char '<') =
      some ⟨marks, .begun before⟩ := by
    show Option.map _ (unescape? (raw ++ indent)) = _
    rw [hbefore]
    rfl
  have hfirst : step ⟨marks, .begun before⟩ p = some ⟨marks, .named ⟨before, [p], []⟩⟩ :=
    (if_neg (ne_of_isNamePoint hrest.1 (by decide))).trans
      ((if_neg (ne_of_isNamePoint hrest.1 (by decide))).trans (if_pos hrest.1))
  rw [Markup.tag, List.append_assoc, hopening, List.append_assoc, run_append,
    run_outside hindent raw, Option.bind_some, List.cons_append, run_cons, hless,
    Option.bind_some, hpoints, List.cons_append, run_cons, hfirst, Option.bind_some, run_append,
    run_named hrest.2, Option.bind_some]
  exact run_attributes (hending marks) hnames hvalues (Or.inl rfl)

/-- The end of an element as it is written, after some text. -/
theorem run_close {name : String} {indent : LooseText} (hname : IsName name)
    (hindent : .char '<' ∉ indent) {raw before : LooseText}
    (hbefore : unescape? (raw ++ indent) = some before) :
    run ⟨marks, .outside raw⟩
        (indent ++ .char '<' :: .char '/' :: (LooseText.ofString name ++ [.char '>'])) =
      some ⟨marks ++ [⟨before, .closing (LooseText.ofString name)⟩], .outside []⟩ := by
  have hless : step ⟨marks, .outside (raw ++ indent)⟩ (.char '<') =
      some ⟨marks, .begun before⟩ := by
    show Option.map _ (unescape? (raw ++ indent)) = _
    rw [hbefore]
    rfl
  have hslash : step ⟨marks, .begun before⟩ (.char '/') = some ⟨marks, .closing before []⟩ := rfl
  rw [run_append, run_outside hindent raw, Option.bind_some, run_cons, hless, Option.bind_some,
    run_cons, hslash, Option.bind_some, run_append, run_closing hname.2, Option.bind_some]
  rfl

end Scan

/-! ## Inert texts -/

/-- A text that means nothing else between quotation marks than what it is. -/
def Inert (t : LooseText) : Prop := .char '"' ∉ t ∧ .char '<' ∉ t ∧ .char '&' ∉ t

/-- The attributes as they are read if their values are inert. -/
def plainAttributes (attributes : List (String × LooseText)) : Attributes :=
  attributes.map fun (name, value) => (LooseText.ofString name, value)

theorem readValue?_eq_self_iff {t : LooseText} :
    readValue? t = some t ↔ .char '<' ∉ t ∧ .char '&' ∉ t := by
  rw [readValue?]
  split
  next hmem => exact iff_of_false nofun fun h => h.1 hmem
  next hmem => rw [unescape?_eq_self_iff, and_iff_right hmem]

theorem readAttributes?_eq_plain_iff {attributes : List (String × LooseText)} :
    readAttributes? attributes = some (plainAttributes attributes) ↔
      ∀ a ∈ attributes, .char '<' ∉ a.2 ∧ .char '&' ∉ a.2 := by
  induction attributes with
  | nil => exact iff_of_true rfl (List.forall_mem_nil _)
  | cons a attributes ih =>
    obtain ⟨name, value⟩ := a
    rw [List.forall_mem_cons, ← ih, ← readValue?_eq_self_iff, readAttributes?, plainAttributes,
      List.map_cons, ← plainAttributes]
    simp only [Option.bind_eq_some_iff, Option.map_eq_some_iff, List.cons.injEq, Prod.mk.injEq,
      true_and]
    constructor
    · rintro ⟨read, hread, rest, hrest, rfl, rfl⟩
      exact ⟨hread, hrest⟩
    · rintro ⟨hread, hrest⟩
      exact ⟨value, hread, _, hrest, rfl, rfl⟩

/-- What starts or ends a tag is not left in an escaped text. -/
theorem not_mem_escape {q : CodePoint} (hq : q = .char '<' ∨ q = .char '>') (t : LooseText) :
    q ∉ escape t := by
  intro hmem
  obtain ⟨p, -, hp⟩ := List.mem_flatMap.1 hmem
  unfold escapePoint at hp
  split at hp
  · rcases hq with rfl | rfl <;> exact absurd hp (by decide)
  · rcases hq with rfl | rfl <;> exact absurd hp (by decide)
  · rcases hq with rfl | rfl <;> exact absurd hp (by decide)
  · rename_i hless hgreater
    rw [List.mem_singleton] at hp
    subst hp
    exact hq.elim hless hgreater

end Arbor.Markup
