import Arbor.Proofs.Text.Cutting
import Arbor.Word.Token
import Mathlib

/-!
# Renderings of tokens

A list of tokens can be written in many ways, since blanks may stand before a token, around its
parentheses and around each of its arguments. `Renders` says which texts write which tokens, without
saying how they are read. Reading a text finds the tokens that it is a rendering of, and fails at a
place where no token can begin, or at an argument that is empty.

* `read?_of_writes`, `writes_of_read?`: one token, written and read.
* `tokensFrom_of_renders`, `renders_of_tokensFrom`: a list of tokens, written and read.
* `exists_stop`: where reading fails, what has been read is a rendering.
-/

namespace Arbor.Token

open Text (Blanks Bare isBlank isAsciiNameStart isAsciiNameInside)

/-! ## The grammar -/

/-- A letter or underscore, followed by letters, digits and underscores. -/
def IsName (s : List Char) : Prop :=
  ∃ c rest, s = c :: rest ∧ isAsciiNameStart c ∧ ∀ d ∈ rest, isAsciiNameInside d

/-- A name or a single punctuation character. -/
def TagText (s : List Char) : Prop := IsName s ∨ ∃ c, s = [c] ∧ isPunctuation c

structure ArgumentText (s : List Char) : Prop where
  ne_nil : s ≠ []
  bare : Bare s
  plain : ∀ c ∈ s, c ≠ ',' ∧ c ≠ '(' ∧ c ≠ ')'

/-- `padded` writes an argument, between blanks. -/
def Pads (s padded : List Char) : Prop :=
  ArgumentText s ∧ ∃ b b', Blanks b ∧ Blanks b' ∧ b ++ s ++ b' = padded

/-- `inside` lists arguments as the parentheses of a token hold them: blanks if there are none,
otherwise with commas between them. -/
inductive Lists : List (List Char) → List Char → Prop
  | none {b} : Blanks b → Lists [] b
  | some {args padded} : args ≠ [] → List.Forall₂ Pads args padded →
      Lists args ([','].intercalate padded)

/-- `s` writes a tag with arguments before the character `next`, if there is one. A name without
parentheses ends where it could not go on. -/
inductive Writes (tag : List Char) (args : List (List Char)) (next : Option Char) :
    List Char → Prop
  | alone {b} : Blanks b → TagText tag → args = [] →
      (IsName tag → ∀ c ∈ next, isAsciiNameInside c = false) → Writes tag args next (b ++ tag)
  | called {b gap inside} : Blanks b → TagText tag → Blanks gap → Lists args inside →
      Writes tag args next (b ++ tag ++ (gap ++ '(' :: (inside ++ [')'])))

/-- `s` writes a list of tokens. -/
inductive Renders : List Token → List Char → Prop
  | nil {b} : Blanks b → Renders [] b
  | cons {t ts s rest} : Writes t.tag.toList (t.arguments.map String.toList) rest.head? s →
      Renders ts rest → Renders (t :: ts) (s ++ rest)

/-! ## Tags -/

theorem isBlank_of_inside {c : Char} (h : isAsciiNameInside c) : isBlank c = false := by
  simp only [isAsciiNameInside, Char.isAlphanum, Char.isAlpha, Char.isUpper, Char.isLower,
    Char.isDigit, Bool.or_eq_true, Bool.and_eq_true, decide_eq_true_eq, beq_iff_eq,
    UInt32.le_iff_toNat_le, ge_iff_le, Char.toNat_val, ← Char.toNat_inj] at h
  simp at h
  simp [isBlank]
  omega

theorem inside_of_start {c : Char} (h : isAsciiNameStart c) : isAsciiNameInside c := by
  simp only [isAsciiNameStart, isAsciiNameInside, Char.isAlphanum, Bool.or_eq_true] at h ⊢
  rcases h with h | h
  · exact Or.inl (Or.inl h)
  · exact Or.inr h

/-- Punctuation is neither blank nor a parenthesis, and begins no name. -/
theorem punctuation_facts {c : Char} (h : isPunctuation c) :
    isBlank c = false ∧ c ≠ '(' ∧ isAsciiNameStart c = false := by
  have hall : "[]+-&^/\\|!".toList.all fun d =>
      isBlank d = false ∧ d ≠ '(' ∧ isAsciiNameStart d = false := by decide
  exact of_decide_eq_true (List.all_eq_true.1 hall c (by simpa [isPunctuation] using h))

theorem IsName.inside {s : List Char} (h : IsName s) : ∀ c ∈ s, isAsciiNameInside c := by
  obtain ⟨c, rest, rfl, hc, hrest⟩ := h
  exact List.forall_mem_cons.2 ⟨inside_of_start hc, hrest⟩

theorem TagText.ne_nil {s : List Char} (h : TagText s) : s ≠ [] := by
  rcases h with ⟨c, rest, rfl, -, -⟩ | ⟨c, rfl, -⟩ <;> exact List.cons_ne_nil _ _

theorem TagText.mem {s : List Char} (h : TagText s) : ∀ c ∈ s, isBlank c = false ∧ c ≠ '(' := by
  intro c hc
  rcases h with hname | ⟨d, rfl, hd⟩
  · have hinside := hname.inside c hc
    refine ⟨isBlank_of_inside hinside, ?_⟩
    rintro rfl
    exact absurd hinside (by decide)
  · rw [List.mem_singleton.1 hc]
    exact ⟨(punctuation_facts hd).1, (punctuation_facts hd).2.1⟩

theorem TagText.bare {s : List Char} (h : TagText s) : Bare s where
  head c hc := (h.mem c (List.mem_of_mem_head? hc)).1
  last c hc := (h.mem c (List.mem_of_mem_getLast? hc)).1

/-- The tag at the start of a text ends where it could not go on. -/
theorem takeTag?_eq_some_iff {s tag rest : List Char} :
    takeTag? s = some (tag, rest) ↔
      s = tag ++ rest ∧ TagText tag ∧
        (IsName tag → ∀ c ∈ rest.head?, isAsciiNameInside c = false) := by
  constructor
  · intro h
    refine ⟨(takeTag?_append h).symm, ?_⟩
    cases s with
    | nil => cases h
    | cons c s =>
      rw [takeTag?] at h
      split_ifs at h with hstart hpunct
      · cases h
        refine ⟨Or.inl ⟨c, _, rfl, hstart, fun d hd => List.mem_takeWhile_imp hd⟩, fun _ d hd => ?_⟩
        have hhead := List.head?_dropWhile_not isAsciiNameInside s
        rwa [Option.mem_def.1 hd] at hhead
      · cases h
        refine ⟨Or.inr ⟨c, rfl, hpunct⟩, fun hname => ?_⟩
        obtain ⟨d, more, heq, hd, -⟩ := hname
        cases heq
        exact absurd hd hstart
  · rintro ⟨rfl, htag, hend⟩
    rcases htag with hname | ⟨c, rfl, hc⟩
    · have hstop := hend hname
      obtain ⟨c, more, rfl, hc, hmore⟩ := hname
      have htake : rest.takeWhile isAsciiNameInside = [] := by
        cases rest with
        | nil => rfl
        | cons d rest => exact List.takeWhile_cons_of_neg (by simp [hstop d rfl])
      have hdrop : rest.dropWhile isAsciiNameInside = rest := by
        cases rest with
        | nil => rfl
        | cons d rest => exact List.dropWhile_cons_of_neg (by simp [hstop d rfl])
      rw [List.cons_append, takeTag?, if_pos hc, List.takeWhile_append_of_pos hmore,
        List.dropWhile_append_of_pos hmore, htake, hdrop, List.append_nil]
    · have hnot := (punctuation_facts hc).2.2
      rw [List.singleton_append, takeTag?, if_neg (by simp [hnot]), if_pos hc]

theorem isTag_iff {s : String} : isTag s = true ↔ TagText s.toList := by
  have hwhole : isTag s = true ↔ takeTag? s.toList = some (s.toList, []) := by
    unfold isTag
    constructor
    · intro h
      split at h
      · rename_i tag htag
        have happend := takeTag?_append htag
        rw [List.append_nil] at happend
        rw [htag, happend]
      · cases h
    · intro h
      rw [h]
  rw [hwhole, takeTag?_eq_some_iff]
  simp

/-! ## Parentheses -/

theorem isInside_of_blank {c : Char} (h : isBlank c) : isInside c = true := by
  simp only [isInside, Bool.and_eq_true, bne_iff_ne]
  constructor <;> rintro rfl <;> exact absurd h (by decide)

theorem takeParentheses?_eq_some_iff {s inside rest : List Char} :
    takeParentheses? s = some (inside, rest) ↔
      (∀ c ∈ inside, isInside c) ∧
        ∃ gap, Blanks gap ∧ s = gap ++ '(' :: (inside ++ ')' :: rest) := by
  constructor
  · intro h
    refine ⟨?_, s.takeWhile isBlank, Text.blanks_takeWhile s, (takeParentheses?_append h).symm⟩
    unfold takeParentheses? at h
    split at h
    · split at h
      · cases h
        exact fun c hc => List.mem_takeWhile_imp hc
      · cases h
    · cases h
  · rintro ⟨hinside, gap, hgap, rfl⟩
    have hclose : (')' :: rest).dropWhile isInside = ')' :: rest :=
      List.dropWhile_cons_of_neg (by decide)
    have hnone : (')' :: rest).takeWhile isInside = [] := List.takeWhile_cons_of_neg (by decide)
    have htrim : Text.trimStart (gap ++ '(' :: (inside ++ ')' :: rest)) =
        '(' :: (inside ++ ')' :: rest) := by
      rw [Text.trimStart_append hgap]
      exact Text.trimStart_of_head (by simp [show isBlank '(' = false by decide])
    simp only [takeParentheses?, htrim, List.dropWhile_append_of_pos hinside,
      List.takeWhile_append_of_pos hinside, hclose, hnone, List.append_nil]

theorem takeParentheses?_eq_none {s : List Char} (h : ∀ c ∈ (Text.trimStart s).head?, c ≠ '(') :
    takeParentheses? s = none := by
  unfold takeParentheses?
  split
  · rename_i inside heq
    exact absurd rfl (h '(' (by rw [heq]; rfl))
  · rfl

/-! ## Arguments -/

theorem Pads.mem {s padded : List Char} (h : Pads s padded) :
    ∀ c ∈ padded, isInside c = true ∧ c ≠ ',' := by
  obtain ⟨harg, b, b', hb, hb', rfl⟩ := h
  have hblank : ∀ c, isBlank c → isInside c = true ∧ c ≠ ',' := by
    intro c hc
    refine ⟨isInside_of_blank hc, ?_⟩
    rintro rfl
    exact absurd hc (by decide)
  intro c hc
  rcases List.mem_append.1 hc with hc | hc
  · rcases List.mem_append.1 hc with hc | hc
    · exact hblank c (hb c hc)
    · obtain ⟨hcomma, hopen, hclose⟩ := harg.plain c hc
      exact ⟨by simp [isInside, hopen, hclose], hcomma⟩
  · exact hblank c (hb' c hc)

theorem Pads.trim_eq {s padded : List Char} (h : Pads s padded) : Text.trim padded = s := by
  obtain ⟨harg, b, b', hb, hb', rfl⟩ := h
  exact Text.trim_padded hb harg.bare hb'

theorem pads_facts {args padded : List (List Char)} (h : List.Forall₂ Pads args padded) :
    (∀ p ∈ padded, ∀ c ∈ p, isInside c = true ∧ c ≠ ',') ∧ padded.map Text.trim = args ∧
      [] ∉ args := by
  induction h with
  | nil => exact ⟨List.forall_mem_nil _, rfl, List.not_mem_nil⟩
  | cons hpads _ ih =>
    obtain ⟨hmem, htrim, hne⟩ := ih
    refine ⟨List.forall_mem_cons.2 ⟨hpads.mem, hmem⟩, ?_, ?_⟩
    · rw [List.map_cons, hpads.trim_eq, htrim]
    · intro hnil
      rcases List.mem_cons.1 hnil with heq | hnil
      · exact hpads.1.ne_nil heq.symm
      · exact hne hnil

/-- The arguments are found in a text that lists them. -/
theorem Lists.found {args : List (List Char)} {inside : List Char} (h : Lists args inside) :
    (∀ c ∈ inside, isInside c) ∧ argumentsOf inside = args ∧ [] ∉ args := by
  cases h with
  | none hblank =>
    refine ⟨fun c hc => isInside_of_blank (hblank c hc), ?_, List.not_mem_nil⟩
    rw [argumentsOf, Text.trim_eq_nil_iff.2 hblank]
    rfl
  | @some _ padded hne hpads =>
    obtain ⟨hmem, htrim, hnil⟩ := pads_facts hpads
    have hpadded : padded ≠ [] := by
      rintro rfl
      exact hne htrim.symm
    have hpieces : Text.pieces ',' ([','].intercalate padded) = padded :=
      Text.pieces_intercalate hpadded fun p hp hcomma => (hmem p hp ',' hcomma).2 rfl
    -- were all of it blank, the first argument would be empty
    have hsome : ¬ (Text.trim ([','].intercalate padded)).isEmpty := by
      intro hempty
      have hblank := Text.trim_eq_nil_iff.1 (List.isEmpty_iff.1 hempty)
      obtain ⟨p, more, rfl⟩ := List.exists_cons_of_ne_nil hpadded
      have hp : Text.trim p = [] := Text.trim_eq_nil_iff.2 fun c hc =>
        hblank c (Text.mem_intercalate_of_mem List.mem_cons_self hc)
      rw [List.map_cons, hp] at htrim
      exact hnil (htrim ▸ List.mem_cons_self)
    refine ⟨fun c hc => ?_, ?_, hnil⟩
    · rcases Text.mem_intercalate hc with rfl | ⟨p, hp, hc⟩
      · decide
      · exact (hmem p hp c hc).1
    · rw [argumentsOf, if_neg hsome, hpieces, htrim]

/-- What stands between two commas is an argument between blanks, unless it is blank. -/
theorem pads_trim {inside p : List Char} (hinside : ∀ c ∈ inside, isInside c)
    (hp : p ∈ Text.pieces ',' inside) (hne : Text.trim p ≠ []) : Pads (Text.trim p) p := by
  obtain ⟨b, b', hb, hb', heq⟩ := Text.exists_padding p
  refine ⟨⟨hne, Text.bare_trim p, fun c hc => ?_⟩, b, b', hb, hb', heq⟩
  have hcp : c ∈ p := by
    rw [← heq]
    exact List.mem_append_left _ (List.mem_append_right _ hc)
  have hc' := hinside c (Text.mem_of_mem_pieces hp hcp)
  simp only [isInside, Bool.and_eq_true, bne_iff_ne] at hc'
  refine ⟨?_, hc'⟩
  rintro rfl
  exact Text.notMem_of_mem_pieces hp hcp

/-- The arguments are found in every text that lists them, and in no other. -/
theorem lists_iff {args : List (List Char)} {inside : List Char} :
    Lists args inside ↔ (∀ c ∈ inside, isInside c) ∧ argumentsOf inside = args ∧ [] ∉ args := by
  refine ⟨Lists.found, ?_⟩
  rintro ⟨hinside, rfl, hnil⟩
  by_cases hempty : (Text.trim inside).isEmpty
  · rw [argumentsOf, if_pos hempty]
    exact .none (Text.trim_eq_nil_iff.1 (List.isEmpty_iff.1 hempty))
  · rw [argumentsOf, if_neg hempty] at hnil ⊢
    have hpads : List.Forall₂ Pads ((Text.pieces ',' inside).map Text.trim)
        (Text.pieces ',' inside) := by
      rw [List.forall₂_map_left_iff, List.forall₂_same]
      intro p hp
      exact pads_trim hinside hp fun htrim => hnil (htrim ▸ List.mem_map_of_mem hp)
    have hlists := Lists.some (by simp [Text.pieces_ne_nil]) hpads
    rwa [Text.intercalate_pieces] at hlists

/-! ## One token -/

/-- What is read as a token writes it. -/
theorem writes_of_read? {s : List Char} {lexeme : Lexeme} (h : read? s = some lexeme)
    (hargs : [] ∉ lexeme.arguments) :
    Writes lexeme.tag lexeme.arguments lexeme.rest.head? lexeme.written := by
  unfold read? at h
  split at h
  · cases h
  · rename_i tag after htag
    obtain ⟨-, htag, hend⟩ := takeTag?_eq_some_iff.1 htag
    split at h
    · rename_i inside rest hpar
      obtain ⟨hinside, -⟩ := takeParentheses?_eq_some_iff.1 hpar
      cases h
      have hwrites : Writes _ _ rest.head? _ := .called (Text.blanks_takeWhile s) htag
        (Text.blanks_takeWhile after) (lists_iff.2 ⟨hinside, rfl, hargs⟩)
      simpa using hwrites
    · cases h
      exact .alone (Text.blanks_takeWhile s) htag rfl hend

theorem takeWhile_isBlank_append {b s : List Char} (hb : Blanks b)
    (hs : ∀ c ∈ s.head?, isBlank c = false) : (b ++ s).takeWhile isBlank = b := by
  have hnil : s.takeWhile isBlank = [] := by
    cases s with
    | nil => rfl
    | cons c rest => exact List.takeWhile_cons_of_neg (by simp [hs c rfl])
  rw [List.takeWhile_append_of_pos hb, hnil, List.append_nil]

/-- What writes a token is read as it, unless parentheses follow that would belong to it. -/
theorem read?_of_writes {tag s rest : List Char} {args : List (List Char)}
    (h : Writes tag args rest.head? s) (hrest : ∀ c ∈ (Text.trimStart rest).head?, c ≠ '(') :
    read? (s ++ rest) = some ⟨s, tag, args, rest⟩ ∧ [] ∉ args := by
  have hstart : ∀ after, TagText tag → ∀ c ∈ (tag ++ after).head?, isBlank c = false := by
    intro after htag c hc
    obtain ⟨d, more, rfl⟩ := List.exists_cons_of_ne_nil htag.ne_nil
    exact htag.bare.head c hc
  cases h with
  | @alone b hb htag hargs hend =>
    subst hargs
    have htake := takeTag?_eq_some_iff.2 ⟨rfl, htag, hend⟩
    have hhead := hstart rest htag
    simp only [read?, List.append_assoc, Text.trimStart_append hb, Text.trimStart_of_head hhead,
      htake, takeParentheses?_eq_none hrest, takeWhile_isBlank_append hb hhead]
    exact ⟨trivial, List.not_mem_nil⟩
  | @called b gap inside hb htag hgap hlists =>
    obtain ⟨hinside, hargs, hnil⟩ := lists_iff.1 hlists
    let after := gap ++ '(' :: (inside ++ ')' :: rest)
    have hpar : takeParentheses? after = some (inside, rest) :=
      takeParentheses?_eq_some_iff.2 ⟨hinside, gap, hgap, rfl⟩
    have hend : ∀ c ∈ after.head?, isAsciiNameInside c = false := by
      intro c hc
      by_contra hname
      have hblank := isBlank_of_inside (eq_true_of_ne_false hname)
      cases gap with
      | nil =>
        cases hc
        exact hname (by decide)
      | cons d gap =>
        cases hc
        rw [hgap c List.mem_cons_self] at hblank
        cases hblank
    have htake : takeTag? (tag ++ after) = some (tag, after) :=
      takeTag?_eq_some_iff.2 ⟨rfl, htag, fun _ => hend⟩
    have hgap' : after.takeWhile isBlank = gap :=
      takeWhile_isBlank_append hgap (by simp [show isBlank '(' = false by decide])
    have hhead := hstart after htag
    have hs : b ++ tag ++ (gap ++ '(' :: (inside ++ [')'])) ++ rest = b ++ (tag ++ after) := by
      simp [after]
    rw [hs, read?, Text.trimStart_append hb, Text.trimStart_of_head hhead, htake]
    simp only [hpar, takeWhile_isBlank_append hb hhead, hgap', hargs]
    exact ⟨by simp, hnil⟩

theorem Writes.mono {tag s : List Char} {args : List (List Char)} {next next' : Option Char}
    (h : Writes tag args next s) (hnext : ∀ c ∈ next', c ∈ next ∨ isAsciiNameInside c = false) :
    Writes tag args next' s := by
  cases h with
  | alone hb htag hargs hend =>
    refine .alone hb htag hargs fun hname c hc => ?_
    rcases hnext c hc with hnext | hnext
    · exact hend hname c hnext
    · exact hnext
  | called hb htag hgap hlists => exact .called hb htag hgap hlists

/-- A written token starts with blanks and its tag, and ends in no blank. -/
theorem Writes.shape {tag s : List Char} {args : List (List Char)} {next : Option Char}
    (h : Writes tag args next s) :
    TagText tag ∧ (∃ b after, Blanks b ∧ s = b ++ (tag ++ after)) ∧
      ∀ c ∈ s.getLast?, isBlank c = false := by
  cases h with
  | @alone b hb htag _ _ =>
    refine ⟨htag, ⟨b, [], hb, by simp⟩, fun c hc => htag.bare.last c ?_⟩
    rwa [Option.mem_def, List.getLast?_append_of_ne_nil b htag.ne_nil] at hc
  | @called b gap inside hb htag _ _ =>
    refine ⟨htag, ⟨b, _, hb, List.append_assoc ..⟩, fun c hc => ?_⟩
    have hlast : (b ++ tag ++ (gap ++ '(' :: (inside ++ [')']))).getLast? = some ')' := by
      simp [List.getLast?_append, List.getLast?_cons]
    rw [Option.mem_def, hlast] at hc
    cases hc
    decide

/-! ## Lists of tokens -/

/-- A rendering never starts with parentheses. -/
theorem Renders.head {ts : List Token} {s : List Char} (h : Renders ts s) :
    ∀ c ∈ (Text.trimStart s).head?, c ≠ '(' := by
  cases h with
  | nil hblank =>
    rw [Text.trimStart_eq_nil_iff.2 hblank]
    simp
  | @cons t ts s rest hwrites _ =>
    obtain ⟨htag, ⟨b, after, hb, rfl⟩, -⟩ := hwrites.shape
    obtain ⟨d, more, htext⟩ := List.exists_cons_of_ne_nil htag.ne_nil
    have hd := htag.mem d (htext ▸ List.mem_cons_self)
    rw [htext, List.append_assoc, Text.trimStart_append hb, Text.trimStart_of_head]
    · intro c hc
      cases hc
      exact hd.2
    · intro c hc
      cases hc
      exact hd.1

def Lexeme.token (lexeme : Lexeme) : Token :=
  ⟨String.ofList lexeme.tag, lexeme.arguments.map String.ofList⟩

theorem Lexeme.toList_arguments (lexeme : Lexeme) :
    lexeme.token.arguments.map String.toList = lexeme.arguments := by
  rw [token, List.map_map]
  exact (List.map_congr_left fun s _ => String.toList_ofList).trans (List.map_id _)

section TokensFrom

variable {word : String} {offset : Nat} {s : List Char}

theorem tokensFrom_nil : tokensFrom word offset [] = .ok [] := by
  rw [tokensFrom]
  rfl

theorem tokensFrom_of_read?_none (hne : s ≠ []) (h : read? s = none) :
    tokensFrom word offset s = .error (.unreadableWord word offset) := by
  rw [tokensFrom, if_neg (by simpa using hne)]
  split
  · rfl
  · rename_i lexeme heq
    rw [h] at heq
    cases heq

theorem tokensFrom_of_read? {lexeme : Lexeme} (h : read? s = some lexeme) :
    tokensFrom word offset s =
      if [] ∈ lexeme.arguments then
        .error (.emptyArgument (String.ofList (Text.trim lexeme.written)))
      else
        (tokensFrom word (offset + lexeme.written.length) lexeme.rest).map (lexeme.token :: ·) := by
  have hne : s ≠ [] := by
    rintro rfl
    cases h
  have hany : lexeme.arguments.any List.isEmpty = true ↔ [] ∈ lexeme.arguments := by simp
  rw [tokensFrom, if_neg (by simpa using hne)]
  split
  · rename_i heq
    rw [h] at heq
    cases heq
  · rename_i lexeme' heq
    rw [h] at heq
    cases heq
    simp only [hany]
    split
    · rfl
    · cases tokensFrom word (offset + lexeme.written.length) lexeme.rest <;> rfl

/-- A text that is read is a rendering of what is read. -/
theorem renders_of_tokensFrom {ts : List Token} (h : tokensFrom word offset s = .ok ts) :
    Renders ts s := by
  induction hn : s.length using Nat.strongRecOn generalizing s offset ts with
  | ind n ih =>
    by_cases hnil : s = []
    · subst hnil
      rw [tokensFrom_nil] at h
      cases h
      exact .nil Text.blanks_nil
    · cases hread : read? s with
      | none =>
        rw [tokensFrom_of_read?_none hnil hread] at h
        cases h
      | some lexeme =>
        rw [tokensFrom_of_read? hread] at h
        split_ifs at h with hargs
        have hlt : lexeme.rest.length < n := hn ▸ read?_rest_length_lt hread
        have hwrites := writes_of_read? hread hargs
        cases hmore : tokensFrom word (offset + lexeme.written.length) lexeme.rest with
        | error fault =>
          rw [hmore] at h
          cases h
        | ok more =>
          rw [hmore] at h
          cases h
          rw [← read?_append hread]
          refine .cons ?_ (ih _ hlt hmore rfl)
          rwa [Lexeme.toList_arguments, Lexeme.token, String.toList_ofList]

/-- Where reading fails, what has been read is a rendering. What follows does not begin with a
token, or it begins with one that has an empty argument. -/
theorem exists_stop {fault : Fault} (h : tokensFrom word offset s = .error fault) :
    ∃ ts read stuck, s = read ++ stuck ∧ Renders ts read ∧
      ((read? stuck = none ∧ stuck ≠ [] ∧ fault = .unreadableWord word (offset + read.length)) ∨
        ∃ lexeme, read? stuck = some lexeme ∧ [] ∈ lexeme.arguments ∧
          fault = .emptyArgument (String.ofList (Text.trim lexeme.written))) := by
  induction hn : s.length using Nat.strongRecOn generalizing s offset with
  | ind n ih =>
    by_cases hnil : s = []
    · subst hnil
      rw [tokensFrom_nil] at h
      cases h
    · cases hread : read? s with
      | none =>
        rw [tokensFrom_of_read?_none hnil hread] at h
        cases h
        exact ⟨[], [], s, rfl, .nil Text.blanks_nil, Or.inl ⟨hread, hnil, rfl⟩⟩
      | some lexeme =>
        rw [tokensFrom_of_read? hread] at h
        split_ifs at h with hargs
        · cases h
          exact ⟨[], [], s, rfl, .nil Text.blanks_nil, Or.inr ⟨lexeme, hread, hargs, rfl⟩⟩
        · have hlt : lexeme.rest.length < n := hn ▸ read?_rest_length_lt hread
          cases hmore : tokensFrom word (offset + lexeme.written.length) lexeme.rest with
          | ok more =>
            rw [hmore] at h
            cases h
          | error fault' =>
            rw [hmore] at h
            cases h
            obtain ⟨ts, read, stuck, hrest, hrenders, hstuck⟩ := ih _ hlt hmore rfl
            have hwrites : Writes _ _ read.head? _ := (writes_of_read? hread hargs).mono (by
              intro c hc
              rw [hrest, Option.mem_def, List.head?_append, Option.mem_def.1 hc]
              exact Or.inl rfl)
            refine ⟨lexeme.token :: ts, lexeme.written ++ read, stuck, ?_, .cons ?_ hrenders, ?_⟩
            · rw [List.append_assoc, ← hrest, read?_append hread]
            · rwa [Lexeme.toList_arguments, Lexeme.token, String.toList_ofList]
            · rwa [List.length_append, ← Nat.add_assoc]

/-- What reading a text finds does not depend on the blanks at its end. -/
theorem tokensFrom_of_renders {ts : List Token} (h : Renders ts s) :
    tokensFrom word offset (Text.trimEnd s) = .ok ts := by
  induction h generalizing offset with
  | @nil b hblank =>
    have hnil : Text.trimEnd b = [] := by
      rw [← List.nil_append b, Text.trimEnd_append hblank]
      rfl
    rw [hnil, tokensFrom_nil]
  | @cons t ts s rest hwrites _ ih =>
    have hhead := (renders_of_tokensFrom (@ih 0)).head
    have hwrites' := hwrites.mono fun c hc => Or.inl (Text.head_of_head_trimEnd (s := rest) hc)
    obtain ⟨hread, hargs⟩ := read?_of_writes hwrites' hhead
    have htoken : (⟨String.ofList t.tag.toList,
        (t.arguments.map String.toList).map String.ofList⟩ : Token) = t := by
      simp
    rw [Text.trimEnd_append_of_last hwrites.shape.2.2, tokensFrom_of_read? hread, if_neg hargs, ih]
    exact congrArg (fun t => Except.ok (t :: ts)) htoken

/-- Blanks at the end of a rendering are part of it. -/
theorem Renders.append_blanks {ts : List Token} (h : Renders ts s) {b : List Char}
    (hb : Blanks b) : Renders ts (s ++ b) := by
  induction h with
  | nil hblank => exact .nil (hblank.append hb)
  | @cons t ts s rest hwrites _ ih =>
    rw [List.append_assoc]
    refine .cons (hwrites.mono fun c hc => ?_) ih
    cases rest with
    | cons d rest => exact Or.inl hc
    | nil =>
      right
      by_contra hname
      have hblank := isBlank_of_inside (eq_true_of_ne_false hname)
      rw [hb c (List.mem_of_mem_head? hc)] at hblank
      cases hblank

end TokensFrom

/-! ## Texts -/

theorem ofText_of_renders {text : String} {ts : List Token} (h : Renders ts text.toList) :
    ofText text = .ok ts :=
  tokensFrom_of_renders h

theorem renders_of_ofText {text : String} {ts : List Token} (h : ofText text = .ok ts) :
    Renders ts text.toList := by
  obtain ⟨b, hb, htext⟩ := Text.exists_blanks_after text.toList
  rw [← htext]
  exact (renders_of_tokensFrom h).append_blanks hb

/-- Nothing that could begin a token stands at the start of `s`, blanks aside. -/
def NoToken (s : List Char) : Prop :=
  ∃ b c rest, Blanks b ∧ s = b ++ c :: rest ∧ isBlank c = false ∧ isAsciiNameStart c = false ∧
    isPunctuation c = false

theorem NoToken.append {s : List Char} (h : NoToken s) (t : List Char) : NoToken (s ++ t) := by
  obtain ⟨b, c, rest, hb, rfl, hc⟩ := h
  exact ⟨b, c, rest ++ t, hb, by simp, hc⟩

theorem noToken_of_read?_eq_none {s : List Char} (hs : ¬ Blanks s) (h : read? s = none) :
    NoToken s := by
  obtain ⟨c, rest, htrim⟩ := List.exists_cons_of_ne_nil (mt Text.trimStart_eq_nil_iff.1 hs)
  have htag : takeTag? (c :: rest) = none := by
    rw [read?, htrim] at h
    split at h
    · assumption
    · split at h <;> cases h
  rw [takeTag?] at htag
  split_ifs at htag with hstart hpunct
  refine ⟨s.takeWhile isBlank, c, rest, Text.blanks_takeWhile s, ?_, ?_, by simpa using hstart,
    by simpa using hpunct⟩
  · rw [← htrim]
    exact List.takeWhile_append_dropWhile.symm
  · exact Text.head_trimStart s c (by rw [htrim]; rfl)

/-- **Reading a text accepts exactly the renderings of tokens.** Every other text is refused; where
it is refused because no token can be read, what stands before is a rendering of the tokens read so
far, and what stands after begins, blanks aside, with a character that begins no token. -/
theorem ofText_eq_ok_iff_renders (text : String) :
    (∀ ts, ofText text = .ok ts ↔ Renders ts text.toList) ∧
      ((∀ ts, ¬ Renders ts text.toList) →
        ∃ fault, ofText text = .error fault ∧ fault.kind = .malformedGrammar) ∧
      ∀ word p, ofText text = .error (.unreadableWord word p) →
        ∃ ts, Renders ts (text.toList.take p) ∧ NoToken (text.toList.drop p) := by
  refine ⟨fun ts => ⟨renders_of_ofText, ofText_of_renders⟩, fun hnone => ?_, fun word p h => ?_⟩
  · cases h : ofText text with
    | ok ts => exact absurd (renders_of_ofText h) (hnone ts)
    | error fault =>
      refine ⟨fault, rfl, ?_⟩
      obtain ⟨ts, read, stuck, -, -, ⟨-, -, rfl⟩ | ⟨lexeme, -, -, rfl⟩⟩ := exists_stop h <;> rfl
  · obtain ⟨b, -, htext⟩ := Text.exists_blanks_after text.toList
    have hlast := Text.last_trimEnd text.toList
    obtain ⟨ts, read, stuck, hs, hrenders, hstuck⟩ := exists_stop h
    rcases hstuck with ⟨hread, hne, hfault⟩ | ⟨lexeme, -, -, hfault⟩
    · cases hfault
      have hblank : ¬ Blanks stuck := by
        intro hblank
        have hmem := List.getLast?_eq_some_getLast hne
        have hfalse := hlast (stuck.getLast hne) (by
          rw [hs, Option.mem_def, List.getLast?_append, hmem]
          rfl)
        rw [hblank _ (List.getLast_mem hne)] at hfalse
        cases hfalse
      rw [← htext, hs, Nat.zero_add, List.append_assoc, List.take_left, List.drop_left]
      exact ⟨ts, hrenders, (noToken_of_read?_eq_none hblank hread).append b⟩
    · cases hfault

end Arbor.Token
