import Arbor.Alphabet
import Arbor.Proofs.Decimal.Shortest
import Arbor.Proofs.Fault.Outcome
import Arbor.Proofs.Number.Exact
import Arbor.Proofs.Word.Rendering

/-!
# Words written and read

A word that has been written is read as a word that is the same but for the kinds of its
parameters: a double that is written as an integer comes back as one. What was read is written in
the same way again, so that writing and reading once more changes nothing.

* `Value.exists_comesBack`, `Symbol.exists_comesBack`: a parameter and a symbol, written and read.
* `Token.renders_texts`: the texts of tokens, with spaces between them, are a rendering.
* `Alphabet.parse_eq_ok_iff`: reading over an alphabet is reading where each symbol fits.
* `Word.parse_text`: a word, written and read, and written again.
-/

namespace Arbor

open Token (ArgumentText TagText Writes Renders)

/-! ## Parameters -/

/-- A number that has a text in words: an integer that is not too long, or a double. -/
inductive Value.Writable : Value → Prop
  | int {n : Int} : n.natAbs < 10 ^ Decimal.maxDigits → Writable (.number (.int n))
  | float (x : Float) : Writable (.number (.float x))
  | notANumber (origin : Origin) : Writable (.notANumber origin)

/-- Whether a value is not a number, although a double. -/
def Value.isNaN : Value → Bool
  | .number (.float x) => Binary64.isNotANumber x
  | .notANumber _ => true
  | _ => false

/-- What a parameter comes back as: an integer as itself, and a double as itself unless it is
integral and small, when it comes back as an integer. -/
inductive Value.ComesBack : Value → Value → Prop
  | int (n : Int) : ComesBack (.number (.int n)) (.number (.int n))
  | integral {x : Float} {n : Int} : Binary64.exactValue? x = some (.ofRat n) →
      n.natAbs < 10 ^ 16 → ComesBack (.number (.float x)) (.number (.int n))
  | float {x : Float} : Binary64.isNotANumber x = false →
      (∀ n : Int, Binary64.exactValue? x = some (.ofRat n) → 10 ^ 16 ≤ n.natAbs) →
      ComesBack (.number (.float x)) (.number (.float x))
  | nan {v : Value} : v.isNaN → ComesBack v (.number .notANumber)

theorem argumentText_of_plain {s : List Char} (hs : Decimal.Plain s) (hne : s ≠ []) :
    ArgumentText s := by
  have hall : Decimal.numeralChars.all fun d =>
      Text.isBlank d = false ∧ d ≠ ',' ∧ d ≠ '(' ∧ d ≠ ')' := by decide
  have hchar : ∀ c ∈ s, Text.isBlank c = false ∧ c ≠ ',' ∧ c ≠ '(' ∧ c ≠ ')' := fun c hc =>
    of_decide_eq_true (List.all_eq_true.1 hall c (hs c hc))
  refine ⟨hne, ⟨fun c hc => ?_, fun c hc => ?_⟩, fun c hc => (hchar c hc).2⟩
  · exact (hchar c (List.mem_of_mem_head? hc)).1
  · exact (hchar c (List.mem_of_mem_getLast? hc)).1

theorem Number.wordInt?_eq_some_iff {x : Float} {n : Int} :
    wordInt? x = some n ↔ Binary64.exactValue? x = some (.ofRat n) ∧ n.natAbs < 10 ^ 16 := by
  rw [← Binary64.toInt?_eq_some_iff, wordInt?]
  cases Binary64.toInt? x with
  | none => simp
  | some k =>
    simp only [Option.some.injEq, Nat.pow_eq]
    constructor
    · intro h
      split_ifs at h with hk
      cases h
      exact ⟨rfl, hk⟩
    · rintro ⟨rfl, hk⟩
      exact if_pos hk

/-! ### Numbers that are read back -/

/-- The text of a number in a word, from which the same number is read. -/
structure Number.HasText (a : Number) (text : String) : Prop where
  wordText : a.wordText = .ok text
  argumentText : ArgumentText text.toList
  read : Number.read text = .ok a

theorem Number.intText_eq_repr {n : Int} (hn : n.natAbs < 10 ^ Decimal.maxDigits) :
    intText n = .ok n.repr := by
  rw [intText, Nat.pow_eq, if_pos hn]

theorem Number.wordText_int (n : Int) : (Number.int n).wordText = intText n := rfl

theorem Number.hasText_int {n : Int} (hn : n.natAbs < 10 ^ Decimal.maxDigits) :
    (Number.int n).HasText n.repr where
  wordText := by rw [wordText_int, intText_eq_repr hn]
  argumentText := argumentText_of_plain (Decimal.plain_repr n).1 (Decimal.plain_repr n).2
  read := by rw [read, read?, Decimal.readInt?_repr hn]

theorem Number.argumentText_floatText (x : Float) : ArgumentText (Decimal.floatText x).toList :=
  argumentText_of_plain (Decimal.plain_floatText x).1 (Decimal.plain_floatText x).2

theorem Number.hasText_float {x : Float} (hx : Binary64.isNotANumber x = false)
    (h : wordInt? x = none) : (Number.float x).HasText (Decimal.floatText x) where
  wordText := by simp only [wordText, h]
  argumentText := argumentText_floatText x
  read := by
    rw [read, read?, Decimal.readInt?_floatText, Decimal.readFloat?_floatText hx]
    rfl

theorem Number.hasText_notANumber : Number.notANumber.HasText "nan" where
  wordText := by decide
  argumentText := argumentText_floatText Binary64.notANumber
  read := rfl

/-- What is not a number has one text, whatever its bits. -/
theorem Number.wordText_of_isNotANumber {x : Float} (hx : Binary64.isNotANumber x) :
    (Number.float x).wordText = .ok "nan" := by
  have hparts := Binary64.isNotANumber_iff.1 hx
  simp only [wordText, wordInt?, Binary64.toInt?, Decimal.floatText, hparts]

/-- A parameter, written and read, and written again. -/
theorem Value.exists_comesBack {v : Value} (hv : v.Writable) :
    ∃ (text : String) (a : Number), v.wordText = .ok text ∧ a.HasText text ∧
      v.ComesBack a := by
  cases hv with
  | @int n hn =>
    have htext := Number.hasText_int hn
    exact ⟨n.repr, .int n, htext.wordText, htext, .int n⟩
  | notANumber origin =>
    have htext := Number.hasText_notANumber
    exact ⟨"nan", .notANumber, htext.wordText, htext, .nan rfl⟩
  | float x =>
    by_cases hx : Binary64.isNotANumber x
    · exact ⟨"nan", .notANumber, Number.wordText_of_isNotANumber hx, Number.hasText_notANumber,
        .nan hx⟩
    · cases hint : Number.wordInt? x with
      | some n =>
        obtain ⟨hvalue, hn⟩ := Number.wordInt?_eq_some_iff.1 hint
        have hshort : n.natAbs < 10 ^ Decimal.maxDigits :=
          hn.trans_le (Nat.pow_le_pow_right (by decide) (by decide))
        refine ⟨n.repr, .int n, ?_, Number.hasText_int hshort, .integral hvalue hn⟩
        rw [← Number.intText_eq_repr hshort]
        simp only [wordText, Number.wordText, hint]
      | none =>
        have htext := Number.hasText_float (eq_false_of_ne_true hx) hint
        refine ⟨_, _, htext.wordText, htext, .float (eq_false_of_ne_true hx) fun n hvalue => ?_⟩
        by_contra hn
        have hsome := Number.wordInt?_eq_some_iff.2 ⟨hvalue, Nat.lt_of_not_le hn⟩
        rw [hint] at hsome
        cases hsome

/-- A parameter that is a number comes back as the same number. -/
theorem Value.ComesBack.same {v v' : Value} (h : v.ComesBack v') (hv : v.isNaN = false) :
    v.same v' = true := by
  cases h with
  | int n => exact (Number.same_iff _ _).2 ⟨_, rfl, rfl⟩
  | integral hvalue _ => exact (Number.same_iff _ _).2 ⟨_, hvalue, rfl⟩
  | @float x hx _ =>
    obtain ⟨u, hu⟩ := Binary64.exists_exactValue hx
    exact (Number.same_iff _ _).2 ⟨u, hu, hu⟩
  | nan hnan =>
    rw [hv] at hnan
    cases hnan

/-! ## Lists -/

/-- What each entry of a list is related to, gathered into lists. -/
theorem exists_forall₂ {α β γ : Type} {P : α → β → Prop} {Q : β → γ → Prop} {R : α → γ → Prop}
    {l : List α} (h : ∀ a ∈ l, ∃ b c, P a b ∧ Q b c ∧ R a c) :
    ∃ bs cs, List.Forall₂ P l bs ∧ List.Forall₂ Q bs cs ∧ List.Forall₂ R l cs := by
  induction l with
  | nil => exact ⟨[], [], .nil, .nil, .nil⟩
  | cons a l ih =>
    obtain ⟨b, c, hP, hQ, hR⟩ := h a List.mem_cons_self
    obtain ⟨bs, cs, hPs, hQs, hRs⟩ := ih fun a ha => h a (List.mem_cons_of_mem _ ha)
    exact ⟨b :: bs, c :: cs, .cons hP hPs, .cons hQ hQs, .cons hR hRs⟩

theorem forall_of_forall₂ {α β : Type} {R : α → β → Prop} {p : α → Prop} {l : List α}
    {l' : List β} (h : List.Forall₂ R l l') (hp : ∀ a b, R a b → p a) : ∀ a ∈ l, p a := by
  have hand : List.Forall₂ (fun a b => p a ∧ R a b) l l' := h.imp fun a b hR => ⟨hp a b hR, hR⟩
  exact ((List.forall₂_and_left l l').1 hand).1

theorem forall_mem_iff_of_forall₂ {α β : Type} {R : α → β → Prop} {p : α → Prop} {q : β → Prop}
    {l : List α} {l' : List β} (h : List.Forall₂ R l l') (hpq : ∀ a b, R a b → (p a ↔ q b)) :
    (∀ a ∈ l, p a) ↔ ∀ b ∈ l', q b := by
  induction h with
  | nil => simp
  | cons hab _ ih => rw [List.forall_mem_cons, List.forall_mem_cons, hpq _ _ hab, ih]

theorem forall₂_trans {α β γ : Type} {R : α → β → Prop} {S : β → γ → Prop} {T : α → γ → Prop}
    {l : List α} {l' : List β} {l'' : List γ} (h : List.Forall₂ R l l')
    (h' : List.Forall₂ S l' l'') (hT : ∀ a b c, R a b → S b c → T a c) :
    List.Forall₂ T l l'' := by
  induction h generalizing l'' with
  | nil =>
    cases h'
    exact .nil
  | cons hab _ ih =>
    cases h' with
    | cons hbc h' => exact .cons (hT _ _ _ hab hbc) (ih h')

/-! ## Tokens -/

namespace Token

/-- A token as a word shows it. -/
def text (t : Token) : String :=
  if t.arguments.isEmpty then t.tag else t.tag ++ "(" ++ ", ".intercalate t.arguments ++ ")"

/-- The parts of a token are texts of a tag and of arguments. -/
structure Legal (t : Token) : Prop where
  tag : TagText t.tag.toList
  arguments : ∀ a ∈ t.arguments, ArgumentText a.toList

theorem blanks_space : Text.Blanks [' '] := by
  intro c hc
  rw [List.mem_singleton.1 hc]
  decide

/-- Arguments with a comma and a space between them are padded arguments with commas between
them. -/
theorem exists_pads {b a : List Char} {args : List (List Char)} (hb : Text.Blanks b)
    (hargs : ∀ s ∈ a :: args, ArgumentText s) :
    ∃ p padded, List.Forall₂ Pads (a :: args) (p :: padded) ∧
      [','].intercalate (p :: padded) = b ++ [',', ' '].intercalate (a :: args) := by
  induction args generalizing b a with
  | nil =>
    have hpads : Pads a (b ++ a) :=
      ⟨hargs a List.mem_cons_self, b, [], hb, Text.blanks_nil, List.append_nil _⟩
    exact ⟨b ++ a, [], .cons hpads .nil, by simp⟩
  | cons a' args ih =>
    obtain ⟨ha, hmore⟩ := List.forall_mem_cons.1 hargs
    -- the space after a comma belongs to the next argument
    obtain ⟨p, padded, hforall, htext⟩ := ih blanks_space hmore
    have hpads : Pads a (b ++ a) := ⟨ha, b, [], hb, Text.blanks_nil, List.append_nil _⟩
    refine ⟨b ++ a, p :: padded, .cons hpads hforall, ?_⟩
    rw [List.intercalate_cons_cons, htext, List.intercalate_cons_cons]
    simp

theorem lists_texts {args : List (List Char)} (hne : args ≠ [])
    (hargs : ∀ s ∈ args, ArgumentText s) : Lists args ([',', ' '].intercalate args) := by
  obtain ⟨a, more, rfl⟩ := List.exists_cons_of_ne_nil hne
  obtain ⟨p, padded, hforall, htext⟩ := exists_pads Text.blanks_nil hargs
  rw [List.nil_append] at htext
  rw [← htext]
  exact .some hne hforall

theorem toList_text (t : Token) :
    t.text.toList = t.tag.toList ++ if t.arguments = [] then []
      else '(' :: ([',', ' '].intercalate (t.arguments.map String.toList) ++ [')']) := by
  unfold text
  by_cases hnil : t.arguments = []
  · simp [hnil]
  · simp [hnil, String.toList_intercalate]

/-- The text of a token writes it where no name goes on. -/
theorem writes_text {t : Token} (ht : t.Legal) {b : List Char} (hb : Text.Blanks b)
    {next : Option Char} (hnext : ∀ c ∈ next, Text.isAsciiNameInside c = false) :
    Writes t.tag.toList (t.arguments.map String.toList) next (b ++ t.text.toList) := by
  rw [toList_text]
  by_cases hnil : t.arguments = []
  · rw [if_pos hnil, List.append_nil]
    exact .alone hb ht.tag (by rw [hnil]; rfl) fun _ => hnext
  · rw [if_neg hnil, ← List.append_assoc]
    have hne : t.arguments.map String.toList ≠ [] := by simpa using hnil
    exact .called hb ht.tag Text.blanks_nil (lists_texts hne (by simpa using ht.arguments))

/-- The texts of tokens with single spaces between them are a rendering of the tokens. -/
theorem renders_texts {ts : List Token} (hts : ∀ t ∈ ts, t.Legal) {b : List Char}
    (hb : Text.Blanks b) :
    Renders ts (b ++ [' '].intercalate (ts.map fun t => t.text.toList)) := by
  induction ts generalizing b with
  | nil => simpa using Renders.nil hb
  | cons t ts ih =>
    obtain ⟨ht, hmore⟩ := List.forall_mem_cons.1 hts
    cases ts with
    | nil => simpa using Renders.cons (writes_text ht hb (by simp)) (.nil Text.blanks_nil)
    | cons t' ts =>
      -- the space between two tokens belongs to the second
      have hwrites : Writes _ _ (some ' ') _ := writes_text ht hb (by rintro c ⟨⟩; decide)
      have hcons := @Renders.cons t _ _ (' ' :: _) hwrites (ih hmore blanks_space)
      simpa [List.intercalate_cons_cons] using hcons

end Token

/-! ## Symbols -/

namespace Symbol

/-- The token that shows a symbol, from which the same symbol is read. -/
structure HasText (s : Symbol) (t : Token) : Prop where
  text : s.text = .ok t.text
  legal : t.Legal
  read : t.symbol = .ok s

/-- A symbol comes back with its tag, and with each parameter as it comes back. -/
def ComesBack (s s' : Symbol) : Prop :=
  s'.tag = s.tag ∧ List.Forall₂ Value.ComesBack s.params s'.params

theorem text_of_forall₂ {tag : String} {params : List Value} {texts : List String}
    (h : List.Forall₂ (fun v text => v.wordText = .ok text) params texts) :
    text ⟨tag, params⟩ = .ok (Token.text ⟨tag, texts⟩) := by
  rw [text, mapM_eq_ok_iff.2 h]
  rfl

theorem hasText_of_forall₂ {tag : String} {texts : List String} {numbers : List Number}
    (htag : Token.isTag tag = true)
    (h : List.Forall₂ (fun text (a : Number) => a.HasText text) texts numbers) :
    HasText ⟨tag, numbers.map Value.number⟩ ⟨tag, texts⟩ where
  text := by
    refine text_of_forall₂ (List.forall₂_map_left_iff.2 (.flip (h.imp ?_)))
    exact fun _ _ ha => ha.wordText
  legal := ⟨Token.isTag_iff.1 htag, forall_of_forall₂ h fun _ _ ha => ha.argumentText⟩
  read := by
    have hnumbers : Token.numbers ⟨tag, texts⟩ = .ok numbers :=
      mapM_eq_ok_iff.2 (h.imp fun _ _ ha => ha.read)
    rw [Token.symbol, hnumbers]
    rfl

/-- A symbol, written and read, and written again. -/
theorem exists_comesBack {s : Symbol} (htag : Token.isTag s.tag = true)
    (hs : ∀ v ∈ s.params, v.Writable) :
    ∃ t s', s.text = .ok (Token.text t) ∧ HasText s' t ∧ s.ComesBack s' := by
  obtain ⟨texts, numbers, hwritten, hread, hback⟩ :=
    exists_forall₂ fun v hv => Value.exists_comesBack (hs v hv)
  exact ⟨_, _, text_of_forall₂ hwritten, hasText_of_forall₂ htag hread, rfl,
    List.forall₂_map_right_iff.2 hback⟩

/-- A symbol whose parameters are numbers comes back as the same symbol. -/
theorem ComesBack.same {s s' : Symbol} (h : s.ComesBack s')
    (hs : ∀ v ∈ s.params, v.isNaN = false) : s.same s' = true := by
  obtain ⟨htag, hparams⟩ := h
  have hlists : Value.sameLists s.params s'.params = true := by
    generalize s.params = vs at hs hparams
    generalize s'.params = vs' at hparams
    induction hparams with
    | nil => rfl
    | cons hback _ ih =>
      obtain ⟨hv, hmore⟩ := List.forall_mem_cons.1 hs
      rw [Value.sameLists, hback.same hv, ih hmore]
      rfl
  rw [Symbol.same, htag, hlists, beq_self_eq_true]
  rfl

end Symbol

/-! ## Words -/

namespace Word

/-- A word comes back symbol by symbol. -/
def ComesBack : Word → Word → Prop := List.Forall₂ Symbol.ComesBack

/-- A word whose parameters are numbers comes back as the same word. -/
theorem ComesBack.same {w w' : Word} (h : ComesBack w w')
    (hw : ∀ s ∈ w, ∀ v ∈ s.params, v.isNaN = false) : Word.same w w' = true := by
  induction h with
  | nil => rfl
  | cons hback _ ih =>
    obtain ⟨hs, hmore⟩ := List.forall_mem_cons.1 hw
    rw [Word.same, hback.same hs, ih hmore]
    rfl

theorem text_of_forall₂ {w : Word} {ts : List Token}
    (h : List.Forall₂ (fun s (t : Token) => s.text = .ok t.text) w ts) :
    Word.text w = .ok (" ".intercalate (ts.map Token.text)) := by
  rw [text, mapM_eq_ok_iff.2 (List.forall₂_map_right_iff.2 h)]
  rfl

/-- Legal tokens are read from their texts with single spaces between them. -/
theorem ofText_texts {ts : List Token} (hts : ∀ t ∈ ts, t.Legal) :
    Token.ofText (" ".intercalate (ts.map Token.text)) = .ok ts := by
  refine Token.ofText_of_renders ?_
  rw [String.toList_intercalate, List.map_map]
  exact Token.renders_texts hts Text.blanks_nil

end Word

/-! ## Alphabets -/

namespace Alphabet

variable {a : Alphabet}

theorem symbol_eq_ok_iff {tag : String} {params : List Value} {s : Symbol} :
    a.symbol tag params = .ok s ↔ a.fits s = true ∧ Symbol.mk tag params = s := by
  unfold symbol arity
  constructor
  · intro h
    cases harity : a.arity? tag with
    | none =>
      rw [harity] at h
      cases h
    | some n =>
      simp only [harity, bind, Except.bind] at h
      split_ifs at h with hlength
      cases h
      simp [fits, harity, hlength]
  · rintro ⟨hfits, rfl⟩
    unfold fits at hfits
    cases harity : a.arity? tag with
    | none => simp [harity] at hfits
    | some n =>
      simp only [harity, beq_iff_eq] at hfits
      simp only [bind, Except.bind, if_pos hfits]
      rfl

/-- Reading a word over an alphabet is reading it, where each symbol has to fit. -/
theorem parse_eq_ok_iff {text : String} {w : Word} :
    a.parse text = .ok w ↔ (∀ s ∈ w, a.fits s = true) ∧ Word.parse text = .ok w := by
  unfold parse Word.parse
  cases Token.ofText text with
  | error fault => simp [bind, Except.bind]
  | ok ts =>
    have htoken : ∀ (t : Token) (s : Symbol),
        (t.numbers >>= fun params => a.symbol t.tag (params.map Value.number)) = .ok s ↔
          a.fits s = true ∧ t.symbol = .ok s := by
      intro t s
      unfold Token.symbol
      cases t.numbers with
      | error fault => simp [bind, Except.bind]
      | ok numbers => simp [bind, Except.bind, pure, Except.pure, symbol_eq_ok_iff]
    change ts.mapM (fun t => t.numbers >>= fun params =>
      a.symbol t.tag (params.map Value.number)) = .ok w ↔ _ ∧ ts.mapM Token.symbol = .ok w
    simp only [mapM_eq_ok_iff, htoken]
    constructor
    · intro h
      obtain ⟨hfits, hread⟩ := (List.forall₂_and_left w ts).1 h.flip
      exact ⟨hfits, hread.flip⟩
    · rintro ⟨hfits, hread⟩
      exact ((List.forall₂_and_left w ts).2 ⟨hfits, hread.flip⟩).flip

end Alphabet

/-! ## Writing and reading -/

theorem Symbol.ComesBack.fits_iff {s s' : Symbol} (h : s.ComesBack s') (a : Alphabet) :
    a.fits s' = true ↔ a.fits s = true := by
  rw [Alphabet.fits, Alphabet.fits, h.1, h.2.length_eq]

/-- A word that comes back from a word over an alphabet is over the same alphabet. -/
theorem Word.ComesBack.fits {w w' : Word} (h : ComesBack w w') {a : Alphabet}
    (hw : ∀ s ∈ w, a.fits s = true) : ∀ s ∈ w', a.fits s = true := by
  induction h with
  | nil => exact List.forall_mem_nil _
  | cons hback _ ih =>
    obtain ⟨hs, hmore⟩ := List.forall_mem_cons.1 hw
    exact List.forall_mem_cons.2 ⟨(hback.fits_iff a).2 hs, ih hmore⟩

/-- A word with legal tags and parameters that have texts can be written and read. -/
theorem Word.exists_comesBack {w : Word}
    (hw : ∀ s ∈ w, Token.isTag s.tag = true ∧ ∀ v ∈ s.params, v.Writable) :
    ∃ text w', Word.text w = .ok text ∧ Word.parse text = .ok w' ∧ ComesBack w w' := by
  obtain ⟨ts, w', hwritten, hread, hback⟩ :=
    exists_forall₂ fun s hs => Symbol.exists_comesBack (hw s hs).1 (hw s hs).2
  have hlegal : ∀ t ∈ ts, t.Legal := forall_of_forall₂ hread fun _ _ hs => hs.legal
  refine ⟨_, w', text_of_forall₂ hwritten, ?_, hback⟩
  rw [parse, ofText_texts hlegal]
  exact mapM_eq_ok_iff.2 (hread.imp fun _ _ hs => hs.read)

/-- **Writing and reading words are inverse.** A word with legal tags, whose parameters are doubles
and integers that are not too long, has a text. The text is read as a word that is the same but for
the kinds of its parameters, over each alphabet that the word is over, and that has the same text
again. -/
theorem Word.parse_text (w : Word)
    (hw : ∀ s ∈ w, Token.isTag s.tag = true ∧ ∀ v ∈ s.params, v.Writable) :
    ∃ text w', Word.text w = .ok text ∧ Word.parse text = .ok w' ∧ Word.text w' = .ok text ∧
      ComesBack w w' ∧
      ((∀ s ∈ w, ∀ v ∈ s.params, v.isNaN = false) → Word.same w w' = true) ∧
      ∀ a : Alphabet, (∀ s ∈ w, a.fits s = true) → a.parse text = .ok w' := by
  obtain ⟨ts, w', hwritten, hread, hback⟩ :=
    exists_forall₂ fun s hs => Symbol.exists_comesBack (hw s hs).1 (hw s hs).2
  change ComesBack w w' at hback
  have hlegal : ∀ t ∈ ts, t.Legal := forall_of_forall₂ hread fun _ _ hs => hs.legal
  have hagain : List.Forall₂ (fun s (t : Token) => s.text = .ok t.text) w' ts :=
    .flip (hread.imp fun _ _ hs => hs.text)
  have hparse : Word.parse (" ".intercalate (ts.map Token.text)) = .ok w' := by
    rw [parse, ofText_texts hlegal]
    exact mapM_eq_ok_iff.2 (hread.imp fun _ _ hs => hs.read)
  refine ⟨_, w', text_of_forall₂ hwritten, hparse, text_of_forall₂ hagain, hback, hback.same, ?_⟩
  intro a hfits
  exact Alphabet.parse_eq_ok_iff.2 ⟨hback.fits hfits, hparse⟩

/-- A branch whose segment has an integral double, a fraction and a large double. -/
theorem Word.parse_text_branch :
    ∃ w', Word.text [⟨"A", [.number (.int (-1))]⟩, ⟨"[", []⟩,
        ⟨"F", [.number (.float 10), .number (.float 2.5), .number (.float 1e16)]⟩, ⟨"]", []⟩] =
          .ok "A(-1) [ F(10, 2.5, 1e+16) ]" ∧
      Word.parse "A(-1) [ F(10, 2.5, 1e+16) ]" = .ok w' ∧
      Word.text w' = .ok "A(-1) [ F(10, 2.5, 1e+16) ]" := by
  have hone : (-1 : Int).natAbs < 10 ^ Decimal.maxDigits := Nat.one_lt_pow (by decide) (by decide)
  obtain ⟨text, w', htext, hparse, hagain, -⟩ := Word.parse_text
    [⟨"A", [.number (.int (-1))]⟩, ⟨"[", []⟩,
      ⟨"F", [.number (.float 10), .number (.float 2.5), .number (.float 1e16)]⟩, ⟨"]", []⟩]
    (by simp [Value.Writable.int hone, Value.Writable.float, show Token.isTag "A" by decide,
      show Token.isTag "F" by decide, show Token.isTag "[" by decide,
      show Token.isTag "]" by decide])
  have hshown : (.ok text : Except Fault String) = .ok "A(-1) [ F(10, 2.5, 1e+16) ]" := by
    rw [← htext]
    decide +kernel
  cases hshown
  exact ⟨w', htext, hparse, hagain⟩

end Arbor
