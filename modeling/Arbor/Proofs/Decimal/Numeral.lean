import Arbor.Decimal.Numeral
import Arbor.Proofs.Binary64.Nearest

/-!
# Reading numerals

A numeral is digits, perhaps a point and more digits, and perhaps an exponent. It stands for a
rational number, and reading it gives the double nearest to this number: that numbers far beyond
the doubles are settled by the place of their first digit makes no difference.

* `digitRun_append`: a run of digits ends where something else begins.
* `nearestDecimal_eq`: the rounding of digits with a point among them.
* `readFloat?_text`, `readInt?_text`: numerals read as doubles and as integers.
-/

namespace Arbor.Decimal

open Binary64 (nearest nearestBits nearestRat ofSignedBits)

/-! ## Digits -/

def Digits (s : List Char) : Prop := ∀ c ∈ s, c.isDigit

def values (s : List Char) : List Nat := s.map fun c => c.toNat - '0'.toNat

theorem valueOf_values (s : List Char) : valueOf (values s) = Nat.ofDigitChars 10 s 0 := by
  rw [valueOf, values, List.foldl_map]
  rfl

theorem Digits.append {s t : List Char} (hs : Digits s) (ht : Digits t) : Digits (s ++ t) := by
  intro c hc
  rcases List.mem_append.1 hc with hc | hc
  · exact hs c hc
  · exact ht c hc

theorem digits_repr (n : Nat) : Digits n.repr.toList := by
  intro c hc
  rw [Nat.toList_repr] at hc
  exact Nat.isDigit_of_mem_toDigits (by decide) (by decide) hc

theorem digits_replicate (n : Nat) : Digits (List.replicate n '0') := by
  intro c hc
  rw [List.eq_of_mem_replicate hc]
  rfl

theorem lt_ten_of_mem_values {s : List Char} (hs : Digits s) : ∀ d ∈ values s, d < 10 := by
  intro d hd
  obtain ⟨c, hc, rfl⟩ := List.mem_map.1 hd
  have hdigit := hs c hc
  simp only [Char.isDigit, Bool.and_eq_true, decide_eq_true_eq] at hdigit
  have hle : c.toNat ≤ 57 := hdigit.2
  show c.toNat - 48 < 10
  omega

/-! ## Runs of digits -/

theorem asciiDigit?_of_isDigit {c : Char} (hc : c.isDigit) :
    asciiDigit? c = some (c.toNat - '0'.toNat) := if_pos hc

theorem digitRun_of_not_isDigit {s : List Char} (h : ∀ c ∈ s.head?, c.isDigit = false) :
    digitRun s = ([], s) := by
  cases s with
  | nil => rw [digitRun]
  | cons c rest =>
    have hnone : asciiDigit? c = none := if_neg (by rw [h c rfl]; exact Bool.false_ne_true)
    rw [digitRun.eq_def]
    simp only [hnone]

theorem digitRun_cons {c : Char} {s : List Char} (hc : c.isDigit) (hs : ∀ d ∈ s.head?, d ≠ '_') :
    digitRun (c :: s) = ((c.toNat - '0'.toNat) :: (digitRun s).1, (digitRun s).2) := by
  rw [digitRun.eq_def]
  simp only [asciiDigit?_of_isDigit hc]
  split
  · rename_i h
    cases h
  · exact absurd rfl (hs '_' rfl)
  · rename_i heq _
    cases heq
    rfl

/-- A run of digits ends where something else begins. -/
theorem digitRun_append {s rest : List Char} (hs : Digits s)
    (hrest : ∀ c ∈ rest.head?, c.isDigit = false ∧ c ≠ '_') :
    digitRun (s ++ rest) = (values s, rest) := by
  induction s with
  | nil => exact digitRun_of_not_isDigit fun c hc => (hrest c hc).1
  | cons c s ih =>
    obtain ⟨hc, hs⟩ := List.forall_mem_cons.1 hs
    have hhead : ∀ d ∈ (s ++ rest).head?, d ≠ '_' := by
      intro d hd
      cases s with
      | nil => exact (hrest d hd).2
      | cons e s =>
        cases hd
        rintro rfl
        exact absurd (hs '_' List.mem_cons_self) (by decide)
    rw [List.cons_append, digitRun_cons hc hhead, ih hs]
    rfl

theorem digitRun_digits {s : List Char} (hs : Digits s) : digitRun s = (values s, []) := by
  rw [← List.append_nil s, digitRun_append hs (by simp), List.append_nil]

/-! ## The value of digits -/

theorem valueOf_cons (d : Nat) (ds : List Nat) :
    valueOf (d :: ds) = d * 10 ^ ds.length + valueOf ds := by
  have hfrom : ∀ (ds : List Nat) (n : Nat),
      ds.foldl (fun n d => 10 * n + d) n = n * 10 ^ ds.length + valueOf ds := by
    intro ds
    induction ds with
    | nil =>
      intro n
      simp [valueOf]
    | cons d ds ih =>
      intro n
      rw [valueOf, List.foldl_cons, List.foldl_cons, ih, ih, List.length_cons, Nat.pow_succ]
      ring
  rw [valueOf, List.foldl_cons, hfrom]
  simp

theorem valueOf_lt {ds : List Nat} (h : ∀ d ∈ ds, d < 10) : valueOf ds < 10 ^ ds.length := by
  induction ds with
  | nil => exact Nat.one_pos
  | cons d ds ih =>
    obtain ⟨hd, hds⟩ := List.forall_mem_cons.1 h
    have hrest := ih hds
    rw [valueOf_cons, List.length_cons, Nat.pow_succ]
    nlinarith

/-- Zeros in front do not count. -/
theorem valueOf_dropWhile (ds : List Nat) : valueOf (ds.dropWhile (· == 0)) = valueOf ds := by
  induction ds with
  | nil => rfl
  | cons d ds ih =>
    by_cases hd : d = 0
    · rw [List.dropWhile_cons_of_pos (by simpa using hd), ih, valueOf_cons, hd, Nat.zero_mul,
        Nat.zero_add]
    · rw [List.dropWhile_cons_of_neg (by simpa using hd)]

theorem le_valueOf_dropWhile {ds : List Nat} (h : ds.dropWhile (· == 0) ≠ []) :
    10 ^ ((ds.dropWhile (· == 0)).length - 1) ≤ valueOf (ds.dropWhile (· == 0)) := by
  obtain ⟨d, more, heq⟩ := List.exists_cons_of_ne_nil h
  have hd : 0 < d := by
    have hhead := List.head?_dropWhile_not (· == 0) ds
    rw [heq] at hhead
    refine Nat.pos_of_ne_zero ?_
    simpa using hhead
  rw [heq, valueOf_cons, List.length_cons, Nat.add_sub_cancel]
  exact Nat.le_add_right_of_le (Nat.le_mul_of_pos_left _ hd)

/-! ## Rounding -/

/-- A natural number with an exponent of ten, as the quotient that is rounded. -/
theorem nearestBits_scaled (n : Nat) (e : Int) :
    (if 0 ≤ e then nearestBits (n * Nat.pow 10 e.toNat) 1
      else nearestBits n (Nat.pow 10 (-e).toNat)) = nearestRat (n * 10 ^ e) := by
  by_cases he : 0 ≤ e
  · lift e to ℕ using he
    rw [if_pos (Int.natCast_nonneg e), Binary64.nearestBits_eq _ Nat.one_pos]
    simp
  · obtain ⟨k, hk⟩ := Int.eq_ofNat_of_zero_le (show 0 ≤ -e by omega)
    obtain rfl : e = -(k : ℤ) := by omega
    have hden : 0 < Nat.pow 10 (-(-(k : ℤ))).toNat := Nat.pow_pos (by decide)
    rw [if_neg he, Binary64.nearestBits_eq n hden]
    simp [div_eq_mul_inv]

theorem nearest_scaled (negative : Bool) (n : Nat) (e : Int) :
    (if 0 ≤ e then nearest negative (n * Nat.pow 10 e.toNat) 1
      else nearest negative n (Nat.pow 10 (-e).toNat)) =
      ofSignedBits negative (nearestRat (n * 10 ^ e)) := by
  rw [← nearestBits_scaled]
  split_ifs <;> rfl

/-- No double is as small as this, zero apart. -/
theorem ten_zpow_le : (10 : ℚ) ^ (-331 : Int) ≤ 2 ^ (-1075 : Int) := by
  have hpow : 2 ^ 1075 ≤ 10 ^ 331 := by decide +kernel
  rw [zpow_neg, zpow_neg]
  exact inv_anti₀ (by positivity) (by exact_mod_cast hpow)

/-- No double is as large as this, infinity apart. -/
theorem le_ten_zpow : (2 : ℚ) ^ (1024 : Int) ≤ 10 ^ (310 : Int) := by
  have hpow : 2 ^ 1024 ≤ 10 ^ 310 := by decide +kernel
  exact_mod_cast hpow

/-- A number below the least double, written with `k` digits. -/
theorem nearestRat_of_lead_lt {n k : Nat} (hn : n < 10 ^ k) {lead : Int} (hlead : lead < -330) :
    nearestRat (n * 10 ^ (lead - k)) = 0 := by
  refine Binary64.nearestRat_eq_zero (by positivity) ?_
  calc (n : ℚ) * 10 ^ (lead - k) < 10 ^ k * 10 ^ (lead - k) := by
        gcongr
        exact_mod_cast hn
    _ = 10 ^ lead := by
        rw [← zpow_natCast, ← zpow_add₀ (by norm_num), add_sub_cancel]
    _ ≤ 10 ^ (-331 : Int) := zpow_le_zpow_right₀ (by norm_num) (by omega)
    _ ≤ 2 ^ (-1075 : Int) := ten_zpow_le

/-- A number beyond the largest double, written with `k` digits of which the first is not zero. -/
theorem nearestRat_of_lt_lead {n k : Nat} (hk : 0 < k) (hn : 10 ^ (k - 1) ≤ n) {lead : Int}
    (hlead : 310 < lead) : nearestRat (n * 10 ^ (lead - k)) = Binary64.infinityBits := by
  refine Binary64.nearestRat_eq_infinity ?_
  calc (2 : ℚ) ^ (1024 : Int) ≤ 10 ^ (310 : Int) := le_ten_zpow
    _ ≤ 10 ^ (lead - 1) := zpow_le_zpow_right₀ (by norm_num) (by omega)
    _ = 10 ^ (k - 1) * 10 ^ (lead - k) := by
        rw [← zpow_natCast, ← zpow_add₀ (by norm_num)]
        congr 1
        omega
    _ ≤ n * 10 ^ (lead - k) := by
        gcongr
        exact_mod_cast hn

/-- Digits with a point among them are rounded as the number that they stand for. -/
theorem nearestDecimal_eq (negative : Bool) {ds : List Nat} (hds : ∀ d ∈ ds, d < 10)
    (point : Int) :
    nearestDecimal negative ds point =
      ofSignedBits negative (nearestRat (valueOf ds * 10 ^ (point - ds.length))) := by
  have hvalue := valueOf_dropWhile ds
  have hlength : (ds.dropWhile (· == 0)).length ≤ ds.length := (List.dropWhile_sublist _).length_le
  have hlt : valueOf (ds.dropWhile (· == 0)) < 10 ^ (ds.dropWhile (· == 0)).length :=
    valueOf_lt fun d hd => hds d ((List.dropWhile_sublist _).subset hd)
  have hle := @le_valueOf_dropWhile ds
  unfold nearestDecimal
  rw [← hvalue]
  generalize ds.dropWhile (· == 0) = significant at hlength hlt hle ⊢
  set lead : Int := point - (ds.length - significant.length : Nat) with hlead
  have hexponent : point - ds.length = lead - significant.length := by omega
  rw [hexponent, ← nearest_scaled]
  simp only [Bool.or_eq_true, decide_eq_true_eq, List.isEmpty_iff]
  by_cases hzero : significant = [] ∨ lead < -330
  · have hsmall : nearestRat (valueOf significant * 10 ^ (lead - significant.length)) = 0 := by
      rcases hzero with rfl | hzero
      · exact if_pos (by simp [valueOf])
      · exact nearestRat_of_lead_lt hlt hzero
    rw [if_pos hzero, nearest_scaled, hsmall]
    rfl
  · rw [if_neg hzero]
    push Not at hzero
    by_cases hlarge : 310 < lead
    · have hpos : 0 < significant.length := List.length_pos_iff.2 hzero.1
      rw [if_pos hlarge, nearest_scaled, nearestRat_of_lt_lead hpos (hle hzero.1) hlarge]
      rfl
    · rw [if_neg hlarge]

/-! ## Texts of numerals -/

def minus (negative : Bool) : List Char := if negative then ['-'] else []

/-- A decimal numeral without its sign. -/
structure Numeral where
  whole : List Char
  fraction : Option (List Char)
  exponent : Option (Bool × List Char)
  digits_whole : Digits whole
  whole_ne_nil : whole ≠ []
  digits_fraction : Digits (fraction.getD [])
  digits_exponent : ∀ e ∈ exponent, Digits e.2 ∧ e.2 ≠ []

namespace Numeral

variable (d : Numeral)

def decimals : List Char := d.fraction.getD []

def exponentText : List Char :=
  match d.exponent with
  | none => []
  | some (negative, ds) => 'e' :: (if negative then '-' else '+') :: ds

def tail : List Char :=
  match d.fraction with
  | none => d.exponentText
  | some ds => '.' :: (ds ++ d.exponentText)

def text : List Char := d.whole ++ d.tail

def power : Int :=
  match d.exponent with
  | none => 0
  | some (negative, ds) => Binary64.signed negative (Nat.ofDigitChars 10 ds 0)

def value : ℚ :=
  Nat.ofDigitChars 10 (d.whole ++ d.decimals) 0 * 10 ^ (d.power - d.decimals.length)

theorem head_exponentText : ∀ c ∈ d.exponentText.head?, c.isDigit = false ∧ c ≠ '_' ∧ c ≠ '.' := by
  intro c hc
  unfold exponentText at hc
  split at hc
  · cases hc
  · cases hc
    decide

theorem head_tail : ∀ c ∈ d.tail.head?, c.isDigit = false ∧ c ≠ '_' := by
  intro c hc
  unfold tail at hc
  split at hc
  · obtain ⟨hdigit, hunderscore, -⟩ := d.head_exponentText c hc
    exact ⟨hdigit, hunderscore⟩
  · cases hc
    decide

theorem takeFraction_text :
    takeFraction d.text = (values d.whole, values d.decimals, d.exponentText) := by
  rw [takeFraction, text, digitRun_append d.digits_whole d.head_tail]
  cases hfraction : d.fraction with
  | none =>
    have htail : d.tail = d.exponentText := by rw [tail, hfraction]
    have hdecimals : d.decimals = [] := by rw [decimals, hfraction]; rfl
    rw [htail, hdecimals]
    split
    · rename_i heq
      obtain ⟨-, hpoint⟩ := Prod.mk.inj heq
      exact absurd rfl (d.head_exponentText '.' (by rw [hpoint]; rfl)).2.2
    · rename_i heq
      obtain ⟨rfl, rfl⟩ := Prod.mk.inj heq
      rfl
  | some ds =>
    have htail : d.tail = '.' :: (ds ++ d.exponentText) := by rw [tail, hfraction]
    have hdecimals : d.decimals = ds := by rw [decimals, hfraction]; rfl
    have hds : Digits ds := by
      have hdigits := d.digits_fraction
      rwa [hfraction] at hdigits
    have hhead : ∀ c ∈ d.exponentText.head?, c.isDigit = false ∧ c ≠ '_' := fun c hc =>
      ⟨(d.head_exponentText c hc).1, (d.head_exponentText c hc).2.1⟩
    rw [htail, hdecimals]
    simp only [digitRun_append hds hhead]

theorem readExponent?_exponentText : readExponent? d.exponentText = some d.power := by
  cases hexponent : d.exponent with
  | none =>
    rw [exponentText, power, hexponent]
    rfl
  | some e =>
    obtain ⟨negative, ds⟩ := e
    obtain ⟨hds, hne⟩ := d.digits_exponent _ hexponent
    have hsign : takeSign ((if negative then '-' else '+') :: ds) = (negative, ds) := by
      cases negative <;> rfl
    rw [exponentText, power, hexponent]
    -- rules out the branch for an exponent without digits
    have hvalues : values ds ≠ [] := mt List.map_eq_nil_iff.1 hne
    simp only [readExponent?, hsign, digitRun_digits hds]
    rw [if_pos (by decide), valueOf_values]

theorem text_eq_cons : ∃ c rest, d.text = c :: rest ∧ c.isDigit := by
  obtain ⟨c, rest, hwhole⟩ := List.exists_cons_of_ne_nil d.whole_ne_nil
  have hc : c.isDigit := d.digits_whole c (by rw [hwhole]; exact List.mem_cons_self)
  exact ⟨c, rest ++ d.tail, by rw [text, hwhole, List.cons_append], hc⟩

end Numeral

/-! ## The characters of numerals -/

/-- The characters that numbers are written with. -/
def numeralChars : List Char :=
  ['0', '1', '2', '3', '4', '5', '6', '7', '8', '9', '.', 'e', '+', '-', 'i', 'n', 'f', 'a']

/-- A text of such characters. -/
def Plain (s : List Char) : Prop := ∀ c ∈ s, c ∈ numeralChars

theorem mem_numeralChars_of_isDigit {c : Char} (hc : c.isDigit) : c ∈ numeralChars.take 10 := by
  have hall : ∀ n < 58, 48 ≤ n → Char.ofNat n ∈ numeralChars.take 10 := by decide
  simp only [Char.isDigit, Bool.and_eq_true, decide_eq_true_eq] at hc
  have hmem := hall c.toNat (Nat.lt_succ_of_le hc.2) hc.1
  rwa [Char.ofNat_toNat] at hmem

theorem digit_facts {c : Char} (hc : c.isDigit) :
    c ≠ '-' ∧ c ≠ '+' ∧ c.toLower ≠ 'i' ∧ c.toLower ≠ 'n' := by
  have hall : (numeralChars.take 10).all fun d =>
      d ≠ '-' ∧ d ≠ '+' ∧ d.toLower ≠ 'i' ∧ d.toLower ≠ 'n' := by decide
  exact of_decide_eq_true (List.all_eq_true.1 hall c (mem_numeralChars_of_isDigit hc))

theorem ascii_of_mem {c : Char} (hc : c ∈ numeralChars) :
    c.toNat < 0x80 ∧ isPadding c = false := by
  have hall : numeralChars.all fun d => d.toNat < 0x80 ∧ isPadding d = false := by decide
  exact of_decide_eq_true (List.all_eq_true.1 hall c hc)

theorem bare_of_plain {s : List Char} (hs : Plain s) : bare s = s := by
  have hfold : s.map foldChar = s := by
    have hchar : ∀ c ∈ s, foldChar c = c := fun c hc => if_pos (ascii_of_mem (hs c hc)).1
    rw [List.map_congr_left hchar, List.map_id']
  have hdrop : ∀ t : List Char, (∀ c ∈ t, isPadding c = false) → t.dropWhile isPadding = t := by
    intro t ht
    cases t with
    | nil => rfl
    | cons c rest => exact List.dropWhile_cons_of_neg (by simp [ht c List.mem_cons_self])
  have hpadding : ∀ c ∈ s, isPadding c = false := fun c hc => (ascii_of_mem (hs c hc)).2
  rw [bare, hfold, hdrop s hpadding,
    hdrop s.reverse fun c hc => hpadding c (List.mem_reverse.1 hc), List.reverse_reverse]

theorem takeSign_minus {negative : Bool} {s : List Char} (hs : ∀ c ∈ s.head?, c.isDigit) :
    takeSign (minus negative ++ s) = (negative, s) := by
  cases negative with
  | true => rfl
  | false =>
    cases s with
    | nil => rfl
    | cons c rest =>
      obtain ⟨hminus, hplus, -⟩ := digit_facts (hs c rfl)
      rw [minus, if_neg Bool.false_ne_true, List.nil_append]
      unfold takeSign
      split
      · rename_i heq
        exact absurd (List.cons.inj heq).1 hminus
      · rename_i heq
        exact absurd (List.cons.inj heq).1 hplus
      · rfl

theorem plain_digits {s : List Char} (hs : Digits s) : Plain s :=
  fun c hc => List.mem_of_mem_take (mem_numeralChars_of_isDigit (hs c hc))

theorem Plain.append {s t : List Char} (hs : Plain s) (ht : Plain t) : Plain (s ++ t) := by
  intro c hc
  rcases List.mem_append.1 hc with hc | hc
  · exact hs c hc
  · exact ht c hc

theorem plain_minus (negative : Bool) : Plain (minus negative) := by
  cases negative <;> simp [Plain, minus, numeralChars]

theorem Numeral.plain_exponentText (d : Numeral) : Plain d.exponentText := by
  unfold exponentText
  split
  · exact List.forall_mem_nil _
  · rename_i negative ds hexponent
    refine List.forall_mem_cons.2 ⟨by decide, List.forall_mem_cons.2 ⟨?_, ?_⟩⟩
    · cases negative <;> decide
    · exact plain_digits (d.digits_exponent _ hexponent).1

theorem Numeral.plain_tail (d : Numeral) : Plain d.tail := by
  unfold tail
  split
  · exact d.plain_exponentText
  · rename_i ds hfraction
    have hds : Digits ds := by
      have hdigits := d.digits_fraction
      rwa [hfraction] at hdigits
    exact List.forall_mem_cons.2 ⟨by decide, (plain_digits hds).append d.plain_exponentText⟩

theorem Numeral.plain_text (d : Numeral) : Plain d.text :=
  (plain_digits d.digits_whole).append d.plain_tail

/-! ## Reading -/

theorem takeSign_text (d : Numeral) (negative : Bool) :
    takeSign (bare (minus negative ++ d.text)) = (negative, d.text) := by
  obtain ⟨c, rest, htext, hc⟩ := d.text_eq_cons
  rw [bare_of_plain ((plain_minus negative).append d.plain_text), takeSign_minus]
  intro c' hc'
  rw [htext] at hc'
  cases hc'
  exact hc

/-- A numeral is read as the double nearest to the number that it stands for. -/
theorem readFloat?_text (d : Numeral) (negative : Bool) :
    readFloat? (minus negative ++ d.text) =
      some (ofSignedBits negative (nearestRat d.value)) := by
  obtain ⟨c, rest, htext, hc⟩ := d.text_eq_cons
  obtain ⟨-, -, hi, hn⟩ := digit_facts hc
  have hvalue : (valueOf (values d.whole ++ values d.decimals) : ℚ) *
      10 ^ (((values d.whole).length : Int) + d.power -
        (values d.whole ++ values d.decimals).length) = d.value := by
    have hexponent : ((values d.whole).length : Int) + d.power -
        (values d.whole ++ values d.decimals).length = d.power - d.decimals.length := by
      simp only [values, List.length_append, List.length_map]
      omega
    rw [hexponent, values, values, ← List.map_append, ← values, valueOf_values, Numeral.value]
  -- the words for what is no number begin with a letter
  have hword : ∀ (e : Char) (more : List Char), c.toLower ≠ e →
      (d.text.map Char.toLower == e :: more) = false := by
    intro e more hne
    rw [htext, List.map_cons, beq_eq_false_iff_ne]
    exact fun heq => hne (List.cons.inj heq).1
  have hinf : (d.text.map Char.toLower == "inf".toList ||
      d.text.map Char.toLower == "infinity".toList) = false := by
    rw [Bool.or_eq_false_iff]
    exact ⟨hword 'i' _ hi, hword 'i' _ hi⟩
  have hnan : (d.text.map Char.toLower == "nan".toList) = false := hword 'n' _ hn
  have hwhole : values d.whole ≠ [] := mt List.map_eq_nil_iff.1 d.whole_ne_nil
  have hdigits : ∀ v ∈ values d.whole ++ values d.decimals, v < 10 := by
    intro v hv
    rcases List.mem_append.1 hv with hv | hv
    · exact lt_ten_of_mem_values d.digits_whole v hv
    · exact lt_ten_of_mem_values d.digits_fraction v hv
  simp only [readFloat?, takeSign_text, hinf, hnan, d.takeFraction_text,
    d.readExponent?_exponentText]
  rw [if_neg Bool.false_ne_true, if_neg Bool.false_ne_true, if_neg (by simp [hwhole]),
    Option.map_some, nearestDecimal_eq negative hdigits, ← hvalue]

/-- No numeral with a point or an exponent is read as an integer. -/
theorem readInt?_text (d : Numeral) (hd : d.tail ≠ []) (negative : Bool) :
    readInt? (minus negative ++ d.text) = none := by
  obtain ⟨v, vs, hwhole⟩ := List.exists_cons_of_ne_nil (mt List.map_eq_nil_iff.1 d.whole_ne_nil)
  obtain ⟨c, rest, htail⟩ := List.exists_cons_of_ne_nil hd
  have hrun : digitRun d.text = (v :: vs, c :: rest) := by
    rw [Numeral.text, digitRun_append d.digits_whole d.head_tail, htail, values, hwhole]
  simp only [readInt?, takeSign_text, hrun]

theorem toList_repr_int (n : Int) :
    n.repr.toList = minus (decide (n < 0)) ++ n.natAbs.repr.toList := by
  cases n with
  | ofNat m =>
    have hnonneg : decide (Int.ofNat m < 0) = false :=
      decide_eq_false (Int.not_lt.2 (Int.natCast_nonneg m))
    rw [hnonneg]
    rfl
  | negSucc m =>
    have hneg : decide (Int.negSucc m < 0) = true := decide_eq_true (Int.negSucc_lt_zero m)
    rw [hneg]
    exact String.toList_append

theorem signed_natAbs (n : Int) : Binary64.signed (decide (n < 0)) n.natAbs = n := by
  unfold Binary64.signed
  by_cases hneg : n < 0
  · rw [if_pos (decide_eq_true hneg)]
    omega
  · rw [if_neg (by simpa using hneg)]
    omega

/-- An integer that is not too long is read as itself. -/
theorem readInt?_repr {n : Int} (hn : n.natAbs < 10 ^ maxDigits) :
    readInt? n.repr.toList = some n := by
  have hdigits := digits_repr n.natAbs
  have hhead : ∀ c ∈ n.natAbs.repr.toList.head?, c.isDigit := fun c hc =>
    hdigits c (List.mem_of_mem_head? hc)
  have hplain : Plain (minus (decide (n < 0)) ++ n.natAbs.repr.toList) :=
    (plain_minus _).append (plain_digits hdigits)
  have hlength : (values n.natAbs.repr.toList).length ≤ maxDigits := by
    rw [values, List.length_map, Nat.toList_repr]
    exact (Nat.length_toDigits_le_iff (by decide) (by decide)).2 hn
  -- rules out the branch of `readInt?` for a text without digits
  have hvalues : values n.natAbs.repr.toList ≠ [] :=
    mt List.map_eq_nil_iff.1 (by rw [Nat.toList_repr]; exact Nat.toDigits_ne_nil)
  simp only [readInt?, toList_repr_int, bare_of_plain hplain, takeSign_minus hhead,
    digitRun_digits hdigits]
  rw [if_pos hlength, valueOf_values, Nat.toList_repr, Nat.ofDigitChars_ten_toDigits, signed_natAbs]

end Arbor.Decimal
