import Arbor.Proofs.Decimal.Fixed

/-!
# Canonical decimals

Zeros in front of a decimal and at the end of its fraction do not change what it stands for, and
neither does a minus in front of zero. A canonical decimal has none of them, and so it is the only
one that stands for its number.

* `Numeral.Canonical.text_eq`, `Canonical.unique`: a number has one canonical decimal.
* `canonical_repr`: the canonical decimals of integers.
-/

namespace Arbor.Decimal

/-! ## The form -/

/-- The numeral is the shortest of those that stand for the same number, with at most `places`
digits after the point. -/
structure Numeral.Canonical (d : Numeral) (places : Nat) : Prop where
  exponent : d.exponent = none
  whole : Unpadded d.whole
  fraction : ∀ ds ∈ d.fraction, ds ≠ [] ∧ ds.length ≤ places ∧ ds.getLast? ≠ some '0'

/-- The text is a decimal without needless zeros: perhaps a minus, digits that do not start with a
zero unless they are one, and perhaps a point with up to `places` digits that do not end in a zero.
It is not minus zero. -/
def Canonical (places : Nat) (s : List Char) : Prop :=
  s ≠ ['-', '0'] ∧ ∃ negative d, Numeral.Canonical d places ∧ s = minus negative ++ d.text

/-! ## Digits and their values -/

theorem ofDigitChars_concat (s : List Char) (c : Char) :
    Nat.ofDigitChars 10 (s ++ [c]) 0 =
      10 * Nat.ofDigitChars 10 s 0 + (c.toNat - 48) := by
  rw [Nat.ofDigitChars_append, Nat.ofDigitChars_cons, Nat.ofDigitChars_nil]
  rfl

theorem toNat_digit {c : Char} (hc : c.isDigit) : 48 ≤ c.toNat ∧ c.toNat ≤ 57 := by
  simp only [Char.isDigit, Bool.and_eq_true, decide_eq_true_eq] at hc
  exact hc

theorem lt_toNat_digit {c : Char} (hc : c.isDigit) (hzero : c ≠ '0') : 48 < c.toNat := by
  have hne : c.toNat ≠ '0'.toNat := mt Char.toNat_inj.1 hzero
  exact lt_of_le_of_ne (toNat_digit hc).1 (Ne.symm hne)

/-- Digits that do not start with a zero have the value that their number asks for. -/
theorem pow_le_ofDigitChars {c : Char} (hc : c.isDigit) (hzero : c ≠ '0') (s : List Char) :
    10 ^ s.length ≤ Nat.ofDigitChars 10 (c :: s) 0 := by
  have hpos : 0 < c.toNat - '0'.toNat := Nat.sub_pos_of_lt (lt_toNat_digit hc hzero)
  rw [← valueOf_values, values, List.map_cons, valueOf_cons, List.length_map]
  exact Nat.le_add_right_of_le (Nat.le_mul_of_pos_left _ hpos)

/-- As many digits with the same value are the same. -/
theorem Digits.eq_of_value {s t : List Char} (hs : Digits s) (ht : Digits t)
    (hlength : s.length = t.length)
    (hvalue : Nat.ofDigitChars 10 s 0 = Nat.ofDigitChars 10 t 0) : s = t := by
  induction s using List.reverseRecOn generalizing t with
  | nil => exact (List.length_eq_zero_iff.1 hlength.symm).symm
  | append_singleton s c ih =>
    rcases List.eq_nil_or_concat' t with rfl | ⟨t, d, rfl⟩
    · simp at hlength
    · obtain ⟨hs, hc⟩ := List.forall_mem_append.1 hs
      obtain ⟨ht, hd⟩ := List.forall_mem_append.1 ht
      have hcd := toNat_digit (hc c List.mem_cons_self)
      have hdd := toNat_digit (hd d List.mem_cons_self)
      rw [ofDigitChars_concat, ofDigitChars_concat] at hvalue
      have hst : s = t := ih hs ht (by simpa using hlength) (by omega)
      have hlast : c = d := Char.toNat_inj.1 (by omega)
      rw [hst, hlast]

/-! ## One decimal for a number -/

namespace Numeral.Canonical

variable {d d' : Numeral} {places places' : Nat}

/-- The point is there if there are digits after it. -/
theorem text_decimals (h : d.Canonical places) :
    d.text = d.whole ++ if d.decimals = [] then [] else '.' :: d.decimals := by
  have hexponent : d.exponentText = [] := by rw [exponentText, h.exponent]
  rw [text, tail, decimals]
  cases hsome : d.fraction with
  | none => simp [hexponent]
  | some ds => simp [hexponent, (h.fraction ds hsome).1]

/-- No decimal for the same number has fewer digits after the point. -/
theorem length_decimals_le (h : d.Canonical places) (hexponent : d'.exponent = none)
    (hvalue : d.value = d'.value) : d.decimals.length ≤ d'.decimals.length := by
  by_contra hlt
  obtain ⟨n, hn⟩ := Nat.exists_eq_add_of_lt (not_le.1 hlt)
  obtain ⟨ds, c, hconcat, hc⟩ : ∃ ds c, d.decimals = ds ++ [c] ∧ 48 < c.toNat ∧ c.toNat ≤ 57 := by
    have hdigits := d.digits_fraction
    unfold Numeral.decimals at hlt ⊢
    cases hsome : d.fraction with
    | none => simp [hsome] at hlt
    | some ds =>
      obtain ⟨hne, -, hlast⟩ := h.fraction ds hsome
      rcases List.eq_nil_or_concat' ds with rfl | ⟨ds, c, rfl⟩
      · exact absurd rfl hne
      · rw [hsome] at hdigits
        have hc : c.isDigit := hdigits c (by simp)
        have hzero : c ≠ '0' := by simpa using hlast
        exact ⟨ds, c, rfl, lt_toNat_digit hc hzero, (toNat_digit hc).2⟩
  have hscaled : Nat.ofDigitChars 10 (d.whole ++ d.decimals) 0 =
      Nat.ofDigitChars 10 (d'.whole ++ d'.decimals) 0 * 10 ^ (n + 1) := by
    have hpower : 0 < 10 ^ d'.decimals.length := by positivity
    rw [Numeral.value_eq_div h.exponent, Numeral.value_eq_div hexponent, hn,
      div_eq_div_iff (by positivity) (by positivity)] at hvalue
    refine Nat.eq_of_mul_eq_mul_right hpower ?_
    rw [Nat.mul_assoc, ← Nat.pow_add, Nat.add_comm (n + 1), ← Nat.add_assoc]
    exact_mod_cast hvalue
  rw [hconcat, ← List.append_assoc, ofDigitChars_concat, Nat.pow_succ,
    ← Nat.mul_assoc] at hscaled
  omega

/-- No digits of which some stand before a point have fewer digits and the same value. -/
theorem length_le (h : d.Canonical places) {t : List Char} (ht : Digits t)
    (hlength : d.decimals.length < t.length)
    (hvalue : Nat.ofDigitChars 10 (d.whole ++ d.decimals) 0 = Nat.ofDigitChars 10 t 0) :
    (d.whole ++ d.decimals).length ≤ t.length := by
  rcases h.whole with hzero | hhead
  · rw [hzero, List.singleton_append, List.length_cons]
    exact hlength
  · obtain ⟨c, rest, hwhole⟩ := List.exists_cons_of_ne_nil d.whole_ne_nil
    have hc : c.isDigit := d.digits_whole c (by rw [hwhole]; exact List.mem_cons_self)
    have hzero : c ≠ '0' := by simpa [hwhole] using hhead
    have hpow : 10 ^ (rest ++ d.decimals).length < 10 ^ t.length := by
      calc 10 ^ (rest ++ d.decimals).length
          ≤ Nat.ofDigitChars 10 (c :: (rest ++ d.decimals)) 0 := pow_le_ofDigitChars hc hzero _
        _ = Nat.ofDigitChars 10 t 0 := by rw [← hvalue, hwhole, List.cons_append]
        _ < 10 ^ t.length := ht.lt_pow
    rw [hwhole, List.cons_append, List.length_cons]
    exact (Nat.pow_lt_pow_iff_right (by decide)).1 hpow

/-- Canonical numerals that stand for the same number are the same text. -/
theorem text_eq (h : d.Canonical places) (h' : d'.Canonical places') (hvalue : d.value = d'.value) :
    d.text = d'.text := by
  have hlength : d.decimals.length = d'.decimals.length :=
    Nat.le_antisymm (h.length_decimals_le h'.exponent hvalue)
      (h'.length_decimals_le h.exponent hvalue.symm)
  have hdigits : Nat.ofDigitChars 10 (d.whole ++ d.decimals) 0 =
      Nat.ofDigitChars 10 (d'.whole ++ d'.decimals) 0 := by
    rw [Numeral.value_eq_div h.exponent, Numeral.value_eq_div h'.exponent, hlength,
      div_left_inj' (by positivity)] at hvalue
    exact_mod_cast hvalue
  have hlt : ∀ e : Numeral, e.decimals.length < (e.whole ++ e.decimals).length := by
    intro e
    have hpos := List.length_pos_iff.2 e.whole_ne_nil
    rw [List.length_append]
    omega
  have hall : ∀ e : Numeral, Digits (e.whole ++ e.decimals) := fun e =>
    e.digits_whole.append e.digits_fraction
  have hsame : d.whole ++ d.decimals = d'.whole ++ d'.decimals :=
    (hall d).eq_of_value (hall d') (Nat.le_antisymm
      (h.length_le (hall d') (hlength ▸ hlt d') hdigits)
      (h'.length_le (hall d) (hlength ▸ hlt d) hdigits.symm)) hdigits
  obtain ⟨hwhole, hdecimals⟩ := List.append_inj' hsame hlength
  rw [h.text_decimals, h'.text_decimals, hwhole, hdecimals]

end Numeral.Canonical

/-! ## One text for a number -/

theorem Numeral.value_nonneg (d : Numeral) : 0 ≤ d.value := by
  unfold Numeral.value
  positivity

theorem Numeral.Canonical.denotes {d : Numeral} {places : Nat} (h : d.Canonical places)
    (negative : Bool) :
    Denotes (minus negative ++ d.text) (if negative then -d.value else d.value) :=
  ⟨negative, d, h.exponent, fun hnil => (h.fraction [] hnil).1 rfl, rfl, rfl⟩

theorem Numeral.canonical_whole {whole : List Char} (hwhole : Digits whole) (hne : whole ≠ [])
    (hunpadded : Unpadded whole) (places : Nat) :
    (plain whole none hwhole hne (List.forall_mem_nil _)).Canonical places where
  exponent := rfl
  whole := hunpadded
  fraction := by
    intro ds hds
    cases hds

theorem Numeral.canonical_point {whole ds : List Char} {places : Nat} (hwhole : Digits whole)
    (hne : whole ≠ []) (hds : Digits ds) (hunpadded : Unpadded whole) (hnil : ds ≠ [])
    (hlength : ds.length ≤ places) (hlast : ds.getLast? ≠ some '0') :
    (plain whole (some ds) hwhole hne hds).Canonical places where
  exponent := rfl
  whole := hunpadded
  fraction := by
    intro fraction hfraction
    cases hfraction
    exact ⟨hnil, hlength, hlast⟩

/-- The numeral of the digits of a natural number. -/
def Numeral.ofNat (n : Nat) : Numeral :=
  .plain n.repr.toList none (digits_repr n) (by rw [Nat.toList_repr]; exact Nat.toDigits_ne_nil)
    (List.forall_mem_nil _)

theorem Numeral.text_ofNat (n : Nat) : (ofNat n).text = n.repr.toList := List.append_nil _

theorem Numeral.value_ofNat (n : Nat) : (ofNat n).value = n := by
  have hdigits : (ofNat n).whole ++ (ofNat n).decimals = n.repr.toList := List.append_nil _
  have hnone : (ofNat n).decimals.length = 0 := rfl
  rw [Numeral.value_eq_div rfl, hdigits, hnone, pow_zero, div_one, Nat.toList_repr,
    Nat.ofDigitChars_ten_toDigits]

theorem Numeral.canonical_ofNat (n places : Nat) : (ofNat n).Canonical places :=
  canonical_whole _ _ (unpadded_repr n) places

/-- What has a minus is less than zero. -/
theorem Numeral.Canonical.value_pos {d : Numeral} {places : Nat} (h : d.Canonical places)
    (hminus : minus true ++ d.text ≠ ['-', '0']) : 0 < d.value := by
  refine lt_of_le_of_ne d.value_nonneg fun hzero => hminus ?_
  have hvalue : d.value = (Numeral.ofNat 0).value := by
    rw [← hzero, Numeral.value_ofNat, Nat.cast_zero]
  rw [h.text_eq (Numeral.canonical_ofNat 0 0) hvalue]
  rfl

/-- A canonical decimal does not end in its point. -/
theorem Canonical.exists_getLast? {places : Nat} {s : List Char} (h : Canonical places s) :
    ∃ c, s.getLast? = some c ∧ c.isDigit := by
  obtain ⟨-, negative, d, hd, rfl⟩ := h
  have hlast : ∀ before digits : List Char, digits ≠ [] → Digits digits →
      ∃ c, (before ++ digits).getLast? = some c ∧ c.isDigit := by
    intro before digits hne hdigits
    refine ⟨digits.getLast hne, ?_, hdigits _ (List.getLast_mem hne)⟩
    rw [List.getLast?_append_of_ne_nil before hne, List.getLast?_eq_some_getLast hne]
  rw [hd.text_decimals]
  by_cases hnil : d.decimals = []
  · rw [if_pos hnil, List.append_nil]
    exact hlast _ d.whole d.whole_ne_nil d.digits_whole
  · rw [if_neg hnil, ← List.append_assoc, List.append_cons]
    exact hlast _ d.decimals hnil d.digits_fraction

/-- **A number has one canonical decimal.** -/
theorem Canonical.unique {places places' : Nat} {s t : List Char} {v : ℚ} (hs : Canonical places s)
    (ht : Canonical places' t) (hv : Denotes s v) (hv' : Denotes t v) : s = t := by
  obtain ⟨hminus, negative, d, hd, rfl⟩ := hs
  obtain ⟨hminus', negative', d', hd', rfl⟩ := ht
  have hvalue := hv.unique (hd.denotes negative)
  have hvalue' := hv'.unique (hd'.denotes negative')
  rw [hvalue] at hvalue'
  have hnonneg := d.value_nonneg
  have hnonneg' := d'.value_nonneg
  cases negative with
  | false =>
    cases negative' with
    | false => exact congrArg _ (hd.text_eq hd' hvalue')
    | true =>
      have hpos := hd'.value_pos hminus'
      simp only [if_true, Bool.false_eq_true, if_false] at hvalue'
      linarith
  | true =>
    cases negative' with
    | false =>
      have hpos := hd.value_pos hminus
      simp only [if_true, Bool.false_eq_true, if_false] at hvalue'
      linarith
    | true => exact congrArg _ (hd.text_eq hd' (neg_injective hvalue'))

/-- Integers are written as canonical decimals. -/
theorem canonical_repr (n : Int) (places : Nat) :
    Canonical places n.repr.toList ∧ Denotes n.repr.toList n := by
  have hcanonical := Numeral.canonical_ofNat n.natAbs places
  have htext : n.repr.toList = minus (decide (n < 0)) ++ (Numeral.ofNat n.natAbs).text := by
    rw [toList_repr_int, Numeral.text_ofNat]
  have hdenotes : Denotes n.repr.toList n := by
    have hsigned : (n : ℚ) = (Binary64.signed (decide (n < 0)) n.natAbs : Int) := by
      rw [signed_natAbs]
    have hnumeral := hcanonical.denotes (decide (n < 0))
    rw [Numeral.value_ofNat] at hnumeral
    rw [hsigned, htext]
    cases hneg : decide (n < 0) <;> simpa [Binary64.signed, hneg] using hnumeral
  refine ⟨⟨fun hminus => ?_, _, _, hcanonical, htext⟩, hdenotes⟩
  rw [hminus] at hdenotes
  have hzero : n = 0 := by exact_mod_cast hdenotes.unique denotes_zero.2
  rw [hzero] at hminus
  exact absurd hminus (by decide)

end Arbor.Decimal
