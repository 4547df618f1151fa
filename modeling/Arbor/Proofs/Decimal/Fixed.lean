import Arbor.Decimal.Fixed
import Arbor.Proofs.Decimal.Shortest

/-!
# Text with a fixed number of digits

Whatever double is written with a fixed number of digits, its text has no other characters than
numerals have (`plain_fixed`). If it is finite, the text is a decimal that stands for the double
rounded to that many places (`denotes_fixed`); otherwise it is a word.
-/

namespace Arbor.Decimal

open Binary64 (Parts exactValue? roundEven)

theorem Plain.subset {s t : List Char} (ht : Plain t) (h : s ⊆ t) : Plain s :=
  fun c hc => ht c (h hc)

theorem plain_pointed (n places : Nat) : Plain (pointed n places) := by
  have hdigits : Plain (padLeft (places + 1) n.repr.toList) :=
    plain_digits ((digits_replicate _).append (digits_repr n))
  simp only [pointed]
  split
  · exact hdigits
  · refine (hdigits.subset (List.take_subset _ _)).append ?_
    refine List.forall_mem_cons.2 ⟨by decide, hdigits.subset (List.drop_subset _ _)⟩

theorem plain_fixed (places : Nat) (x : Float) : Plain (fixed places x).toList := by
  unfold fixed withSign
  split
  · simp [Plain, numeralChars]
  · split <;> simp [Plain, numeralChars]
  next negative m q =>
    rw [String.toList_ofList]
    split
    · exact List.forall_mem_cons.2 ⟨by decide, plain_pointed _ places⟩
    · exact plain_pointed _ places

/-! ## What a decimal stands for -/

/-- The text is a plain decimal that stands for the number: digits, with more after a point or
without one, and a minus before them if the number is negative. -/
def Denotes (s : List Char) (v : ℚ) : Prop :=
  ∃ (negative : Bool) (d : Numeral), d.exponent = none ∧ d.fraction ≠ some [] ∧
    s = minus negative ++ d.text ∧ v = if negative then -d.value else d.value

def IsDecimal (s : List Char) : Prop := ∃ v, Denotes s v

/-- The text is a plain decimal that stands for a positive number. -/
def IsPositiveDecimal (s : List Char) : Prop := ∃ v, Denotes s v ∧ 0 < v

theorem Numeral.value_eq_div {d : Numeral} (h : d.exponent = none) :
    d.value = Nat.ofDigitChars 10 (d.whole ++ d.decimals) 0 / 10 ^ d.decimals.length := by
  have hpower : d.power = 0 := by rw [Numeral.power, h]
  rw [Numeral.value, hpower, zero_sub, zpow_neg, zpow_natCast, div_eq_mul_inv]

/-- Digits, with more after a point or without one, as a numeral. -/
def Numeral.plain (whole : List Char) (fraction : Option (List Char)) (hwhole : Digits whole)
    (hne : whole ≠ []) (hfraction : Digits (fraction.getD [])) : Numeral where
  whole := whole
  fraction := fraction
  exponent := none
  digits_whole := hwhole
  whole_ne_nil := hne
  digits_fraction := hfraction
  digits_exponent := by
    intro e he
    cases he

theorem denotes_whole (negative : Bool) {whole : List Char} (hwhole : Digits whole)
    (hne : whole ≠ []) :
    Denotes (minus negative ++ whole)
      (if negative then -(Nat.ofDigitChars 10 whole 0 : ℚ) else Nat.ofDigitChars 10 whole 0) := by
  refine ⟨negative, .plain whole none hwhole hne (List.forall_mem_nil _), rfl,
    (Option.some_ne_none _).symm, ?_, ?_⟩
  · simp [Numeral.plain, Numeral.text, Numeral.tail, Numeral.exponentText]
  · simp [Numeral.value_eq_div, Numeral.plain, Numeral.decimals]

theorem denotes_point (negative : Bool) {whole fraction : List Char} (hwhole : Digits whole)
    (hne : whole ≠ []) (hfraction : Digits fraction) (hsome : fraction ≠ []) :
    Denotes (minus negative ++ (whole ++ '.' :: fraction))
      (if negative then -(Nat.ofDigitChars 10 (whole ++ fraction) 0 / 10 ^ fraction.length : ℚ)
        else Nat.ofDigitChars 10 (whole ++ fraction) 0 / 10 ^ fraction.length) := by
  refine ⟨negative, .plain whole (some fraction) hwhole hne hfraction, rfl,
    fun h => hsome (Option.some.inj h), ?_, ?_⟩
  · simp [Numeral.plain, Numeral.text, Numeral.tail, Numeral.exponentText]
  · simp [Numeral.value_eq_div, Numeral.plain, Numeral.decimals]

/-- Zeros at the end of a fraction make no difference. -/
theorem ofDigitChars_zeros_div (digits : List Char) (places n : Nat) :
    (Nat.ofDigitChars 10 (digits ++ List.replicate n '0') 0 : ℚ) / 10 ^ (places + n) =
      Nat.ofDigitChars 10 digits 0 / 10 ^ places := by
  rw [Nat.ofDigitChars_append, Nat.ofDigitChars_replicate_zero, Nat.cast_mul, Nat.cast_pow,
    Nat.cast_ofNat, pow_add, mul_comm (10 ^ places : ℚ), mul_div_mul_left _ _ (by positivity)]

/-- A decimal stands for one number. -/
theorem Denotes.unique {s : List Char} {v v' : ℚ} (h : Denotes s v) (h' : Denotes s v') :
    v = v' := by
  obtain ⟨negative, d, hexponent, -, rfl, rfl⟩ := h
  obtain ⟨negative', d', hexponent', -, heq, rfl⟩ := h'
  have hhead : ∀ e : Numeral, ∀ c ∈ e.text.head?, c.isDigit := by
    intro e c hc
    obtain ⟨c', rest, htext, hdigit⟩ := e.text_eq_cons
    rw [htext] at hc
    cases hc
    exact hdigit
  have hsign := congrArg takeSign heq
  rw [takeSign_minus (hhead d), takeSign_minus (hhead d')] at hsign
  obtain ⟨rfl, htext⟩ := Prod.mk.inj hsign
  have hparts := congrArg takeFraction htext
  rw [d.takeFraction_text, d'.takeFraction_text] at hparts
  simp only [Prod.mk.injEq] at hparts
  obtain ⟨hwhole, hdecimals, -⟩ := hparts
  have hlength : d.decimals.length = d'.decimals.length := by
    simpa [values] using congrArg List.length hdecimals
  have hdigits : values (d.whole ++ d.decimals) = values (d'.whole ++ d'.decimals) := by
    simpa [values] using congrArg₂ (· ++ ·) hwhole hdecimals
  have hvalue : d.value = d'.value := by
    rw [Numeral.value_eq_div hexponent, Numeral.value_eq_div hexponent', hlength,
      ← valueOf_values, ← valueOf_values, hdigits]
  rw [hvalue]

theorem denotes_zero : Denotes ['0'] 0 ∧ Denotes ['-', '0'] 0 := by
  have hdigits : Digits ['0'] := digits_replicate 1
  have hvalue : Nat.ofDigitChars 10 ['0'] 0 = 0 := rfl
  have hzero : ∀ negative : Bool, (if negative then -((0 : Nat) : ℚ) else (0 : Nat)) = 0 := by simp
  have hdenotes := fun negative => denotes_whole negative hdigits (List.cons_ne_nil _ _)
  simp only [hvalue, hzero] at hdenotes
  exact ⟨hdenotes false, hdenotes true⟩

/-- The words for what is no finite number have a letter. -/
theorem Denotes.not_mem {s : List Char} {v : ℚ} (h : Denotes s v) : 'n' ∉ s := by
  obtain ⟨negative, d, hexponent, -, rfl, -⟩ := h
  have hdigits : ∀ {t : List Char}, Digits t → 'n' ∉ t := fun ht hmem => by
    have hdigit := ht 'n' hmem
    revert hdigit
    decide
  have htail : 'n' ∉ d.tail := by
    have htext : d.exponentText = [] := by rw [Numeral.exponentText, hexponent]
    have hfraction := d.digits_fraction
    unfold Numeral.tail
    split
    · simp [htext]
    next ds hsome =>
      rw [hsome] at hfraction
      have hds : 'n' ∉ ds := hdigits hfraction
      simp [htext, hds]
  have hminus : 'n' ∉ minus negative := by cases negative <;> simp [minus]
  simp [Numeral.text, hminus, hdigits d.digits_whole, htail]

/-! ## Rounding to places -/

/-- A number rounded to places after the point, a tie going to the even last digit. -/
def rounded (places : Nat) (v : ℚ) : ℚ :=
  (if v < 0 then -1 else 1) * (roundEven (|v| * 10 ^ places) / 10 ^ places)

theorem roundEven_pos_iff {x : ℚ} : 0 < roundEven x ↔ 1 / 2 < x := by
  by_cases hone : 1 ≤ x
  · have hround : 1 ≤ roundEven x := Binary64.le_roundEven (by exact_mod_cast hone)
    exact iff_of_true hround (by linarith)
  · have hfloor : ⌊x⌋₊ = 0 := Nat.floor_eq_zero.2 (not_le.1 hone)
    rw [roundEven, hfloor, Nat.cast_zero, sub_zero]
    by_cases hhalf : 1 / 2 < x
    · rw [if_neg (not_lt.2 hhalf.le), if_pos hhalf]
      exact iff_of_true Nat.one_pos hhalf
    · rw [if_neg hhalf, ite_self]
      exact iff_of_false (Nat.lt_irrefl 0) hhalf

/-- What is more than half a unit in the last place is not rounded to zero. -/
theorem rounded_pos_iff {places : Nat} {v : ℚ} :
    0 < rounded places v ↔ 1 < 2 * v * 10 ^ places := by
  have hpower : (0 : ℚ) < 10 ^ places := by positivity
  unfold rounded
  by_cases hneg : v < 0
  · have hround : (0 : ℚ) ≤ roundEven (|v| * 10 ^ places) / 10 ^ places := by positivity
    have hproduct : v * 10 ^ places < 0 := mul_neg_of_neg_of_pos hneg hpower
    rw [if_pos hneg]
    exact iff_of_false (by linarith) (by linarith)
  · have hhalf : 1 / 2 < v * 10 ^ places ↔ 1 < 2 * v * 10 ^ places := by
      rw [mul_assoc, div_lt_iff₀' two_pos]
    rw [if_neg hneg, one_mul, abs_of_nonneg (not_lt.1 hneg), div_pos_iff_of_pos_right hpower,
      Nat.cast_pos, roundEven_pos_iff, hhalf]

/-- Digits before a point: a zero alone, or digits that do not start with a zero. -/
def Unpadded (whole : List Char) : Prop := whole = ['0'] ∨ whole.head? ≠ some '0'

theorem Digits.lt_pow {s : List Char} (hs : Digits s) :
    Nat.ofDigitChars 10 s 0 < 10 ^ s.length := by
  have hlt := valueOf_lt (lt_ten_of_mem_values hs)
  rwa [valueOf_values, values, List.length_map] at hlt

theorem unpadded_repr (n : Nat) : Unpadded n.repr.toList := by
  by_cases hn : n = 0
  · subst hn
    exact Or.inl rfl
  · right
    intro hhead
    obtain ⟨rest, hdigits⟩ := List.head?_eq_some_iff.1 hhead
    have hrest : Digits rest := fun c hc =>
      digits_repr n c (by rw [hdigits]; exact List.mem_cons_of_mem _ hc)
    -- the other digits would do, and there are fewer of them
    have hvalue : Nat.ofDigitChars 10 rest 0 = n := by
      have hall : Nat.ofDigitChars 10 ('0' :: rest) 0 = n := by
        rw [← hdigits, Nat.toList_repr, Nat.ofDigitChars_ten_toDigits]
      rwa [Nat.ofDigitChars_cons] at hall
    have hlt := hrest.lt_pow
    rw [hvalue] at hlt
    have hpos : 0 < rest.length := by
      by_contra hnil
      rw [Nat.eq_zero_of_not_pos hnil, pow_zero] at hlt
      omega
    have hlength := (Nat.length_toDigits_le_iff (by decide) hpos).2 hlt
    rw [← Nat.toList_repr, hdigits, List.length_cons] at hlength
    omega

theorem length_padLeft (width : Nat) (s : List Char) :
    (padLeft width s).length = max width s.length := by
  rw [padLeft, List.length_append, List.length_replicate]
  omega

/-- What stands before the last places of a number has zeros in front only if it is a zero. -/
theorem unpadded_take (n places : Nat) :
    Unpadded ((padLeft (places + 1) n.repr.toList).take
      (max (places + 1) n.repr.toList.length - places)) := by
  by_cases hpad : n.repr.toList.length < places + 1
  · left
    have hone : max (places + 1) n.repr.toList.length - places = 1 := by omega
    have hzeros : places + 1 - n.repr.toList.length = places - n.repr.toList.length + 1 := by omega
    rw [hone, padLeft, hzeros]
    rfl
  · have hnone : places + 1 - n.repr.toList.length = 0 := by omega
    rw [padLeft, hnone, List.replicate_zero, List.nil_append]
    rcases unpadded_repr n with hzero | hhead
    · left
      rw [hzero] at hpad ⊢
      have hplaces : places = 0 := by simpa using hpad
      rw [hplaces]
      rfl
    · right
      have hsome : max (places + 1) n.repr.toList.length - places ≠ 0 := by omega
      rwa [List.head?_take, if_neg hsome]

/-- Digits with a point before the last places of them, and no needless zero in front. -/
theorem exists_pointed (n places : Nat) :
    ∃ whole fraction, Digits whole ∧ whole ≠ [] ∧ Unpadded whole ∧ Digits fraction ∧
      fraction.length = places ∧ Nat.ofDigitChars 10 (whole ++ fraction) 0 = n ∧
      pointed n places = if places = 0 then whole else whole ++ '.' :: fraction := by
  have hdigits : Digits (padLeft (places + 1) n.repr.toList) :=
    (digits_replicate _).append (digits_repr n)
  have hvalue : Nat.ofDigitChars 10 (padLeft (places + 1) n.repr.toList) 0 = n := by
    rw [padLeft, ofDigitChars_zeros, Nat.toList_repr, Nat.ofDigitChars_ten_toDigits]
  have hlength := length_padLeft (places + 1) n.repr.toList
  have hunpadded := unpadded_take n places
  unfold pointed
  rw [← hlength] at hunpadded
  generalize padLeft (places + 1) n.repr.toList = digits at hdigits hvalue hlength hunpadded ⊢
  refine ⟨digits.take (digits.length - places), digits.drop (digits.length - places),
    hdigits.take _, ?_, hunpadded, hdigits.drop _, ?_, ?_, ?_⟩
  · rw [← List.length_pos_iff, List.length_take]
    omega
  · rw [List.length_drop]
    omega
  · rw [List.take_append_drop, hvalue]
  · by_cases hplaces : places = 0
    · simp [hplaces]
    · simp [hplaces]

/-- Digits with a point before the last places of them. -/
theorem denotes_pointed (negative : Bool) (n places : Nat) :
    Denotes (minus negative ++ pointed n places)
      (if negative then -(n / 10 ^ places) else n / 10 ^ places) := by
  obtain ⟨whole, fraction, hwhole, hne, -, hfraction, hlength, hvalue, hpointed⟩ :=
    exists_pointed n places
  rw [hpointed, ← hvalue]
  by_cases hplaces : places = 0
  · have hnil : fraction = [] := List.length_eq_zero_iff.1 (hlength.trans hplaces)
    rw [if_pos hplaces, hnil, List.append_nil, hplaces, pow_zero, div_one]
    exact denotes_whole negative hwhole hne
  · have hsome : fraction ≠ [] := by
      rintro rfl
      exact hplaces hlength.symm
    rw [if_neg hplaces, ← hlength]
    exact denotes_point negative hwhole hne hfraction hsome

/-- An integer has no places to round. -/
theorem rounded_intCast (places : Nat) (n : Int) : rounded places n = n := by
  have hscaled : |(n : ℚ)| * 10 ^ places = (n.natAbs * 10 ^ places : Nat) := by
    push_cast
    rw [Nat.cast_natAbs, Int.cast_abs]
  have hunits : ((n.natAbs * 10 ^ places : Nat) : ℚ) / 10 ^ places = |(n : ℚ)| := by
    rw [← hscaled, mul_div_cancel_right₀ _ (by positivity)]
  rw [rounded, hscaled, Binary64.roundEven_natCast, hunits]
  by_cases hneg : (n : ℚ) < 0
  · rw [if_pos hneg, abs_of_neg hneg, neg_one_mul, neg_neg]
  · rw [if_neg hneg, abs_of_nonneg (not_lt.1 hneg), one_mul]

theorem fixedUnits_eq (places m : Nat) (q : Int) :
    fixedUnits places m q = roundEven (m * 2 ^ q * 10 ^ places) := by
  simp only [fixedUnits]
  rw [Binary64.roundHalfEven_eq (Binary64.ratio_snd_pos m q), Nat.pow_eq, Nat.cast_mul,
    mul_div_right_comm, ratio_value, Nat.cast_pow, Nat.cast_ofNat]

theorem rounded_signed (places : Nat) (negative : Bool) (m : Nat) (q : Int) :
    rounded places (Binary64.signed negative m * 2 ^ q) =
      if negative then -((fixedUnits places m q : ℚ) / 10 ^ places)
      else (fixedUnits places m q : ℚ) / 10 ^ places := by
  have hnonneg : (0 : ℚ) ≤ m * 2 ^ q := by positivity
  rw [fixedUnits_eq, rounded]
  cases negative with
  | false =>
    rw [Binary64.signed, if_neg Bool.false_ne_true, Int.cast_natCast, if_neg (not_lt.2 hnonneg),
      abs_of_nonneg hnonneg, one_mul, if_neg Bool.false_ne_true]
  | true =>
    rw [Binary64.signed, if_pos rfl, Int.cast_neg, Int.cast_natCast, neg_mul, abs_neg,
      abs_of_nonneg hnonneg, if_pos rfl]
    by_cases hzero : (m * 2 ^ q : ℚ) = 0
    · have hround : roundEven 0 = 0 := Binary64.roundEven_eq_zero (by norm_num)
      simp [hzero, hround]
    · have hneg : -(m * 2 ^ q : ℚ) < 0 := neg_lt_zero.2 (lt_of_le_of_ne hnonneg (Ne.symm hzero))
      rw [if_pos hneg, neg_one_mul]

theorem toList_fixed {x : Float} {negative : Bool} {m : Nat} {q : Int}
    (h : Binary64.parts x = .finite negative m q) (places : Nat) :
    (fixed places x).toList = minus negative ++ pointed (fixedUnits places m q) places := by
  unfold fixed withSign
  rw [h, String.toList_ofList]
  cases negative <;> rfl

/-- What is no finite double is written as a word. -/
theorem fixed_of_not_finite {x : Float} (h : ¬ Binary64.Finite x) (places : Nat) :
    fixed places x ∈ ["nan", "inf", "-inf"] := by
  unfold fixed withSign
  cases hparts : Binary64.parts x with
  | notANumber => exact List.mem_cons_self
  | infinite negative => cases negative <;> simp
  | finite negative m q => exact absurd (Binary64.finite_of_parts hparts) h

/-- A finite double is written as a decimal that stands for it, rounded. -/
theorem denotes_fixed {places : Nat} {x : Float} {v : ℚ} (h : exactValue? x = some (.ofRat v)) :
    Denotes (fixed places x).toList (rounded places v) := by
  obtain ⟨negative, m, q, hparts, rfl⟩ := Binary64.exists_parts h
  rw [toList_fixed hparts, rounded_signed]
  exact denotes_pointed negative _ places

end Arbor.Decimal
