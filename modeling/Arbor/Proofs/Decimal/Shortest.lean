import Arbor.Decimal.Shortest
import Arbor.Proofs.Decimal.Numeral

/-!
# Doubles written and read

The text of a double is read back as the same double. What this takes is that every candidate for
the shortest decimal is tried by rounding it, and that all layouts of digits and exponent stand for
the same number; how many digits the shortest decimal has does not matter.

* `shortest_spec`: the shortest decimal is rounded to the double.
* `Layout.exists_numeral`: a layout is a numeral.
* `readFloat?_floatText`, `readInt?_floatText`: the text of a double, read as a double and as an
  integer.
-/

namespace Arbor.Decimal

open Binary64 (nearestBits nearestRat)

/-! ## The search -/

theorem decimalBits_eq (n : Nat) (g : Int) : decimalBits n g = nearestRat (n * 10 ^ g) :=
  nearestBits_scaled n g

theorem decimalBits_of_gridHit? {bits num den n : Nat} {g : Int}
    (h : gridHit? bits num den g = some n) : decimalBits n g = bits := by
  unfold gridHit? at h
  simp only [Bool.and_eq_true, beq_iff_eq] at h
  split_ifs at h with hlow hhigh
  · cases h
    exact hlow.1
  · cases h
    exact hhigh

theorem decimalBits_of_searchGrids {bits num den n fuel count : Nat} {k g : Int}
    (h : searchGrids bits num den k count fuel = some (n, g)) : decimalBits n g = bits := by
  induction fuel generalizing count with
  | zero => cases h
  | succ fuel ih =>
    rw [searchGrids] at h
    split at h
    · rename_i n' hhit
      cases h
      exact decimalBits_of_gridHit? hhit
    · exact ih h

/-- Moving zeros into the exponent does not change the number. -/
theorem stripZeros_value (n : Nat) (g : Int) (fuel : Nat) :
    ((stripZeros n g fuel).1 : ℚ) * 10 ^ (stripZeros n g fuel).2 = n * 10 ^ g := by
  induction fuel generalizing n g with
  | zero => rfl
  | succ fuel ih =>
    rw [stripZeros]
    split_ifs with hzero
    · have hn : (n : ℚ) = (n / 10 : ℕ) * 10 := by
        exact_mod_cast (Nat.div_mul_cancel (Nat.dvd_of_mod_eq_zero hzero)).symm
      rw [ih, hn, zpow_add_one₀ (by norm_num)]
      ring
    · rfl

theorem ratio_value (m : Nat) (q : Int) :
    ((Binary64.ratio m q).1 : ℚ) / (Binary64.ratio m q).2 = m * 2 ^ q := by
  have hvalue := Binary64.signed_mul_zpow false m q
  simpa [Binary64.signed] using hvalue.symm

/-- The shortest decimal is rounded to what the double is rounded to. -/
theorem shortest_spec (m : Nat) (q : Int) :
    nearestRat ((shortest m q).1 * 10 ^ (shortest m q).2) = nearestRat (m * 2 ^ q) := by
  have hbits : nearestBits (Binary64.ratio m q).1 (Binary64.ratio m q).2 =
      nearestRat (m * 2 ^ q) := by
    rw [Binary64.nearestBits_eq _ (Binary64.ratio_snd_pos m q), ratio_value]
  unfold shortest
  simp only [hbits]
  split
  · rename_i n g hsearch
    rw [stripZeros_value, ← decimalBits_eq]
    exact decimalBits_of_searchGrids hsearch
  · split_ifs with hq
    · lift q to ℕ using hq
      simp
    · obtain ⟨k, hk⟩ := Int.eq_ofNat_of_zero_le (show 0 ≤ -q by omega)
      obtain rfl : q = -(k : ℤ) := by omega
      have hten : (10 : ℚ) ^ k = 5 ^ k * 2 ^ k := by
        rw [← mul_pow]
        norm_num
      congr 1
      simp [hten]
      field_simp

/-! ## Layouts -/

theorem ofDigitChars_zeros (n : Nat) (s : List Char) :
    Nat.ofDigitChars 10 (List.replicate n '0' ++ s) 0 = Nat.ofDigitChars 10 s 0 := by
  rw [Nat.ofDigitChars_append, Nat.ofDigitChars_replicate_zero, Nat.mul_zero]

section Layouts

variable {digits : List Char} (hdigits : Digits digits)

include hdigits

theorem Digits.take (k : Nat) : Digits (digits.take k) :=
  fun c hc => hdigits c (List.mem_of_mem_take hc)

theorem Digits.drop (k : Nat) : Digits (digits.drop k) :=
  fun c hc => hdigits c (List.mem_of_mem_drop hc)

/-- Digits and zeros before the point. -/
theorem exists_numeral_whole (hne : digits ≠ []) (zeros : Nat) :
    ∃ d : Numeral, d.text = digits ++ List.replicate zeros '0' ++ ['.', '0'] ∧
      d.value = Nat.ofDigitChars 10 digits 0 * 10 ^ (zeros : Int) ∧ d.tail ≠ [] := by
  have hzero : Digits ['0'] := digits_replicate 1
  refine ⟨⟨digits ++ List.replicate zeros '0', some ['0'], none,
    hdigits.append (digits_replicate zeros), by simp [hne], hzero, nofun⟩, ?_, ?_,
    List.cons_ne_nil _ _⟩
  · simp [Numeral.text, Numeral.tail, Numeral.exponentText]
  · have hvalue : Nat.ofDigitChars 10 (digits ++ List.replicate zeros '0' ++ ['0']) 0 =
        10 * (10 ^ zeros * Nat.ofDigitChars 10 digits 0) := by
      rw [Nat.ofDigitChars_append, Nat.ofDigitChars_append, Nat.ofDigitChars_replicate_zero,
        Nat.ofDigitChars_cons, Nat.ofDigitChars_nil]
      rfl
    simp only [Numeral.value, Numeral.decimals, Numeral.power, Option.getD_some, hvalue]
    push_cast
    simp
    ring

/-- A point among the digits. -/
theorem exists_numeral_inside {k : Nat} (hk : 0 < k) (hle : k ≤ digits.length) :
    ∃ d : Numeral, d.text = digits.take k ++ '.' :: digits.drop k ∧
      d.value = Nat.ofDigitChars 10 digits 0 * 10 ^ ((k : Int) - digits.length) ∧
        d.tail ≠ [] := by
  have hne : digits.take k ≠ [] := by
    rw [← List.length_pos_iff, List.length_take]
    omega
  refine ⟨⟨digits.take k, some (digits.drop k), none, hdigits.take k, hne, hdigits.drop k,
    nofun⟩, ?_, ?_, List.cons_ne_nil _ _⟩
  · simp [Numeral.text, Numeral.tail, Numeral.exponentText]
  · have hexponent : (0 : Int) - (digits.drop k).length = k - digits.length := by
      rw [List.length_drop]
      omega
    simp only [Numeral.value, Numeral.decimals, Numeral.power, Option.getD_some,
      List.take_append_drop, hexponent]

/-- Zeros after the point and before the digits. -/
theorem exists_numeral_below (zeros : Nat) :
    ∃ d : Numeral, d.text = '0' :: '.' :: List.replicate zeros '0' ++ digits ∧
      d.value = Nat.ofDigitChars 10 digits 0 * 10 ^ (-(zeros : Int) - digits.length) ∧
        d.tail ≠ [] := by
  have hzero : Digits ['0'] := digits_replicate 1
  refine ⟨⟨['0'], some (List.replicate zeros '0' ++ digits), none, hzero, List.cons_ne_nil _ _,
    (digits_replicate zeros).append hdigits, nofun⟩, ?_, ?_, List.cons_ne_nil _ _⟩
  · simp [Numeral.text, Numeral.tail, Numeral.exponentText]
  · have hvalue : Nat.ofDigitChars 10 (['0'] ++ (List.replicate zeros '0' ++ digits)) 0 =
        Nat.ofDigitChars 10 digits 0 := ofDigitChars_zeros (zeros + 1) digits
    have hexponent : (0 : Int) - (List.replicate zeros '0' ++ digits).length =
        -(zeros : Int) - digits.length := by
      rw [List.length_append, List.length_replicate]
      omega
    simp only [Numeral.value, Numeral.decimals, Numeral.power, Option.getD_some, hvalue,
      hexponent]

/-- One digit before the point, and an exponent. -/
theorem exists_numeral_scientific (hne : digits ≠ []) (width : Nat) (lead : Int) :
    ∃ d : Numeral,
      d.text = digits.take 1 ++ (if digits.length ≤ 1 then [] else '.' :: digits.drop 1) ++
        'e' :: (if lead < 0 then '-' else '+') :: padLeft width lead.natAbs.repr.toList ∧
      d.value = Nat.ofDigitChars 10 digits 0 * 10 ^ (lead + 1 - digits.length) ∧
      d.tail ≠ [] := by
  have hpos : 0 < digits.length := List.length_pos_iff.2 hne
  have htake : digits.take 1 ≠ [] := by
    rw [← List.length_pos_iff, List.length_take]
    omega
  have hpadded : Digits (padLeft width lead.natAbs.repr.toList) ∧
      padLeft width lead.natAbs.repr.toList ≠ [] :=
    ⟨(digits_replicate _).append (digits_repr _), by simp [padLeft]⟩
  have hpower : Binary64.signed (decide (lead < 0))
      (Nat.ofDigitChars 10 (padLeft width lead.natAbs.repr.toList) 0) = lead := by
    rw [padLeft, ofDigitChars_zeros, Nat.toList_repr, Nat.ofDigitChars_ten_toDigits, signed_natAbs]
  have hdecimals : (if digits.length ≤ 1 then none else some (digits.drop 1)).getD [] =
      digits.drop 1 := by
    split_ifs with hone
    · exact (List.drop_eq_nil_of_le hone).symm
    · rfl
  have hexponent : lead - (digits.drop 1).length = lead + 1 - digits.length := by
    rw [List.length_drop]
    omega
  refine ⟨⟨digits.take 1, if digits.length ≤ 1 then none else some (digits.drop 1),
    some (decide (lead < 0), padLeft width lead.natAbs.repr.toList), hdigits.take 1, htake,
    by rw [hdecimals]; exact hdigits.drop 1, by rintro e ⟨⟩; exact hpadded⟩, ?_, ?_, ?_⟩
  · simp only [Numeral.text, Numeral.tail, Numeral.exponentText, decide_eq_true_eq]
    split_ifs <;> simp
  · simp only [Numeral.value, Numeral.decimals, Numeral.power, hdecimals, hpower,
      List.take_append_drop, hexponent]
  · simp only [Numeral.tail]
    split <;> exact List.cons_ne_nil _ _

end Layouts

/-- A layout is a numeral with a point or an exponent. -/
theorem Layout.exists_numeral (layout : Layout) (n : Nat) (g : Int) :
    ∃ d : Numeral, d.text = layout.text n g ∧ d.value = n * 10 ^ g ∧ d.tail ≠ [] := by
  have hdigits := digits_repr n
  have hvalue : Nat.ofDigitChars 10 n.repr.toList 0 = n := by
    rw [Nat.toList_repr, Nat.ofDigitChars_ten_toDigits]
  have hne : n.repr.toList ≠ [] := by
    rw [Nat.toList_repr]
    exact Nat.toDigits_ne_nil
  have hpos := List.length_pos_iff.2 hne
  simp only [Layout.text]
  generalize n.repr.toList = digits at hdigits hvalue hne hpos ⊢
  subst hvalue
  split
  · split
    · rename_i hg
      lift g to ℕ using hg
      exact exists_numeral_whole hdigits hne g
    · split
      · obtain ⟨d, htext, hd, htail⟩ := exists_numeral_inside hdigits
          (k := (g + digits.length - 1 + 1).toNat) (by omega) (by omega)
        refine ⟨d, htext, ?_, htail⟩
        rw [hd]
        congr 2
        omega
      · obtain ⟨d, htext, hd, htail⟩ := exists_numeral_below hdigits
          (-(g + digits.length - 1) - 1).toNat
        refine ⟨d, htext, ?_, htail⟩
        rw [hd]
        congr 2
        omega
  · obtain ⟨d, htext, hd, htail⟩ := exists_numeral_scientific hdigits hne layout.exponentDigits
      (g + digits.length - 1)
    refine ⟨d, htext, ?_, htail⟩
    rw [hd]
    congr 2
    omega

/-! ## The text of a double -/

theorem toList_floatText {x : Float} :
    (floatText x).toList =
      match Binary64.parts x with
      | .notANumber => ['n', 'a', 'n']
      | .infinite negative => minus negative ++ ['i', 'n', 'f']
      | .finite negative m q =>
        minus negative ++ if m = 0 then ['0', '.', '0']
          else numberLayout.text (shortest m q).1 (shortest m q).2 := by
  unfold floatText
  cases Binary64.parts x with
  | notANumber => rfl
  | infinite negative => cases negative <;> rfl
  | finite negative m q => cases negative <;> simp [minus]

/-- The text of a finite double is a numeral for a number that is rounded to it. -/
theorem exists_numeral_floatText {x : Float} {negative : Bool} {m : Nat} {q : Int}
    (h : Binary64.parts x = .finite negative m q) :
    ∃ d : Numeral, (floatText x).toList = minus negative ++ d.text ∧
      nearestRat d.value = nearestRat (m * 2 ^ q) ∧ d.tail ≠ [] := by
  simp only [toList_floatText, h]
  by_cases hm : m = 0
  · obtain ⟨d, htext, hd, htail⟩ :=
      exists_numeral_whole (digits_replicate 1) (List.cons_ne_nil _ _) 0
    refine ⟨d, ?_, ?_, htail⟩
    · rw [if_pos hm, htext]
      rfl
    · rw [hd, hm, Nat.ofDigitChars_replicate_zero]
      simp
  · obtain ⟨d, htext, hd, htail⟩ :=
      numberLayout.exists_numeral (shortest m q).1 (shortest m q).2
    refine ⟨d, ?_, ?_, htail⟩
    · rw [if_neg hm, htext]
    · rw [hd, shortest_spec]

/-- **The text of a double is read as the same double.** -/
theorem readFloat?_floatText {x : Float} (hx : Binary64.isNotANumber x = false) :
    readFloat? (floatText x).toList = some x := by
  cases hparts : Binary64.parts x with
  | notANumber =>
    rw [Binary64.isNotANumber_iff.2 hparts] at hx
    cases hx
  | infinite negative =>
    simp only [toList_floatText, hparts]
    rw [← Binary64.infinity_of_parts hparts]
    cases negative <;> rfl
  | finite negative m q =>
    obtain ⟨d, htext, hd, -⟩ := exists_numeral_floatText hparts
    rw [htext, readFloat?_text, hd, Binary64.nearest_of_parts hparts]

/-- The text of a double is never read as an integer. -/
theorem readInt?_floatText (x : Float) : readInt? (floatText x).toList = none := by
  cases hparts : Binary64.parts x with
  | notANumber =>
    simp only [toList_floatText, hparts]
    rfl
  | infinite negative =>
    simp only [toList_floatText, hparts]
    cases negative <;> rfl
  | finite negative m q =>
    obtain ⟨d, htext, -, htail⟩ := exists_numeral_floatText hparts
    rw [htext, readInt?_text d htail]

theorem plain_floatText (x : Float) :
    Plain (floatText x).toList ∧ (floatText x).toList ≠ [] := by
  cases hparts : Binary64.parts x with
  | notANumber =>
    simp only [toList_floatText, hparts]
    exact ⟨by simp [Plain, numeralChars], List.cons_ne_nil _ _⟩
  | infinite negative =>
    simp only [toList_floatText, hparts]
    exact ⟨(plain_minus negative).append (by simp [Plain, numeralChars]), by simp⟩
  | finite negative m q =>
    obtain ⟨d, htext, -, -⟩ := exists_numeral_floatText hparts
    obtain ⟨c, rest, hcons, -⟩ := d.text_eq_cons
    rw [htext, hcons]
    exact ⟨(plain_minus negative).append (hcons ▸ d.plain_text), by simp⟩

theorem plain_repr (n : Int) : Plain n.repr.toList ∧ n.repr.toList ≠ [] := by
  rw [toList_repr_int]
  exact ⟨(plain_minus _).append (plain_digits (digits_repr _)), by simp⟩

/-- A fraction, a number of the size of `1e16` and a very small number, with their signs. -/
example : floatText (-0.1) = "-0.1" ∧ floatText 1e16 = "1e+16" ∧ floatText 5e-324 = "5e-324" := by
  decide +kernel

end Arbor.Decimal
