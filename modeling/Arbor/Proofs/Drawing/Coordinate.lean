import Arbor.Drawing.Markup
import Arbor.Proofs.Decimal.Canonical

/-!
# Coordinates

A coordinate in a drawing is a double that has been rounded to some places and lost the zeros at the
end of its fraction, and the sign of a zero. What it stands for is the rounded double.

* `denotes_coordinate`: what the coordinate of a finite double stands for.
* `isDecimal_coordinate_iff`, `isPositiveDecimal_coordinate_iff`: which doubles have a coordinate
  that is a number, and which one that is a positive number.
* `coordinate_canonical`: the coordinate is the one canonical decimal for the rounded double.
-/

namespace Arbor.Markup

open Binary64 (exactValue?)
open Decimal (Canonical Denotes Digits IsDecimal IsPositiveDecimal Numeral minus pointed rounded)

/-! ## Dropping what is trailing -/

theorem dropTrailing_append (c : Char) (s t : List Char) :
    dropTrailing c (s ++ t) =
      if dropTrailing c t = [] then dropTrailing c s else s ++ dropTrailing c t := by
  simp only [dropTrailing, List.reverse_append, List.dropWhile_append, List.reverse_eq_nil_iff,
    List.isEmpty_iff]
  split <;> simp

theorem dropTrailing_eq_self {c : Char} {s : List Char} (h : c ∉ s) : dropTrailing c s = s := by
  have hkeep : s.reverse.dropWhile (· == c) = s.reverse := by
    refine List.dropWhile_eq_self_iff.2 fun hlength heq => h ?_
    rw [← beq_iff_eq.1 heq]
    exact List.mem_reverse.1 (List.getElem_mem _)
  rw [dropTrailing, hkeep, List.reverse_reverse]

/-- What has been dropped. -/
theorem exists_replicate_dropTrailing (c : Char) (s : List Char) :
    ∃ n, s = dropTrailing c s ++ List.replicate n c := by
  have hdropped : s.reverse.takeWhile (· == c) =
      List.replicate (s.reverse.takeWhile (· == c)).length c :=
    List.eq_replicate_iff.2 ⟨rfl, fun d hd => by
      have hkept := List.mem_takeWhile_imp hd
      exact beq_iff_eq.1 hkept⟩
  refine ⟨(s.reverse.takeWhile (· == c)).length, ?_⟩
  calc s = (s.reverse.takeWhile (· == c) ++ s.reverse.dropWhile (· == c)).reverse := by
        rw [List.takeWhile_append_dropWhile, List.reverse_reverse]
    _ = dropTrailing c s ++ (s.reverse.takeWhile (· == c)).reverse := List.reverse_append
    _ = _ := by rw [hdropped, List.reverse_replicate, List.length_replicate]

theorem getLast?_dropTrailing (c : Char) (s : List Char) :
    (dropTrailing c s).getLast? ≠ some c := by
  have hhead := List.head?_dropWhile_not (· == c) s.reverse
  rw [dropTrailing, List.getLast?_reverse]
  intro hlast
  rw [hlast] at hhead
  simp at hhead

/-! ## Fractions -/

/-- Dropping the zeros at the end of a fraction, and the point if nothing is left. -/
theorem stripFraction_point {before fraction : List Char} (hbefore : '.' ∉ before)
    (hfraction : Digits fraction) :
    stripFraction (before ++ '.' :: fraction) =
      if dropTrailing '0' fraction = [] then before
      else before ++ '.' :: dropTrailing '0' fraction := by
  have hpoint : (before ++ '.' :: fraction).contains '.' = true := by simp
  have hzeros : dropTrailing '0' ('.' :: fraction) = '.' :: dropTrailing '0' fraction := by
    rw [← List.singleton_append, dropTrailing_append]
    split_ifs with hnil
    · rw [hnil]
      rfl
    · rfl
  have hkept : '.' ∉ dropTrailing '0' fraction := by
    intro hmem
    obtain ⟨n, hall⟩ := exists_replicate_dropTrailing '0' fraction
    have hdigit : '.'.isDigit := hfraction '.' (by rw [hall]; exact List.mem_append_left _ hmem)
    revert hdigit
    decide
  rw [stripFraction, if_pos hpoint, dropTrailing_append, hzeros, if_neg (List.cons_ne_nil _ _),
    dropTrailing_append]
  by_cases hnil : dropTrailing '0' fraction = []
  · have hdot : dropTrailing '.' ['.'] = [] := rfl
    rw [if_pos hnil, hnil, if_pos hdot, dropTrailing_eq_self hbefore]
  · have hdot : dropTrailing '.' ('.' :: dropTrailing '0' fraction) =
        '.' :: dropTrailing '0' fraction := by
      rw [← List.singleton_append, dropTrailing_append, dropTrailing_eq_self hkept, if_neg hnil]
    rw [if_neg hnil, hdot, if_neg (List.cons_ne_nil _ _)]

/-- A fraction without the zeros at its end stands for the same. -/
theorem denotes_stripFraction {s : List Char} {v : ℚ} (h : Denotes s v) :
    Denotes (stripFraction s) v := by
  obtain ⟨negative, d, hexponent, hfraction, rfl, rfl⟩ := h
  have hbefore : '.' ∉ minus negative ++ d.whole := by
    intro hmem
    rcases List.mem_append.1 hmem with hmem | hmem
    · cases negative <;> simp [minus] at hmem
    · have hdigit := d.digits_whole '.' hmem
      revert hdigit
      decide
  have hnone : d.exponentText = [] := by rw [Numeral.exponentText, hexponent]
  cases hsome : d.fraction with
  | none =>
    have htext : d.text = d.whole := by rw [Numeral.text, Numeral.tail, hsome]; simp [hnone]
    have hkeep : stripFraction (minus negative ++ d.text) = minus negative ++ d.text := by
      rw [stripFraction, htext, if_neg (by simpa using hbefore)]
    exact ⟨negative, d, hexponent, hfraction, hkeep, rfl⟩
  | some ds =>
    have htext : minus negative ++ d.text = (minus negative ++ d.whole) ++ '.' :: ds := by
      rw [Numeral.text, Numeral.tail, hsome]
      simp [hnone]
    have hdecimals : d.decimals = ds := by rw [Numeral.decimals, hsome, Option.getD_some]
    have hds : Digits ds := hdecimals ▸ d.digits_fraction
    obtain ⟨n, hzeros⟩ := exists_replicate_dropTrailing '0' ds
    have hvalue : d.value = Nat.ofDigitChars 10 (d.whole ++ dropTrailing '0' ds) 0 /
        10 ^ (dropTrailing '0' ds).length := by
      have hlength := congrArg List.length hzeros
      rw [List.length_append, List.length_replicate] at hlength
      have hdigits : d.whole ++ ds = d.whole ++ dropTrailing '0' ds ++ List.replicate n '0' := by
        rw [List.append_assoc, ← hzeros]
      rw [Numeral.value_eq_div hexponent, hdecimals, hlength, hdigits,
        Decimal.ofDigitChars_zeros_div]
    rw [htext, stripFraction_point hbefore hds, hvalue]
    by_cases hnil : dropTrailing '0' ds = []
    · have hdenotes := Decimal.denotes_whole negative d.digits_whole d.whole_ne_nil
      rw [if_pos hnil, hnil, List.append_nil, List.length_nil, pow_zero, div_one]
      exact hdenotes
    · have hkept : Digits (dropTrailing '0' ds) := fun c hc =>
        hds c (by rw [hzeros]; exact List.mem_append_left _ hc)
      rw [if_neg hnil, List.append_assoc]
      exact Decimal.denotes_point negative d.digits_whole d.whole_ne_nil hkept hnil

/-! ## Coordinates -/

/-- A zero without its sign stands for the same. -/
theorem exactValue?_unsigned (x : Float) :
    exactValue? (if x == 0.0 then 0.0 else x) = exactValue? x := by
  by_cases hzero : (x == 0.0) = true
  · obtain ⟨u, hx, hu⟩ := (Binary64.beq_iff x 0.0).1 hzero
    rw [if_pos hzero, hu, hx]
  · rw [if_neg hzero]

/-- The coordinate of a finite double stands for the double, rounded. -/
theorem denotes_coordinate {places : Nat} {x : Float} {v : ℚ}
    (h : exactValue? x = some (.ofRat v)) :
    Denotes (coordinate places x).toList (rounded (min places placesOfDouble) v) := by
  have hfixed : Denotes (Decimal.fixed (min places placesOfDouble) _).toList _ :=
    Decimal.denotes_fixed ((exactValue?_unsigned x).trans h)
  have hstripped := denotes_stripFraction hfixed
  simp only [coordinate]
  generalize (if x == 0.0 then 0.0 else x) = y at hstripped ⊢
  split
  next hzero =>
    rcases hzero with hnil | hminus
    · rw [hnil] at hstripped
      obtain ⟨negative, d, -, -, hempty, -⟩ := hstripped
      obtain ⟨c, rest, htext, -⟩ := d.text_eq_cons
      simp [htext] at hempty
    · rw [hminus] at hstripped
      rw [hstripped.unique Decimal.denotes_zero.2]
      exact Decimal.denotes_zero.1
  next =>
    rw [String.toList_ofList]
    exact hstripped

/-- The coordinate of what is no finite double is a word. -/
theorem letter_mem_coordinate {places : Nat} {x : Float} (h : ¬ Binary64.Finite x) :
    'n' ∈ (coordinate places x).toList := by
  have hzero : ¬ (x == 0.0) = true := by
    intro heq
    obtain ⟨u, hx, hu⟩ := (Binary64.beq_iff x 0.0).1 heq
    cases hu.symm.trans Binary64.exactValue?_zeroFloat
    exact h ⟨0, hx⟩
  have hletter : ∀ word ∈ ["nan", "inf", "-inf"], stripFraction word.toList ≠ [] ∧
      stripFraction word.toList ≠ ['-', '0'] ∧ 'n' ∈ stripFraction word.toList := by
    decide
  obtain ⟨hnil, hminus, hmem⟩ := hletter _ (Decimal.fixed_of_not_finite h _)
  simp only [coordinate, if_neg hzero]
  rw [if_neg (not_or.2 ⟨hnil, hminus⟩), String.toList_ofList]
  exact hmem

/-- The doubles whose coordinate is a number are the finite ones. -/
theorem isDecimal_coordinate_iff {places : Nat} {x : Float} :
    IsDecimal (coordinate places x).toList ↔ Binary64.Finite x := by
  constructor
  · rintro ⟨v, hdenotes⟩
    by_contra hfinite
    exact hdenotes.not_mem (letter_mem_coordinate hfinite)
  · rintro ⟨v, hv⟩
    exact ⟨_, denotes_coordinate hv⟩

/-- The double is finite, and more than half a unit in the last place. -/
def Shows (places : Nat) (x : Float) : Prop :=
  ∃ v, exactValue? x = some (.ofRat v) ∧ 1 < 2 * v * 10 ^ places

/-- The doubles whose coordinate is a positive number. -/
theorem isPositiveDecimal_coordinate_iff {places : Nat} (hplaces : places ≤ placesOfDouble)
    {x : Float} : IsPositiveDecimal (coordinate places x).toList ↔ Shows places x := by
  constructor
  · rintro ⟨w, hdenotes, hpos⟩
    obtain ⟨v, hv⟩ := isDecimal_coordinate_iff.1 ⟨w, hdenotes⟩
    cases hdenotes.unique (denotes_coordinate hv)
    rw [min_eq_left hplaces, Decimal.rounded_pos_iff] at hpos
    exact ⟨v, hv, hpos⟩
  · rintro ⟨v, hv, hhalf⟩
    refine ⟨_, denotes_coordinate hv, ?_⟩
    rwa [min_eq_left hplaces, Decimal.rounded_pos_iff]

/-! ## Canonical form -/

/-- A fixed number of digits, without the zeros at the end of the fraction: no needless zero is
left. -/
theorem exists_stripFraction (negative : Bool) (n places : Nat) :
    ∃ d : Numeral, d.Canonical places ∧
      stripFraction (minus negative ++ pointed n places) = minus negative ++ d.text := by
  obtain ⟨whole, fraction, hwhole, hne, hunpadded, hfraction, hlength, -, hpointed⟩ :=
    Decimal.exists_pointed n places
  have hbefore : '.' ∉ minus negative ++ whole := by
    intro hmem
    rcases List.mem_append.1 hmem with hmem | hmem
    · cases negative <;> simp [minus] at hmem
    · have hdigit := hwhole '.' hmem
      revert hdigit
      decide
  have hstrip : stripFraction (minus negative ++ pointed n places) =
      if dropTrailing '0' fraction = [] then minus negative ++ whole
      else minus negative ++ whole ++ '.' :: dropTrailing '0' fraction := by
    rw [hpointed]
    by_cases hplaces : places = 0
    · have hnil : fraction = [] := List.length_eq_zero_iff.1 (hlength.trans hplaces)
      have hdropped : dropTrailing '0' [] = [] := rfl
      rw [if_pos hplaces, hnil, if_pos hdropped, stripFraction, if_neg (by simpa using hbefore)]
    · rw [if_neg hplaces, ← List.append_assoc, stripFraction_point hbefore hfraction]
  rw [hstrip]
  by_cases hnil : dropTrailing '0' fraction = []
  · refine ⟨_, Decimal.Numeral.canonical_whole hwhole hne hunpadded places, ?_⟩
    rw [if_pos hnil]
    simp [Numeral.plain, Numeral.text, Numeral.tail, Numeral.exponentText]
  · obtain ⟨k, hzeros⟩ := exists_replicate_dropTrailing '0' fraction
    have hkept : Digits (dropTrailing '0' fraction) := fun c hc =>
      hfraction c (by rw [hzeros]; exact List.mem_append_left _ hc)
    have hle : (dropTrailing '0' fraction).length ≤ places := by
      have hlengths := congrArg List.length hzeros
      rw [List.length_append, hlength] at hlengths
      omega
    have hlast := getLast?_dropTrailing '0' fraction
    refine ⟨_, Decimal.Numeral.canonical_point hwhole hne hkept hunpadded hnil hle hlast, ?_⟩
    rw [if_neg hnil]
    simp [Numeral.plain, Numeral.text, Numeral.tail, Numeral.exponentText]

theorem canonical_coordinate {places : Nat} {x : Float} (hx : Binary64.Finite x) :
    Canonical (min places placesOfDouble) (coordinate places x).toList := by
  obtain ⟨v, hv⟩ := hx
  obtain ⟨negative, m, q, hparts, -⟩ := Binary64.exists_parts ((exactValue?_unsigned x).trans hv)
  have hfixed := Decimal.toList_fixed hparts (min places placesOfDouble)
  obtain ⟨d, hd, hstrip⟩ := exists_stripFraction negative
    (Decimal.fixedUnits (min places placesOfDouble) m q) (min places placesOfDouble)
  simp only [coordinate, hfixed, hstrip]
  split
  next => exact (Decimal.canonical_repr 0 _).1
  next hkept =>
    rw [String.toList_ofList]
    exact ⟨fun hminus => hkept (Or.inr hminus), negative, d, hd, rfl⟩

/-- **A coordinate is the one canonical decimal for a rounded double.** It stands for the same
number as the double with all of its places, so it is the same for all doubles that are rounded to
the same number, and an integer is written as it is. -/
theorem coordinate_canonical {places : Nat} (hplaces : places ≤ placesOfDouble) {x : Float} {v : ℚ}
    (hx : exactValue? x = some (.ofRat v)) :
    Canonical places (coordinate places x).toList ∧
      (∃ c, (coordinate places x).toList.getLast? = some c ∧ c.isDigit) ∧
      Denotes (Decimal.fixed places x).toList (rounded places v) ∧
      Denotes (coordinate places x).toList (rounded places v) ∧
      (∀ y, Denotes (Decimal.fixed places y).toList (rounded places v) →
        coordinate places y = coordinate places x) ∧
      ∀ n : Int, v = n → coordinate places x = n.repr := by
  have hform : ∀ {y : Float} {w : ℚ}, exactValue? y = some (.ofRat w) →
      Canonical places (coordinate places y).toList ∧
        Denotes (coordinate places y).toList (rounded places w) := by
    intro y w hy
    have hcanonical := @canonical_coordinate places y ⟨w, hy⟩
    have hdenotes := @denotes_coordinate places y w hy
    rw [min_eq_left hplaces] at hcanonical hdenotes
    exact ⟨hcanonical, hdenotes⟩
  obtain ⟨hcanonical, hdenotes⟩ := hform hx
  refine ⟨hcanonical, hcanonical.exists_getLast?, Decimal.denotes_fixed hx, hdenotes,
    fun y hy => ?_, fun n hn => ?_⟩
  · have hfinite : Binary64.Finite y := by
      by_contra hword
      have hletter : ∀ word ∈ ["nan", "inf", "-inf"], 'n' ∈ word.toList := by decide
      exact hy.not_mem (hletter _ (Decimal.fixed_of_not_finite hword places))
    obtain ⟨w, hw⟩ := hfinite
    obtain ⟨hcanonical', hdenotes'⟩ := hform hw
    rw [(Decimal.denotes_fixed hw).unique hy] at hdenotes'
    exact String.toList_inj.1 (hcanonical'.unique hcanonical hdenotes' hdenotes)
  · obtain ⟨hinteger, hvalue⟩ := Decimal.canonical_repr n places
    rw [hn, Decimal.rounded_intCast] at hdenotes
    exact String.toList_inj.1 (hcanonical.unique hinteger hdenotes hvalue)

/-- A hundred keeps its zeros, and what is rounded to a hundred is written as a hundred is. -/
theorem coordinate_canonical_hundred :
    2 ≤ placesOfDouble ∧ exactValue? 100.0 = some (.ofRat 100) ∧ coordinate 2 100.0 = "100" ∧
      Decimal.fixed 2 99.999 = "100.00" ∧ coordinate 2 99.999 = coordinate 2 100.0 := by
  have hplaces : 2 ≤ placesOfDouble := by decide
  have hvalue : exactValue? 100.0 = some (.ofRat 100) := by
    have hparts : Binary64.parts 100.0 = .finite false 7036874417766400 (-46) := by decide +kernel
    rw [exactValue?, hparts]
    norm_num [Binary64.Parts.exactValue?, Binary64.signed]
  have hfixed : Decimal.fixed 2 99.999 = "100.00" := by decide +kernel
  have hdenotes : Denotes (Decimal.fixed 2 99.999).toList (rounded 2 (100 : Int)) := by
    have hpoint := Decimal.denotes_point false (show Digits ['1', '0', '0'] by simp [Digits])
      (List.cons_ne_nil _ _) (Decimal.digits_replicate 2) (List.cons_ne_nil _ _)
    have hdigits : Nat.ofDigitChars 10 (['1', '0', '0'] ++ List.replicate 2 '0') 0 = 10000 := rfl
    rw [hfixed, Decimal.rounded_intCast]
    convert hpoint using 1
    · rfl
    · rw [hdigits]
      norm_num
  obtain ⟨-, -, -, -, hsame, hinteger⟩ := coordinate_canonical hplaces hvalue
  exact ⟨hplaces, hvalue, hinteger 100 rfl, hfixed, hsame _ (by exact_mod_cast hdenotes)⟩

end Arbor.Markup
