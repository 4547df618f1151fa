import Arbor.Binary64.Rounding
import Arbor.Proofs.Binary64.Exact

/-!
# The nearest double

The double nearest to a quotient depends only on the rational number that the quotient is. Said of
rational numbers (`nearestRat`), the rounding is easy to follow: what is below half of the least
double becomes zero, what is beyond the largest double becomes infinite, and what is a double stays
what it is.

* `nearestBits_eq`: the rounding of quotients, by their values.
* `nearestRat_canonical`, `nearestRat_eq_zero`, `nearestRat_eq_infinity`: what it comes to.
* `nearest_of_parts`: a double is the nearest one to what it stands for.
* `eq_or_zero_of_exactValue`: what it stands for determines it, except for the sign of zero.
* `toInt?_eq_some_iff`: the integer that a double is.
-/

namespace Arbor.Binary64

open Float.Model (UnpackedFloat Format)

/-! ## Rounding rational numbers -/

/-- The natural number nearest to `x`, a tie going to the even one. -/
def roundEven (x : ℚ) : Nat :=
  if x - ⌊x⌋₊ < 1 / 2 then ⌊x⌋₊
  else if 1 / 2 < x - ⌊x⌋₊ then ⌊x⌋₊ + 1
  else ⌊x⌋₊ + ⌊x⌋₊ % 2

/-- The exponent of the doubles around `x`. -/
def scaleOf (x : ℚ) : Int := max (Int.log 2 x - 52) (-1074)

/-- The bit pattern of the double nearest to `x`. -/
def nearestRat (x : ℚ) : Nat :=
  if x = 0 then 0
  else
    min ((scaleOf x + 1074).toNat * 2 ^ 52 + roundEven (x / 2 ^ scaleOf x)) infinityBits

theorem roundHalfEven_eq {n d : Nat} (hd : 0 < d) : roundHalfEven n d = roundEven (n / d) := by
  have hd' : (0 : ℚ) < d := by exact_mod_cast hd
  have hfloor : ⌊(n : ℚ) / d⌋₊ = n / d := Nat.floor_div_eq_div n d
  have hrest : (n : ℚ) / d - (n / d : ℕ) = (n % d : ℕ) / d := by
    have hsplit : (n : ℚ) = d * (n / d : ℕ) + (n % d : ℕ) := by
      exact_mod_cast (Nat.div_add_mod n d).symm
    rw [sub_eq_iff_eq_add, div_eq_iff hd'.ne', add_mul, div_mul_cancel₀ _ hd'.ne', add_comm,
      mul_comm _ (d : ℚ)]
    exact hsplit
  have hbelow : ((n % d : ℕ) : ℚ) / d < 1 / 2 ↔ 2 * (n % d) < d := by
    rw [div_lt_div_iff₀ hd' two_pos, one_mul, mul_comm]
    exact_mod_cast Iff.rfl
  have habove : 1 / 2 < ((n % d : ℕ) : ℚ) / d ↔ d < 2 * (n % d) := by
    rw [div_lt_div_iff₀ two_pos hd', one_mul, mul_comm _ (2 : ℚ)]
    exact_mod_cast Iff.rfl
  simp only [roundHalfEven, roundEven, hfloor, hrest, hbelow, habove]

theorem roundEven_natCast (m : Nat) : roundEven m = m := by
  simp [roundEven]

theorem roundEven_eq_zero {x : ℚ} (h : x < 1 / 2) : roundEven x = 0 := by
  have hfloor : ⌊x⌋₊ = 0 := Nat.floor_eq_zero.2 (by linarith)
  rw [roundEven, hfloor, Nat.cast_zero, sub_zero, if_pos h]

theorem le_roundEven {x : ℚ} {n : Nat} (h : n ≤ x) : n ≤ roundEven x := by
  have hfloor : n ≤ ⌊x⌋₊ := Nat.le_floor h
  unfold roundEven
  split_ifs <;> omega

/-! ## Quotients -/

theorem scaleDown_spec (num : Nat) {den : Nat} (hden : 0 < den) (q : Int) :
    0 < (scaleDown num den q).2 ∧
      ((scaleDown num den q).1 : ℚ) / (scaleDown num den q).2 = num / den / 2 ^ q := by
  unfold scaleDown
  by_cases hq : 0 ≤ q
  · lift q to ℕ using hq
    rw [if_pos (Int.natCast_nonneg q)]
    refine ⟨Nat.mul_pos hden (Nat.two_pow_pos _), ?_⟩
    simp [div_div]
  · obtain ⟨k, hk⟩ := Int.eq_ofNat_of_zero_le (show 0 ≤ -q by omega)
    obtain rfl : q = -(k : ℤ) := by omega
    rw [if_neg hq]
    refine ⟨hden, ?_⟩
    simp
    ring

theorem log_eq_of_bounds {x : ℚ} {e : Int} (hle : (2 : ℚ) ^ e ≤ x) (hlt : x < 2 ^ (e + 1)) :
    Int.log 2 x = e := by
  have hx : 0 < x := lt_of_lt_of_le (by positivity) hle
  refine le_antisymm ?_ ((Int.zpow_le_iff_le_log Nat.one_lt_two hx).1 hle)
  exact Int.lt_add_one_iff.1 ((Int.lt_zpow_iff_log_lt Nat.one_lt_two hx).1 hlt)

theorem log2Ratio_eq {num den : Nat} (hnum : 0 < num) (hden : 0 < den) :
    log2Ratio num den = Int.log 2 (num / den : ℚ) := by
  have hnum' : (0 : ℚ) < num := by exact_mod_cast hnum
  have hden' : (0 : ℚ) < den := by exact_mod_cast hden
  -- the logarithms of the two numbers give that of the quotient to within one
  have hbelow : ∀ n : Nat, 0 < n → (2 : ℚ) ^ (n.log2 : Int) ≤ n := by
    intro n hn
    exact_mod_cast Nat.log2_self_le hn.ne'
  have habove : ∀ n : Nat, (n : ℚ) < 2 ^ ((n.log2 : Int) + 1) := by
    intro n
    exact_mod_cast Nat.lt_log2_self
  set e : Int := (num.log2 : Int) - den.log2 with he
  have hle : (2 : ℚ) ^ (e - 1) ≤ num / den := by
    rw [le_div_iff₀ hden']
    calc (2 : ℚ) ^ (e - 1) * den ≤ 2 ^ (e - 1) * 2 ^ ((den.log2 : Int) + 1) := by
          gcongr
          exact (habove den).le
      _ = 2 ^ (num.log2 : Int) := by
          rw [← zpow_add₀ two_ne_zero]
          congr 1
          omega
      _ ≤ num := hbelow num hnum
  have hlt : (num : ℚ) / den < 2 ^ (e + 1) := by
    rw [div_lt_iff₀ hden']
    calc (num : ℚ) < 2 ^ ((num.log2 : Int) + 1) := habove num
      _ = 2 ^ (e + 1) * 2 ^ (den.log2 : Int) := by
          rw [← zpow_add₀ two_ne_zero]
          congr 1
          omega
      _ ≤ 2 ^ (e + 1) * den := by
          gcongr
          exact hbelow den hden
  obtain ⟨hpos, hscaled⟩ := scaleDown_spec num hden e
  have hpos' : (0 : ℚ) < (scaleDown num den e).2 := by exact_mod_cast hpos
  have hcompare : (scaleDown num den e).1 < (scaleDown num den e).2 ↔ (num : ℚ) / den < 2 ^ e := by
    rw [← div_lt_one (b := (2 : ℚ) ^ e) (by positivity), ← hscaled, div_lt_one hpos', Nat.cast_lt]
  simp only [log2Ratio, ← he, hcompare]
  by_cases hsmall : (num : ℚ) / den < 2 ^ e
  · rw [if_pos hsmall, log_eq_of_bounds hle (by rwa [sub_add_cancel])]
  · rw [if_neg hsmall, log_eq_of_bounds (not_lt.1 hsmall) hlt]

theorem nearestBits_eq (num : Nat) {den : Nat} (hden : 0 < den) :
    nearestBits num den = nearestRat (num / den) := by
  have hden' : (den : ℚ) ≠ 0 := by exact_mod_cast hden.ne'
  by_cases hnum : num = 0
  · rw [nearestBits, if_pos hnum, hnum, nearestRat, if_pos (by simp)]
  · have hne : ¬ (num : ℚ) / den = 0 := by
      rw [div_eq_zero_iff]
      simp [hnum, hden.ne']
    obtain ⟨hpos, hscaled⟩ := scaleDown_spec num hden (scaleOf (num / den))
    rw [nearestBits, if_neg hnum, nearestRat, if_neg hne, ← hscaled, ← roundHalfEven_eq hpos]
    simp only [log2Ratio_eq (Nat.pos_of_ne_zero hnum) hden]
    rfl

/-! ## What rounding comes to -/

theorem log_mul_zpow {m : Nat} (hm : 0 < m) (q : Int) :
    Int.log 2 ((m : ℚ) * 2 ^ q) = Nat.log 2 m + q := by
  have hle : (2 : ℚ) ^ Nat.log 2 m ≤ m := by exact_mod_cast Nat.pow_log_le_self 2 hm.ne'
  have hlt : (m : ℚ) < 2 ^ (Nat.log 2 m + 1) := by
    exact_mod_cast Nat.lt_pow_succ_log_self Nat.one_lt_two m
  have hq : (0 : ℚ) < 2 ^ q := by positivity
  refine log_eq_of_bounds ?_ ?_
  · rw [zpow_add₀ two_ne_zero, zpow_natCast]
    exact mul_le_mul_of_nonneg_right hle hq.le
  · rw [add_right_comm, zpow_add₀ two_ne_zero]
    exact mul_lt_mul_of_pos_right (by exact_mod_cast hlt) hq

/-- A double is rounded to itself. -/
theorem nearestRat_canonical {m : Nat} {q : Int} (hm : m < 2 ^ 53) (hmin : -1074 ≤ q)
    (hfull : q = -1074 ∨ 2 ^ 52 ≤ m) (hmax : q ≤ 971) :
    nearestRat (m * 2 ^ q) = (q + 1074).toNat * 2 ^ 52 + m := by
  have hq : (2 : ℚ) ^ q ≠ 0 := by positivity
  rcases Nat.eq_zero_or_pos m with rfl | hpos
  · obtain rfl : q = -1074 := hfull.resolve_right (by decide)
    rw [Nat.cast_zero, zero_mul, nearestRat, if_pos rfl]
    rfl
  · have hscale : scaleOf (m * 2 ^ q) = q := by
      have hlog : Nat.log 2 m < 53 := Nat.log_lt_of_lt_pow hpos.ne' hm
      rw [scaleOf, log_mul_zpow hpos]
      rcases hfull with rfl | hfull
      · omega
      · have hlog' : 52 ≤ Nat.log 2 m := Nat.le_log_of_pow_le Nat.one_lt_two hfull
        omega
    have hne : ¬ (m : ℚ) * 2 ^ q = 0 := by
      simp [hpos.ne', hq]
    rw [nearestRat, if_neg hne, hscale, mul_div_cancel_right₀ _ hq, roundEven_natCast]
    refine Nat.min_eq_left ?_
    rw [infinityBits]
    omega

/-- What is below half of the least double is rounded to zero. -/
theorem nearestRat_eq_zero {x : ℚ} (hx : 0 ≤ x) (h : x < 2 ^ (-1075 : Int)) :
    nearestRat x = 0 := by
  rcases hx.eq_or_lt with rfl | hpos
  · exact if_pos rfl
  · have hscale : scaleOf x = -1074 := by
      have hlog : Int.log 2 x < -1075 := (Int.lt_zpow_iff_log_lt Nat.one_lt_two hpos).1 h
      rw [scaleOf]
      omega
    have hhalf : x / 2 ^ (-1074 : Int) < 1 / 2 := by
      rw [div_lt_iff₀ (by positivity)]
      refine h.trans_eq ?_
      rw [show (-1075 : Int) = -1074 + -1 by rfl, zpow_add₀ two_ne_zero, zpow_neg_one]
      ring
    rw [nearestRat, if_neg hpos.ne', hscale, roundEven_eq_zero hhalf]
    rfl

/-- What is beyond the largest double is rounded to infinity. -/
theorem nearestRat_eq_infinity {x : ℚ} (h : 2 ^ (1024 : Int) ≤ x) :
    nearestRat x = infinityBits := by
  have hpos : 0 < x := lt_of_lt_of_le (by positivity) h
  have hlog : 1024 ≤ Int.log 2 x := (Int.zpow_le_iff_le_log Nat.one_lt_two hpos).1 h
  have hscale : scaleOf x = Int.log 2 x - 52 := by
    rw [scaleOf]
    omega
  have hround : 2 ^ 52 ≤ roundEven (x / 2 ^ scaleOf x) := by
    refine le_roundEven ?_
    rw [hscale, le_div_iff₀ (by positivity)]
    calc (((2 : ℕ) ^ 52 : ℕ) : ℚ) * 2 ^ (Int.log 2 x - 52) = 2 ^ Int.log 2 x := by
          rw [zpow_sub₀ two_ne_zero]
          field_simp
          norm_num
      _ ≤ x := Int.zpow_log_le_self Nat.one_lt_two hpos
  have hexponent : 2046 * 2 ^ 52 ≤ (scaleOf x + 1074).toNat * 2 ^ 52 :=
    Nat.mul_le_mul_right _ (by omega)
  rw [nearestRat, if_neg hpos.ne']
  refine Nat.min_eq_right ?_
  rw [infinityBits]
  omega

/-! ## Bit patterns -/

/-- The three fields make up the bits. -/
theorem packComponents_fields (b : BitVec 64) :
    UnpackedFloat.packComponents Format.binary64 (.ofBitVec (signField b)) (exponentField b)
      (mantissaField b) = b := by
  have hsign : ∀ v : BitVec 1, (UnpackedFloat.Sign.ofBitVec v).toBitVec = v := by decide
  have hM : b.toNat % 2 ^ 52 < 2 ^ 52 := Nat.mod_lt _ (by decide)
  have hE : b.toNat / 2 ^ 52 % 2048 < 2 ^ 11 := Nat.mod_lt _ (by decide)
  have hlt := b.isLt
  apply BitVec.eq_of_toNat_eq
  rw [UnpackedFloat.packComponents, hsign, BitVec.toNat_append, BitVec.toNat_append,
    toNat_signField, toNat_exponentField, toNat_mantissaField]
  show ((b.toNat / 2 ^ 63 % 2) <<< 11 ||| b.toNat / 2 ^ 52 % 2048) <<< 52 |||
    b.toNat % 2 ^ 52 = b.toNat
  rw [← Nat.shiftLeft_add_eq_or_of_lt hE, ← Nat.shiftLeft_add_eq_or_of_lt hM, Nat.shiftLeft_eq,
    Nat.shiftLeft_eq]
  omega

/-- Packing undoes unpacking. -/
theorem pack_unpack {b : BitVec 64} (hvalid : Format.binary64.Valid b) :
    UnpackedFloat.pack Format.binary64 (UnpackedFloat.unpack Format.binary64 b) = b := by
  have hbias : Format.exponentBias Format.binary64 = 1023 := rfl
  have hbits : Format.mantissaBits Format.binary64 = 53 := rfl
  have hM : (mantissaField b).toNat < 2 ^ 52 := (mantissaField b).isLt
  have hE : (exponentField b).toNat < 2 ^ 11 := (exponentField b).isLt
  have hfields := packComponents_fields b
  simp only [UnpackedFloat.unpack, hbias]
  split_ifs with hmax hinfinite hzero hmantissa
  · rw [show exponentField b = -1#11 from hmax, show mantissaField b = 0#52 from hinfinite]
      at hfields
    exact hfields
  · exact (hvalid.eq_packedNaN hmax hinfinite).symm
  · rw [show exponentField b = 0#11 from hzero, show mantissaField b = 0#52 from hmantissa]
      at hfields
    exact hfields
  · have hfull : ¬ (mantissaField b).toNat.log2 + 1 = 53 := by
      have hpos : (mantissaField b).toNat ≠ 0 := mt (mantissaField_eq_zero_iff b).2 hmantissa
      have hlog := (Nat.log2_lt hpos).2 hM
      omega
    rw [show exponentField b = 0#11 from hzero] at hfields
    simp only [hzero, UnpackedFloat.pack, hbias, hbits]
    rw [if_neg (by decide), if_neg hfull, BitVec.ofNat_toNat, BitVec.setWidth_eq]
    exact hfields
  · have hmax' : (exponentField b).toNat ≠ 2047 := mt (exponentField_eq_max_iff b).2 hmax
    have hbiased : (((exponentField b).toNat : Int) - ((1023 : Nat) + (52 : Nat)) + (1023 : Nat) +
        (52 : Nat)).toNat = (exponentField b).toNat := by omega
    have hfull : (1#1 ++ mantissaField b).toNat.log2 + 1 = 53 := by
      rw [toNat_one_append_mantissaField, Nat.log2_eq_log_two,
        Nat.log_eq_of_pow_le_of_lt_pow (m := 52) (by omega) (by omega)]
    have hlow : BitVec.ofNat 52 (1#1 ++ mantissaField b).toNat = mantissaField b := by
      apply BitVec.eq_of_toNat_eq
      rw [toNat_one_append_mantissaField, BitVec.toNat_ofNat]
      omega
    simp only [UnpackedFloat.pack, hbias, hbits]
    rw [hbiased, if_neg (by omega), if_pos hfull, hlow, BitVec.ofNat_toNat, BitVec.setWidth_eq]
    exact hfields

/-- A double is made of its bits. -/
theorem ofBits_toBits (x : Float) : Float.ofBits x.toBits = x := by
  have hbits : (Float.Model.ofBits x.toBits).toBits = x.toModel.toBits :=
    congrArg UInt64.ofBitVec (pack_unpack x.toModel.valid)
  have hmodel : ∀ a b : Float.Model, a.toBits = b.toBits → a = b := by
    rintro ⟨a, ha⟩ ⟨b, hb⟩ hab
    cases hab
    rfl
  exact congrArg Float.ofModel (hmodel _ _ hbits)

theorem ofSignedBits_eq {x : Float} {negative : Bool} {bits : Nat}
    (h : (if negative then bits + 2 ^ 63 else bits) = x.toBits.toNat) :
    ofSignedBits negative bits = x := by
  rw [ofSignedBits, Nat.pow_eq, h, UInt64.ofNat_toNat, ofBits_toBits]

/-- A sign above the other bits. -/
theorem ite_sign_eq {bits low : Nat} (hlt : bits < 2 ^ 64) (hlow : low = bits % 2 ^ 63) :
    (if decide (2 ^ 63 ≤ bits) then low + 2 ^ 63 else low) = bits := by
  by_cases hsign : 2 ^ 63 ≤ bits
  · rw [if_pos (decide_eq_true hsign)]
    omega
  · rw [if_neg (by simpa using hsign)]
    omega

/-! ## Doubles -/

/-- The parts of a finite double are canonical, and make up its bits. -/
theorem parts_finite {x : Float} {negative : Bool} {m : Nat} {q : Int}
    (h : parts x = .finite negative m q) :
    (m < 2 ^ 53 ∧ -1074 ≤ q ∧ (q = -1074 ∨ 2 ^ 52 ≤ m) ∧ q ≤ 971) ∧
      ofSignedBits negative ((q + 1074).toNat * 2 ^ 52 + m) = x := by
  have hlt : x.toBits.toNat < 2 ^ 64 := x.toBits.toNat_lt
  refine And.imp_right ofSignedBits_eq ?_
  simp only [parts, Nat.pow_eq] at h
  generalize x.toBits.toNat = bits at h hlt ⊢
  split_ifs at h with hmax hfraction hzero
  · cases h
    exact ⟨⟨by omega, by omega, Or.inl rfl, by omega⟩, ite_sign_eq hlt (by omega)⟩
  · cases h
    exact ⟨⟨by omega, by omega, by omega, by omega⟩, ite_sign_eq hlt (by omega)⟩

/-- A double is the nearest one to what it stands for. -/
theorem nearest_of_parts {x : Float} {negative : Bool} {m : Nat} {q : Int}
    (h : parts x = .finite negative m q) :
    ofSignedBits negative (nearestRat (m * 2 ^ q)) = x := by
  obtain ⟨⟨hm, hmin, hfull, hmax⟩, hx⟩ := parts_finite h
  rw [nearestRat_canonical hm hmin hfull hmax, hx]

theorem infinity_of_parts {x : Float} {negative : Bool} (h : parts x = .infinite negative) :
    infinity negative = x := by
  have hlt : x.toBits.toNat < 2 ^ 64 := x.toBits.toNat_lt
  refine ofSignedBits_eq ?_
  simp only [parts, Nat.pow_eq] at h
  generalize x.toBits.toNat = bits at h hlt ⊢
  split_ifs at h with hmax hfraction
  cases h
  refine ite_sign_eq hlt ?_
  rw [infinityBits]
  omega

/-- A double other than zero is determined by the rational number that it stands for. -/
theorem eq_nearest_of_exactValue {x : Float} {v : ℚ} (h : exactValue? x = some (.ofRat v))
    (hv : v ≠ 0) : x = ofSignedBits (v < 0) (nearestRat |v|) := by
  obtain ⟨negative, m, q, hparts, rfl⟩ := exists_parts h
  have hpow : (0 : ℚ) < 2 ^ q := by positivity
  have hnonneg : (0 : ℚ) ≤ m * 2 ^ q := by positivity
  rw [← nearest_of_parts hparts]
  cases negative with
  | false =>
    have hsign : ¬ (signed false m * 2 ^ q : ℚ) < 0 := not_lt.2 (by simpa [signed] using hnonneg)
    rw [decide_eq_false hsign, abs_of_nonneg (not_lt.1 hsign)]
    rfl
  | true =>
    have hvalue : (signed true m * 2 ^ q : ℚ) = -(m * 2 ^ q) := by simp [signed]
    have hsign : (signed true m * 2 ^ q : ℚ) < 0 := by
      refine lt_of_le_of_ne ?_ hv
      rw [hvalue]
      exact neg_nonpos.2 hnonneg
    rw [decide_eq_true hsign, abs_of_neg hsign, hvalue, neg_neg]

theorem eq_infinity_of_exactValue {x : Float} (negative : Bool)
    (h : exactValue? x = some (if negative then ⊥ else ⊤)) : x = infinity negative := by
  unfold exactValue? at h
  cases hparts : parts x with
  | notANumber =>
    rw [hparts] at h
    cases h
  | infinite other =>
    rw [hparts] at h
    have hsame : other = negative := by
      cases other <;> cases negative <;> first | rfl | cases h
    rw [← infinity_of_parts hparts, hsame]
  | finite other m q =>
    rw [hparts] at h
    cases negative <;> cases h

@[simp] theorem exactValue?_ofInfinity (negative : Bool) :
    exactValue? (infinity negative) = some (if negative then ⊥ else ⊤) := by
  have hparts : ∀ negative, parts (infinity negative) = .infinite negative := by decide +kernel
  rw [exactValue?, hparts]
  rfl

/-- Two doubles that stand for the same are the same, except that there are two zeros. -/
theorem eq_or_zero_of_exactValue {x y : Float} {v : Exact} (hx : exactValue? x = some v)
    (hy : exactValue? y = some v) : x = y ∨ v = .ofRat 0 := by
  rcases v with _ | _ | v
  · exact Or.inl
      ((eq_infinity_of_exactValue true hx).trans (eq_infinity_of_exactValue true hy).symm)
  · exact Or.inl
      ((eq_infinity_of_exactValue false hx).trans (eq_infinity_of_exactValue false hy).symm)
  · by_cases hv : v = 0
    · exact Or.inr (congrArg Exact.ofRat hv)
    · exact Or.inl ((eq_nearest_of_exactValue hx hv).trans (eq_nearest_of_exactValue hy hv).symm)

/-! ## Integral doubles -/

theorem signed_eq_mul_iff {negative : Bool} {num den : Nat} (hden : 0 < den) {n : Int} :
    signed negative num = n * den ↔ num % den = 0 ∧ signed negative (num / den) = n := by
  have hnat : ∀ k : Int, (num : Int) = k * den ↔ num % den = 0 ∧ ((num / den : Nat) : Int) = k := by
    intro k
    constructor
    · intro h
      have hk : 0 ≤ k := by
        by_contra hneg
        have hlt : k * den < 0 := Int.mul_neg_of_neg_of_pos (by omega) (by omega)
        omega
      lift k to ℕ using hk
      have hnum : num = k * den := by exact_mod_cast h
      rw [hnum, Nat.mul_mod_left, Nat.mul_div_cancel _ hden]
      exact ⟨rfl, rfl⟩
    · rintro ⟨hmod, rfl⟩
      exact_mod_cast (Nat.div_mul_cancel (Nat.dvd_of_mod_eq_zero hmod)).symm
  cases negative with
  | false => exact hnat n
  | true =>
    simp only [signed, if_true]
    rw [neg_eq_iff_eq_neg, ← Int.neg_mul, hnat, neg_eq_iff_eq_neg]

/-- The integer that a double is, if it is one, is what it stands for. -/
theorem toInt?_eq_some_iff {x : Float} {n : Int} :
    toInt? x = some n ↔ exactValue? x = some (.ofRat n) := by
  unfold toInt? exactValue?
  cases parts x with
  | notANumber => simp [Parts.exactValue?]
  | infinite negative => cases negative <;> simp [Parts.exactValue?, Exact.ofRat]
  | finite negative m q =>
    have hden := ratio_snd_pos m q
    have hden' : ((ratio m q).2 : ℚ) ≠ 0 := by exact_mod_cast hden.ne'
    have hvalue : (signed negative m * 2 ^ q : ℚ) = n ↔
        signed negative (ratio m q).1 = n * (ratio m q).2 := by
      rw [signed_mul_zpow, div_eq_iff hden']
      exact_mod_cast Iff.rfl
    simp only [Parts.exactValue?, Exact.ofRat, Option.some.injEq, WithBot.coe_inj,
      WithTop.coe_inj, hvalue, signed_eq_mul_iff hden]
    by_cases hmod : (ratio m q).1 % (ratio m q).2 = 0
    · rw [if_pos hmod, Option.some.injEq, and_iff_right hmod]
    · rw [if_neg hmod]
      simp [hmod]

theorem isNotANumber_iff {x : Float} : isNotANumber x = true ↔ parts x = .notANumber := by
  unfold isNotANumber
  cases parts x <;> simp

/-- Every double but what is not a number stands for something. -/
theorem exists_exactValue {x : Float} (hx : isNotANumber x = false) :
    ∃ u, exactValue? x = some u := by
  unfold exactValue?
  cases hparts : parts x with
  | notANumber =>
    rw [isNotANumber_iff.2 hparts] at hx
    cases hx
  | infinite negative => exact ⟨_, rfl⟩
  | finite negative m q => exact ⟨_, rfl⟩

end Arbor.Binary64
