import Mathlib
import Arbor.Binary64.Order

/-!
# Comparing doubles exactly

A double that is a number stands for a rational number or for an infinity. Comparing two doubles
compares what they stand for, and so does comparing an integer with a double: nothing is rounded,
and zeros of either sign stand for the same number.

The comparison of doubles looks at exponents before it looks at mantissas. This agrees with the
order of the rationals because a mantissa is below `2 ^ 53`, and at least `2 ^ 52` unless the
exponent is the least one (`Canonical`).
-/

namespace Arbor.Binary64

open Float.Model (UnpackedFloat Format)

/-- What a number can stand for: a rational number or an infinity. -/
abbrev Exact := WithBot (WithTop ℚ)

def Exact.ofRat (x : ℚ) : Exact := ((x : WithTop ℚ) : WithBot (WithTop ℚ))

theorem Exact.ofRat_inj {x y : ℚ} : Exact.ofRat x = Exact.ofRat y ↔ x = y := by
  rw [Exact.ofRat, Exact.ofRat, WithBot.coe_inj, WithTop.coe_inj]

def Parts.exactValue? : Parts → Option Exact
  | .notANumber => none
  | .infinite negative => some (if negative then ⊥ else ⊤)
  | .finite negative m q => some (.ofRat (signed negative m * 2 ^ q))

/-- What a double stands for. -/
def exactValue? (x : Float) : Option Exact := (parts x).exactValue?

/-- The double stands for a rational number. -/
def Finite (x : Float) : Prop := ∃ v, exactValue? x = some (.ofRat v)

theorem finite_of_parts {x : Float} {negative : Bool} {m : Nat} {q : Int}
    (h : parts x = .finite negative m q) : Finite x :=
  ⟨_, congrArg Parts.exactValue? h⟩

/-- A double that stands for a rational number has a mantissa and an exponent. -/
theorem exists_parts {x : Float} {v : ℚ} (h : exactValue? x = some (.ofRat v)) :
    ∃ negative m q, parts x = .finite negative m q ∧ (signed negative m * 2 ^ q : ℚ) = v := by
  unfold exactValue? at h
  cases hparts : parts x with
  | notANumber =>
    rw [hparts] at h
    cases h
  | infinite negative =>
    rw [hparts] at h
    cases negative <;> cases h
  | finite negative m q =>
    rw [hparts] at h
    exact ⟨negative, m, q, rfl, Exact.ofRat_inj.1 (Option.some.inj h)⟩

/-! ## The parts of an unpacked double -/

def isMinus : UnpackedFloat.Sign → Bool
  | .negative => true
  | .positive => false

def Parts.ofUnpacked : UnpackedFloat → Parts
  | .notANumber => .notANumber
  | .infinity s => .infinite (isMinus s)
  | .zero s => .finite (isMinus s) 0 (-1074)
  | .finite s m e _ => .finite (isMinus s) m e

/-- Mantissas fill 53 bits, except those with the least exponent. -/
def Canonical : UnpackedFloat → Prop
  | .finite _ m e _ => m < 2 ^ 53 ∧ -1074 ≤ e ∧ (e = -1074 ∨ 2 ^ 52 ≤ m)
  | _ => True

section Fields

variable (b : BitVec 64)

abbrev exponentField : BitVec 11 := @UnpackedFloat.unpackExponent Format.binary64 b

abbrev mantissaField : BitVec 52 := @UnpackedFloat.unpackMantissa Format.binary64 b

abbrev signField : BitVec 1 := @UnpackedFloat.unpackSign Format.binary64 b

theorem toNat_exponentField : (exponentField b).toNat = b.toNat / 2 ^ 52 % 2048 := by
  simp [UnpackedFloat.unpackExponent, Nat.shiftRight_eq_div_pow]

theorem toNat_mantissaField : (mantissaField b).toNat = b.toNat % 2 ^ 52 := by
  simp [UnpackedFloat.unpackMantissa]

theorem toNat_signField : (signField b).toNat = b.toNat / 2 ^ 63 % 2 := by
  simp [UnpackedFloat.unpackSign, Nat.shiftRight_eq_div_pow]

theorem exponentField_eq_max_iff : exponentField b = -1#11 ↔ (exponentField b).toNat = 2047 := by
  rw [← BitVec.toNat_inj]
  rfl

theorem exponentField_eq_zero_iff : exponentField b = 0#11 ↔ (exponentField b).toNat = 0 := by
  rw [← BitVec.toNat_inj]
  rfl

theorem mantissaField_eq_zero_iff : mantissaField b = 0#52 ↔ (mantissaField b).toNat = 0 := by
  rw [← BitVec.toNat_inj]
  rfl

theorem signField_eq_zero_iff : signField b = 0#1 ↔ ¬ 2 ^ 63 ≤ b.toNat := by
  have hlt := b.isLt
  rw [← BitVec.toNat_inj, toNat_signField, BitVec.toNat_zero]
  omega

/-- A leading one adds `2 ^ 52` to the mantissa. -/
theorem toNat_one_append_mantissaField :
    (1#1 ++ mantissaField b).toNat = (mantissaField b).toNat + 2 ^ 52 := by
  have hlt : (mantissaField b).toNat < 2 ^ 52 := (mantissaField b).isLt
  rw [BitVec.toNat_append, Nat.shiftLeft_eq, Nat.mul_comm, ← Nat.two_pow_add_eq_or_of_lt hlt]
  simp
  omega

theorem isMinus_signField : isMinus (.ofBitVec (signField b)) = decide (2 ^ 63 ≤ b.toNat) := by
  unfold UnpackedFloat.Sign.ofBitVec
  by_cases hb : 2 ^ 63 ≤ b.toNat
  · rw [if_neg (fun h => (signField_eq_zero_iff b).1 h hb), decide_eq_true hb]
    rfl
  · rw [if_pos ((signField_eq_zero_iff b).2 hb), decide_eq_false hb]
    rfl

end Fields

/-- Reading the parts off the bits and unpacking them comes to the same, and what is unpacked is
canonical. -/
theorem parts_eq_ofUnpacked (x : Float) :
    parts x = .ofUnpacked x.toModel.unpack ∧ Canonical x.toModel.unpack := by
  have hbits : x.toBits.toNat = x.toModel.toBits.toBitVec.toNat := rfl
  have hbias : Format.exponentBias Format.binary64 = 1023 := rfl
  unfold parts Float.Model.unpack UnpackedFloat.unpack
  generalize x.toModel.toBits.toBitVec = b at hbits ⊢
  have hlt : (mantissaField b).toNat < 2 ^ 52 := (mantissaField b).isLt
  simp only [hbits, Nat.pow_eq, ← toNat_exponentField, ← toNat_mantissaField, ← isMinus_signField,
    exponentField_eq_max_iff, exponentField_eq_zero_iff, mantissaField_eq_zero_iff]
  -- the branches of the two readings are the same: all ones, all zeros, anything else
  split
  · split <;> exact ⟨rfl, trivial⟩
  · split
    · split
      · rename_i hM
        exact ⟨by rw [hM]; rfl, trivial⟩
      · rename_i hE hM
        have he : ((exponentField b).toNat : Int) - ((1023 : Nat) + (52 : Nat)) + 1 = -1074 := by
          rw [hE]
          rfl
        simp only [Parts.ofUnpacked, Canonical, hbias, he]
        exact ⟨trivial, by omega, le_rfl, Or.inl trivial⟩
    · rename_i hE _
      simp only [Parts.ofUnpacked, Canonical, hbias, toNat_one_append_mantissaField]
      refine ⟨rfl, by omega, ?_, Or.inr (by omega)⟩
      show -1074 ≤ ((exponentField b).toNat : Int) - (1023 + 52)
      omega

/-! ## Order -/

/-- A larger exponent makes a larger number, whatever the mantissas are. -/
theorem scaled_lt {m₁ m₂ : Nat} {e₁ e₂ : Int} (h₁ : m₁ < 2 ^ 53) (h₂ : 2 ^ 52 ≤ m₂)
    (he : e₁ < e₂) : (m₁ : ℚ) * 2 ^ e₁ < m₂ * 2 ^ e₂ := by
  have hpow : (2 : ℚ) ^ (e₁ + 1) ≤ 2 ^ e₂ := zpow_le_zpow_right₀ (by norm_num) (by omega)
  have hm₁ : (m₁ : ℚ) < 2 ^ 53 := by exact_mod_cast h₁
  have hm₂ : (2 : ℚ) ^ 52 ≤ m₂ := by exact_mod_cast h₂
  calc (m₁ : ℚ) * 2 ^ e₁ < 2 ^ 53 * 2 ^ e₁ := by gcongr
    _ = 2 ^ 52 * 2 ^ (e₁ + 1) := by rw [zpow_add_one₀ (by norm_num)]; ring
    _ ≤ m₂ * 2 ^ e₂ := by gcongr

/-- Among canonical mantissas and exponents, the exponent decides and then the mantissa. -/
theorem compare_scaled {m₁ m₂ : Nat} {e₁ e₂ : Int} (h₁ : m₁ < 2 ^ 53) (h₂ : m₂ < 2 ^ 53)
    (hmin₁ : -1074 ≤ e₁) (hmin₂ : -1074 ≤ e₂) (hfull₁ : e₁ = -1074 ∨ 2 ^ 52 ≤ m₁)
    (hfull₂ : e₂ = -1074 ∨ 2 ^ 52 ≤ m₂) :
    (compare e₁ e₂).then (compare m₁ m₂) = cmp ((m₁ : ℚ) * 2 ^ e₁) (m₂ * 2 ^ e₂) := by
  rcases lt_trichotomy e₁ e₂ with he | rfl | he
  · have hlt := scaled_lt h₁ (hfull₂.resolve_left (by omega)) he
    rw [compare_lt_iff_lt.2 he, (cmp_eq_lt_iff _ _).2 hlt]
    rfl
  · have hpow : (0 : ℚ) < 2 ^ e₁ := by positivity
    rw [compare_eq_iff_eq.2 rfl, cmp_mul_pos_right hpow, Nat.strictMono_cast.cmp_map_eq]
    exact (cmp_eq_compare m₁ m₂).symm
  · have hlt := scaled_lt h₂ (hfull₁.resolve_left (by omega)) he
    rw [compare_gt_iff_gt.2 he, (cmp_eq_gt_iff _ _).2 hlt]
    rfl

section Cmp

variable (x y : ℚ)

@[simp] theorem Exact.cmp_bot_ofRat : cmp ⊥ (Exact.ofRat x) = .lt :=
  (cmp_eq_lt_iff _ _).2 (WithBot.bot_lt_coe _)

@[simp] theorem Exact.cmp_ofRat_bot : cmp (Exact.ofRat x) ⊥ = .gt :=
  (cmp_eq_gt_iff _ _).2 (WithBot.bot_lt_coe _)

@[simp] theorem Exact.cmp_ofRat_top : cmp (Exact.ofRat x) ⊤ = .lt :=
  (cmp_eq_lt_iff _ _).2 (WithBot.coe_lt_coe.2 (WithTop.coe_lt_top x))

@[simp] theorem Exact.cmp_top_ofRat : cmp ⊤ (Exact.ofRat x) = .gt :=
  (cmp_eq_gt_iff _ _).2 (WithBot.coe_lt_coe.2 (WithTop.coe_lt_top x))

@[simp] theorem Exact.cmp_bot_top : cmp (⊥ : Exact) ⊤ = .lt := (cmp_eq_lt_iff _ _).2 bot_lt_top

@[simp] theorem Exact.cmp_top_bot : cmp (⊤ : Exact) ⊥ = .gt := (cmp_eq_gt_iff _ _).2 bot_lt_top

@[simp] theorem Exact.cmp_ofRat : cmp (Exact.ofRat x) (Exact.ofRat y) = cmp x y := by
  simp only [cmp, cmpUsing, Exact.ofRat, WithBot.coe_lt_coe, WithTop.coe_lt_coe]

end Cmp

section Unpacked

variable (s : UnpackedFloat.Sign) (m : Nat) (e : Int) (hm : 0 < m)

@[simp] theorem exactValue?_infinity :
    (Parts.ofUnpacked (.infinity s)).exactValue? = some (if isMinus s then ⊥ else ⊤) := by
  cases s <;> simp [Parts.ofUnpacked, Parts.exactValue?, isMinus]

@[simp] theorem exactValue?_zero : (Parts.ofUnpacked (.zero s)).exactValue? = some (.ofRat 0) := by
  cases s <;> simp [Parts.ofUnpacked, Parts.exactValue?, isMinus, signed]

@[simp] theorem exactValue?_finite : (Parts.ofUnpacked (.finite s m e hm)).exactValue? =
    some (.ofRat (if isMinus s then -(m * 2 ^ e) else m * 2 ^ e)) := by
  cases s <;> simp [Parts.ofUnpacked, Parts.exactValue?, isMinus, signed]

end Unpacked

/-- Doubles of one sign are compared by their magnitudes, others by their signs. -/
theorem compare_finite {s₁ s₂ : UnpackedFloat.Sign} {m₁ m₂ : Nat} {e₁ e₂ : Int} (h₁ : 0 < m₁)
    (h₂ : 0 < m₂) (hc₁ : Canonical (.finite s₁ m₁ e₁ h₁)) (hc₂ : Canonical (.finite s₂ m₂ e₂ h₂)) :
    UnpackedFloat.compare (.finite s₁ m₁ e₁ h₁) (.finite s₂ m₂ e₂ h₂) =
      some (cmp (if isMinus s₁ then -((m₁ : ℚ) * 2 ^ e₁) else m₁ * 2 ^ e₁)
        (if isMinus s₂ then -((m₂ : ℚ) * 2 ^ e₂) else m₂ * 2 ^ e₂)) := by
  obtain ⟨hlt₁, hmin₁, hfull₁⟩ := hc₁
  obtain ⟨hlt₂, hmin₂, hfull₂⟩ := hc₂
  have hmag := compare_scaled hlt₁ hlt₂ hmin₁ hmin₂ hfull₁ hfull₂
  have hpos₁ : (0 : ℚ) < m₁ * 2 ^ e₁ := by positivity
  have hpos₂ : (0 : ℚ) < m₂ * 2 ^ e₂ := by positivity
  cases s₁ <;> cases s₂ <;>
    simp only [UnpackedFloat.compare, isMinus, if_true, Bool.false_eq_true, if_false, hmag,
      Option.some.injEq]
  · have hanti : StrictAnti fun x : ℚ => -x := fun _ _ h => neg_lt_neg h
    rw [cmp_swap]
    exact (hanti.cmp_map_eq _ _).symm
  · exact ((cmp_eq_lt_iff _ _).2 (by linarith)).symm
  · exact ((cmp_eq_gt_iff _ _).2 (by linarith)).symm

/-- Comparing two unpacked doubles compares what they stand for. -/
theorem compare_unpacked {u v : UnpackedFloat} (hu : Canonical u) (hv : Canonical v) :
    u.compare v = (Parts.ofUnpacked u).exactValue?.bind fun a =>
      (Parts.ofUnpacked v).exactValue?.map (cmp a) := by
  cases u with
  | notANumber => rfl
  | infinity s =>
    cases v with
    | notANumber => cases s <;> rfl
    | infinity s' =>
      cases s <;> cases s' <;> simp [UnpackedFloat.compare, isMinus] <;> rfl
    | zero s' => cases s <;> simp [UnpackedFloat.compare, isMinus]
    | finite s' m e hm =>
      cases s <;> simp [UnpackedFloat.compare, isMinus]
  | zero s =>
    cases v with
    | notANumber => rfl
    | infinity s' =>
      cases s' <;> simp [UnpackedFloat.compare, isMinus]
    | zero s' => simp [UnpackedFloat.compare]
    | finite s' m e hm =>
      have hpos : (0 : ℚ) < m * 2 ^ e := by positivity
      have hgt : cmp (0 : ℚ) (-(m * 2 ^ e)) = .gt := (cmp_eq_gt_iff _ _).2 (by linarith)
      have hlt : cmp (0 : ℚ) (m * 2 ^ e) = .lt := (cmp_eq_lt_iff _ _).2 hpos
      cases s' <;> simp [UnpackedFloat.compare, isMinus, hgt, hlt]
  | finite s m e hm =>
    cases v with
    | notANumber => cases s <;> rfl
    | infinity s' =>
      cases s' <;> simp [UnpackedFloat.compare, isMinus]
    | zero s' =>
      have hpos : (0 : ℚ) < m * 2 ^ e := by positivity
      have hlt : cmp (-((m : ℚ) * 2 ^ e)) 0 = .lt := (cmp_eq_lt_iff _ _).2 (by linarith)
      have hgt : cmp ((m : ℚ) * 2 ^ e) 0 = .gt := (cmp_eq_gt_iff _ _).2 hpos
      cases s <;> simp [UnpackedFloat.compare, isMinus, hlt, hgt]
    | finite s' m' e' hm' =>
      rw [compare_finite hm hm' hu hv, exactValue?_finite, exactValue?_finite]
      simp

theorem lt_iff_compare (x y : Float) :
    x < y ↔ x.toModel.unpack.compare y.toModel.unpack = some .lt := by
  show decide (x.toModel < y.toModel) = true ↔ _
  rw [decide_eq_true_iff]
  exact beq_iff_eq

theorem le_iff_compare (x y : Float) :
    x ≤ y ↔ (x.toModel.unpack.compare y.toModel.unpack).any (·.isLE) = true := by
  show decide (x.toModel ≤ y.toModel) = true ↔ _
  rw [decide_eq_true_iff]
  rfl

theorem beq_iff_compare (x y : Float) :
    (x == y) = true ↔ x.toModel.unpack.compare y.toModel.unpack = some .eq := by
  show (x.toModel.unpack.compare y.toModel.unpack == some .eq) = true ↔ _
  exact beq_iff_eq

/-- Two doubles are equal exactly if they stand for the same. -/
theorem beq_iff (x y : Float) :
    (x == y) = true ↔ ∃ v, exactValue? x = some v ∧ exactValue? y = some v := by
  obtain ⟨hx, hcx⟩ := parts_eq_ofUnpacked x
  obtain ⟨hy, hcy⟩ := parts_eq_ofUnpacked y
  have hxy := compare_unpacked hcx hcy
  rw [← hx, ← hy] at hxy
  rw [beq_iff_compare, hxy]
  unfold exactValue?
  cases (parts x).exactValue? with
  | none => simp
  | some a =>
    cases (parts y).exactValue? with
    | none => simp
    | some b => simp [eq_comm (a := b)]

/-- A double is below another one exactly if what it stands for is. -/
theorem lt_iff (x y : Float) :
    x < y ↔ ∃ a, exactValue? x = some a ∧ ∃ b, exactValue? y = some b ∧ a < b := by
  obtain ⟨hx, hcx⟩ := parts_eq_ofUnpacked x
  obtain ⟨hy, hcy⟩ := parts_eq_ofUnpacked y
  have hxy := compare_unpacked hcx hcy
  rw [← hx, ← hy] at hxy
  rw [lt_iff_compare, hxy]
  unfold exactValue?
  cases (parts x).exactValue? with
  | none => simp
  | some a => cases (parts y).exactValue? <;> simp

/-- A double is at most another one exactly if what it stands for is. -/
theorem le_iff (x y : Float) :
    x ≤ y ↔ ∃ a, exactValue? x = some a ∧ ∃ b, exactValue? y = some b ∧ a ≤ b := by
  obtain ⟨hx, hcx⟩ := parts_eq_ofUnpacked x
  obtain ⟨hy, hcy⟩ := parts_eq_ofUnpacked y
  have hxy := compare_unpacked hcx hcy
  rw [← hx, ← hy] at hxy
  rw [le_iff_compare, hxy]
  unfold exactValue?
  cases (parts x).exactValue? with
  | none => simp
  | some a =>
    cases (parts y).exactValue? with
    | none => simp
    | some b =>
      have hle : (cmp a b).isLE = true ↔ a ≤ b := by
        rw [Ordering.isLE_iff_ne_gt, ← not_lt]
        exact not_congr (cmp_eq_gt_iff a b)
      simpa using hle

theorem exactValue?_zeroFloat : exactValue? 0.0 = some (.ofRat 0) := by
  have hparts : parts 0.0 = .finite false 0 (-1074) := by decide +kernel
  simp [exactValue?, hparts, Parts.exactValue?, signed]

/-- **Comparing two doubles compares what they stand for.** -/
theorem compare?_eq (x y : Float) :
    compare? x y = (exactValue? x).bind fun a => (exactValue? y).map (cmp a) := by
  obtain ⟨hx, hcx⟩ := parts_eq_ofUnpacked x
  obtain ⟨hy, hcy⟩ := parts_eq_ofUnpacked y
  have hxy := compare_unpacked hcx hcy
  have hyx := compare_unpacked hcy hcx
  rw [← hx, ← hy] at hxy hyx
  simp only [compare?, lt_iff_compare, beq_iff_compare, hxy, hyx]
  unfold exactValue?
  cases hX : (parts x).exactValue? with
  | none => simp
  | some a =>
    cases hY : (parts y).exactValue? with
    | none => simp
    | some b =>
      have hswap := cmp_swap b a
      cases h : cmp b a <;> rw [h] at hswap <;> simp [h, ← hswap]

/-- A finite double is the quotient of its two natural numbers, with its sign. -/
theorem signed_mul_zpow (negative : Bool) (m : Nat) (q : Int) :
    (signed negative m * 2 ^ q : ℚ) = signed negative (ratio m q).1 / (ratio m q).2 := by
  have habs : (m * 2 ^ q : ℚ) = (ratio m q).1 / (ratio m q).2 := by
    unfold ratio
    split
    · rename_i hq
      lift q to ℕ using hq
      simp
    · rename_i hq
      obtain ⟨k, hk⟩ := Int.eq_ofNat_of_zero_le (show 0 ≤ -q by omega)
      obtain rfl : q = -(k : ℤ) := by omega
      simp [div_eq_mul_inv]
  cases negative
  · simpa [signed] using habs
  · simp only [signed, if_true, Int.cast_neg, Int.cast_natCast, neg_mul, habs, neg_div]

/-- Comparing an integer with a double compares it with what the double stands for. -/
theorem compareInt?_eq (n : Int) (x : Float) :
    compareInt? n x = (exactValue? x).map (cmp (Exact.ofRat n)) := by
  unfold compareInt? exactValue?
  cases parts x with
  | notANumber => rfl
  | infinite negative => cases negative <;> simp [Parts.exactValue?]
  | finite negative m q =>
    have hden : (0 : ℚ) < (ratio m q).2 := by exact_mod_cast ratio_snd_pos m q
    have hcast : StrictMono ((↑) : ℤ → ℚ) := Int.cast_strictMono
    simp only [Parts.exactValue?, Option.map_some, Exact.cmp_ofRat, signed_mul_zpow]
    rw [← cmp_eq_compare, ← hcast.cmp_map_eq, ← cmp_mul_pos_right hden (n : ℚ),
      div_mul_cancel₀ _ hden.ne']
    push_cast
    rfl

end Arbor.Binary64
