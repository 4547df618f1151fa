import Arbor.Proofs.Binary64.Exact
import Arbor.Turtle.Geometry

/-!
# Products that do not overflow

Rounding a number to a double moves its exponent up by what its mantissa is too long, and by one
more if the mantissa is all ones. A product of a double and a factor that is well below one stays
below the largest double for that reason, and so an angle in radians is finite when it was finite
in degrees.

* `isInfinite_round`: what is rounded to a finite double.
* `isInfinite_radians`: no angle becomes infinite in radians.
-/

namespace Arbor.Binary64

open Float.Model (UnpackedFloat Format)

/-! ## Rounding -/

/-- Shifting a mantissa to the right divides it. -/
theorem mantissa_shiftRight (em : UnpackedFloat.ExtendedMantissa) (n : Nat) :
    (em >>> n).mantissa = em.mantissa / 2 ^ n := by
  show (n.repeat UnpackedFloat.ExtendedMantissa.shiftRightOne em).mantissa = _
  induction n with
  | zero => simp [Nat.repeat]
  | succ n ih =>
    show (n.repeat UnpackedFloat.ExtendedMantissa.shiftRightOne em).mantissa / 2 = _
    rw [ih, Nat.div_div_eq_div_mul, ← Nat.pow_succ]

theorem roundedMantissa_le (em : UnpackedFloat.ExtendedMantissa) :
    em.roundedMantissa ≤ em.mantissa + 1 := by
  obtain ⟨m, round, sticky⟩ := em
  have hmod := Nat.mod_lt m (Nat.two_pos)
  cases round <;> cases sticky <;>
    simp only [UnpackedFloat.ExtendedMantissa.roundedMantissa,
      UnpackedFloat.ExtendedMantissa.accuracy, UnpackedFloat.Accuracy.roundToNearestEven] <;>
    omega

/-- The exponent that a mantissa and an exponent are shifted to, for want of 53 bits. -/
theorem shiftToTargetExponent_snd (m : Nat) (e : Int) (accuracy : UnpackedFloat.Accuracy) :
    (UnpackedFloat.shiftToTargetExponent Format.binary64 m e accuracy).2 =
      max e (max ((m.log2 : Int) - 52 + e) (-1074)) := by
  have htarget : Format.binary64.targetExponent (Float.Model.totalExponent m e) =
      max ((m.log2 : Int) + 1 + e - 53) (-1074) := rfl
  simp only [UnpackedFloat.shiftToTargetExponent, UnpackedFloat.shiftToExponent, htarget]
  omega

/-- What is left of a mantissa has at most 53 bits. -/
theorem shiftToTargetExponent_fst_lt (m : Nat) (e : Int) :
    (UnpackedFloat.shiftToTargetExponent Format.binary64 m e .exact).1.mantissa < 2 ^ 53 := by
  have htarget : Format.binary64.targetExponent (Float.Model.totalExponent m e) =
      max ((m.log2 : Int) + 1 + e - 53) (-1074) := rfl
  simp only [UnpackedFloat.shiftToTargetExponent, UnpackedFloat.shiftToExponent, htarget,
    mantissa_shiftRight, UnpackedFloat.ExtendedMantissa.ofMantissaAndAccuracy]
  rw [Nat.div_lt_iff_lt_mul (Nat.two_pow_pos _), ← Nat.pow_add]
  refine Nat.lt_of_lt_of_le Nat.lt_log2_self (Nat.pow_le_pow_right Nat.two_pos ?_)
  omega

/-! ## Packing -/

theorem isInfinite_of_exponentField {x : Float} (h : exponentField x.toBits.toBitVec ≠ -1#11) :
    isInfinite x = false := by
  have hfield : x.toBits.toNat / Nat.pow 2 52 % 2048 ≠ 2047 := by
    rw [Ne, exponentField_eq_max_iff, toNat_exponentField] at h
    exact h
  simp only [isInfinite, parts, if_neg hfield]
  by_cases hzero : x.toBits.toNat / Nat.pow 2 52 % 2048 = 0
  · rw [if_pos hzero]
  · rw [if_neg hzero]

/-- A number whose exponent is not beyond that of the largest double is packed as a finite one. -/
theorem isInfinite_pack {s : UnpackedFloat.Sign} {m : Nat} {e : Int} {hm : 0 < m} (he : e ≤ 971) :
    isInfinite (.ofModel (.pack (.finite s m e hm))) = false := by
  refine isInfinite_of_exponentField ?_
  show exponentField (UnpackedFloat.pack Format.binary64 (.finite s m e hm)) ≠ -1#11
  have hbias : Format.exponentBias Format.binary64 = 1023 := rfl
  have hbiased : ¬ 2 ^ 11 ≤ (e + (1023 : Nat) + (52 : Nat)).toNat + 1 := by omega
  have hfield : BitVec.ofNat 11 (e + (1023 : Nat) + (52 : Nat)).toNat ≠ -1#11 := by
    intro heq
    have hmod : (e + (1023 : Nat) + (52 : Nat)).toNat % 2 ^ 11 = 2047 := congrArg BitVec.toNat heq
    omega
  simp only [UnpackedFloat.pack, hbias]
  rw [if_neg hbiased]
  split
  · rw [exponentField, UnpackedFloat.unpackExponent_packComponents]
    exact hfield
  · rw [exponentField, UnpackedFloat.unpackExponent_packComponents]
    decide

/-- A number below `2 ^ 1023` is rounded to a finite double. -/
theorem isInfinite_round {s : UnpackedFloat.Sign} {m : Nat} {e : Int} (he : e ≤ 970)
    (hm : (m.log2 : Int) + e ≤ 1022) :
    isInfinite (.ofModel (.pack (UnpackedFloat.roundWithAccuracy Format.binary64 s m e .exact))) =
      false := by
  have hexponent := shiftToTargetExponent_snd m e .exact
  have hmantissa := shiftToTargetExponent_fst_lt m e
  unfold UnpackedFloat.roundWithAccuracy
  generalize UnpackedFloat.shiftToTargetExponent Format.binary64 m e .exact = shifted
    at hexponent hmantissa
  obtain ⟨em, e'⟩ := shifted
  have hrounded : em.roundedMantissa ≤ 2 ^ 53 :=
    Nat.le_trans (roundedMantissa_le em) hmantissa
  have hlog : em.roundedMantissa.log2 ≤ 53 := by
    rw [Nat.log2_eq_log_two, ← Nat.log_pow Nat.one_lt_two 53]
    exact Nat.log_mono_right hrounded
  have hagain := shiftToTargetExponent_snd em.roundedMantissa e' .exact
  simp only at hexponent hagain ⊢
  split
  · cases s <;> rfl
  · exact isInfinite_pack (by omega)

/-! ## Angles -/

/-- No double has a larger exponent than the largest one. -/
theorem exponent_le {x : Float} {s : UnpackedFloat.Sign} {m : Nat} {e : Int} {hm : 0 < m}
    (h : x.toModel.unpack = .finite s m e hm) : e ≤ 971 := by
  have hlt := (exponentField x.toModel.toBits.toBitVec).isLt
  have hbias : Format.exponentBias Format.binary64 = 1023 := rfl
  simp only [Float.Model.unpack, UnpackedFloat.unpack, hbias] at h
  split_ifs at h with hmax hinfinite hzero hmantissa
  · cases h
    rw [hzero]
    decide
  · cases h
    rw [exponentField_eq_max_iff] at hmax
    show ((exponentField x.toModel.toBits.toBitVec).toNat : Int) - (1023 + 52) ≤ 971
    omega

theorem unpack_radiansPerDegree :
    radiansPerDegree.toModel.unpack = .finite .positive 5030569068109113 (-58) (by decide) := by
  have hbits : radiansPerDegree.toModel.toBits.toBitVec = 0x3f91df46a2529d39#64 := by
    decide +kernel
  rw [Float.Model.unpack, hbits]
  rfl

/-- An angle that is finite in degrees is finite in radians. -/
theorem isInfinite_radians {x : Float} (h : isInfinite x = false) :
    isInfinite (x * radiansPerDegree) = false := by
  obtain ⟨hparts, hcanonical⟩ := parts_eq_ofUnpacked x
  show isInfinite (.ofModel (.pack (UnpackedFloat.mul Format.binary64 x.toModel.unpack
    radiansPerDegree.toModel.unpack))) = false
  rw [unpack_radiansPerDegree]
  cases hx : x.toModel.unpack with
  | notANumber => rfl
  | infinity s =>
    rw [isInfinite, hparts, hx] at h
    cases h
  | zero s => cases s <;> rfl
  | finite s m e hm =>
    rw [hx] at hcanonical
    have hlt : m < 2 ^ 53 := hcanonical.1
    have he : e ≤ 971 := exponent_le hx
    have hlog : (m * 5030569068109113).log2 ≤ 105 := by
      rw [Nat.log2_eq_log_two, ← Nat.lt_succ_iff]
      exact Nat.log_lt_of_lt_pow (by omega) (by omega)
    exact isInfinite_round (by omega) (by omega)

/-- An angle that is infinite in degrees is infinite in radians. -/
theorem isInfinite_radians_of_isInfinite {x : Float} (h : isInfinite x = true) :
    isInfinite (x * radiansPerDegree) = true := by
  obtain ⟨hparts, -⟩ := parts_eq_ofUnpacked x
  rw [isInfinite, hparts] at h
  show isInfinite (.ofModel (.pack (UnpackedFloat.mul Format.binary64 x.toModel.unpack
    radiansPerDegree.toModel.unpack))) = true
  rw [unpack_radiansPerDegree]
  cases hx : x.toModel.unpack with
  | infinity s => cases s <;> rfl
  | _ =>
    rw [hx] at h
    cases h

end Arbor.Binary64
