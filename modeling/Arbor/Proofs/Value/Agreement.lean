import Arbor.Proofs.Fault.Outcome
import Arbor.Proofs.Value.Comparison
import Arbor.Proofs.Word.RoundTrip
import Arbor.Value.Operation

/-!
# Values that agree

Equal numbers can be of different kinds: `4` and `4.0` are. Two words agree if they have the same
tags and, place by place, equal numbers as parameters. This relation is kept by all that looks at
numbers only by comparing them; arithmetic does not keep it, since it rounds one kind and not the
other.

What is not a number is equal to nothing. Where such values are let in, each agrees with itself.

* `ComparisonOp.apply_agree`: comparisons of values that agree.
* `Word.Agree.same`: words of numbers that agree are the same.
-/

namespace Arbor

/-- A comparison sees what numbers stand for and nothing else. -/
theorem ComparisonOp.onNumbers_congr (op : ComparisonOp) {x x' y y' : Number}
    (hx : x.exactValue? = x'.exactValue?) (hy : y.exactValue? = y'.exactValue?) :
    op.onNumbers x y = op.onNumbers x' y' := by
  cases op <;>
    simp only [onNumbers, Number.less, Number.atMost, Number.same, Number.compare?_eq, hx, hy]

/-- Two values agree if they are equal numbers or, where `others` are let in, one and the same
value. -/
inductive Value.Agree (others : Prop) : Value → Value → Prop
  | equal {x y : Number} : x.same y = true → Agree others (.number x) (.number y)
  | other (v : Value) : others → Agree others v v

/-- Two symbols agree if they have the same tag and parameters that agree, place by place. -/
def Symbol.Agree (others : Prop) (s s' : Symbol) : Prop :=
  s.tag = s'.tag ∧ List.Forall₂ (Value.Agree others) s.params s'.params

/-- Two words agree if their symbols do, place by place. -/
def Word.Agree (others : Prop) : Word → Word → Prop := List.Forall₂ (Symbol.Agree others)

/-- A value that is a number, and as such equal to itself. -/
def Value.Real (v : Value) : Prop := ∃ x : Number, v = .number x ∧ x.same x = true

/-- A word all of whose parameters are numbers. -/
def Word.Real (w : Word) : Prop := ∀ s ∈ w, ∀ v ∈ s.params, v.Real

variable {others : Prop}

/-! ## Values -/

namespace Value

variable {v v' : Value}

theorem agree_truth (b : Bool) : Agree others (.number (.truth b)) (.number (.truth b)) :=
  .equal ((Number.same_iff _ _).2 ⟨_, rfl, rfl⟩)

theorem Real.agree (h : v.Real) : v.Agree others v := by
  obtain ⟨x, rfl, hx⟩ := h
  exact .equal hx

/-- A value that can be written, and is not what is not a number, is a number. -/
theorem Writable.real (h : v.Writable) (hnan : v.isNaN = false) : v.Real := by
  cases h with
  | int => exact ⟨_, rfl, (Number.same_iff _ _).2 ⟨_, rfl, rfl⟩⟩
  | float x =>
    obtain ⟨u, hu⟩ := Binary64.exists_exactValue hnan
    exact ⟨_, rfl, (Number.same_iff _ _).2 ⟨u, hu, hu⟩⟩
  | notANumber origin => cases hnan

theorem Agree.same (h : v.Agree False v') : v.same v' = true := by
  cases h with
  | equal h => exact h
  | other v h => exact h.elim

theorem Agree.isTrue_eq (h : v.Agree others v') : v.isTrue = v'.isTrue := by
  cases h with
  | equal h => exact Number.isTrue_eq_of_same h
  | other v => rfl

theorem Agree.nextGeneration_eq (h : v.Agree others v') :
    v.nextGeneration = v'.nextGeneration := by
  cases h <;> rfl

/-- A number is equal to values that agree, or to none of them. -/
theorem Agree.same_number_eq (h : v.Agree others v') (x : Number) :
    (Value.number x).same v = (Value.number x).same v' := by
  cases h with
  | @equal y y' h =>
    rw [Value.same, Value.same, Bool.eq_iff_iff, Number.same_iff, Number.same_iff,
      Number.exactValue?_eq_of_same h]
  | other v => rfl

/-- A number that is equal to something takes no note of where it was made. -/
theorem madeAt_of_same {x y : Number} (h : x.same y = true) (origin : Origin) :
    (Value.number x).madeAt origin = .number x := by
  cases x with
  | float x =>
    have hx : Binary64.isNotANumber x = false := by
      by_contra hnan
      obtain ⟨v, hv, -⟩ := (Number.same_iff _ _).1 h
      have hparts := Binary64.isNotANumber_iff.1 (eq_true_of_ne_false hnan)
      rw [Number.exactValue?, Binary64.exactValue?, hparts] at hv
      cases hv
    rw [madeAt, hx]
    rfl
  | _ => rfl

theorem Agree.madeAt (h : v.Agree others v') (origin : Origin) :
    (v.madeAt origin).Agree others (v'.madeAt origin) := by
  cases h with
  | equal h =>
    rw [madeAt_of_same h, madeAt_of_same (Number.same_comm _ _ ▸ h)]
    exact .equal h
  | other v hothers => exact .other _ hothers

end Value

/-- **Comparisons do not tell values apart that agree.** -/
theorem ComparisonOp.apply_agree (op : ComparisonOp) {v v' w w' : Value} (hv : v.Agree others v')
    (hw : w.Agree others w') : Together Eq (op.apply v w) (op.apply v' w') := by
  cases hv with
  | equal hx =>
    have hx := Number.exactValue?_eq_of_same hx
    cases hw with
    | equal hy => exact .ok (op.onNumbers_congr hx (Number.exactValue?_eq_of_same hy))
    | other w =>
      unfold apply
      cases w.plain with
      | number y => exact .ok (op.onNumbers_congr hx rfl)
      | _ => cases op <;> first | exact .ok rfl | exact .error _ _
  | other v =>
    cases hw with
    | equal hy =>
      unfold apply
      cases v.plain with
      | number x => exact .ok (op.onNumbers_congr rfl (Number.exactValue?_eq_of_same hy))
      | _ => cases op <;> first | exact .ok rfl | exact .error _ _
    | other w => exact .refl _

/-! ## Symbols and words -/

theorem Value.sameLists_of_agree {vs vs' : List Value}
    (h : List.Forall₂ (Value.Agree False) vs vs') : Value.sameLists vs vs' = true := by
  induction h with
  | nil => rfl
  | cons hv _ ih => rw [Value.sameLists, hv.same, ih, Bool.and_self]

/-- Numbers that are the same, place by place, agree. -/
theorem Value.agree_of_sameLists {vs vs' : List Value} (hvs : ∀ v ∈ vs, v.Real)
    (hsame : Value.sameLists vs vs' = true) : List.Forall₂ (Value.Agree others) vs vs' := by
  induction vs generalizing vs' with
  | nil =>
    cases vs' with
    | nil => exact .nil
    | cons v' vs' => cases hsame
  | cons v vs ih =>
    obtain ⟨⟨x, rfl, -⟩, hmore⟩ := List.forall_mem_cons.1 hvs
    cases vs' with
    | nil => cases hsame
    | cons v' vs' =>
      rw [Value.sameLists, Bool.and_eq_true] at hsame
      obtain ⟨hv, hrest⟩ := hsame
      cases v' with
      | number y => exact .cons (.equal hv) (ih hmore hrest)
      | _ => cases hv

theorem Symbol.Agree.same {s s' : Symbol} (h : s.Agree False s') : s.same s' = true := by
  rw [Symbol.same, h.1, Value.sameLists_of_agree h.2, beq_self_eq_true, Bool.and_self]

theorem Symbol.Agree.nextGeneration_eq {s s' : Symbol} (h : s.Agree others s') :
    s.nextGeneration = s'.nextGeneration :=
  List.rel_foldl (fun _ _ hn _ _ hv => by rw [hn, hv.nextGeneration_eq]) rfl h.2

namespace Word

variable {w w' : Word}

/-- Words of numbers that agree are the same. -/
theorem Agree.same (h : Agree False w w') : Word.same w w' = true :=
  same_iff_forall₂.2 (h.imp fun _ _ hs => hs.same)

/-- Words of numbers that are the same agree. -/
theorem Real.agree_of_same (hw : Real w) (h : Word.same w w' = true) : Agree others w w' := by
  rw [same_iff_forall₂] at h
  induction h with
  | nil => exact .nil
  | cons hs _ ih =>
    obtain ⟨hparams, hw⟩ := List.forall_mem_cons.1 hw
    rw [Symbol.same, Bool.and_eq_true, beq_iff_eq] at hs
    exact .cons ⟨hs.1, Value.agree_of_sameLists hparams hs.2⟩ (ih hw)

theorem Agree.nextGeneration_eq (h : Agree others w w') :
    nextGeneration w = nextGeneration w' :=
  List.rel_foldl (fun _ _ hn _ _ hs => by rw [hn, hs.nextGeneration_eq]) rfl h

theorem Agree.madeBy (h : Agree others w w') (source : Source) :
    Agree others (madeBy source w) (madeBy source w') := by
  refine List.forall₂_iff_get.2 ⟨by simp [Word.madeBy, h.length_eq], fun i hi hi' => ?_⟩
  rw [Word.madeBy, List.length_mapIdx] at hi hi'
  obtain ⟨htag, hparams⟩ := h.get hi hi'
  simp only [Word.madeBy, List.get_eq_getElem, List.getElem_mapIdx, Symbol.madeBy]
  refine ⟨htag, List.forall₂_iff_get.2 ⟨by simpa using hparams.length_eq, fun j hj hj' => ?_⟩⟩
  rw [List.length_mapIdx] at hj hj'
  simpa using (hparams.get hj hj').madeAt ⟨source, i, j⟩

end Word

end Arbor
