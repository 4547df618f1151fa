import Arbor.Proofs.Number.Exact
import Arbor.Proofs.Plan.Outcome

/-!
# Kinds of values and fields

Each field of a plan asks for a value of a certain kind, and what is read of it is what the value
means: a text means itself, and an integer that stands where a double is asked for means the double
it is rounded to. A truth value is not a number. A field that is left out has a default, and some
fields may be null, which is to leave them out.

Bounds are put on what a double stands for, so that not a number is in none of them.

* `Plan.decides_readFloat`, …: what is read of single values.
* `Plan.decides_field`, `Plan.decides_optional`: what is read of fields.
-/

namespace Arbor

/-! ## Bounds -/

namespace Binary64

/-- A double stands for zero, a positive number or infinity. -/
def NonNegative (x : Float) : Prop := ∃ u, exactValue? x = some u ∧ .ofRat 0 ≤ u

/-- A double stands for a positive number or infinity. -/
def Positive (x : Float) : Prop := ∃ u, exactValue? x = some u ∧ .ofRat 0 < u

theorem nonNegative_iff (x : Float) : 0.0 ≤ x ↔ NonNegative x := by
  rw [le_iff, exactValue?_zeroFloat]
  simp [NonNegative]

theorem positive_iff (x : Float) : 0.0 < x ↔ Positive x := by
  rw [lt_iff, exactValue?_zeroFloat]
  simp [Positive]

end Binary64

/-! ## Kinds -/

namespace Json

/-- An integer or a double. -/
def IsNumber (v : Json) : Prop := (∃ n, v = .int n) ∨ ∃ x, v = .float x

/-- The double that a number means: itself, or what an integer is rounded to. -/
inductive Means : Json → Float → Prop
  | float (x : Float) : Means (.float x) x
  | int {n : Int} {x : Float} : Binary64.ofInt? n = some x → Means (.int n) x

/-- An integer, if the value is one, is not beyond the largest double. -/
def Converts (v : Json) : Prop := ∀ n, v = .int n → Binary64.ofInt? n ≠ none

/-- What is meant by a value that may be null. -/
inductive OrNull {β : Type} (means : Json → β → Prop) : Json → Option β → Prop
  | null : OrNull means .null none
  | some {v : Json} {b : β} : v ≠ .null → means v b → OrNull means v (some b)

/-- A field is left out or holds a value of some kind. -/
def Allows (v : Json) (name : String) (kind : Json → Prop) : Prop :=
  ∀ f, v.field? name = some f → kind f

/-- A field holds a value that means `b`, or is left out and `b` is the default. -/
def Gives {β : Type} (v : Json) (name : String) (means : Json → β → Prop) (default b : β) : Prop :=
  match v.field? name with
  | some f => means f b
  | none => b = default

/-- The object in a field; to leave it out is to have none of its fields. -/
def inner (v : Json) (name : String) : Json := (v.field? name).getD (.object [])

theorem Means.unique {v : Json} {x y : Float} (hx : v.Means x) (hy : v.Means y) : x = y := by
  cases hx with
  | float => cases hy; rfl
  | int hx =>
    cases hy with
    | int hy => exact Option.some.inj (hx.symm.trans hy)

theorem Gives.unique {β : Type} {v : Json} {name : String} {means : Json → β → Prop}
    {default a b : β} (hmeans : ∀ f a b, means f a → means f b → a = b)
    (ha : v.Gives name means default a) (hb : v.Gives name means default b) : a = b := by
  unfold Gives at ha hb
  cases hf : v.field? name with
  | some f =>
    rw [hf] at ha hb
    exact hmeans f a b ha hb
  | none =>
    rw [hf] at ha hb
    exact ha.trans hb.symm

end Json

namespace Plan

open Binary64 (NonNegative Positive)

variable {β : Type} {v : Json}

/-! ## Single values -/

theorem decides_readFloat (path : String) (hv : v.Converts) :
    Decides .configuration (readFloat path v) v.IsNumber v.Means := by
  cases v with
  | int n =>
    obtain ⟨x, hx⟩ := Option.ne_none_iff_exists'.1 (hv n rfl)
    have hread : readFloat path (.int n) = .ok x := by
      rw [readFloat, Number.roundInt, hx]
    rw [hread]
    exact .ok (Or.inl ⟨n, rfl⟩) (.int hx)
  | float x => exact .ok (Or.inr ⟨x, rfl⟩) (.float x)
  | _ => exact .error (by rintro (⟨n, ⟨⟩⟩ | ⟨x, ⟨⟩⟩)) rfl

theorem decides_readInt (path : String) :
    Decides .configuration (readInt path v) (∃ n, v = .int n) fun n => v = .int n := by
  cases v with
  | int n => exact .ok ⟨n, rfl⟩ rfl
  | _ => exact .error (by rintro ⟨n, ⟨⟩⟩) rfl

theorem decides_readText (path : String) :
    Decides .configuration (readText path v) (∃ s, v = .text s) fun s => v = .text s := by
  cases v with
  | text s => exact .ok ⟨s, rfl⟩ rfl
  | _ => exact .error (by rintro ⟨s, ⟨⟩⟩) rfl

theorem decides_readTruth (path : String) :
    Decides .configuration (readTruth path v) (∃ b, v = .truth b) fun b => v = .truth b := by
  cases v with
  | truth b => exact .ok ⟨b, rfl⟩ rfl
  | _ => exact .error (by rintro ⟨b, ⟨⟩⟩) rfl

theorem decides_readObject (path : String) :
    Decides .configuration (readObject path v) (∃ fields, v = .object fields)
      fun fields => v = .object fields := by
  cases v with
  | object fields => exact .ok ⟨fields, rfl⟩ rfl
  | _ => exact .error (by rintro ⟨fields, ⟨⟩⟩) rfl

/-- A number within bounds. -/
theorem decides_bounded {path : String} (hv : v.Converts) {inBounds : Float → Prop} {fault : Fault}
    (hfault : fault.kind = .configuration) [DecidablePred inBounds] :
    Decides .configuration
      (readFloat path v >>= fun x => if inBounds x then pure x else throw fault)
      (∃ x, v.Means x ∧ inBounds x) v.Means := by
  have hbound : ∀ x, v.Means x →
      Decides .configuration (if inBounds x then pure x else throw fault : Except Fault Float)
        (∃ x, v.Means x ∧ inBounds x) v.Means := by
    intro x hx
    split
    next hin => exact .ok ⟨x, hx, hin⟩ hx
    next hout =>
      refine .error ?_ hfault
      rintro ⟨y, hy, hin⟩
      exact hout (hx.unique hy ▸ hin)
  refine ((decides_readFloat path hv).bind fun _ x hx => hbound x hx).congr
    (and_iff_right_of_imp ?_)
  rintro ⟨x, hx, -⟩
  cases hx with
  | float x => exact Or.inr ⟨x, rfl⟩
  | @int n => exact Or.inl ⟨n, rfl⟩

theorem decides_readNonNegative (path : String) (hv : v.Converts) :
    Decides .configuration (readNonNegative path v) (∃ x, v.Means x ∧ NonNegative x) v.Means := by
  simp only [← Binary64.nonNegative_iff]
  exact decides_bounded hv rfl

theorem decides_readPositive (path : String) (hv : v.Converts) :
    Decides .configuration (readPositive path v) (∃ x, v.Means x ∧ Positive x) v.Means := by
  simp only [← Binary64.positive_iff]
  exact decides_bounded hv rfl

theorem decides_readPlaces (path : String) :
    Decides .configuration (readPlaces path v) (∃ n, v = .int n ∧ 0 ≤ n ∧ n ≤ 10)
      fun n => v = .int n := by
  have hbound : ∀ n : Int, v = .int n →
      Decides .configuration
        (if 0 ≤ n && n ≤ 10 then pure n else throw (.outsideBound path .placesOfDouble) :
          Except Fault Int)
        (∃ n, v = .int n ∧ 0 ≤ n ∧ n ≤ 10) fun n => v = .int n := by
    rintro n rfl
    split
    next hin => exact .ok ⟨n, rfl, by simpa using hin⟩ rfl
    next hout =>
      refine .error ?_ rfl
      rintro ⟨m, ⟨⟩, hin⟩
      exact hout (by simpa using hin)
  refine ((decides_readInt path).bind fun _ n hn => hbound n hn).congr (and_iff_right_of_imp ?_)
  rintro ⟨n, hn, -⟩
  exact ⟨n, hn⟩

theorem decides_generationCount :
    Decides .configuration (Grammar.generationCount v) (∃ n : Int, v = .int n ∧ 0 ≤ n)
      fun n => v = .int n := by
  cases v with
  | int n =>
    rw [Grammar.generationCount]
    split
    next hn =>
      refine .ok ⟨n, rfl, hn⟩ ?_
      rw [Int.toNat_of_nonneg hn]
    next hn =>
      refine .error ?_ rfl
      rintro ⟨m, ⟨⟩, hm⟩
      exact hn hm
  | _ => exact .error (by rintro ⟨n, ⟨⟩, -⟩) rfl

theorem decides_readSpeciesName :
    Decides .configuration (readSpeciesName v) (∃ name ∈ Species.names, v = .text name)
      fun name => name ∈ Species.names ∧ v = .text name := by
  have hread : Decides .configuration (readSpeciesName v)
      ((∃ s, v = .text s) ∧ ∃ name ∈ Species.names, v = .text name)
      fun name => name ∈ Species.names ∧ v = .text name := by
    refine (decides_readText "species").bind fun _ text htext => ?_
    subst htext
    split
    next known hfound =>
      have hmem := List.mem_of_find?_eq_some hfound
      have htext : LooseText.ofString known = text := by simpa using List.find?_some hfound
      exact .ok ⟨known, hmem, by rw [htext]⟩ ⟨hmem, by rw [htext]⟩
    next hfound =>
      refine .error ?_ rfl
      rintro ⟨name, hname, htext⟩
      exact List.find?_eq_none.1 hfound name hname (by simpa using (Json.text.inj htext).symm)
  refine hread.congr (and_iff_right_of_imp ?_)
  rintro ⟨name, -, hname⟩
  exact ⟨_, hname⟩

/-! ## Fields -/

variable {kind : FaultKind} {fields : Table LooseText Json} {name : String}
  {read : Json → Except Fault β} {good : Json → Prop} {means : Json → β → Prop}

/-- A field of an object is what is found under its name. -/
theorem field_eq (hv : v = .object fields) (default : β) :
    field fields name default read =
      match v.field? name with
      | some f => read f
      | none => .ok default := by
  subst hv
  rfl

theorem optional_eq (hv : v = .object fields) :
    optional fields name read =
      match v.field? name with
      | some .null | none => .ok none
      | some f => read f >>= fun b => pure (some b) := by
  subst hv
  rfl

theorem decides_field (hv : v = .object fields) {default : β}
    (h : ∀ f, v.field? name = some f → Decides kind (read f) (good f) (means f)) :
    Decides kind (field fields name default read) (v.Allows name good)
      (v.Gives name means default) := by
  rw [field_eq hv]
  unfold Json.Allows Json.Gives
  cases hf : v.field? name with
  | some f =>
    refine (h f hf).congr ⟨?_, fun hgood => hgood f rfl⟩
    rintro hgood g ⟨⟩
    exact hgood
  | none => exact .ok (by rintro f ⟨⟩) rfl

theorem decides_optional (hv : v = .object fields)
    (h : ∀ f, v.field? name = some f → Decides kind (read f) (good f) (means f)) :
    Decides kind (optional fields name read) (v.Allows name fun f => f = .null ∨ good f)
      (v.Gives name (Json.OrNull means) none) := by
  rw [optional_eq hv]
  unfold Json.Allows Json.Gives
  cases hf : v.field? name with
  | none => exact .ok (by rintro f ⟨⟩) rfl
  | some f =>
    by_cases hnull : f = .null
    · subst hnull
      refine .ok ?_ .null
      rintro g ⟨⟩
      exact Or.inl rfl
    · have hread : Decides kind (read f >>= fun b => pure (some b))
          (∀ g, some f = some g → g = .null ∨ good g) (Json.OrNull means f) := by
        refine ((h f hf).bind fun _ b hb => .ok trivial (.some hnull hb)).congr ⟨?_, fun hall => ?_⟩
        · rintro ⟨hgood, -⟩ g ⟨⟩
          exact Or.inr hgood
        · exact ⟨(hall f rfl).resolve_left hnull, trivial⟩
      cases f with
      | null => exact absurd rfl hnull
      | _ => exact hread

/-- To leave a field out is to read an empty object, if its default is read of that. -/
theorem field_eq_inner (read : Json → Except Fault β) (hv : v = .object fields) {default : β}
    (hempty : read (.object []) = .ok default) :
    field fields name default read = read (v.inner name) := by
  rw [field_eq hv]
  unfold Json.inner
  cases v.field? name with
  | some f => rfl
  | none => exact hempty.symm

end Plan

end Arbor
