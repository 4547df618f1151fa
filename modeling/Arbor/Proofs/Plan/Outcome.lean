import Arbor.Plan
import Arbor.Proofs.Fault.Outcome
import Arbor.Proofs.Species.Crown
import Arbor.Proofs.Species.Parameters

/-!
# What can come of reading a plan

A value is read as a plan field by field. Whatever a field's own checks refuse is a fault of the
configuration. Two things are not checked and fail in a class of their own: an integer that stands
where a double is asked for is rounded, which fails beyond the largest double, and the species
raises one of its parameters to the power of another, which need not exist.

* `Plan.measures`: the values that stand where a double is asked for.
* `Plan.TooLarge`, `Plan.NoPower`: the two faults that are not of the configuration.
* `Plan.ofJson_outcome`: what can come of a value.
-/

namespace Arbor

/-! ## Values in values -/

namespace Json

def field? (value : Json) (name : String) : Option Json :=
  match value with
  | .object fields => Table.get? fields name
  | _ => none

/-- The values of a list or of the fields of an object. -/
def parts : Json → List Json
  | .list items => items
  | .object fields => fields.map (·.2)
  | _ => []

/-- The value at a path of names. -/
def at? (value : Json) (path : List String) : Option Json := path.foldlM field? value

end Json

namespace Plan

/-- The paths at which a double is asked for. -/
def measurePaths : List (List String) := [
  ["root", "diameter"],
  ["svg", "margin"],
  ["svg", "width"],
  ["svg", "height"],
  ["svg", "style", "width_scale"],
  ["svg", "style", "min_width"]]

/-- The paths at which several doubles are asked for. -/
def measureListPaths : List (List String) := [["params"], ["root", "position"]]

/-- The values of a document that stand where a double is asked for. -/
def measures (value : Json) : List Json :=
  measurePaths.filterMap value.at? ++ (measureListPaths.filterMap value.at?).flatMap Json.parts

/-- The fault of an integer among some values that is beyond the largest double. -/
def TooLarge (values : List Json) (fault : Fault) : Prop :=
  fault = .intTooLargeForDouble ∧ ∃ n, .int n ∈ values ∧ Binary64.ofInt? n = none

/-- A fault of the configuration, or that of an integer among some values. -/
def Refuses (values : List Json) (fault : Fault) : Prop :=
  fault.kind = .configuration ∨ TooLarge values fault

variable {β : Type} {values : List Json}

theorem Refuses.of_mem {value : Json} (h : value ∈ values) (fault : Fault)
    (hfault : Refuses [value] fault) : Refuses values fault := by
  rcases hfault with hkind | ⟨hfault, n, hn, hlarge⟩
  · exact Or.inl hkind
  · exact Or.inr ⟨hfault, n, List.mem_singleton.1 hn ▸ h, hlarge⟩

/-! ## Single values -/

theorem failsOnly_readFloat (path : String) (value : Json) :
    FailsOnly (Refuses [value]) (readFloat path value) := by
  cases value with
  | int n =>
    rw [readFloat, Number.roundInt]
    cases hround : Binary64.ofInt? n with
    | none => exact .error (Or.inr ⟨rfl, n, List.mem_singleton_self _, hround⟩)
    | some x => exact .ok x
  | float x => exact .ok x
  | _ => exact .error (Or.inl rfl)

theorem failsOnly_readInt (path : String) (value : Json) :
    FailsOnly (·.kind = .configuration) (readInt path value) := by
  cases value with
  | int n => exact .ok n
  | _ => exact .error rfl

theorem failsOnly_readText (path : String) (value : Json) :
    FailsOnly (·.kind = .configuration) (readText path value) := by
  cases value with
  | text s => exact .ok s
  | _ => exact .error rfl

theorem failsOnly_readTruth (path : String) (value : Json) :
    FailsOnly (·.kind = .configuration) (readTruth path value) := by
  cases value with
  | truth b => exact .ok b
  | _ => exact .error rfl

/-- Only an object has fields. -/
theorem readObject_eq_ok {path : String} {value : Json} {fields : Table LooseText Json}
    (h : readObject path value = .ok fields) : value = .object fields := by
  cases value <;> cases h
  rfl

theorem failsOnly_readObject (path : String) (value : Json) :
    FailsOnly (·.kind = .configuration) (readObject path value) := by
  cases value with
  | object fields => exact .ok fields
  | _ => exact .error rfl

theorem failsOnly_readNonNegative (path : String) (value : Json) :
    FailsOnly (Refuses [value]) (readNonNegative path value) := by
  refine (failsOnly_readFloat path value).bind fun x _ => ?_
  split
  · exact .ok x
  · exact .error (Or.inl rfl)

theorem failsOnly_readPositive (path : String) (value : Json) :
    FailsOnly (Refuses [value]) (readPositive path value) := by
  refine (failsOnly_readFloat path value).bind fun x _ => ?_
  split
  · exact .ok x
  · exact .error (Or.inl rfl)

theorem failsOnly_readPlaces (path : String) (value : Json) :
    FailsOnly (·.kind = .configuration) (readPlaces path value) := by
  refine (failsOnly_readInt path value).bind fun n _ => ?_
  split
  · exact .ok n
  · exact .error rfl

theorem failsOnly_readSpeciesName (value : Json) :
    FailsOnly (·.kind = .configuration) (readSpeciesName value) := by
  refine (failsOnly_readText _ value).bind fun name _ => ?_
  split
  · exact .ok _
  · exact .error rfl

theorem failsOnly_generationCount (value : Json) :
    FailsOnly (·.kind = .configuration) (Grammar.generationCount value) := by
  cases value with
  | int n =>
    rw [Grammar.generationCount]
    split
    · exact .ok _
    · exact .error rfl
  | _ => exact .error rfl

/-! ## Fields of a document -/

section Fields

variable {expected : Fault → Prop} {plan : Json} {path : List String}
  {fields : Table LooseText Json} {name : String}

/-- The fields stand in the document, in the object at a path. -/
def FieldsAt (plan : Json) (path : List String) (fields : Table LooseText Json) : Prop :=
  ∀ (name : String) value, fields.get? name = some value → plan.at? (path ++ [name]) = some value

theorem fieldsAt_nil : FieldsAt plan path [] := nofun

theorem fieldsAt_of_eq_ok {value : Json} {place : String} (hvalue : plan.at? path = some value)
    (h : readObject place value = .ok fields) : FieldsAt plan path fields := by
  intro name v hv
  rw [Json.at?, List.foldlM_append]
  show (plan.at? path >>= fun v => [name].foldlM Json.field? v) = _
  rw [hvalue, readObject_eq_ok h]
  show (Json.field? (.object fields) name >>= pure) = _
  rw [Json.field?, hv]
  rfl

theorem failsOnly_field (hfields : FieldsAt plan path fields) {default : β}
    {read : Json → Except Fault β}
    (h : ∀ value, plan.at? (path ++ [name]) = some value → FailsOnly expected (read value)) :
    FailsOnly expected (field fields name default read) := by
  unfold field
  split
  next value hvalue => exact h value (hfields name value hvalue)
  next => exact .ok default

theorem failsOnly_optional (hfields : FieldsAt plan path fields) {read : Json → Except Fault β}
    (h : ∀ value, plan.at? (path ++ [name]) = some value → FailsOnly expected (read value)) :
    FailsOnly expected (optional fields name read) := by
  unfold optional
  split
  · exact .ok none
  · exact .ok none
  next value _ hvalue =>
    exact (h value (hfields name value hvalue)).bind fun b _ => .ok (some b)

theorem failsOnly_refuses {result : Except Fault β}
    (h : FailsOnly (·.kind = .configuration) result) : FailsOnly (Refuses values) result :=
  h.mono fun _ => Or.inl

theorem mem_measures {value : Json} (hvalue : plan.at? path = some value)
    (hpath : path ∈ measurePaths) : value ∈ measures plan :=
  List.mem_append_left _ (List.mem_filterMap.2 ⟨path, hpath, hvalue⟩)

theorem mem_measures_of_mem_parts {value item : Json} (hvalue : plan.at? path = some value)
    (hpath : path ∈ measureListPaths) (hitem : item ∈ value.parts) : item ∈ measures plan :=
  have hlist := List.mem_filterMap.2 ⟨path, hpath, hvalue⟩
  List.mem_append_right _ (List.mem_flatMap.2 ⟨value, hlist, hitem⟩)

/-- A field in which a double is asked for. -/
theorem failsOnly_measureField (hfields : FieldsAt plan path fields) {default : β}
    {read : Json → Except Fault β} (hpath : path ++ [name] ∈ measurePaths)
    (h : ∀ value, FailsOnly (Refuses [value]) (read value)) :
    FailsOnly (Refuses (measures plan)) (field fields name default read) :=
  failsOnly_field hfields fun value hvalue =>
    (h value).mono (Refuses.of_mem (mem_measures hvalue hpath))

/-! ## Drawing options -/

theorem failsOnly_readStyle {value : Json} (hvalue : plan.at? ["svg", "style"] = some value) :
    FailsOnly (Refuses (measures plan)) (readStyle value) := by
  refine (failsOnly_refuses (failsOnly_readObject _ value)).bind fun fields hfields => ?_
  have hat := fieldsAt_of_eq_ok hvalue hfields
  have htext : ∀ (name path : String) (default : LooseText),
      FailsOnly (Refuses (measures plan)) (field fields name default (readText path)) :=
    fun _ path _ => failsOnly_refuses (failsOnly_field hat fun v _ => failsOnly_readText path v)
  refine (htext _ _ _).bind fun stroke _ => ?_
  refine (failsOnly_measureField hat (by decide) (failsOnly_readFloat _)).bind fun scale _ => ?_
  refine (failsOnly_measureField hat (by decide) (failsOnly_readFloat _)).bind fun least _ => ?_
  exact (htext _ _ _).bind fun lineCap _ => .ok _

theorem failsOnly_readSvg {value : Json} (hvalue : plan.at? ["svg"] = some value) :
    FailsOnly (Refuses (measures plan)) (readSvg value) := by
  refine (failsOnly_refuses (failsOnly_readObject _ value)).bind fun fields hfields => ?_
  have hat := fieldsAt_of_eq_ok hvalue hfields
  have hsize : ∀ name path, ["svg"] ++ [name] ∈ measurePaths →
      FailsOnly (Refuses (measures plan)) (optional fields name (readPositive path)) :=
    fun _ path hpath => failsOnly_optional hat fun v hv =>
      (failsOnly_readPositive path v).mono (Refuses.of_mem (mem_measures hv hpath))
  refine (failsOnly_measureField hat (by decide) fun v =>
    (failsOnly_readNonNegative _ v).bind fun margin _ => .ok (some margin)).bind fun margin _ => ?_
  refine (failsOnly_refuses (failsOnly_field hat fun v _ => failsOnly_readPlaces _ v)).bind
    fun places _ => ?_
  refine (failsOnly_refuses (failsOnly_field hat fun v _ => failsOnly_readTruth _ v)).bind
    fun flipY _ => ?_
  refine (hsize _ _ (by decide)).bind fun width _ => ?_
  refine (hsize _ _ (by decide)).bind fun height _ => ?_
  refine (failsOnly_field hat fun v hv => failsOnly_readStyle hv).bind fun style _ => ?_
  exact (failsOnly_refuses (failsOnly_optional hat fun v _ => failsOnly_readText _ v)).bind
    fun background _ => .ok _

/-! ## The root -/

theorem failsOnly_readPosition {value : Json}
    (hvalue : plan.at? ["root", "position"] = some value) :
    FailsOnly (Refuses (measures plan)) (readPosition value) := by
  unfold readPosition
  split
  next x y z =>
    have hitem : ∀ item ∈ [x, y, z], ∀ path,
        FailsOnly (Refuses (measures plan)) (readFloat path item) := fun item hitem path =>
      (failsOnly_readFloat path item).mono
        (Refuses.of_mem (mem_measures_of_mem_parts hvalue (by decide) hitem))
    refine (hitem x (by simp) _).bind fun x _ => ?_
    refine (hitem y (by simp) _).bind fun y _ => ?_
    exact (hitem z (by simp) _).bind fun z _ => .ok _
  next => exact .error (Or.inl rfl)

theorem failsOnly_readRoot (diameter : Float) {value : Json}
    (hvalue : ∀ {fields}, readObject "root" value = .ok fields → FieldsAt plan ["root"] fields) :
    FailsOnly (Refuses (measures plan)) (readRoot (.float diameter) value) := by
  refine (failsOnly_refuses (failsOnly_readObject _ value)).bind fun fields hfields => ?_
  have hat := hvalue hfields
  refine (failsOnly_field hat fun v hv => failsOnly_readPosition hv).bind fun position _ => ?_
  refine (FailsOnly.ok diameter).bind fun default _ => ?_
  refine (failsOnly_measureField hat (by decide) (failsOnly_readFloat _)).bind
    fun diameter _ => ?_
  split
  · exact .ok _
  · exact .error (Or.inl rfl)

end Fields

/-! ## Parameters -/

theorem failsOnly_readParamName (species : String) (entry : LooseText × Json) :
    FailsOnly (·.kind = .configuration) (readParamName species entry) := by
  unfold readParamName
  split
  · exact .ok _
  · exact .error rfl

/-- A field that is read as a parameter keeps its value and has the name of a parameter. -/
theorem readParamName_eq_ok {species : String} {entry : LooseText × Json} {named : String × Json}
    (h : readParamName species entry = .ok named) :
    named.1 ∈ HondaParams.names ∧ named.2 = entry.2 := by
  unfold readParamName at h
  split at h
  next known hknown =>
    cases h
    exact ⟨List.mem_of_find?_eq_some hknown, rfl⟩
  next => cases h

section Params

variable {species : String} {value : Json}

/-- Of what is read as parameters the values stand in the object. -/
theorem forall_of_mapM_readParamName {fields : Table LooseText Json} {named : List (String × Json)}
    (h : fields.mapM (readParamName species) = .ok named) :
    ∀ entry ∈ named, entry.1 ∈ HondaParams.names ∧ entry.2 ∈ (Json.object fields).parts := by
  intro entry hentry
  obtain ⟨written, hwritten, hread⟩ := exists_of_mem_mapM h hentry
  obtain ⟨hname, hvalue⟩ := readParamName_eq_ok hread
  exact ⟨hname, hvalue ▸ List.mem_map_of_mem hwritten⟩

/-- What is read as parameters can be set, to doubles. -/
theorem exists_ofTable_of_mapM {named : List (String × Json)} {values : Table String Number}
    (hnamed : ∀ entry ∈ named, entry.1 ∈ HondaParams.names)
    (h : (named.mapM fun (name, value) => do
      let x ← readFloat s!"params.{name}" value
      return (name, Number.float x)) = .ok values) :
    ∃ p, HondaParams.ofTable values = .ok p ∧ p.Doubles := by
  refine HondaParams.exists_ofTable fun entry hentry => ?_
  obtain ⟨written, hwritten, hread⟩ := exists_of_mem_mapM h hentry
  obtain ⟨x, -, hx⟩ := bind_eq_ok_iff.1 hread
  cases hx
  exact ⟨hnamed written hwritten, x, rfl⟩

theorem failsOnly_readParams {plan : Json} (hvalue : plan.at? ["params"] = some value) :
    FailsOnly (Refuses (measures plan)) (readParams species value) := by
  refine (failsOnly_refuses (failsOnly_readObject _ value)).bind fun fields hfields => ?_
  rw [readObject_eq_ok hfields] at hvalue
  refine (failsOnly_refuses (.mapM fun _ _ => failsOnly_readParamName _ _)).bind
    fun named hnamed => ?_
  have hentries := forall_of_mapM_readParamName hnamed
  refine (FailsOnly.mapM fun entry hentry => ?_).bind fun values hvalues => ?_
  · have hmeasure := mem_measures_of_mem_parts hvalue (by decide) (hentries entry hentry).2
    exact ((failsOnly_readFloat _ entry.2).mono (Refuses.of_mem hmeasure)).bind fun x _ => .ok _
  · obtain ⟨p, hp, -⟩ := exists_ofTable_of_mapM (fun entry h => (hentries entry h).1) hvalues
    rw [hp]
    exact .ok p

theorem doubles_of_readParams {p : HondaParams} (h : readParams species value = .ok p) :
    p.Doubles := by
  obtain ⟨fields, -, h⟩ := bind_eq_ok_iff.1 h
  obtain ⟨named, hnamed, h⟩ := bind_eq_ok_iff.1 h
  obtain ⟨values, hvalues, h⟩ := bind_eq_ok_iff.1 h
  have hentries := forall_of_mapM_readParamName hnamed
  obtain ⟨p', hp', hdoubles⟩ :=
    exists_ofTable_of_mapM (fun entry h => (hentries entry h).1) hvalues
  rwa [Except.ok.inj (h.symm.trans hp')]

/-- The parameters of a document, which may leave them out, are doubles. -/
theorem doubles_of_field {fields : Table LooseText Json} {p : HondaParams}
    (h : field fields "params" {} (readParams species) = .ok p) : p.Doubles := by
  unfold field at h
  split at h
  · exact doubles_of_readParams h
  · cases h
    exact HondaParams.doubles_default

end Params

/-! ## The species -/

/-- Why the species of a document cannot be made: the power of the one parameter by the other does
not exist. -/
def NoPower (value : Json) (fault : Fault) : Prop :=
  ∃ fields p x y, value = .object fields ∧ field fields "params" {} (readParams "honda") = .ok p ∧
    p.branchDifferentialDiameterFactor = .float x ∧
    p.branchDiameterConservationFactor = .float y ∧
    Number.floatPow x y = .error fault ∧ (fault.kind = .zeroDivision ∨ fault.kind = .overflow)

theorem readSpeciesName_eq_ok {value : Json} {name : String}
    (h : readSpeciesName value = .ok name) : name = "honda" := by
  obtain ⟨text, -, h⟩ := bind_eq_ok_iff.1 h
  split at h
  next known hknown =>
    cases h
    exact List.mem_singleton.1 (List.mem_of_find?_eq_some hknown)
  next => cases h

theorem failsOnly_system {value : Json} {fields : Table LooseText Json} {p : HondaParams}
    (hvalue : value = .object fields)
    (hp : field fields "params" {} (readParams "honda") = .ok p) :
    FailsOnly (NoPower value) (Honda.system .binary64 p) := by
  obtain ⟨x, y, hx, hy, hshrink⟩ := (doubles_of_field hp).exists_shrink
  rcases Number.isPower_floatPow x y with ⟨d, hpower⟩ | hpower | ⟨fault, hpower, hkind⟩
  · rw [Honda.system, Honda.grammar_eq_ok (hshrink.trans hpower)]
    exact .ok _
  · rw [Honda.system, Honda.grammar_eq_ok (hshrink.trans hpower)]
    exact .ok _
  · rw [Honda.system, Honda.grammar, hshrink, hpower]
    exact .error ⟨fields, p, x, y, hvalue, hp, hx, hy, hpower, hkind⟩

/-! ## Plans -/

/-- Reading a plan fails with a fault of the configuration, or because an integer is too large or
the power does not exist. -/
theorem failsOnly_ofJson (value : Json) :
    FailsOnly (fun fault => Refuses (measures value) fault ∨ NoPower value fault)
      (ofJson value) := by
  have hrefuses : ∀ {β : Type} {result : Except Fault β},
      FailsOnly (Refuses (measures value)) result →
      FailsOnly (fun fault => Refuses (measures value) fault ∨ NoPower value fault) result :=
    fun h => h.mono fun _ => Or.inl
  have hplain : ∀ {β : Type} {result : Except Fault β},
      FailsOnly (·.kind = .configuration) result →
      FailsOnly (fun fault => Refuses (measures value) fault ∨ NoPower value fault) result :=
    fun h => hrefuses (failsOnly_refuses h)
  have hat : value.at? [] = some value := rfl
  refine (hplain (failsOnly_readObject _ value)).bind fun fields hfields => ?_
  have hvalue := readObject_eq_ok hfields
  replace hat := fieldsAt_of_eq_ok hat hfields
  refine (hplain (failsOnly_field hat fun v _ => failsOnly_readText _ v)).bind fun name _ => ?_
  refine (hplain (failsOnly_field hat fun v _ => failsOnly_readSpeciesName v)).bind
    fun species hspecies => ?_
  obtain rfl : species = "honda" := by
    unfold field at hspecies
    split at hspecies
    · exact readSpeciesName_eq_ok hspecies
    · exact (Except.ok.inj hspecies).symm
  refine (hplain (failsOnly_field hat fun v _ => failsOnly_generationCount v)).bind
    fun iterations _ => ?_
  refine (hrefuses (failsOnly_field hat fun v hv => failsOnly_readParams hv)).bind
    fun params hparams => ?_
  refine ((failsOnly_system hvalue hparams).mono fun _ => Or.inr).bind fun system _ => ?_
  obtain ⟨diameter, hdiameter⟩ := (doubles_of_field hparams).exists_rootDiameter
  have hroot : ∀ {root}, readObject "root" ((fields.get? "root").getD (.object [])) = .ok root →
      FieldsAt value ["root"] root := by
    intro root hread
    cases hget : fields.get? "root" with
    | none =>
      rw [hget] at hread
      cases hread
      exact fieldsAt_nil
    | some v =>
      rw [hget] at hread
      exact fieldsAt_of_eq_ok (hat "root" v hget) hread
  rw [hdiameter]
  refine (hrefuses (failsOnly_readRoot diameter hroot)).bind fun root _ => ?_
  exact (hrefuses (failsOnly_field hat fun v hv => failsOnly_readSvg hv)).bind fun svg _ => .ok _

/-- **What can come of a value that is read as a plan.** It is a plan or a fault of the
configuration, unless an integer that stands where a double is asked for is beyond the largest
double, or a double of the parameters cannot be raised to the power of another. -/
theorem ofJson_outcome (value : Json) :
    (∃ plan, ofJson value = .ok plan) ∨
      ∃ fault, ofJson value = .error fault ∧
        (fault.kind = .configuration ∨ TooLarge (measures value) fault ∨ NoPower value fault) := by
  cases h : ofJson value with
  | ok plan => exact Or.inl ⟨plan, rfl⟩
  | error fault =>
    exact Or.inr ⟨fault, rfl, or_assoc.1 (failsOnly_ofJson value fault h)⟩

/-- A plan with a length of the root. -/
def ofRootLength (length : Int) : Json :=
  .object [("params", .object [("root_length", .int length)])]

theorem ofJson_ofRootLength {length : Int} {fault : Fault}
    (h : Number.roundInt length = .error fault) : ofJson (ofRootLength length) = .error fault := by
  have hread : ∀ path, readFloat path (.int length) = .error fault := fun path => h
  have hname : readParamName "honda" ("root_length", .int length) =
      .ok ("root_length", .int length) := rfl
  have hparams : readParams "honda" (.object [("root_length", .int length)]) = .error fault := by
    simp only [readParams, readObject, List.mapM_cons, List.mapM_nil, hname, hread, bind,
      Except.bind, pure, Except.pure]
  show (readParams "honda" (.object [("root_length", .int length)]) >>= _) = _
  rw [hparams]
  rfl

theorem not_forall_ofJson_configuration : ¬ ∀ value,
    (∃ plan, ofJson value = .ok plan) ∨
      ∃ fault, ofJson value = .error fault ∧ fault.kind = .configuration := by
  intro h
  have hlarge : Number.roundInt (10 ^ 400) = .error .intTooLargeForDouble := by decide +kernel
  have hfails := ofJson_ofRootLength hlarge
  rcases h (ofRootLength (10 ^ 400)) with ⟨plan, hplan⟩ | ⟨fault, hfault, hkind⟩
  · rw [hfails] at hplan
    cases hplan
  · rw [hfails] at hfault
    cases hfault
    cases hkind

end Plan

end Arbor
