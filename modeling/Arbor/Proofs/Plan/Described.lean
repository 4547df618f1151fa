import Arbor.Proofs.Plan.Fields
import Arbor.Proofs.Species.Parameters
import Arbor.Proofs.Value.Comparison

/-!
# What a plan is read from

The values that are plans are described field by field, and so is the plan that each of them is
read as: every field is left out or of its kind, and gives what it means or its default. Fields that
no description names are passed over, except among the parameters, which have to be known.

The diameter of the root is the one that is not described by its field alone: if it is left out, it
is the root diameter of the parameters, and in each case it has to be zero or more.

* `Plan.decides_readSvg`, `Plan.decides_readRoot`, `Plan.decides_readParams`: parts of a plan.
* `Plan.ofJson_iff`: what is read as a plan, and as which.
-/

namespace Arbor

/-- What stands in a field of an object in a field stands at the path of both. -/
theorem Json.field?_inner (v : Json) (name field : String) :
    (v.inner name).field? field = v.at? [name, field] := by
  show _ = v.field? name >>= fun u => u.field? field >>= pure
  unfold inner
  cases v.field? name with
  | none => rfl
  | some u =>
    show u.field? field = u.field? field >>= pure
    cases u.field? field <;> rfl

theorem Json.field?_inner_inner (v : Json) (outer name field : String) :
    ((v.inner outer).inner name).field? field = v.at? [outer, name, field] := by
  rw [field?_inner]
  show _ = v.field? outer >>= fun u => u.at? [name, field]
  unfold inner
  cases v.field? outer <;> rfl

namespace Plan

open Binary64 (NonNegative Positive)

/-! ## Descriptions -/

structure IsStyle (v : Json) : Prop where
  object : ∃ fields, v = .object fields
  stroke : v.Allows "stroke" fun f => ∃ s, f = .text s
  widthScale : v.Allows "width_scale" Json.IsNumber
  minWidth : v.Allows "min_width" Json.IsNumber
  lineCap : v.Allows "stroke_linecap" fun f => ∃ s, f = .text s

structure GivesStyle (v : Json) (style : SvgStyle) : Prop where
  stroke : v.Gives "stroke" (fun f s => f = .text s) "#000" style.stroke
  widthScale : v.Gives "width_scale" Json.Means 1.0 style.widthScale
  minWidth : v.Gives "min_width" Json.Means 0.1 style.minWidth
  lineCap : v.Gives "stroke_linecap" (fun f s => f = .text s) "round" style.lineCap

structure IsSvg (v : Json) : Prop where
  object : ∃ fields, v = .object fields
  margin : v.Allows "margin" fun f => ∃ x, f.Means x ∧ NonNegative x
  places : v.Allows "precision" fun f => ∃ n, f = .int n ∧ 0 ≤ n ∧ n ≤ 10
  flipY : v.Allows "flip_y" fun f => ∃ b, f = .truth b
  width : v.Allows "width" fun f => f = .null ∨ ∃ x, f.Means x ∧ Positive x
  height : v.Allows "height" fun f => f = .null ∨ ∃ x, f.Means x ∧ Positive x
  style : IsStyle (v.inner "style")
  background : v.Allows "background" fun f => f = .null ∨ ∃ s, f = .text s

structure GivesSvg (v : Json) (options : SvgOptions) : Prop where
  margin : ∃ x, options.margin = some x ∧ v.Gives "margin" Json.Means 10.0 x
  places : v.Gives "precision" (fun f n => f = .int n) 3 options.places
  flipY : v.Gives "flip_y" (fun f b => f = .truth b) true options.flipY
  width : v.Gives "width" (Json.OrNull Json.Means) none options.width
  height : v.Gives "height" (Json.OrNull Json.Means) none options.height
  style : GivesStyle (v.inner "style") options.style
  background : v.Gives "background" (Json.OrNull fun f s => f = .text s) none options.background

/-- A value that is read as parameters: each name is known, each value a number. -/
def IsParams (v : Json) : Prop :=
  ∃ fields, v = .object fields ∧ ∀ entry ∈ fields,
    (∃ name ∈ HondaParams.names, entry.1 = LooseText.ofString name) ∧ entry.2.IsNumber

/-- The parameters that a value gives, each of which has its own default. -/
def GivesParams (v : Json) (p : HondaParams) : Prop :=
  ∀ name default, (name, Number.float default) ∈ ({} : HondaParams).toTable →
    ∃ x, p.toTable.get? name = some (.float x) ∧ v.Gives name Json.Means default x

def IsPosition (v : Json) : Prop :=
  ∃ x y z, v = .list [x, y, z] ∧ x.IsNumber ∧ y.IsNumber ∧ z.IsNumber

def MeansPosition (v : Json) (position : Vec3 Float) : Prop :=
  ∃ x y z, v = .list [x, y, z] ∧
    x.Means position.x ∧ y.Means position.y ∧ z.Means position.z

/-- A value that is read as a root whose diameter is `default` if it is left out. -/
structure IsRoot (default : Float) (v : Json) : Prop where
  object : ∃ fields, v = .object fields
  position : v.Allows "position" IsPosition
  diameter : v.Allows "diameter" Json.IsNumber
  nonNegative : ∃ x, v.Gives "diameter" Json.Means default x ∧ NonNegative x

structure GivesRoot (default : Float) (v : Json) (root : Joint Float) : Prop where
  position : v.Gives "position" MeansPosition ⟨0.0, 0.0, 0.0⟩ root.position
  diameter : v.Gives "diameter" Json.Means default root.diameter

/-- The root diameter of the parameters, given or by default. -/
def RootDiameter (value : Json) (x : Float) : Prop :=
  (value.inner "params").Gives "root_diameter" Json.Means 10.0 x

/-- A value that is read as a plan. -/
structure IsPlan (value : Json) : Prop where
  object : ∃ fields, value = .object fields
  name : value.Allows "name" fun f => ∃ s, f = .text s
  species : value.Allows "species" fun f => ∃ name ∈ Species.names, f = .text name
  iterations : value.Allows "iterations" fun f => ∃ n : Int, f = .int n ∧ 0 ≤ n
  params : IsParams (value.inner "params")
  root : ∃ x, RootDiameter value x ∧ IsRoot x (value.inner "root")
  svg : IsSvg (value.inner "svg")

/-- The plan that a value gives. -/
structure GivesPlan (value : Json) (plan : Plan) : Prop where
  name : value.Gives "name" (fun f s => f = .text s) "L-System tree" plan.name
  species : ∃ p, plan.species = .honda p ∧ GivesParams (value.inner "params") p ∧
    Honda.system .binary64 p = .ok plan.system
  iterations : value.Gives "iterations" (fun f (n : Nat) => f = .int n) 0 plan.iterations
  root : ∃ x, RootDiameter value x ∧ GivesRoot x (value.inner "root") plan.root
  svg : GivesSvg (value.inner "svg") plan.svg

/-! ## Drawing options -/

/-- The integers in some fields of an object are not beyond the largest double. -/
def FieldsConvert (v : Json) (names : List String) : Prop :=
  ∀ name ∈ names, ∀ f, v.field? name = some f → f.Converts

variable {v : Json}

theorem decides_readStyle (hv : FieldsConvert v ["width_scale", "min_width"]) :
    Decides .configuration (readStyle v) (IsStyle v) (GivesStyle v) := by
  refine ((decides_readObject _).bind fun _ fields hfields =>
    (decides_field hfields fun f _ => decides_readText _).bind fun _ stroke hstroke =>
    (decides_field hfields fun f hf => decides_readFloat _ (hv _ (by decide) f hf)).bind
      fun _ scale hscale =>
    (decides_field hfields fun f hf => decides_readFloat _ (hv _ (by decide) f hf)).bind
      fun _ least hleast =>
    (decides_field hfields fun f _ => decides_readText _).bind fun _ lineCap hlineCap =>
      .ok trivial ⟨hstroke, hscale, hleast, hlineCap⟩).congr ?_
  constructor
  · rintro ⟨hobject, hstroke, hscale, hleast, hlineCap, -⟩
    exact ⟨hobject, hstroke, hscale, hleast, hlineCap⟩
  · rintro ⟨hobject, hstroke, hscale, hleast, hlineCap⟩
    exact ⟨hobject, hstroke, hscale, hleast, hlineCap, trivial⟩

/-- There is always a margin, given or by default. -/
theorem decides_margin {fields : Table LooseText Json} (hobject : v = .object fields)
    (hv : ∀ f, v.field? "margin" = some f → f.Converts) :
    Decides .configuration
      (field fields "margin" (some 10.0) fun f => do
        let margin ← readNonNegative "svg.margin" f
        return some margin)
      (v.Allows "margin" fun f => ∃ x, f.Means x ∧ NonNegative x)
      fun margin => ∃ x, margin = some x ∧ v.Gives "margin" Json.Means 10.0 x := by
  have hread : ∀ f, v.field? "margin" = some f →
      Decides .configuration (readNonNegative "svg.margin" f >>= fun x => pure (some x))
        (∃ x, f.Means x ∧ NonNegative x) fun margin => ∃ x, margin = some x ∧ f.Means x :=
    fun f hf => ((decides_readNonNegative _ (hv f hf)).bind fun _ x hx =>
      .ok trivial ⟨x, rfl, hx⟩).congr (and_iff_left trivial)
  refine (decides_field hobject hread).mono fun margin hmargin => ?_
  unfold Json.Gives at hmargin ⊢
  cases hf : v.field? "margin" with
  | some f =>
    rw [hf] at hmargin
    exact hmargin
  | none =>
    rw [hf] at hmargin
    exact ⟨_, hmargin, rfl⟩

theorem decides_readSvg (hv : FieldsConvert v ["margin", "width", "height"])
    (hstyle : FieldsConvert (v.inner "style") ["width_scale", "min_width"]) :
    Decides .configuration (readSvg v) (IsSvg v) (GivesSvg v) := by
  refine ((decides_readObject _).bind fun _ fields hfields =>
    (decides_margin hfields (hv _ (by decide))).bind fun _ margin hmargin =>
    (decides_field hfields fun f _ => decides_readPlaces _).bind fun _ places hplaces =>
    (decides_field hfields fun f _ => decides_readTruth _).bind fun _ flipY hflipY =>
    (decides_optional hfields fun f hf => decides_readPositive _ (hv _ (by decide) f hf)).bind
      fun _ width hwidth =>
    (decides_optional hfields fun f hf => decides_readPositive _ (hv _ (by decide) f hf)).bind
      fun _ height hheight =>
    (field_eq_inner readStyle hfields rfl ▸ decides_readStyle hstyle).bind
      fun _ style hstyle =>
    (decides_optional hfields fun f _ => decides_readText _).bind fun _ background hbackground =>
      .ok trivial
        ⟨hmargin, hplaces, hflipY, hwidth, hheight, hstyle, hbackground⟩).congr ?_
  constructor
  · rintro ⟨hobject, hmargin, hplaces, hflipY, hwidth, hheight, hstyle, hbackground, -⟩
    exact ⟨hobject, hmargin, hplaces, hflipY, hwidth, hheight, hstyle, hbackground⟩
  · rintro ⟨hobject, hmargin, hplaces, hflipY, hwidth, hheight, hstyle, hbackground⟩
    exact ⟨hobject, hmargin, hplaces, hflipY, hwidth, hheight, hstyle, hbackground, trivial⟩

/-! ## The root -/

theorem decides_readPosition (hv : ∀ item ∈ v.parts, item.Converts) :
    Decides .configuration (readPosition v) (IsPosition v) (MeansPosition v) := by
  unfold readPosition
  split
  next x y z =>
    have hitem : ∀ path, ∀ item ∈ [x, y, z],
        Decides .configuration (readFloat path item) item.IsNumber item.Means :=
      fun path item hitem => decides_readFloat path (hv item hitem)
    refine ((hitem _ x (by simp)).bind fun _ a ha => (hitem _ y (by simp)).bind fun _ b hb =>
      (hitem _ z (by simp)).bind fun _ c hc => .ok trivial ⟨x, y, z, rfl, ha, hb, hc⟩).congr ?_
    constructor
    · rintro ⟨hx, hy, hz, -⟩
      exact ⟨x, y, z, rfl, hx, hy, hz⟩
    · rintro ⟨x', y', z', ⟨⟩, hx, hy, hz⟩
      exact ⟨hx, hy, hz, trivial⟩
  next hshape =>
    refine .error ?_ rfl
    rintro ⟨x, y, z, hv, -⟩
    exact hshape x y z hv

theorem decides_readRoot (default : Float) (hv : FieldsConvert v ["diameter"])
    (hposition : ∀ f, v.field? "position" = some f → ∀ item ∈ f.parts, item.Converts) :
    Decides .configuration (readRoot (.float default) v) (IsRoot default v)
      (GivesRoot default v) := by
  have hbound : ∀ position diameter, v.Gives "position" MeansPosition ⟨0.0, 0.0, 0.0⟩ position →
      v.Gives "diameter" Json.Means default diameter →
      Decides .configuration
        (if 0.0 ≤ diameter then pure ⟨position, diameter⟩
          else throw (.outsideBound "root.diameter" .nonNegative) : Except Fault (Joint Float))
        (∃ x, v.Gives "diameter" Json.Means default x ∧ NonNegative x)
        (GivesRoot default v) := by
    intro position diameter hposition hdiameter
    split
    next hle => exact .ok ⟨_, hdiameter, (Binary64.nonNegative_iff _).1 hle⟩ ⟨hposition, hdiameter⟩
    next hle =>
      refine .error ?_ rfl
      rintro ⟨x, hx, hpositive⟩
      obtain rfl := hx.unique (fun _ _ _ ha hb => ha.unique hb) hdiameter
      exact hle ((Binary64.nonNegative_iff x).2 hpositive)
  have hfields : ∀ fields, v = .object fields →
      Decides .configuration
        (field fields "position" ⟨0.0, 0.0, 0.0⟩ readPosition >>= fun position =>
          field fields "diameter" default (readFloat "root.diameter") >>= fun diameter =>
            if 0.0 ≤ diameter then pure ⟨position, diameter⟩
            else throw (.outsideBound "root.diameter" .nonNegative) : Except Fault (Joint Float))
        (v.Allows "position" IsPosition ∧ v.Allows "diameter" Json.IsNumber ∧
          ∃ x, v.Gives "diameter" Json.Means default x ∧ NonNegative x)
        (GivesRoot default v) := fun fields hobject =>
    (decides_field hobject fun f hf => decides_readPosition (hposition f hf)).bind
      fun _ position hposition =>
    (decides_field hobject fun f hf => decides_readFloat _ (hv _ (by decide) f hf)).bind
      fun _ diameter hdiameter => hbound position diameter hposition hdiameter
  refine ((decides_readObject _).bind fun _ fields hobject => hfields fields hobject).congr ?_
  constructor
  · rintro ⟨hobject, hposition, hdiameter, hnonNegative⟩
    exact ⟨hobject, hposition, hdiameter, hnonNegative⟩
  · rintro ⟨hobject, hposition, hdiameter, hnonNegative⟩
    exact ⟨hobject, hposition, hdiameter, hnonNegative⟩

/-! ## Parameters -/

section Params

variable {species : String} {fields : Table LooseText Json}

theorem decides_readParamName (entry : LooseText × Json) :
    Decides .configuration (readParamName species entry)
      (∃ name ∈ HondaParams.names, entry.1 = LooseText.ofString name)
      fun named => named.1 ∈ HondaParams.names ∧ entry = (LooseText.ofString named.1, named.2) := by
  unfold readParamName
  split
  next known hfound =>
    have hmem := List.mem_of_find?_eq_some hfound
    have hknown : LooseText.ofString known = entry.1 := by simpa using List.find?_some hfound
    exact .ok ⟨known, hmem, hknown.symm⟩ ⟨hmem, by rw [hknown]⟩
  next hfound =>
    refine .error ?_ rfl
    rintro ⟨name, hname, hentry⟩
    exact List.find?_eq_none.1 hfound name hname (by simpa using hentry.symm)

/-- A parameter that has been read has the name and the meaning of a field. -/
def ReadAs (entry : LooseText × Json) (value : String × Number) : Prop :=
  value.1 ∈ HondaParams.names ∧ entry.1 = LooseText.ofString value.1 ∧
    ∃ x, entry.2.Means x ∧ value.2 = .float x

theorem names_of_readAs {values : Table String Number}
    (h : List.Forall₂ ReadAs fields values) :
    Table.names fields = values.names.map LooseText.ofString := by
  induction h with
  | nil => rfl
  | cons hentry _ ih => exact congrArg₂ _ hentry.2.1 ih

/-- A parameter is found under the name of its field. -/
theorem get?_of_readAs {values : Table String Number} (h : List.Forall₂ ReadAs fields values)
    (name : String) :
    Option.Rel (fun f a => ∃ x, Json.Means f x ∧ a = Number.float x)
      (fields.get? (LooseText.ofString name)) (values.get? name) := by
  induction h with
  | nil => exact .none
  | @cons entry value fields values hentry _ ih =>
    obtain ⟨written, f⟩ := entry
    obtain ⟨known, a⟩ := value
    obtain ⟨-, rfl, hmeans⟩ : _ ∧ written = LooseText.ofString known ∧ _ := hentry
    unfold Table.get?
    by_cases hname : known = name
    · rw [if_pos hname, if_pos (congrArg _ hname)]
      exact .some hmeans
    · rw [if_neg hname, if_neg (mt LooseText.ofString_inj.1 hname)]
      exact ih

/-- What is read as parameters gives them their values, and all others their defaults. -/
theorem givesParams_of_readAs {values : Table String Number} (hv : v = .object fields)
    (h : List.Forall₂ ReadAs fields values) (hnames : (Table.names fields).Nodup) :
    ∃ p, HondaParams.ofTable values = .ok p ∧ GivesParams v p := by
  subst hv
  rw [names_of_readAs h] at hnames
  have hknown : ∀ value ∈ values, value.1 ∈ HondaParams.names :=
    forall_of_forall₂ h.flip fun value entry hentry => hentry.1
  obtain ⟨p, hp, hget⟩ := HondaParams.exists_ofTable_get? hknown hnames.of_map
  refine ⟨p, hp, fun name default hdefault => ?_⟩
  have hdistinct : (({} : HondaParams).toTable).names.Nodup := by decide
  rw [hget, Table.get?_of_mem hdistinct hdefault]
  have hfound := get?_of_readAs h name
  have hfield : (Json.object fields).field? name = fields.get? (LooseText.ofString name) := rfl
  simp only [Json.Gives, hfield]
  generalize values.get? name = found at hfound ⊢
  generalize fields.get? (LooseText.ofString name) = field at hfound ⊢
  cases hfound with
  | none => exact ⟨default, rfl, rfl⟩
  | some hmeans =>
    obtain ⟨x, hx, rfl⟩ := hmeans
    exact ⟨x, rfl, hx⟩

/-- The values of parameters whose names are known. -/
theorem decides_paramValues {named : List (String × Json)}
    (hconverts : ∀ entry ∈ named, entry.2.Converts) :
    Decides .configuration
      (named.mapM fun (name, value) => do
        let x ← readFloat s!"params.{name}" value
        return (name, Number.float x))
      (∀ entry ∈ named, entry.2.IsNumber)
      (List.Forall₂ (fun entry value => value.1 = entry.1 ∧
        ∃ x, entry.2.Means x ∧ value.2 = Number.float x) named) :=
  .mapM_forall₂ fun entry hentry =>
    ((decides_readFloat _ (hconverts entry hentry)).bind fun _ x hx =>
      .ok trivial ⟨rfl, x, hx, rfl⟩).congr (and_iff_left trivial)

theorem decides_readParams (hv : ∀ item ∈ v.parts, item.Converts)
    (hnames : ∀ fields, v = .object fields → (Table.names fields).Nodup) :
    Decides .configuration (readParams species v) (IsParams v) (GivesParams v) := by
  cases v with
  | object fields =>
    have hnames := hnames fields rfl
    have hconverts : ∀ entry ∈ fields, entry.2.Converts :=
      fun entry hentry => hv _ (List.mem_map_of_mem hentry)
    have hread : Decides .configuration (readParams species (.object fields))
        ((∀ entry ∈ fields, ∃ name ∈ HondaParams.names, entry.1 = LooseText.ofString name) ∧
          (∀ entry ∈ fields, entry.2.IsNumber) ∧ True) (GivesParams (.object fields)) := by
      refine (Decides.mapM_forall₂ fun entry _ => decides_readParamName entry).bind
        fun _ named hnamed => ?_
      have hsame : ∀ {p : Json → Prop},
          (∀ entry ∈ fields, p entry.2) ↔ ∀ entry ∈ named, p entry.2 :=
        forall_mem_iff_of_forall₂ hnamed fun entry named h => by rw [h.2]
      refine ((decides_paramValues (hsame.1 hconverts)).congr hsame.symm).bind
        fun _ values hvalues => ?_
      obtain ⟨p, hp, hgives⟩ := givesParams_of_readAs rfl
        (forall₂_trans hnamed hvalues fun entry named value hnamed hvalue =>
          ⟨hvalue.1 ▸ hnamed.1, hvalue.1 ▸ congrArg Prod.fst hnamed.2, hnamed.2 ▸ hvalue.2⟩) hnames
      rw [hp]
      exact .ok trivial hgives
    refine hread.congr ⟨?_, ?_⟩
    · rintro ⟨hknown, hnumbers, -⟩
      exact ⟨fields, rfl, fun entry hentry => ⟨hknown entry hentry, hnumbers entry hentry⟩⟩
    · rintro ⟨_, ⟨⟩, hentries⟩
      exact ⟨fun entry h => (hentries entry h).1, fun entry h => (hentries entry h).2, trivial⟩
  | _ => exact .error (by rintro ⟨fields, ⟨⟩, -⟩) rfl

end Params

/-! ## Plans -/

section Document

variable {value : Json}

/-- The fields of an object at a path convert where doubles are asked for. -/
theorem fieldsConvert_of_measures
    (hconverts : ∀ n, .int n ∈ measures value → Binary64.ofInt? n ≠ none) (path : List String)
    {names : List String}
    (hfields : ∀ name f, v.field? name = some f → value.at? (path ++ [name]) = some f)
    (hnames : ∀ name ∈ names, path ++ [name] ∈ measurePaths) : FieldsConvert v names := by
  rintro name hname f hf n rfl
  exact hconverts n (mem_measures (hfields name _ hf) (hnames name hname))

theorem partsConvert_of_measures
    (hconverts : ∀ n, .int n ∈ measures value → Binary64.ofInt? n ≠ none) (path : List String)
    (hv : value.at? path = some v) (hpath : path ∈ measureListPaths) :
    ∀ item ∈ v.parts, item.Converts := by
  rintro item hitem n rfl
  exact hconverts n (mem_measures_of_mem_parts hv hpath hitem)

theorem decides_system {fields : Table LooseText Json} {p : HondaParams}
    (hpower : ∀ fault, ¬ NoPower value fault) (hobject : value = .object fields)
    (hp : field fields "params" {} (readParams "honda") = .ok p) :
    Decides .configuration (Honda.system .binary64 p) True
      fun system => Honda.system .binary64 p = .ok system := by
  have hfails := failsOnly_system hobject hp
  cases hsystem : Honda.system .binary64 p with
  | error fault => exact (hpower fault (hfails fault hsystem)).elim
  | ok system => exact .ok trivial rfl

/-- The root diameter of the parameters that a value gives. -/
theorem GivesParams.rootDiameter {p : HondaParams} (h : GivesParams (value.inner "params") p) :
    ∃ x, p.rootDiameter = .float x ∧ RootDiameter value x := by
  obtain ⟨x, hx, hgives⟩ := h "root_diameter" 10.0 (by simp [HondaParams.toTable])
  exact ⟨x, Option.some.inj hx, hgives⟩

/-- One species is known. -/
theorem eq_honda_of_gives {name : String}
    (h : value.Gives "species" (fun f name => name ∈ Species.names ∧ f = .text name) "honda" name) :
    name = "honda" := by
  unfold Json.Gives at h
  cases hf : value.field? "species" with
  | some f =>
    rw [hf] at h
    exact List.mem_singleton.1 h.1
  | none =>
    rw [hf] at h
    exact h

theorem at?_singleton (value : Json) (name : String) : value.at? [name] = value.field? name := by
  show value.field? name >>= pure = _
  cases value.field? name <;> rfl

theorem decides_innerParams
    (hconverts : ∀ n, .int n ∈ measures value → Binary64.ofInt? n ≠ none)
    (hnames : ∀ fields, value.field? "params" = some (.object fields) →
      (Table.names fields).Nodup) :
    Decides .configuration (readParams "honda" (value.inner "params"))
      (IsParams (value.inner "params")) (GivesParams (value.inner "params")) := by
  unfold Json.inner
  cases hfield : value.field? "params" with
  | none =>
    refine decides_readParams (by simp [Json.parts]) ?_
    rintro _ ⟨⟩
    exact .nil
  | some f =>
    have hpath : value.at? ["params"] = some f := by
      rw [at?_singleton, hfield]
    refine decides_readParams (partsConvert_of_measures hconverts _ hpath (by decide)) ?_
    rintro fields rfl
    exact hnames fields hfield

theorem decides_ofJson
    (hconverts : ∀ n, .int n ∈ measures value → Binary64.ofInt? n ≠ none)
    (hpower : ∀ fault, ¬ NoPower value fault)
    (hnames : ∀ fields, value.field? "params" = some (.object fields) →
      (Table.names fields).Nodup) :
    Decides .configuration (ofJson value) (IsPlan value) (GivesPlan value) := by
  have hparams := decides_innerParams hconverts hnames
  have hroot : ∀ d, Decides .configuration (readRoot (.float d) (value.inner "root"))
      (IsRoot d (value.inner "root")) (GivesRoot d (value.inner "root")) := fun d =>
    decides_readRoot d
      (fieldsConvert_of_measures hconverts ["root"]
        (fun name f hf => by rw [← hf, Json.field?_inner]; rfl) (by decide))
      fun f hf => partsConvert_of_measures hconverts ["root", "position"]
        (by rw [← hf, Json.field?_inner]) (by decide)
  have hsvg : Decides .configuration (readSvg (value.inner "svg")) (IsSvg (value.inner "svg"))
      (GivesSvg (value.inner "svg")) := decides_readSvg
    (fieldsConvert_of_measures hconverts ["svg"]
      (fun name f hf => by rw [← hf, Json.field?_inner]; rfl) (by decide))
    (fieldsConvert_of_measures hconverts ["svg", "style"]
      (fun name f hf => by rw [← hf, Json.field?_inner_inner]; rfl) (by decide))
  have hread : Decides .configuration (ofJson value)
      ((∃ fields, value = .object fields) ∧
        value.Allows "name" (fun f => ∃ s, f = .text s) ∧
        value.Allows "species" (fun f => ∃ name ∈ Species.names, f = .text name) ∧
        value.Allows "iterations" (fun f => ∃ n : Int, f = .int n ∧ 0 ≤ n) ∧
        IsParams (value.inner "params") ∧ True ∧
        (∃ x, RootDiameter value x ∧ IsRoot x (value.inner "root")) ∧
        IsSvg (value.inner "svg") ∧ True)
      (GivesPlan value) := by
    refine (decides_readObject _).bind fun _ fields hobject =>
      (decides_field hobject fun f _ => decides_readText _).bind fun _ name hname =>
      (decides_field hobject fun f _ => decides_readSpeciesName).bind fun _ species hspecies =>
      (decides_field hobject fun f _ => decides_generationCount).bind fun _ iterations hcount => ?_
    obtain rfl := eq_honda_of_gives hspecies
    refine (field_eq_inner (readParams "honda") hobject rfl ▸ hparams).with_result.bind
      fun _ params hgives => ?_
    refine (decides_system hpower hobject hgives.1).bind fun _ system hsystem => ?_
    obtain ⟨d, hd, hdiameter⟩ := hgives.2.rootDiameter
    have hinner : (fields.get? (LooseText.ofString "root")).getD (.object []) =
        value.inner "root" := by
      rw [hobject]
      rfl
    rw [hd, hinner]
    refine ((hroot d).congr ⟨fun h => ⟨d, hdiameter, h⟩, ?_⟩).bind fun _ root hgivesRoot => ?_
    · rintro ⟨x, hx, h⟩
      rwa [hdiameter.unique (fun _ _ _ ha hb => ha.unique hb) hx]
    · exact (field_eq_inner readSvg hobject rfl ▸ hsvg).bind fun _ svg hgivesSvg =>
        .ok trivial ⟨hname, ⟨params, rfl, hgives.2, hsystem⟩, hcount, ⟨d, hdiameter, hgivesRoot⟩,
          hgivesSvg⟩
  refine hread.congr ⟨?_, ?_⟩
  · rintro ⟨hobject, hname, hspecies, hcount, hparams, -, hroot, hsvg, -⟩
    exact ⟨hobject, hname, hspecies, hcount, hparams, hroot, hsvg⟩
  · rintro ⟨hobject, hname, hspecies, hcount, hparams, hroot, hsvg⟩
    exact ⟨hobject, hname, hspecies, hcount, hparams, trivial, hroot, hsvg, trivial⟩

/-- **What is read as a plan, and as which.** Let the integers of a value convert to doubles where
doubles are asked for, let the species' power exist, and let no parameter be given twice. Then the
value is read as a plan exactly if all its fields are left out or of their kinds and within their
bounds, and the plan has what they mean, and the defaults for those left out. -/
theorem ofJson_iff (value : Json)
    (hconverts : ∀ n, .int n ∈ measures value → Binary64.ofInt? n ≠ none)
    (hpower : ∀ fault, ¬ NoPower value fault)
    (hnames : ∀ fields, value.field? "params" = some (.object fields) →
      (Table.names fields).Nodup) :
    ((∃ plan, ofJson value = .ok plan) ↔ IsPlan value) ∧
      ∀ plan, ofJson value = .ok plan → GivesPlan value plan :=
  have hdecides := decides_ofJson hconverts hpower hnames
  ⟨hdecides.exists_ok_iff, fun _ => hdecides.holds_of_ok⟩

/-- A plan that gives the diameter of the root among the parameters, and a field that has no
meaning. -/
def described : Json := .object [
  ("species", .text "honda"), ("iterations", .int 4), ("soil", .truth true),
  ("params", .object [("branch_diameter_conservation_factor", .float 0.0),
    ("root_diameter", .int 7)]),
  ("root", .object [("position", .list [.int 1, .float 2.5, .int (-3)])]),
  ("svg", .object [("precision", .int 2), ("width", .null)])]

theorem converts_described : ∀ n, .int n ∈ measures described → Binary64.ofInt? n ≠ none := by
  have hmeasures : measures described =
      [.null, .float 0.0, .int 7, .int 1, .float 2.5, .int (-3)] := rfl
  have hints : ∀ n ∈ [7, 1, -3], (Binary64.ofInt? n).isSome = true := by decide +kernel
  intro n hn
  rw [hmeasures] at hn
  exact Option.isSome_iff_ne_none.1 (hints n (by simpa using hn))

theorem nodup_described : ∀ fields, described.field? "params" = some (.object fields) →
    (Table.names fields).Nodup := by
  rintro fields ⟨⟩
  decide

/-- The power is zero to the power one half. -/
theorem not_noPower_described (fault : Fault) : ¬ NoPower described fault := by
  rintro ⟨fields, p, x, y, hobject, hp, hx, hy, hfault, -⟩
  rw [field_eq_inner (readParams "honda") hobject rfl] at hp
  have hgives := (decides_innerParams converts_described nodup_described).holds_of_ok hp
  obtain ⟨z, hz, hmeans⟩ :=
    hgives "branch_diameter_conservation_factor" 0.50 (by simp [HondaParams.toTable])
  obtain rfl : y = 0.0 := by
    cases hmeans
    have hsame : some p.branchDiameterConservationFactor = some (.float 0.0) := hz
    rw [hy] at hsame
    cases hsame
    rfl
  have hzero : ((0.0 : Float) == 0.0) = true := by decide +kernel
  rw [Number.floatPow, if_pos hzero] at hfault
  cases hfault

theorem isRoot_described {d : Float} (hd : NonNegative d) :
    IsRoot d (described.inner "root") := by
  refine ⟨⟨_, rfl⟩, ?_, by rintro f ⟨⟩, d, rfl, hd⟩
  rintro f ⟨⟩
  exact ⟨_, _, _, rfl, Or.inl ⟨1, rfl⟩, Or.inr ⟨2.5, rfl⟩, Or.inl ⟨-3, rfl⟩⟩

theorem isSvg_described : IsSvg (described.inner "svg") := by
  refine ⟨⟨_, rfl⟩, by rintro f ⟨⟩, ?_, by rintro f ⟨⟩, ?_, by rintro f ⟨⟩,
    ⟨⟨_, rfl⟩, by rintro f ⟨⟩, by rintro f ⟨⟩, by rintro f ⟨⟩, by rintro f ⟨⟩⟩, by rintro f ⟨⟩⟩
  · rintro f ⟨⟩
    exact ⟨2, rfl, by decide, by decide⟩
  · rintro f ⟨⟩
    exact Or.inl rfl

theorem isPlan_described : IsPlan described := by
  have hseven : (Binary64.ofInt? 7).any (fun d => 0.0 ≤ d) = true := by decide +kernel
  obtain ⟨d, hd, hle⟩ : ∃ d, Binary64.ofInt? 7 = some d ∧ 0.0 ≤ d := by
    simpa [Option.any_eq_true] using hseven
  have hroot := isRoot_described ((Binary64.nonNegative_iff d).1 hle)
  refine ⟨⟨_, rfl⟩, by rintro f ⟨⟩, ?_, ?_, ⟨_, rfl, ?_⟩, ⟨d, .int hd, hroot⟩, isSvg_described⟩
  · rintro f ⟨⟩
    exact ⟨"honda", by decide, rfl⟩
  · rintro f ⟨⟩
    exact ⟨4, rfl, by decide⟩
  · simp only [List.forall_mem_cons]
    exact ⟨⟨⟨_, by decide, rfl⟩, Or.inr ⟨0.0, rfl⟩⟩, ⟨⟨_, by decide, rfl⟩, Or.inl ⟨7, rfl⟩⟩,
      List.forall_mem_nil _⟩

theorem ofJson_iff_described :
    ∃ plan, ofJson described = .ok plan ∧ plan.iterations = 4 ∧
      Binary64.ofInt? 7 = some plan.root.diameter ∧ plan.svg.width = none := by
  have hread :=
    ofJson_iff described converts_described not_noPower_described nodup_described
  obtain ⟨plan, hplan⟩ := hread.1.2 isPlan_described
  have hgives := hread.2 plan hplan
  refine ⟨plan, hplan, ?_, ?_, ?_⟩
  · have hcount : (.int 4 : Json) = .int plan.iterations := hgives.iterations
    exact (Int.ofNat.inj (Json.int.inj hcount)).symm
  · obtain ⟨x, hx, hdiameter⟩ := hgives.root
    have hx : Json.Means (.int 7) x := hx
    have hsame : plan.root.diameter = x := hdiameter.diameter
    cases hx with
    | int hx => rw [hsame, hx]
  · have hwidth : Json.OrNull Json.Means .null plan.svg.width := hgives.svg.width
    generalize plan.svg.width = width at hwidth ⊢
    cases hwidth with
    | null => rfl
    | some hnull => exact absurd rfl hnull

end Document

end Plan

end Arbor
