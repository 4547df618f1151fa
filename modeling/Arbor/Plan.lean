import Arbor.Drawing.Svg
import Arbor.Json.Reader
import Arbor.Species.Honda

/-!
# Plans

A plan says what to grow and how to draw it. It is read from an object like

    {"name": "Honda tree", "species": "honda", "iterations": 6,
     "params": {"branch_yaw_1": 30, "root_length": 80},
     "root": {"position": [0, 0, 0], "diameter": 10},
     "svg": {"margin": 10, "style": {"stroke": "#3a2a1a"}}}

in which every field may be left out. Parameters left out keep the species' defaults, and the root
is by default at the origin with the species' root diameter. Fields that have no meaning are
passed over, except in `params`. A truth value is never taken for a number.
-/

namespace Arbor

/-- A species with its parameters. -/
inductive Species
  | honda (params : HondaParams)

namespace Species

def names : List String := ["honda"]

/-- The name that a summary gives a species. -/
def title : Species → String
  | .honda _ => "HondaD0L"

def params : Species → Table String Number
  | .honda p => p.toTable

end Species

/-- What to grow, from where, and how to draw it. -/
structure Plan where
  name : LooseText
  species : Species
  system : LSystem (Joint Float) (Pose Float)
  iterations : Nat
  root : Joint Float
  svg : SvgOptions

namespace Plan

/-- How deep a document that holds a plan may be nested. -/
def maxNesting : Nat := 989

/-! ## Fields -/

/-- A double; integers are rounded to one. -/
def readFloat (path : String) : Json → Except Fault Float
  | .int n => Number.roundInt n
  | .float x => .ok x
  | _ => .error (.wrongKind path .number)

def readInt (path : String) : Json → Except Fault Int
  | .int n => .ok n
  | _ => .error (.wrongKind path .integer)

def readText (path : String) : Json → Except Fault LooseText
  | .text s => .ok s
  | _ => .error (.wrongKind path .text)

def readTruth (path : String) : Json → Except Fault Bool
  | .truth b => .ok b
  | _ => .error (.wrongKind path .truth)

def readObject (path : String) : Json → Except Fault (Table LooseText Json)
  | .object fields => .ok fields
  | _ => .error (.wrongKind path .object)

/-- A field read by `read`, or `default` if it is left out. -/
def field (fields : Table LooseText Json) (name : String) (default : β)
    (read : Json → Except Fault β) : Except Fault β :=
  match fields.get? name with
  | some value => read value
  | none => .ok default

/-- A field read by `read`, or nothing if it is left out or null. -/
def optional (fields : Table LooseText Json) (name : String) (read : Json → Except Fault β) :
    Except Fault (Option β) :=
  match fields.get? name with
  | some .null | none => .ok none
  | some value => do
    let b ← read value
    return some b

def readNonNegative (path : String) (value : Json) : Except Fault Float := do
  let x ← readFloat path value
  if 0.0 ≤ x then return x else throw (.outsideBound path .nonNegative)

def readPositive (path : String) (value : Json) : Except Fault Float := do
  let x ← readFloat path value
  if 0.0 < x then return x else throw (.outsideBound path .positive)

/-! ## Drawing options -/

/-- The number of places of a coordinate, from zero to ten. -/
def readPlaces (path : String) (value : Json) : Except Fault Int := do
  let n ← readInt path value
  if 0 ≤ n && n ≤ 10 then return n else throw (.outsideBound path .placesOfDouble)

def readStyle (value : Json) : Except Fault SvgStyle := do
  let fields ← readObject "svg.style" value
  let default : SvgStyle := {}
  let stroke ← field fields "stroke" default.stroke (readText "svg.style.stroke")
  let widthScale ←
    field fields "width_scale" default.widthScale (readFloat "svg.style.width_scale")
  let minWidth ← field fields "min_width" default.minWidth (readFloat "svg.style.min_width")
  let lineCap ←
    field fields "stroke_linecap" default.lineCap (readText "svg.style.stroke_linecap")
  return ⟨stroke, widthScale, minWidth, lineCap⟩

def readSvg (value : Json) : Except Fault SvgOptions := do
  let fields ← readObject "svg" value
  let default : SvgOptions := {}
  let margin ← field fields "margin" default.margin fun value => do
    let margin ← readNonNegative "svg.margin" value
    return some margin
  let places ← field fields "precision" default.places (readPlaces "svg.precision")
  let flipY ← field fields "flip_y" default.flipY (readTruth "svg.flip_y")
  let width ← optional fields "width" (readPositive "svg.width")
  let height ← optional fields "height" (readPositive "svg.height")
  let style ← field fields "style" default.style readStyle
  let background ← optional fields "background" (readText "svg.background")
  return ⟨margin, places, flipY, width, height, style, background⟩

/-! ## The species and its root -/

def readSpeciesName (value : Json) : Except Fault String := do
  let name ← readText "species" value
  match Species.names.find? fun known => LooseText.ofString known = name with
  | some known => return known
  | none => throw (.unknownSpecies Species.names name)

/-- A field whose name has to be that of a parameter of the species. -/
def readParamName (species : String) (entry : LooseText × Json) : Except Fault (String × Json) :=
  match HondaParams.names.find? fun known => LooseText.ofString known = entry.1 with
  | some known => .ok (known, entry.2)
  | none => .error (.unknownParameter species entry.1)

/-- The parameters of the species. All names are checked before any value is. -/
def readParams (species : String) (value : Json) : Except Fault HondaParams := do
  let fields ← readObject "params" value
  let named ← fields.mapM (readParamName species)
  let values ← named.mapM fun (name, value) => do
    let x ← readFloat s!"params.{name}" value
    return (name, Number.float x)
  HondaParams.ofTable values

def readPosition (value : Json) : Except Fault (Vec3 Float) :=
  match value with
  | .list [x, y, z] => do
    let x ← readFloat "root.position[0]" x
    let y ← readFloat "root.position[1]" y
    let z ← readFloat "root.position[2]" z
    return ⟨x, y, z⟩
  | _ => .error .positionShape

/-- The root, which has the species' root diameter unless it is given one. -/
def readRoot (rootDiameter : Number) (value : Json) : Except Fault (Joint Float) := do
  let fields ← readObject "root" value
  let position ← field fields "position" ⟨0.0, 0.0, 0.0⟩ readPosition
  let default ← rootDiameter.toFloat
  let diameter ← field fields "diameter" default (readFloat "root.diameter")
  if 0.0 ≤ diameter then return ⟨position, diameter⟩
  else throw (.outsideBound "root.diameter" .nonNegative)

def ofJson (value : Json) : Except Fault Plan := do
  let fields ← readObject "config" value
  let name ← field fields "name" (LooseText.ofString "L-System tree") (readText "name")
  let speciesName ← field fields "species" "honda" readSpeciesName
  let iterations ← field fields "iterations" 0 Grammar.generationCount
  let params ← field fields "params" {} (readParams speciesName)
  let system ← Honda.system .binary64 params
  let root ← readRoot params.rootDiameter ((fields.get? "root").getD (.object []))
  let svg ← field fields "svg" {} readSvg
  return ⟨name, .honda params, system, iterations, root, svg⟩

def grow (p : Plan) : Except Fault (Tree (Joint Float)) := do
  let word ← p.system.evolve p.iterations
  p.system.interpretJoints .binary64 p.root word

end Plan

end Arbor
