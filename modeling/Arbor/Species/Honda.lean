import Arbor.Number.Power
import Arbor.Turtle.Basic
import Arbor.Value.Operation

/-!
# Honda's tree

Honda's model of a tree with a main axis. An apex `A(s, w)` lays down an internode of length `s`
and diameter `w` and splits into two lateral apices, each turned by a pitch and a yaw of its own
and shortened by a factor of its own. Both are thinner by the same factor, a power of two of the
parameters.
-/

namespace Arbor

/-- The parameters of Honda's tree. Angles are in degrees. -/
structure HondaParams where
  internodeScaleFactor1 : Number := .float 0.60
  internodeScaleFactor2 : Number := .float 0.85
  branchYaw1 : Number := .float 25.0
  branchYaw2 : Number := .float (-15.0)
  branchPitch1 : Number := .float 180.0
  branchPitch2 : Number := .float 180.0
  branchDifferentialDiameterFactor : Number := .float 0.45
  branchDiameterConservationFactor : Number := .float 0.50
  rootDiameter : Number := .float 10.0
  rootLength : Number := .float 100.0

namespace HondaParams

instance : Inhabited HondaParams := ⟨{}⟩

def toTable (p : HondaParams) : Table String Number := [
  ("internode_scale_factor_1", p.internodeScaleFactor1),
  ("internode_scale_factor_2", p.internodeScaleFactor2),
  ("branch_yaw_1", p.branchYaw1),
  ("branch_yaw_2", p.branchYaw2),
  ("branch_pitch_1", p.branchPitch1),
  ("branch_pitch_2", p.branchPitch2),
  ("branch_differential_diameter_factor", p.branchDifferentialDiameterFactor),
  ("branch_diameter_conservation_factor", p.branchDiameterConservationFactor),
  ("root_diameter", p.rootDiameter),
  ("root_length", p.rootLength)]

def names : List String := (toTable {}).names

def set? (p : HondaParams) (name : String) (value : Number) : Option HondaParams :=
  match name with
  | "internode_scale_factor_1" => some { p with internodeScaleFactor1 := value }
  | "internode_scale_factor_2" => some { p with internodeScaleFactor2 := value }
  | "branch_yaw_1" => some { p with branchYaw1 := value }
  | "branch_yaw_2" => some { p with branchYaw2 := value }
  | "branch_pitch_1" => some { p with branchPitch1 := value }
  | "branch_pitch_2" => some { p with branchPitch2 := value }
  | "branch_differential_diameter_factor" =>
    some { p with branchDifferentialDiameterFactor := value }
  | "branch_diameter_conservation_factor" =>
    some { p with branchDiameterConservationFactor := value }
  | "root_diameter" => some { p with rootDiameter := value }
  | "root_length" => some { p with rootLength := value }
  | _ => none

/-- The default parameters with those of a table set. One name stands for what is being made, so it
is taken already. -/
def ofTable (values : Table String Number) : Except Fault HondaParams :=
  values.foldlM (fun p (name, value) =>
    match p.set? name value with
    | some p => .ok p
    | none =>
      if name = "self" then .error (.repeatedParameter name)
      else .error (.unexpectedParameter name)) {}

/-- The factor by which lateral apices are thinner. -/
def shrink (p : HondaParams) : Except Fault Number :=
  p.branchDifferentialDiameterFactor.pow p.branchDiameterConservationFactor

end HondaParams

namespace Honda

def alphabet : Alphabet := ⟨Alphabet.turtle.entries ++ [("A", .count 2)]⟩

/-- A lateral apex between brackets. -/
def lateral (pitch yaw scale shrink : Number) (s w : Value) : Except Fault Word := do
  let length ← s.mul scale
  let width ← w.mul shrink
  let angles : List Number := [.float 0.0, pitch, yaw]
  return [⟨"[", []⟩, ⟨"R", angles.map Value.number⟩, ⟨"A", [length, width]⟩, ⟨"]", []⟩]

/-- What an apex of length `s` and diameter `w` becomes. -/
def split (p : HondaParams) (shrink : Number) (s w : Value) : Except Fault Word := do
  let first ← lateral p.branchPitch1 p.branchYaw1 p.internodeScaleFactor1 shrink s w
  let second ← lateral p.branchPitch2 p.branchYaw2 p.internodeScaleFactor2 shrink s w
  return [⟨"W", [w]⟩, ⟨"F", [s]⟩] ++ first ++ second

/-- What the apex becomes whose length and diameter are bound to `s` and `w`. -/
def splitBound (p : HondaParams) (shrink : Number) (b : Bindings) : Except Fault Word :=
  match b.get? "s", b.get? "w" with
  | some s, some w => split p shrink s w
  | none, _ => .error (.unboundAttribute "s")
  | _, none => .error (.unboundAttribute "w")

def ruleSource (p : HondaParams) (shrink : Number) : RuleSource :=
  ⟨"A(s, w)", none, none, .absent, .function (splitBound p shrink)⟩

def grammar (p : HondaParams) : Except Fault Grammar := do
  let shrink ← p.shrink
  Grammar.ofRules alphabet [ruleSource p shrink]

def seed (p : HondaParams) : Word := [⟨"A", [.number p.rootLength, .number p.rootDiameter]⟩]

def system (g : Geometry R) (p : HondaParams) : Except Fault (LSystem (Joint R) (Pose R)) := do
  let grammar ← grammar p
  return .ofCommands g (seed p) grammar Command.standard

/-- The root: at the origin, with the diameter of the parameters. -/
def root (g : Geometry R) (p : HondaParams) : Except Fault (Joint R) := do
  let diameter ← g.measure p.rootDiameter
  return ⟨⟨g.zero, g.zero, g.zero⟩, diameter⟩

end Honda

end Arbor
