import Arbor.Command.Arguments
import Arbor.Plan
import Arbor.Text.Utf8

/-!
# Reports

What a run of the program leaves behind, and what the tasks compute on the way: the plan in a file,
what it grows, the lines that are printed of this, and the drawing.
-/

namespace Arbor.Cli

/-- How a run of the program ends: with an exit code, or with a fault that the program does not
handle. -/
inductive Exit
  | code (n : Nat)
  | unhandled (fault : Fault)

/-- What a run of the program leaves behind, files apart. -/
structure Report where
  exit : Exit
  stdout : LooseText
  stderr : LooseText

/-- What the user is told a fault concerns. Faults of the configuration, of the L-system and of
files are told; others are not handled. -/
def concern? : FaultKind → Option String
  | .configuration => some "Config error: "
  | .malformedGrammar | .invalidHandle | .stackUnderflow => some "L-system error: "
  | .system => some "File error: "
  | _ => none

/-- The report of a command line that could not be read as a task. -/
def Report.ofHalt : Halt → Report
  | .help form => ⟨.code 0, form.help, ""⟩
  | .misuse form message =>
    ⟨.code 2, "", form.usage ++ form.program ++ ": error: " ++ message ++ "\n"⟩

/-! ## Growing -/

/-- How deep the document of a task may be nested. The calls that lead to its reader take their
share of the depth there is, and `validate` makes one fewer than the other tasks. -/
def Task.nesting : Task → Nat
  | .validate _ => Plan.maxNesting - 2
  | _ => Plan.maxNesting - 3

def readPlan (task : Task) (bytes : List UInt8) : Except Fault Plan := do
  let text ← Utf8.decode bytes
  let value ← Json.ofFile task.nesting task.config text
  Plan.ofJson value

/-- What growing a plan gives: the last word and the tree. -/
structure Grown where
  plan : Plan
  word : Word
  tree : Tree (Joint Float)

/-- The log of a sequence of generations, the first of which has number `k`. -/
def generationLog (k : Nat) : List Word → String
  | before :: after :: words =>
    s!"DEBUG lsystree.lsys: generation {k}: {before.length} -> {after.length} symbols\n" ++
      generationLog (k + 1) (after :: words)
  | _ => ""

/-- Grows a plan. The log is what has been logged up to the end or the fault. -/
def grow (plan : Plan) : String × Except Fault Grown :=
  let (words, stopped) := plan.system.grammar.history plan.system.seed plan.iterations
  let log := generationLog 1 words
  let word := words.getLastD []
  match stopped with
  | some fault => (log, .error fault)
  | none =>
    let log := log ++ s!"DEBUG lsystree.lsys: interpreting {word.length} symbols\n"
    match plan.system.interpretJoints .binary64 plan.root word with
    | .error fault => (log, .error fault)
    | .ok tree =>
      let size := s!"{tree.size} nodes from {word.length} symbols"
      (log ++ s!"INFO lsystree.lsys: built tree with {size}\n", .ok ⟨plan, word, tree⟩)

/-! ## Answers -/

def jointText (j : Joint Float) : String :=
  let x := Decimal.fixed 3 j.position.x
  let y := Decimal.fixed 3 j.position.y
  let z := Decimal.fixed 3 j.position.z
  let diameter := Decimal.fixed 3 j.diameter
  s!"(pos: ({x}, {y}, {z}), dia: {diameter})"

def edgeLine (edge : Joint Float × Joint Float) : String :=
  "Edge: " ++ jointText edge.1 ++ ", " ++ jointText edge.2 ++ "\n"

def summaryLines (g : Grown) : List LooseText := [
  LooseText.ofString "name: " ++ g.plan.name ++ LooseText.ofString "\n",
  LooseText.ofString s!"species: {g.plan.species.title}\n",
  LooseText.ofString s!"iterations: {g.plan.iterations}\n",
  LooseText.ofString s!"symbols: {g.word.length}\n",
  LooseText.ofString s!"nodes: {g.tree.size}\n",
  LooseText.ofString s!"edges: {g.tree.edges.length}\n"]

def drawing (g : Grown) : Except Fault LooseText :=
  Svg.render (Segment.ofTree g.tree) g.plan.svg (some g.plan.name)

end Arbor.Cli
