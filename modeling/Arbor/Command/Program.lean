import Arbor.Command.Report

/-!
# The program

The program reads one file, grows the plan in it, and then prints or writes what it was asked for.
It goes by steps, any of which may fail, and what has been printed and written before a fault stays.
It is the same program wherever files are read and texts are printed (`Console`): on a computer, or
in a workspace.
-/

namespace Arbor.Cli

/-- What a program can ask for: the bytes of a file, a text to be written to a file, and texts on
the standard output and beside it. -/
class Console (m : Type → Type) where
  readFile (path : String) : m (List UInt8)
  writeFile (path : String) (contents : LooseText) : m Unit
  print (text : LooseText) : m Unit
  warn (text : LooseText) : m Unit

section Programs

variable {m : Type → Type} [Monad m] [MonadExcept Fault m] [Console m]

def Invocation.grow (invocation : Invocation) : m Grown := do
  let bytes ← Console.readFile invocation.task.config
  let plan ← MonadExcept.ofExcept (readPlan invocation.task bytes)
  let (log, grown) := Cli.grow plan
  Console.warn (if invocation.verbose then log else "")
  MonadExcept.ofExcept grown

def Task.answer (grown : Grown) : Task → m Unit
  | .edges _ => grown.tree.edges.forM fun edge => Console.print (edgeLine edge)
  | .validate _ => (summaryLines grown).forM Console.print
  | .svg _ output => do
    let contents ← MonadExcept.ofExcept (drawing grown)
    match output with
    | some path => Console.writeFile path contents
    | none => throw .pathNotText

def Invocation.carryOut (invocation : Invocation) : m Unit := do
  let grown ← invocation.grow
  invocation.task.answer grown

/-- Tells the user of a fault, if it is one that the user is told of, and gives the exit code. -/
def tell (fault : Fault) : m Nat :=
  match concern? fault.kind with
  | some concern => do
    Console.warn (LooseText.ofString concern ++ fault.message ++ [.char '\n'])
    return 2
  | none => throw fault

def Invocation.run (invocation : Invocation) : m Nat :=
  tryCatch (do invocation.carryOut; return 0) tell

end Programs

end Arbor.Cli
