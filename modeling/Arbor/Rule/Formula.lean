import Arbor.Alphabet
import Arbor.Rule.Bindings
import Arbor.Value.Operation

/-!
# Formulas

Guards and producers can be given as formulas over the bound names. A comparison gives a truth
value; `and` and `or` give the operand that decides them and do not look at the second one if
the first decides. Operands are evaluated from left to right, and the first fault ends the
evaluation. A number in a formula is read when the formula is evaluated, not before.
-/

namespace Arbor

/-- A formula over the bound names. A name can be looked up in two ways, which differ in the
fault of one that is not bound; only the second finds the members of bindings. -/
inductive Formula
  | named (name : String)
  | attribute (name : String)
  | numeral (text : String)
  | isBound (name : String)
  | neg (e : Formula)
  | arithmetic (op : ArithmeticOp) (e f : Formula)
  | comparison (op : ComparisonOp) (e f : Formula)
  | both (e f : Formula)
  | either (e f : Formula)
  | not (e : Formula)

namespace Formula

/-- What a formula comes to. -/
def eval (b : Bindings) : Formula → Except Fault Value
  | .named name =>
    match b.get? name with
    | some value => .ok value
    | none => .error (.unboundName name)
  | .attribute name =>
    match b.member? name, b.get? name with
    | some value, _ | none, some value => .ok value
    | none, none => .error (.unboundAttribute name)
  | .numeral text => do
    let value ← Number.read text
    return .number value
  | .isBound name => .ok (.number (.truth (b.contains name)))
  | .neg e => do
    let x ← e.eval b
    x.neg
  | .arithmetic op e f => do
    let x ← e.eval b
    let y ← f.eval b
    op.apply x y
  | .comparison op e f => do
    let x ← e.eval b
    let y ← f.eval b
    let holds ← op.apply x y
    return .number (.truth holds)
  | .both e f => do
    let x ← e.eval b
    if x.isTrue then f.eval b else return x
  | .either e f => do
    let x ← e.eval b
    if x.isTrue then return x else f.eval b
  | .not e => do
    let x ← e.eval b
    return .number (.truth (!x.isTrue))

/-- Whether a formula holds: what it comes to counts as true. -/
def holds (e : Formula) (b : Bindings) : Except Fault Bool := do
  let x ← e.eval b
  return x.isTrue

end Formula

/-- A word whose parameters are formulas. If it is checked, its symbols have to fit an alphabet.
-/
structure Template where
  symbols : List (String × List Formula)
  checkedBy : Option Alphabet

namespace Template

def buildSymbol (t : Template) (b : Bindings) (tag : String) (formulas : List Formula) :
    Except Fault Symbol := do
  let params ← formulas.mapM fun e => e.eval b
  match t.checkedBy with
  | some a => a.symbol tag params
  | none => return ⟨tag, params⟩

/-- The word that a template gives. What its formulas compute is made where the bindings were. -/
def build (t : Template) (b : Bindings) : Except Fault Word := do
  let w ← t.symbols.mapM fun (tag, formulas) => t.buildSymbol b tag formulas
  return Word.madeBy (.firing b.site) w

end Template

end Arbor
