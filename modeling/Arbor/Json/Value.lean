import Arbor.Number.Basic
import Arbor.Table
import Arbor.Text.Loose

/-!
# JSON values

The values a document holds. Integers and doubles stay distinct, texts may hold lone surrogates,
and the fields of an object keep the order in which their names first occur.
-/

namespace Arbor

/-- A value of a document. -/
inductive Json
  | null
  | truth (b : Bool)
  | int (n : Int)
  | float (x : Float)
  | text (s : LooseText)
  | list (items : List Json)
  | object (fields : List (LooseText × Json))

namespace Json

instance : Inhabited Json := ⟨.null⟩

/-- The number that a value is; a truth value counts as one. -/
def number? : Json → Option Number
  | .truth b => some (.truth b)
  | .int n => some (.int n)
  | .float x => some (.float x)
  | _ => none

mutual

/-- Equality of values: numbers by value, objects without regard to order. -/
def same : Json → Json → Bool
  | .null, .null => true
  | .text s, .text t => s == t
  | .list xs, .list ys => sameLists xs ys
  | .object xs, .object ys => xs.length == ys.length && sameFields xs ys
  | x, y =>
    match x.number?, y.number? with
    | some a, some b => a.same b
    | _, _ => false

def sameLists : List Json → List Json → Bool
  | [], [] => true
  | x :: xs, y :: ys => same x y && sameLists xs ys
  | _, _ => false

/-- Whether each field of the first object is the same in the second. -/
def sameFields : List (LooseText × Json) → List (LooseText × Json) → Bool
  | [], _ => true
  | (name, x) :: rest, ys =>
    (match Table.get? ys name with
    | some y => same x y
    | none => false) && sameFields rest ys

end

def string? : Json → Option String
  | .text s => s.toString?
  | _ => none

def kindName : Json → String
  | .null => "NoneType"
  | .truth _ => "bool"
  | .int _ => "int"
  | .float _ => "float"
  | .text _ => "str"
  | .list _ => "list"
  | .object _ => "dict"

end Json

end Arbor
