import Arbor.Value.Notation

/-!
# Bindings

The values that a rule's names stand for, in the order in which the names were bound. Some names
belong to bindings as such and are never bound: they stand for members of the bindings. Bindings
know where they were made, which tells their members from those of others.
-/

namespace Arbor

/-- Values by name, and the site where they were bound. -/
structure Bindings where
  values : Table String Value
  site : Site

namespace Bindings

def empty (site : Site) : Bindings := ⟨[], site⟩

def get? (b : Bindings) (name : String) : Option Value := b.values.get? name

def set (b : Bindings) (name : String) (value : Value) : Bindings :=
  ⟨b.values.set name value, b.site⟩

def contains (b : Bindings) (name : String) : Bool := (b.get? name).isSome

/-- How deep the values of bindings that are shown may be nested. -/
def maxNesting : Nat := 983

def text (b : Bindings) : Except Fault String := do
  if maxNesting < Value.entryDepth b.values then throw (.nestedTooDeep .value)
  let shown ← (Value.table b.values).text
  return "Bindings(" ++ shown ++ ")"

/-! ## Members -/

/-- What bindings say of themselves. -/
def description : String :=
  "Names bound by a rule's patterns; readable as ``v[\"x\"]`` or ``v.x``."

/-- A member that belongs to the bindings at hand. -/
def ownMember (kind : MemberKind) (name : String) : String × (Bindings → Value) :=
  (name, fun b => .member kind name (some b.site) b.values)

/-- A member that all bindings share. -/
def sharedMember (kind : MemberKind) (name : String) : String × (Bindings → Value) :=
  (name, fun _ => .member kind name none [])

/-- The names that belong to bindings as such, with what they stand for. -/
def members : Table String (Bindings → Value) := [
  sharedMember .class_ "__class__", ownMember .method "__contains__",
  ownMember .wrapper "__delattr__", ownMember .builtin "__dir__",
  ("__doc__", fun _ => .string description), ownMember .wrapper "__eq__",
  ownMember .builtin "__format__", ownMember .wrapper "__ge__",
  ownMember .method "__getattr__", ownMember .wrapper "__getattribute__",
  ownMember .method "__getitem__", ownMember .builtin "__getstate__",
  ownMember .wrapper "__gt__", ownMember .wrapper "__hash__", ownMember .method "__init__",
  sharedMember .builtin "__init_subclass__", ownMember .wrapper "__le__",
  ownMember .wrapper "__lt__", ("__module__", fun _ => .string "lsystree.grammar"),
  ownMember .wrapper "__ne__", sharedMember .builtin "__new__",
  ownMember .builtin "__reduce__", ownMember .builtin "__reduce_ex__",
  ownMember .method "__repr__", ownMember .wrapper "__setattr__",
  ownMember .method "__setitem__", ownMember .builtin "__sizeof__",
  ("__slots__", fun _ => .slots 1), ownMember .wrapper "__str__",
  sharedMember .builtin "__subclasshook__", ("_values", fun b => .table b.values)]

/-- What `name` stands for, if it belongs to bindings as such. -/
def member? (b : Bindings) (name : String) : Option Value := (members.get? name).map (· b)

end Bindings

end Arbor
