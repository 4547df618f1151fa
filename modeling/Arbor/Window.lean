import Arbor.Capacity
import Arbor.Json.Value
import Arbor.Word.Symbol

/-!
# Windows

A window is a read-only view of the items of an array from `start` up to, but not including,
`stop`. Nothing is copied. Its items are addressed from either end: index `-1` is the last item.

A window is normally well placed, `0 ≤ start ≤ stop ≤ size`. A window that is not still has a
meaning: an item before the start of the array is counted from the array's end, a window with
`stop` below `start` has no length, and items beyond the array are not there. Places and lengths
that do not fit a machine word are refused as such.

A walk along a window ends at the first item that is not there. Of more than twice as many places
in a row as the array has items one is outside of it, so no walk has to look further than that,
however long the window is.
-/

namespace Arbor

/-- A view of `data` from `start` up to `stop`. -/
structure Window (α : Type) where
  data : Array α
  start : Int
  stop : Int

/-! ## Slices -/

/-- A request for the items from `low` up to `high` in strides of `step`, each perhaps left out.
-/
structure Slice where
  low : Option Int
  high : Option Int
  step : Option Int

namespace Slice

def stride (s : Slice) : Int := s.step.getD 1

/-- Where an end of a slice of `n` items lies. A negative end counts from the end, and an end
outside the items is moved to the nearest place, which for a backward stride lies one before
the items. -/
def clamp (n stride end_ : Int) : Int :=
  let lowest := if stride < 0 then -1 else 0
  let highest := if stride < 0 then n - 1 else n
  let place := if end_ < 0 then end_ + n else end_
  max lowest (min place highest)

/-- The first place of a slice of `n` items. -/
def first (s : Slice) (n : Int) : Int :=
  match s.low with
  | some low => clamp n s.stride low
  | none => if s.stride < 0 then n - 1 else 0

/-- The place that a slice of `n` items stops before. -/
def last (s : Slice) (n : Int) : Int :=
  match s.high with
  | some high => clamp n s.stride high
  | none => if s.stride < 0 then -1 else n

/-- The number of places from `first` before `last` in strides of `stride`. -/
def count (first last stride : Int) : Nat :=
  if stride < 0 then
    if last < first then ((first - last - 1) / -stride + 1).toNat else 0
  else if first < last then ((last - first - 1) / stride + 1).toNat
  else 0

/-- The items of `data` that a slice with a stride other than zero asks for. -/
def take (s : Slice) (data : Array α) : List α :=
  let first := s.first data.size
  let n := count first (s.last data.size) s.stride
  (List.range n).filterMap fun (i : Nat) => data[(first + i * s.stride).toNat]?

end Slice

/-! ## Windows -/

namespace Window

def ofList (items : List α) : Window α := ⟨items.toArray, 0, items.length⟩

/-- The number of items, negative for a window that stops before it starts. -/
def length (w : Window α) : Int := w.stop - w.start

/-- The number of items, which must not be negative and must fit a machine word. -/
def size (w : Window α) : Except Fault Nat :=
  if w.length < 0 then .error .negativeLength
  else if !Capacity.isWord w.length then .error .lengthTooLarge
  else .ok w.length.toNat

/-- The item of `data` at place `i`, if there is one; negative places count from the end. -/
def item? (data : Array α) (i : Int) : Option α :=
  let place := if i < 0 then i + data.size else i
  if place < 0 then none else data[place.toNat]?

def item (data : Array α) (i : Int) : Except Fault α :=
  if !Capacity.isWord i then .error .placeTooLarge
  else match item? data i with
  | some a => .ok a
  | none => .error .sequenceIndex

/-- The number of places that a walk along the window looks at. -/
def reach (w : Window α) : Nat := min w.length.toNat (2 * w.data.size + 1)

def get? (w : Window α) (i : Int) : Option α :=
  let i := if i < 0 then i + w.length else i
  if 0 ≤ i && i < w.length then item? w.data (w.start + i) else none

def get (w : Window α) (i : Int) : Except Fault α :=
  let i := if i < 0 then i + w.length else i
  if 0 ≤ i && i < w.length then item w.data (w.start + i) else .error .windowIndex

def toList (w : Window α) : Except Fault (List α) :=
  (List.range w.reach).mapM fun (i : Nat) => item w.data (w.start + i)

/-- The items in order, of a window that must not stop before it starts and for whose items room
is made beforehand. There is always room for as many items as the array has. -/
def sizedList (w : Window α) : Except Fault (List α) := do
  let n ← w.size
  if max Capacity.items w.data.size < n then throw .outOfMemory
  w.toList

def reversed (w : Window α) : Except Fault (List α) := do
  let n ← w.size
  (List.range w.reach).mapM fun (i : Nat) => w.get (n - 1 - i)

/-- The items that a slice asks for. The ends of the slice are placed within the window and then
moved by its start; what the moved slice selects from the array is the result. -/
def slice (w : Window α) (s : Slice) : Except Fault (List α) :=
  if w.length < 0 then .error .negativeSliceLength
  else if s.stride = 0 then .error .zeroStep
  else
    let moved : Slice :=
      ⟨some (w.start + s.first w.length), some (w.start + s.last w.length), s.step⟩
    .ok (moved.take w.data)

/-- Whether an item that `isIt` accepts is among the items at the given places of `data`. The
search ends with the first such item. -/
def search (data : Array α) (isIt : α → Bool) : List Int → Except Fault Bool
  | [] => .ok false
  | place :: places =>
    match item data place with
    | .error fault => .error fault
    | .ok a => if isIt a then .ok true else search data isIt places

/-- Whether an item that `isIt` accepts is in the window. -/
def contains (w : Window α) (isIt : α → Bool) : Except Fault Bool :=
  search w.data isIt ((List.range w.reach).map fun (i : Nat) => w.start + i)

def count (w : Window α) (isIt : α → Bool) : Except Fault Nat := do
  let items ← w.toList
  return items.countP isIt

def index (w : Window α) (isIt : α → Bool) : Except Fault Nat :=
  let found := (List.range w.reach).map fun (i : Nat) => w.get? i
  match (found.takeWhile Option.isSome).findIdx? fun item => item.any isIt with
  | some i => .ok i
  | none => .error .notFound

def text (w : Window Symbol) : Except Fault String := do
  let items ← w.sizedList
  let shown ← items.mapM Symbol.text
  return "ContextWindow([" ++ ", ".intercalate shown ++ "])"

/-- Whether the window shows the symbols of `word`, item by item. -/
def sameAsWord (w : Window Symbol) (word : Word) : Except Fault Bool := do
  let items ← w.sizedList
  return items.isEqv word Symbol.sameItem

/-- Whether a window equals a value that holds no symbols. A list can only be equal when both are
empty, and nothing else ever is. -/
def sameAsValue (w : Window Symbol) : Json → Except Fault Bool
  | .list values => do
    let items ← w.sizedList
    return items.isEmpty && values.isEmpty
  | _ => .ok false

def same (w v : Window Symbol) : Except Fault Bool := do
  let items ← w.sizedList
  let others ← v.sizedList
  return items.isEqv others Symbol.sameItem

end Window

end Arbor
