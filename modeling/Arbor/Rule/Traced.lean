import Arbor.Rule.Bindings

/-!
# Traced computations

The guards and producers of rules are functions from outside. A traced computation lists the
calls of such functions that it made, in order, together with its result; a fault keeps the
calls made before it.
-/

namespace Arbor

/-- What a rule's function was called for. -/
inductive CallRole
  | guard
  | produce
  deriving DecidableEq, Repr

/-- A call of a function of a rule, by the rule's index, with the bindings it was handed. -/
structure Call where
  role : CallRole
  rule : Nat
  bindings : Bindings

/-- A result together with the calls that led to it. -/
structure Traced (α : Type u) where
  calls : List Call
  result : Except Fault α

namespace Traced

/-- A computation that makes no call. -/
def ofResult (result : Except Fault α) : Traced α := ⟨[], result⟩

/-- A computation that makes one call. -/
def ofCall (call : Call) (result : Except Fault α) : Traced α := ⟨[call], result⟩

/-- One computation after another, unless the first fails. -/
def bind (t : Traced α) (f : α → Traced β) : Traced β :=
  match t.result with
  | .error fault => ⟨t.calls, .error fault⟩
  | .ok a => ⟨t.calls ++ (f a).calls, (f a).result⟩

instance : Monad Traced where
  pure a := ofResult (.ok a)
  bind := bind

/-- The computations for the items of a list, one after another up to the first that fails, with
their results joined. `calls` and `out` hold what came before. -/
def joinFrom (f : β → Traced (List α)) : List β → Array Call → Array α → Traced (List α)
  | [], calls, out => ⟨calls.toList, .ok out.toList⟩
  | b :: bs, calls, out =>
    let t := f b
    match t.result with
    | .error fault => ⟨(calls ++ t.calls).toList, .error fault⟩
    | .ok piece => joinFrom f bs (calls ++ t.calls) (out ++ piece)

/-- The computations for the items of a list, one after another up to the first that fails, with
their results joined. -/
def join (bs : List β) (f : β → Traced (List α)) : Traced (List α) := joinFrom f bs #[] #[]

theorem joinFrom_eq (f : β → Traced (List α)) (bs : List β) (calls : Array Call)
    (out : Array α) :
    joinFrom f bs calls out =
      ⟨calls.toList ++ (join bs f).calls, (join bs f).result.map (out.toList ++ ·)⟩ := by
  induction bs generalizing calls out with
  | nil => simp [join, joinFrom, Except.map]
  | cons b bs ih =>
    unfold join
    simp only [joinFrom]
    cases (f b).result with
    | error fault => simp [Except.map]
    | ok piece =>
      simp only
      rw [ih, ih (#[] ++ _)]
      cases (join bs f).result <;> simp [Except.map]

@[simp] theorem join_nil (f : β → Traced (List α)) : join [] f = ⟨[], .ok []⟩ := rfl

/-- The first item's computation, then the others, with the pieces in order. -/
theorem join_cons (b : β) (bs : List β) (f : β → Traced (List α)) :
    join (b :: bs) f =
      (f b).bind fun piece => (join bs f).bind fun pieces => ofResult (.ok (piece ++ pieces)) := by
  rw [join, joinFrom]
  unfold bind ofResult
  cases (f b).result with
  | error fault => simp
  | ok piece =>
    simp only
    rw [joinFrom_eq]
    cases (join bs f).result <;> simp [Except.map]

end Traced

end Arbor
