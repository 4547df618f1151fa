import Arbor.Number.Basic
import Arbor.Proofs.Binary64.Exact

/-!
# Comparing numbers exactly

Integers, doubles and truth values are compared by what they stand for, across kinds as well, and
two numbers are the same exactly if they stand for the same. Whether a number counts as true depends
on what it stands for, too.
-/

namespace Arbor.Number

open Binary64 (Exact)

/-- What a number stands for. A number off the real line and not a number stand for nothing. -/
def exactValue? : Number → Option Exact
  | .int n => some (.ofRat n)
  | .float x => Binary64.exactValue? x
  | .truth b => some (.ofRat (ofTruth b))
  | .nonreal => none

theorem compare_int (n m : Int) : compare n m = cmp (Exact.ofRat n) (Exact.ofRat m) := by
  have hcast : StrictMono ((↑) : ℤ → ℚ) := Int.cast_strictMono
  rw [Exact.cmp_ofRat, hcast.cmp_map_eq, cmp_eq_compare]

theorem swap_compareInt? (n : Int) (x : Float) :
    (Binary64.compareInt? n x).map Ordering.swap =
      (Binary64.exactValue? x).bind fun a => (some (Exact.ofRat n)).map (cmp a) := by
  rw [Binary64.compareInt?_eq]
  cases Binary64.exactValue? x with
  | none => rfl
  | some a => simp only [Option.map_some, Option.bind_some, cmp_swap]

/-- **Comparing two numbers compares what they stand for.** -/
theorem compare?_eq (a b : Number) :
    compare? a b = (exactValue? a).bind fun u => (exactValue? b).map (cmp u) := by
  cases a with
  | nonreal => cases b <;> rfl
  | int n =>
    cases b with
    | int m => simp [compare?, exactValue?, compare_int]
    | float y => exact Binary64.compareInt?_eq n y
    | truth c => simp [compare?, exactValue?, compare_int]
    | nonreal => rfl
  | float x =>
    cases b with
    | int m => exact swap_compareInt? m x
    | float y => exact Binary64.compare?_eq x y
    | truth c => exact swap_compareInt? (ofTruth c) x
    | nonreal => simp [compare?, exactValue?]
  | truth c =>
    cases b with
    | int m => simp [compare?, exactValue?, compare_int]
    | float y => exact Binary64.compareInt?_eq (ofTruth c) y
    | truth c => simp [compare?, exactValue?, compare_int]
    | nonreal => rfl

/-- Two numbers are the same exactly if they stand for the same. -/
theorem same_iff (a b : Number) :
    a.same b = true ↔ ∃ v, a.exactValue? = some v ∧ b.exactValue? = some v := by
  unfold same
  rw [compare?_eq]
  cases a.exactValue? with
  | none => simp
  | some u =>
    cases b.exactValue? with
    | none => simp
    | some v => simp [eq_comm (a := v)]

/-- Equal numbers stand for the same. -/
theorem exactValue?_eq_of_same {a b : Number} (h : a.same b = true) :
    a.exactValue? = b.exactValue? := by
  obtain ⟨v, ha, hb⟩ := (same_iff a b).1 h
  rw [ha, hb]

/-- A number counts as true unless it stands for zero. -/
theorem isTrue_eq_false_iff (a : Number) :
    a.isTrue = false ↔ a.exactValue? = some (.ofRat 0) := by
  cases a with
  | int n => simp [isTrue, exactValue?, Exact.ofRat_inj]
  | float x =>
    simp only [isTrue, Bool.not_eq_false', Binary64.beq_iff, Binary64.exactValue?_zeroFloat,
      exactValue?]
    simp
  | truth b => cases b <;> simp [isTrue, exactValue?, ofTruth, Exact.ofRat_inj]
  | nonreal => simp [isTrue, exactValue?]

theorem isTrue_eq_of_same {a b : Number} (h : a.same b = true) : a.isTrue = b.isTrue := by
  have hfalse : a.isTrue = false ↔ b.isTrue = false := by
    rw [isTrue_eq_false_iff, isTrue_eq_false_iff, exactValue?_eq_of_same h]
  exact Bool.eq_iff_iff.2 (by simpa using not_congr hfalse)

end Arbor.Number
