import Arbor.Proofs.Fault.Outcome
import Arbor.Species.Honda

/-!
# Parameters that are doubles

Parameters that are read from a document are doubles. Then the factor by which apices become thinner
is a power of doubles: a double, or off the real line, or not there at all.

* `Number.isPower_floatPow`: what a power of doubles can be.
* `HondaParams.exists_ofTable`, `HondaParams.exists_ofTable_get?`: parameters set by their names.
* `HondaParams.Doubles.exists_shrink`: the factor is such a power.
-/

namespace Arbor

namespace Number

/-- A power is a double or off the real line, if it exists. Otherwise it is that of zero or beyond
the largest double. -/
def IsPower (result : Except Fault Number) : Prop :=
  (∃ d, result = .ok (.float d)) ∨ result = .ok .nonreal ∨
    ∃ fault, result = .error fault ∧ (fault.kind = .zeroDivision ∨ fault.kind = .overflow)

theorem isPower_float (d : Float) : IsPower (.ok (.float d)) := Or.inl ⟨d, rfl⟩

theorem isPower_powFinite (x y : Float) {tooLarge : Fault} (h : tooLarge.kind = .overflow)
    {f : Float → Number} (hf : ∀ power, IsPower (.ok (f power))) :
    IsPower (powFinite x y tooLarge >>= fun power => return f power) := by
  simp only [powFinite]
  split
  · exact Or.inr (Or.inr ⟨_, rfl, Or.inr h⟩)
  · exact hf _

theorem isPower_floatPow (x y : Float) : IsPower (floatPow x y) := by
  unfold floatPow
  split
  · exact isPower_float _
  split
  · exact isPower_float _
  split
  · exact isPower_float _
  split
  · exact isPower_float _
  split
  · exact isPower_float _
  split
  -- the powers of zero
  · split
    · exact Or.inr (Or.inr ⟨_, rfl, Or.inl rfl⟩)
    · exact isPower_float _
  split
  -- the powers of a negative number
  · split
    · dsimp only
      split
      · exact isPower_float _
      · exact isPower_powFinite _ _ rfl fun power => isPower_float _
    · exact isPower_powFinite _ _ rfl fun power => Or.inr (Or.inl rfl)
  split
  · exact isPower_float _
  · exact isPower_powFinite _ _ rfl fun power => isPower_float power

end Number

namespace HondaParams

def Doubles (p : HondaParams) : Prop := ∀ entry ∈ p.toTable, ∃ x, entry.2 = .float x

theorem doubles_default : Doubles {} := by
  simp only [Doubles, toTable, List.forall_mem_cons, Number.float.injEq, exists_eq',
    List.not_mem_nil, false_imp_iff, implies_true, and_self]

/-- The factor by which apices become thinner is a power of doubles. -/
theorem Doubles.exists_shrink {p : HondaParams} (hp : p.Doubles) :
    ∃ x y, p.branchDifferentialDiameterFactor = .float x ∧
      p.branchDiameterConservationFactor = .float y ∧ p.shrink = Number.floatPow x y := by
  simp only [Doubles, toTable, List.forall_mem_cons] at hp
  obtain ⟨-, -, -, -, -, -, ⟨x, hx⟩, ⟨y, hy⟩, -⟩ := hp
  refine ⟨x, y, hx, hy, ?_⟩
  rw [shrink, hx, hy]
  rfl

theorem Doubles.exists_rootDiameter {p : HondaParams} (hp : p.Doubles) :
    ∃ x, p.rootDiameter = .float x := by
  simp only [Doubles, toTable, List.forall_mem_cons] at hp
  obtain ⟨-, -, -, -, -, -, -, -, hdiameter, -⟩ := hp
  exact hdiameter

/-- A parameter can be set by its name, and is then set in the table. -/
theorem exists_set (p : HondaParams) {name : String} (hname : name ∈ names) (value : Number) :
    ∃ p', p.set? name value = some p' ∧ p'.toTable = p.toTable.set name value := by
  have hnames : names = ["internode_scale_factor_1", "internode_scale_factor_2", "branch_yaw_1",
    "branch_yaw_2", "branch_pitch_1", "branch_pitch_2", "branch_differential_diameter_factor",
    "branch_diameter_conservation_factor", "root_diameter", "root_length"] := rfl
  simp only [hnames, List.mem_cons, List.not_mem_nil, or_false] at hname
  rcases hname with rfl | rfl | rfl | rfl | rfl | rfl | rfl | rfl | rfl | rfl
  all_goals exact ⟨_, rfl, rfl⟩

/-- Parameters that are set to doubles are doubles. -/
theorem exists_ofTable {values : Table String Number}
    (h : ∀ entry ∈ values, entry.1 ∈ names ∧ ∃ x, entry.2 = .float x) :
    ∃ p, ofTable values = .ok p ∧ p.Doubles := by
  have hdefault := doubles_default
  unfold ofTable
  revert hdefault
  generalize ({} : HondaParams) = p
  intro hp
  induction values generalizing p with
  | nil => exact ⟨p, rfl, hp⟩
  | cons entry values ih =>
    obtain ⟨⟨hname, x, hx⟩, h⟩ := List.forall_mem_cons.1 h
    obtain ⟨p', hset, htable⟩ := p.exists_set hname entry.2
    have hp' : p'.Doubles := by
      intro other hother
      rw [htable] at hother
      rcases Table.mem_set hother with hvalue | hother
      · exact ⟨x, hvalue.trans hx⟩
      · exact hp other hother
    rw [List.foldlM_cons]
    simp only [hset]
    exact ih h p' hp'

/-- Parameters that are set by name have the values of the table, and their defaults otherwise. -/
theorem exists_ofTable_get? {values : Table String Number} (h : ∀ entry ∈ values, entry.1 ∈ names)
    (hnames : values.names.Nodup) :
    ∃ p, ofTable values = .ok p ∧
      ∀ name, p.toTable.get? name =
        (values.get? name).or (({} : HondaParams).toTable.get? name) := by
  unfold ofTable
  generalize ({} : HondaParams) = p
  induction values generalizing p with
  | nil => exact ⟨p, rfl, fun name => rfl⟩
  | cons entry values ih =>
    obtain ⟨name, value⟩ := entry
    obtain ⟨hname, h⟩ := List.forall_mem_cons.1 h
    obtain ⟨hnew, hnames⟩ := List.nodup_cons.1 hnames
    obtain ⟨p', hset, htable⟩ := p.exists_set hname value
    obtain ⟨last, hlast, hget⟩ := ih h hnames p'
    rw [List.foldlM_cons]
    simp only [hset]
    refine ⟨last, hlast, fun other => ?_⟩
    rw [hget, htable, Table.get?_set, Table.get?]
    by_cases hother : name = other
    · subst hother
      -- a name that has been set is not set again
      rw [Table.get?_eq_none hnew, if_pos rfl, if_pos rfl]
      rfl
    · rw [if_neg hother, if_neg hother]

end HondaParams

end Arbor
