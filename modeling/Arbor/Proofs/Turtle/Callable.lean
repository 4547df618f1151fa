import Arbor.Proofs.Fault.Outcome
import Arbor.Proofs.Turtle.Balance

/-!
# What has been called can be called

A turtle that comes to the end of a word has carried out the command of every symbol in it, and so
each command had parameters that it can be called with. Together with what balanced words grow, this
tells the words that grow a tree from those that do not.

* `callable_of_runs`: the symbols of a word that the turtle follows to its end.
* `exists_interpretJoints_iff`: the words that grow a tree.
* `rooted_of_interpretJoints`: what they grow.
-/

namespace Arbor

/-- Only an angle that is not infinite has a cosine and a sine. -/
theorem isInfinite_of_turn {degrees : Float} {cs : Float × Float}
    (h : Geometry.binary64.turn degrees = .ok cs) : Binary64.isInfinite degrees = false := by
  by_contra hinfinite
  have hradians := Binary64.isInfinite_radians_of_isInfinite (Bool.not_eq_false _ ▸ hinfinite)
  have hturn : Geometry.binary64.turn degrees = .error .angleNotFinite := if_pos hradians
  rw [hturn] at h
  cases h

theorem turns_of_rotation {x y z : Value} {r : Matrix3 Float}
    (h : Geometry.binary64.rotation x y z = .ok r) : x.Turns ∧ y.Turns ∧ z.Turns := by
  obtain ⟨x', hx, h⟩ := bind_eq_ok_iff.1 h
  obtain ⟨y', hy, h⟩ := bind_eq_ok_iff.1 h
  obtain ⟨z', hz, h⟩ := bind_eq_ok_iff.1 h
  obtain ⟨cx, hcx, h⟩ := bind_eq_ok_iff.1 h
  obtain ⟨cy, hcy, h⟩ := bind_eq_ok_iff.1 h
  obtain ⟨cz, hcz, -⟩ := bind_eq_ok_iff.1 h
  exact ⟨⟨x', hx, isInfinite_of_turn hcx⟩, ⟨y', hy, isInfinite_of_turn hcy⟩,
    ⟨z', hz, isInfinite_of_turn hcz⟩⟩

/-- A command accepts only parameters that it can be called with. -/
theorem Accepts.callable {c : Command} {params : List Value} (h : Accepts .binary64 c params) :
    Callable c params := by
  cases h with
  | forward hlength => exact .forward hlength
  | diameter hlength => exact .diameter hlength
  | rotate hrotation =>
    obtain ⟨hx, hy, hz⟩ := turns_of_rotation hrotation
    exact .rotate hx hy hz
  | push => exact .push
  | pop => exact .pop

namespace Turtle

/-- Every symbol of a word that the turtle follows to its end can be called. -/
theorem callable_of_runs {growth growth' : Turtle Float} (hsound : growth.Sound) {w : Word}
    (h : Runs .binary64 growth w growth') : ∀ s ∈ w, s.Callable :=
  fun s hs c hc => (((exists_runs_iff hsound).1 ⟨growth', h⟩).1 s hs c hc).callable

/-- A word grows a tree exactly if its commands can be called and its brackets match, and the tree
has a joint for each move forward besides the root. -/
theorem exists_interpretJoints_iff (seed : Word) (grammar : Grammar) (root : Joint Float)
    (w : Word) :
    let grown := (LSystem.ofCommands .binary64 seed grammar Command.standard).interpretJoints
      .binary64 root w
    ((∃ tree, grown = .ok tree) ↔ (∀ s ∈ w, s.Callable) ∧ w.Dyck) ∧
      ∀ tree, grown = .ok tree → tree.size = 1 + w.joints := by
  intro grown
  have hcallable : ∀ tree, grown = .ok tree → ∀ s ∈ w, s.Callable := by
    intro tree h
    rw [show grown = _ from interpretJoints_eq seed grammar root w] at h
    cases hrun : (Step.interpret (Command.process .binary64 Command.standard) w).run
        (initial .binary64 root) with
    | error fault growth =>
      rw [hrun] at h
      cases h
    | ok _ growth => exact callable_of_runs (sound_sprout 0 root root.diameter _) hrun
  refine ⟨⟨?_, ?_⟩, fun tree h => ?_⟩
  · rintro ⟨tree, h⟩
    have hw := hcallable tree h
    rcases interpretJoints_cases seed grammar root hw with ⟨hdyck, -⟩ | ⟨-, fault, hfault, -⟩
    · exact ⟨hw, hdyck⟩
    · cases h.symm.trans hfault
  · rintro ⟨hw, hdyck⟩
    rcases interpretJoints_cases seed grammar root hw with ⟨-, tree, htree, -⟩ | ⟨hnot, -⟩
    · exact ⟨tree, htree⟩
    · exact absurd hdyck hnot
  · rcases interpretJoints_cases seed grammar root (hcallable tree h) with
      ⟨-, tree', htree, hsize⟩ | ⟨-, fault, hfault, -⟩
    · cases h.symm.trans htree
      exact hsize
    · cases h.symm.trans hfault

end Turtle

end Arbor
