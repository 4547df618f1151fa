import Arbor.Proofs.Tree.Rooted

/-!
# Branches

The branch to a node is the list of the payloads from the root to it. In a rooted tree every node
has exactly one. Grafting gives the new node the branch of its parent and one payload more, and
changes no other branch.
-/

namespace Arbor.Tree

variable {α : Type} {t : Tree α}

def payloads (t : Tree α) : List α := t.nodes.toList.map Node.payload

/-- The payloads on the way from the root to the node at an index. -/
inductive Branch (t : Tree α) : List α → Nat → Prop
  | root {payload} : t.payloads[0]? = some payload → Branch t [payload] 0
  | child {above i k payload} : Branch t above i → t.Edge i k → t.payloads[k]? = some payload →
      Branch t (above ++ [payload]) k

/-! ## Payloads -/

theorem length_payloads (t : Tree α) : t.payloads.length = t.size := by
  simp [payloads, size]

theorem getElem?_payloads (t : Tree α) (k : Nat) :
    t.payloads[k]? = (t.nodes[k]?).map Node.payload := by
  simp [payloads]

theorem node_payload_eq {t t' : Tree α} {i j : Nat} (hi : i < t.nodes.size)
    (hj : j < t'.nodes.size) (h : t'.payloads[j]? = t.payloads[i]?) :
    (t'.node ⟨j, hj⟩).payload = (t.node ⟨i, hi⟩).payload := by
  rw [getElem?_payloads, getElem?_payloads, Array.getElem?_eq_getElem hj,
    Array.getElem?_eq_getElem hi] at h
  exact Option.some.inj h

theorem payloads_graft {i : Nat} (hi : i < t.size) (payload : α) :
    (t.graft i payload).payloads = t.payloads ++ [payload] := by
  refine List.ext_getElem? fun k => ?_
  rw [getElem?_payloads, nodes_graft hi, List.getElem?_append, length_payloads,
    getElem?_payloads]
  by_cases hk : k = t.size
  · rw [if_pos hk, if_neg (by omega), hk, Nat.sub_self]
    rfl
  · rw [if_neg hk]
    by_cases hlt : k < t.size
    · rw [if_pos hlt]
      split
      · rw [Option.map_map]
        rfl
      · rfl
    · have hnone : t.nodes[k]? = none := Array.getElem?_eq_none (Nat.le_of_not_lt hlt)
      rw [if_neg hlt, hnone, Option.map_none, ite_self, Option.map_none]
      exact (List.getElem?_eq_none (by simp; omega)).symm

theorem getElem?_payloads_graft {i : Nat} (hi : i < t.size) (payload : α) {k : Nat}
    (hk : k < t.size) : (t.graft i payload).payloads[k]? = t.payloads[k]? := by
  rw [payloads_graft hi, List.getElem?_append_left (by rwa [length_payloads])]

theorem get_handleAt {k : Nat} {payload : α} :
    t.get (t.handleAt k) = .ok payload ↔ t.payloads[k]? = some payload := by
  rw [get_eq_ok_iff, getElem?_payloads, Option.map_eq_some_iff]
  constructor
  · rintro ⟨i, hlocate, rfl⟩
    rw [handleAt_inj.1 (locate_eq_ok_iff.1 hlocate)]
    exact ⟨t.node i, Array.getElem?_eq_getElem i.isLt, rfl⟩
  · rintro ⟨node, hnode, rfl⟩
    obtain ⟨hk, rfl⟩ := Array.getElem?_eq_some_iff.1 hnode
    exact ⟨⟨k, hk⟩, locate_handleAt hk, rfl⟩

/-! ## Branches of a rooted tree -/

theorem Branch.lt_size {above : List α} {k : Nat} (h : t.Branch above k) : k < t.size := by
  rw [← length_payloads]
  cases h with
  | root hpayload => exact (List.getElem?_eq_some_iff.1 hpayload).1
  | child _ _ hpayload => exact (List.getElem?_eq_some_iff.1 hpayload).1

theorem branch_leaf {id : Nat} {payload : α} {above : List α} :
    (leaf id payload).Branch above 0 ↔ above = [payload] := by
  constructor
  · intro h
    cases h with
    | root hpayload =>
      cases hpayload
      rfl
    | child _ hedge _ => exact absurd hedge ((rooted_leaf id payload).not_edge_zero _)
  · rintro rfl
    exact .root rfl

namespace Rooted

theorem branch_unique (h : t.Rooted) {above above' : List α} {k : Nat} (hk : t.Branch above k)
    (hk' : t.Branch above' k) : above = above' := by
  induction hk generalizing above' with
  | root hpayload =>
    cases hk' with
    | root hpayload' =>
      rw [hpayload] at hpayload'
      cases hpayload'
      rfl
    | child _ hedge _ => exact absurd hedge (h.not_edge_zero _)
  | child _ hedge hpayload ih =>
    cases hk' with
    | root _ => exact absurd hedge (h.not_edge_zero _)
    | child habove' hedge' hpayload' =>
      obtain rfl := h.edge_unique hedge hedge'
      rw [hpayload] at hpayload'
      cases hpayload'
      rw [ih habove']

theorem exists_branch (h : t.Rooted) (k : Nat) (hk : k < t.size) : ∃ above, t.Branch above k := by
  induction k using Nat.strongRecOn with
  | ind k ih =>
    have hlt : k < t.payloads.length := by rwa [length_payloads]
    have hpayload : t.payloads[k]? = some t.payloads[k] := List.getElem?_eq_getElem hlt
    rcases Nat.eq_zero_or_pos k with rfl | hpos
    · exact ⟨_, .root hpayload⟩
    · obtain ⟨i, hi, hedge⟩ := h.exists_edge hpos hk
      obtain ⟨above, habove⟩ := ih i hi (Nat.lt_trans hi hk)
      exact ⟨_, .child habove hedge hpayload⟩

/-- Every node has exactly one branch. -/
theorem existsUnique_branch (h : t.Rooted) {k : Nat} (hk : k < t.size) :
    ∃! above, t.Branch above k := by
  obtain ⟨above, habove⟩ := h.exists_branch k hk
  exact ⟨above, habove, fun _ hother => h.branch_unique hother habove⟩

theorem branch_graft_of_lt (h : t.Rooted) {i : Nat} (hi : i < t.size) (payload : α)
    {above : List α} {k : Nat} (hk : k < t.size) :
    (t.graft i payload).Branch above k ↔ t.Branch above k := by
  constructor
  · intro hbranch
    induction hbranch with
    | root hpayload =>
      rw [getElem?_payloads_graft hi payload hk] at hpayload
      exact .root hpayload
    | child _ hedge hpayload ih =>
      rw [getElem?_payloads_graft hi payload hk] at hpayload
      rcases (edge_graft hi payload).1 hedge with hold | ⟨-, rfl⟩
      · exact .child (ih (Nat.lt_trans (h.lt_of_edge hold).1 hk)) hold hpayload
      · exact absurd hk (Nat.lt_irrefl _)
  · intro hbranch
    induction hbranch with
    | root hpayload =>
      rw [← getElem?_payloads_graft hi payload hk] at hpayload
      exact .root hpayload
    | child _ hedge hpayload ih =>
      rw [← getElem?_payloads_graft hi payload hk] at hpayload
      exact .child (ih (Nat.lt_trans (h.lt_of_edge hedge).1 hk))
        ((edge_graft hi payload).2 (Or.inl hedge)) hpayload

/-- The new node has the branch of its parent and one payload more. -/
theorem branch_graft_size (h : t.Rooted) {i : Nat} (hi : i < t.size) (payload : α)
    {above : List α} :
    (t.graft i payload).Branch above t.size ↔ ∃ before, above = before ++ [payload] ∧
      t.Branch before i := by
  have hnew : (t.graft i payload).payloads[t.size]? = some payload := by
    rw [payloads_graft hi, ← length_payloads, List.getElem?_concat_length]
  constructor
  · intro hbranch
    generalize hk : t.size = k at hbranch
    cases hbranch with
    | root => exact absurd hk (Nat.ne_of_gt h.nonempty)
    | child hbefore hedge hpayload =>
      subst hk
      rw [hnew] at hpayload
      cases hpayload
      rcases (edge_graft hi payload).1 hedge with hold | ⟨rfl, -⟩
      · exact absurd (h.lt_of_edge hold).2 (Nat.lt_irrefl _)
      · exact ⟨_, rfl, (h.branch_graft_of_lt hi payload hi).1 hbefore⟩
  · rintro ⟨before, rfl, hbefore⟩
    exact .child ((h.branch_graft_of_lt hi payload hi).2 hbefore)
      ((edge_graft hi payload).2 (Or.inr ⟨rfl, rfl⟩)) hnew

end Rooted

end Arbor.Tree
