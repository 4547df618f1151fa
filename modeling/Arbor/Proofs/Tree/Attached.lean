import Arbor.Proofs.Tree.Branch

/-!
# Trees attached to trees

A tree may grow on a node of another one as if that node were its root. What comes of it is the
other tree with the first attached to it (`Attached`): the root of the one is the node of the other,
and the remaining nodes come after all that were there before, in the same order. So whatever is
known of the attached tree by itself is known of this part of the whole, with new indices.

* `Attached.payloads_eq`, `Attached.edgeIndices_perm`: what the whole consists of.
* `Attached.childrenAt_of_ne`, `Attached.childrenAt_prefix`: what becomes of the old edges.
* `Attached.reflTransGen_joined`: the new nodes are below the one that carries them.
-/

namespace Arbor.Tree

open Relation

variable {α : Type} {t s t' : Tree α} {i k : Nat}

/-- The index that the node at an index of an attached tree has in the whole: the tree that it is
attached to has `n` nodes and carries it at the one at index `i`. -/
def joined (n i : Nat) : Nat → Nat
  | 0 => i
  | k + 1 => n + k

/-- An edge between two nodes that have got new indices. -/
def renumber (f : Nat → Nat) (e : Nat × Int) : Nat × Int := (f e.1, (f e.2.toNat : Int))

/-- `t'` is `t` with the tree `s` attached to the node at index `i`: it grows as `s` grows from its
root. -/
inductive Attached (t : Tree α) (i : Nat) : Tree α → Tree α → Prop
  | root {id payload} : t.payloads[i]? = some payload → Attached t i (leaf id payload) t
  | graft {s t' : Tree α} {k : Nat} (payload : α) : Attached t i s t' → k < s.size →
      Attached t i (s.graft k payload) (t'.graft (joined t.size i k) payload)

namespace Attached

theorem lt_size (h : t.Attached i s t') : i < t.size := by
  induction h with
  | root hpayload =>
    rw [← length_payloads]
    exact (List.getElem?_eq_some_iff.1 hpayload).1
  | graft _ _ _ ih => exact ih

theorem id_eq (h : t.Attached i s t') : t'.id = t.id := by
  induction h with
  | root _ => rfl
  | graft _ _ _ ih => exact ih

/-- The root is counted in both trees. -/
theorem size_eq (h : t.Attached i s t') : t'.size + 1 = t.size + s.size := by
  induction h with
  | root _ => rfl
  | graft _ _ _ ih =>
    rw [size_graft, size_graft, ih]
    rfl

theorem size_pos (h : t.Attached i s t') : 0 < s.size := by
  cases h with
  | root _ => exact Nat.one_pos
  | graft _ _ _ =>
    rw [size_graft]
    exact Nat.succ_pos _

theorem joined_lt (h : t.Attached i s t') (hk : k < s.size) : joined t.size i k < t'.size := by
  have hi := h.lt_size
  have hsize := h.size_eq
  cases k <;> simp only [joined] <;> omega

/-- The next node of the attached tree is the next node of the whole. -/
theorem joined_size (h : t.Attached i s t') : joined t.size i s.size = t'.size := by
  have hsize := h.size_eq
  obtain ⟨k, hk⟩ := Nat.exists_eq_succ_of_ne_zero (Nat.ne_of_gt h.size_pos)
  rw [hk, joined]
  omega

/-! ## Nodes and edges -/

theorem payloads_eq (h : t.Attached i s t') : t'.payloads = t.payloads ++ s.payloads.tail := by
  induction h with
  | root _ => exact (List.append_nil _).symm
  | @graft s t' k payload h hk ih =>
    have hne : s.payloads ≠ [] := by
      rw [← List.length_pos_iff, length_payloads]
      exact h.size_pos
    rw [payloads_graft (h.joined_lt hk), payloads_graft hk, ih, List.tail_append_of_ne_nil hne,
      List.append_assoc]

theorem payload_joined (h : t.Attached i s t') (hk : k < s.size) :
    t'.payloads[joined t.size i k]? = s.payloads[k]? := by
  induction h generalizing k with
  | @root id payload hpayload =>
    obtain rfl : k = 0 := Nat.lt_one_iff.1 hk
    exact hpayload
  | @graft s t' k' payload h hk' ih =>
    rw [size_graft] at hk
    rcases Nat.lt_or_eq_of_le (Nat.le_of_lt_succ hk) with hold | rfl
    · rw [getElem?_payloads_graft (h.joined_lt hk') payload (h.joined_lt hold),
        getElem?_payloads_graft hk' payload hold]
      exact ih hold
    · rw [h.joined_size, payloads_graft (h.joined_lt hk'), payloads_graft hk', ← length_payloads t',
        ← length_payloads s, List.getElem?_concat_length, List.getElem?_concat_length]

/-- There are the edges of both trees. -/
theorem edgeIndices_perm (h : t.Attached i s t') :
    t'.edgeIndices.Perm (t.edgeIndices ++ s.edgeIndices.map (renumber (joined t.size i))) := by
  induction h with
  | @root id payload _ =>
    have hnone : (leaf id payload).edgeIndices = [] := rfl
    rw [hnone, List.map_nil, List.append_nil]
  | @graft s t' k payload h hk ih =>
    have hnew : renumber (joined t.size i) (k, (s.size : Int)) =
        (joined t.size i k, (t'.size : Int)) := by
      rw [renumber, Int.toNat_natCast, h.joined_size]
    refine (edgeIndices_graft (h.joined_lt hk) payload).trans ?_
    refine (ih.append_right _).trans ?_
    rw [List.append_assoc, ← hnew, ← List.map_singleton, ← List.map_append]
    exact ((edgeIndices_graft hk payload).map _).symm.append_left _

/-- Children of other nodes are not touched. -/
theorem childrenAt_of_ne (h : t.Attached i s t') (hk : k < t.size) (hne : k ≠ i) :
    t'.childrenAt k = t.childrenAt k := by
  induction h with
  | root _ => rfl
  | @graft s t' k' payload h hk' ih =>
    have hother : k ≠ joined t.size i k' := by
      cases k' <;> simp only [joined] <;> omega
    rw [childrenAt_graft (h.joined_lt hk'), if_neg hother, List.append_nil, ih]

/-- Children are only added. -/
theorem childrenAt_prefix (h : t.Attached i s t') (k : Nat) :
    t.childrenAt k <+: t'.childrenAt k := by
  induction h with
  | root _ => exact List.prefix_rfl
  | graft payload h hk' ih =>
    rw [childrenAt_graft (h.joined_lt hk')]
    exact ih.trans (List.prefix_append _ _)

/-- All of the attached tree is below the node that carries it. -/
theorem reflTransGen_joined (h : t.Attached i s t') (hk : k < s.size) :
    ReflTransGen t'.Edge i (joined t.size i k) := by
  induction h generalizing k with
  | root _ =>
    obtain rfl : k = 0 := Nat.lt_one_iff.1 hk
    exact .refl
  | @graft s t' k' payload h hk' ih =>
    have hkeep : ∀ j, ReflTransGen t'.Edge i j →
        ReflTransGen (t'.graft (joined t.size i k') payload).Edge i j :=
      ReflTransGen.mono (fun _ _ hold => (edge_graft (h.joined_lt hk') payload).2 (Or.inl hold)) i
    rw [size_graft] at hk
    rcases Nat.lt_or_eq_of_le (Nat.le_of_lt_succ hk) with hold | rfl
    · exact hkeep _ (ih hold)
    · rw [h.joined_size]
      exact (hkeep _ (ih hk')).tail ((edge_graft (h.joined_lt hk') payload).2 (Or.inr ⟨rfl, rfl⟩))

/-- Every node that the attached tree adds is below the node that carries it. -/
theorem transGen_of_le (h : t.Attached i s t') (hle : t.size ≤ k) (hlt : k < t'.size) :
    TransGen t'.Edge i k := by
  have hi := h.lt_size
  have hsize := h.size_eq
  obtain ⟨j, rfl⟩ := Nat.exists_eq_add_of_le hle
  have hbelow : ReflTransGen t'.Edge i (t.size + j) := h.reflTransGen_joined (k := j + 1) (by omega)
  rcases reflTransGen_iff_eq_or_transGen.1 hbelow with heq | hpath
  · omega
  · exact hpath

/-! ## Handles -/

theorem handleAt_eq (h : t.Attached i s t') (k : Nat) : t'.handleAt k = t.handleAt k := by
  rw [handleAt, handleAt, h.id_eq]

/-- What a handle of the old tree addresses is the same in the whole. -/
theorem get_eq_ok (h : t.Attached i s t') {handle : Handle} {payload : α}
    (hget : t.get handle = .ok payload) : t'.get handle = .ok payload := by
  obtain ⟨k, hlocate, -⟩ := get_eq_ok_iff.1 hget
  obtain rfl := locate_eq_ok_iff.1 hlocate
  rw [get_handleAt] at hget
  rw [← h.handleAt_eq, get_handleAt, h.payloads_eq,
    List.getElem?_append_left (List.getElem?_eq_some_iff.1 hget).1]
  exact hget

theorem children_eq_ok (h : t.Attached i s t') {handle : Handle} {children : List Handle}
    (hchildren : t.children handle = .ok children) (hne : handle ≠ t.handleAt i) :
    t'.children handle = .ok children := by
  obtain ⟨k, hk, heq, rfl⟩ := children_eq_ok_iff.1 hchildren
  obtain rfl := Reference.handle.inj heq
  have hki : k ≠ i := fun heq => hne (congrArg t.handleAt heq)
  have hk' : k < t'.size := by
    have hsize := h.size_eq
    have hpos := h.size_pos
    omega
  rw [← h.handleAt_eq, children_handleAt hk', h.childrenAt_of_ne hk hki]

/-- The node that carries the attached tree has its old children first. -/
theorem exists_children_append (h : t.Attached i s t') :
    ∃ old new, t.children (t.handleAt i) = .ok old ∧
      t'.children (t.handleAt i) = .ok (old ++ new) := by
  obtain ⟨new, hnew⟩ := h.childrenAt_prefix i
  have hi : i < t'.size := h.joined_lt h.size_pos
  refine ⟨_, new, children_handleAt h.lt_size, ?_⟩
  rw [← h.handleAt_eq, children_handleAt hi, hnew]

end Attached

end Arbor.Tree
