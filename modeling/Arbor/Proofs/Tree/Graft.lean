import Arbor.Proofs.Action
import Arbor.Tree.Basic
import Mathlib.Data.List.Perm.Basic

/-!
# Grafting

Adding a node and an edge to it from a node that is there already is one operation, `graft`. It
leaves the payloads and the handles of the old nodes alone, and among the edges there is exactly
one more.
-/

namespace Arbor.Tree

variable {α : Type} (t : Tree α)

/-! ## Children and edges by index -/

/-- The children of the node at an index; none if there is no such node. -/
def childrenAt (i : Nat) : List Handle :=
  match t.nodes[i]? with
  | some node => node.children
  | none => []

theorem childrenAt_of_size_le {i : Nat} (h : t.size ≤ i) : t.childrenAt i = [] := by
  rw [childrenAt, Array.getElem?_eq_none h]

theorem childrenAt_of_lt {i : Nat} (h : i < t.size) :
    t.childrenAt i = (t.node ⟨i, h⟩).children := by
  rw [childrenAt, Array.getElem?_eq_getElem h]
  rfl

theorem edgeIndices_eq :
    t.edgeIndices =
      (List.range t.size).flatMap fun i => (t.childrenAt i).map fun child => (i, child.index) := by
  unfold edgeIndices childrenAt
  congr 1
  funext i
  cases t.nodes[i]? <;> rfl

theorem mem_edgeIndices {i : Nat} {j : Int} :
    (i, j) ∈ t.edgeIndices ↔ ∃ child ∈ t.childrenAt i, child.index = j := by
  rw [edgeIndices_eq, List.mem_flatMap]
  constructor
  · rintro ⟨i', -, hmem⟩
    obtain ⟨child, hchild, heq⟩ := List.mem_map.1 hmem
    cases heq
    exact ⟨child, hchild, rfl⟩
  · rintro ⟨child, hchild, rfl⟩
    have hi : i < t.size := by
      by_contra hi
      rw [childrenAt_of_size_le t (by omega)] at hchild
      cases hchild
    exact ⟨i, List.mem_range.2 hi, List.mem_map_of_mem hchild⟩

theorem edgeCount_eq : t.edgeCount = t.edgeIndices.length := by
  have hnodes : t.nodes.toList.map (fun node => node.children.length) =
      (List.range t.size).map fun i => (t.childrenAt i).length := by
    refine List.ext_getElem (by simp [size]) fun i hi _ => ?_
    have hi : i < t.nodes.size := by simpa using hi
    simp [childrenAt, Array.getElem?_eq_getElem hi]
  have hcount : t.edgeCount = (t.nodes.toList.map fun node => node.children.length).sum := by
    rw [List.sum_eq_foldl_nat, List.foldl_map]
    rfl
  rw [hcount, edgeIndices_eq, List.length_flatMap, hnodes]
  simp only [List.length_map]

/-- If no edge leads out of the tree, all of them are listed. -/
theorem length_edges (h : ∀ e ∈ t.edgeIndices, ∃ payload, t.payloadAt? e.2 = some payload) :
    t.edges.length = t.edgeCount := by
  have hlength : t.nodes.toList.map (fun node => (t.edgesOf node).length) =
      t.nodes.toList.map fun node => node.children.length := by
    refine List.map_congr_left fun node hnode => ?_
    obtain ⟨k, hk, rfl⟩ := List.getElem_of_mem hnode
    have hk : k < t.nodes.size := by simpa using hk
    refine List.filterMap_length_eq_length.2 fun child hchild => ?_
    have hmem : child ∈ t.childrenAt k := by
      simpa [childrenAt, Array.getElem?_eq_getElem hk] using hchild
    obtain ⟨p, hp⟩ := h (k, child.index) ((mem_edgeIndices t).2 ⟨child, hmem, rfl⟩)
    rw [hp]
    rfl
  rw [Tree.edges, List.length_flatMap, hlength, List.sum_eq_foldl_nat, List.foldl_map]
  rfl

/-- An edge given by indices as a pair of payloads. -/
def edgePayloads? (e : Nat × Int) : Option (α × α) := do
  let a ← t.payloadAt? e.1
  let b ← t.payloadAt? e.2
  return (a, b)

/-! ## The two steps as one -/

/-- An edge is added when both its ends have been found; until then the tree is as it was. -/
theorem addEdge_run (start end_ : Reference) :
    (addEdge start end_).run t =
      match t.ends start end_ with
      | .ok ij => .ok () (t.appendChild ij.1 (t.handleAt ij.2))
      | .error fault => .error fault t := by
  simp only [addEdge, EStateM.run_bind, EStateM.run_get, Action.run_ofResult]
  cases t.ends start end_ <;> rfl

/-- The tree with a new node and an edge to it from the node at index `i`. -/
def graft (i : Nat) (payload : α) : Tree α :=
  ⟨t.id, (t.nodes.push ⟨payload, []⟩).modify i fun node =>
    ⟨node.payload, node.children ++ [t.handleAt t.size]⟩⟩

@[simp] theorem size_graft (i : Nat) (payload : α) :
    (t.graft i payload).size = t.size + 1 := by
  simp [graft, size]

variable {t}

theorem nodes_graft {i : Nat} (hi : i < t.size) (payload : α) (k : Nat) :
    (t.graft i payload).nodes[k]? =
      if k = t.size then some ⟨payload, []⟩
      else if k = i then
        (t.nodes[k]?).map fun node => ⟨node.payload, node.children ++ [t.handleAt t.size]⟩
      else t.nodes[k]? := by
  simp only [graft, Array.getElem?_modify, Array.getElem?_push]
  by_cases hk : k = t.size
  · have hki : i ≠ k := by omega
    rw [if_neg hki, if_pos (show k = t.nodes.size from hk), if_pos hk]
  · rw [if_neg (show k ≠ t.nodes.size from hk), if_neg hk]
    simp only [eq_comm]

theorem childrenAt_graft {i : Nat} (hi : i < t.size) (payload : α) (k : Nat) :
    (t.graft i payload).childrenAt k =
      t.childrenAt k ++ if k = i then [t.handleAt t.size] else [] := by
  simp only [childrenAt, nodes_graft hi]
  by_cases hk : k = t.size
  · have hnone : t.nodes[k]? = none := Array.getElem?_eq_none (Nat.le_of_eq hk.symm)
    rw [if_pos hk, hnone, if_neg (by omega)]
    rfl
  · rw [if_neg hk]
    by_cases hki : k = i
    · obtain ⟨node, hnode⟩ : ∃ node, t.nodes[k]? = some node :=
        ⟨_, Array.getElem?_eq_getElem (hki ▸ hi)⟩
      rw [if_pos hki, if_pos hki, hnode]
      rfl
    · rw [if_neg hki, if_neg hki, List.append_nil]

/-- A list at a single place of a range. -/
theorem flatMap_range_ite {β : Type} {n i : Nat} (hi : i < n) (l : List β) :
    ((List.range n).flatMap fun k => if k = i then l else []) = l := by
  induction n with
  | zero => omega
  | succ n ih =>
    rw [List.range_succ, List.flatMap_append, List.flatMap_singleton]
    by_cases hn : n = i
    · have hnil : ((List.range n).flatMap fun k => if k = i then l else []) = [] := by
        rw [List.flatMap_eq_nil_iff]
        intro k hk
        have hk := List.mem_range.1 hk
        exact if_neg (by omega)
      rw [hnil, if_pos hn, List.nil_append]
    · rw [ih (by omega), if_neg hn, List.append_nil]

/-- There is exactly one more edge, to the new node. -/
theorem edgeIndices_graft {i : Nat} (hi : i < t.size) (payload : α) :
    (t.graft i payload).edgeIndices.Perm (t.edgeIndices ++ [(i, (t.size : Int))]) := by
  have hsplit : ∀ k, ((t.graft i payload).childrenAt k).map (fun child => (k, child.index)) =
      ((t.childrenAt k).map fun child => (k, child.index)) ++
        if k = i then [(i, (t.size : Int))] else [] := by
    intro k
    rw [childrenAt_graft hi]
    by_cases hk : k = i <;> simp [hk, handleAt]
  have hlast : ((t.graft i payload).childrenAt t.size).map
      (fun child => (t.size, child.index)) = [] := by
    rw [hsplit, childrenAt_of_size_le t (Nat.le_refl _), if_neg (by omega)]
    rfl
  rw [edgeIndices_eq (t.graft i payload), size_graft, List.range_succ, List.flatMap_append,
    List.flatMap_singleton, hlast, List.append_nil, edgeIndices_eq t]
  simp only [hsplit]
  refine (List.flatMap_append_perm _ _ _).symm.trans ?_
  rw [flatMap_range_ite hi]

theorem edgeCount_graft {i : Nat} (hi : i < t.size) (payload : α) :
    (t.graft i payload).edgeCount = t.edgeCount + 1 := by
  rw [edgeCount_eq, edgeCount_eq, (edgeIndices_graft hi payload).length_eq, List.length_append]
  rfl

/-! ## Handles -/

theorem handleAt_inj {j k : Nat} : t.handleAt j = t.handleAt k ↔ j = k := by
  rw [handleAt, handleAt, Handle.mk.injEq, and_iff_left rfl, Int.ofNat_inj]

theorem locate_eq_ok_iff {h : Handle} {i : Fin t.nodes.size} :
    t.locate h = .ok i ↔ h = t.handleAt i := by
  obtain ⟨index, owner⟩ := h
  simp only [locate, handleAt, Handle.mk.injEq]
  by_cases howner : owner = some t.id
  · rw [if_neg (not_not_intro howner)]
    by_cases hindex : 0 ≤ index ∧ index.toNat < t.nodes.size
    · rw [dif_pos hindex, Except.ok.injEq, Fin.ext_iff]
      simp only [howner, and_true]
      omega
    · have hi := i.isLt
      rw [dif_neg hindex]
      simp only [reduceCtorEq, false_iff]
      omega
  · rw [if_pos howner]
    simp [howner]

theorem locate_handleAt {k : Nat} (hk : k < t.size) : t.locate (t.handleAt k) = .ok ⟨k, hk⟩ :=
  locate_eq_ok_iff.2 rfl

/-- A handle addresses a node exactly if it was issued for one. -/
theorem exists_locate_iff {h : Handle} :
    (∃ i, t.locate h = .ok i) ↔ ∃ k < t.size, h = t.handleAt k := by
  simp only [locate_eq_ok_iff]
  exact ⟨fun ⟨i, hi⟩ => ⟨i, i.isLt, hi⟩, fun ⟨k, hk, h⟩ => ⟨⟨k, hk⟩, h⟩⟩

theorem get_eq_ok_iff {r : Reference} {payload : α} :
    t.get r = .ok payload ↔ ∃ i, t.locate r = .ok i ∧ (t.node i).payload = payload := by
  unfold get
  cases t.locate r with
  | error fault => simp [bind, Except.bind]
  | ok i => simp [bind, Except.bind, pure, Except.pure]

/-- A reference addresses a node only if it is the handle that was issued for this node. -/
theorem eq_handleAt_of_locate {r : Reference} {i : Fin t.nodes.size} (h : t.locate r = .ok i) :
    r = t.handleAt i := by
  cases r with
  | other value => cases h
  | handle handle => rw [locate_eq_ok_iff.1 h]

theorem children_handleAt {k : Nat} (hk : k < t.size) :
    t.children (t.handleAt k) = .ok (t.childrenAt k) := by
  rw [Tree.children, locate_handleAt hk, childrenAt_of_lt t hk]
  rfl

theorem children_eq_ok_iff {r : Reference} {children : List Handle} :
    t.children r = .ok children ↔
      ∃ k < t.size, r = t.handleAt k ∧ children = t.childrenAt k := by
  constructor
  · intro h
    cases hlocate : t.locate r with
    | error fault =>
      rw [Tree.children, hlocate] at h
      cases h
    | ok k =>
      rw [eq_handleAt_of_locate hlocate, children_handleAt k.isLt] at h
      exact ⟨k, k.isLt, eq_handleAt_of_locate hlocate, (Except.ok.inj h).symm⟩
  · rintro ⟨k, hk, rfl, rfl⟩
    exact children_handleAt hk

theorem children_eq_ok {r : Reference} {children : List Handle}
    (hc : t.children r = .ok children) : ∃ k < t.size, children = t.childrenAt k := by
  obtain ⟨k, hk, -, heq⟩ := children_eq_ok_iff.1 hc
  exact ⟨k, hk, heq⟩

end Arbor.Tree
