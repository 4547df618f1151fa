import Arbor.Proofs.Tree.Graft
import Mathlib.Logic.Relation

/-!
# Rooted trees

Nothing keeps an arena of nodes from holding any graph at all. It is a rooted tree (`Rooted`) when
every edge leads to a node other than the first, and every node other than the first has exactly
one edge to it, from a node that was added earlier.

* `rooted_leaf`, `Rooted.graft`: a single node is one, and grafting keeps it one.
* `Rooted.not_transGen_edge`, `Rooted.reflTransGen_edge`: it has no cycle, and every node is
  reached from the first.
-/

namespace Arbor.Tree

open Relation

variable {α : Type} {t : Tree α}

def Edge (t : Tree α) (i j : Nat) : Prop := (i, (j : Int)) ∈ t.edgeIndices

def edgesTo (t : Tree α) (k : Nat) : List (Nat × Int) := t.edgeIndices.filter fun e => e.2 = k

/-- An arena whose edges make it a tree with the first node for its root. -/
structure Rooted (t : Tree α) : Prop where
  nonempty : 0 < t.size
  size_eq : t.size = 1 + t.edgeCount
  ends : ∀ e ∈ t.edgeIndices, 0 < e.2 ∧ e.2 < t.size
  parent : ∀ k, 0 < k → k < t.size → ∃ i < k, t.edgesTo k = [(i, (k : Int))]
  increasing : ∀ i, (t.childrenAt i).Pairwise fun h k => h.index < k.index

theorem mem_edgesTo {k i : Nat} : (i, (k : Int)) ∈ t.edgesTo k ↔ t.Edge i k := by
  simp [edgesTo, Edge]

/-! ## Growing -/

def leaf (id : Nat) (payload : α) : Tree α := ⟨id, #[⟨payload, []⟩]⟩

theorem childrenAt_leaf (id : Nat) (payload : α) (i : Nat) :
    (leaf id payload).childrenAt i = [] := by
  cases i <;> rfl

theorem rooted_leaf (id : Nat) (payload : α) : (leaf id payload).Rooted where
  nonempty := Nat.one_pos
  size_eq := rfl
  ends e he := by
    obtain ⟨child, hchild, -⟩ := (mem_edgeIndices _ (i := e.1)).1 he
    rw [childrenAt_leaf] at hchild
    cases hchild
  parent k hpos hk := absurd hk (Nat.not_lt.2 hpos)
  increasing i := by
    rw [childrenAt_leaf]
    exact List.Pairwise.nil

theorem edge_graft {i : Nat} (hi : i < t.size) (payload : α) {j k : Nat} :
    (t.graft i payload).Edge j k ↔ t.Edge j k ∨ (j = i ∧ k = t.size) := by
  unfold Edge
  rw [(edgeIndices_graft hi payload).mem_iff, List.mem_append, List.mem_singleton, Prod.mk.injEq,
    Int.ofNat_inj]

theorem edgesTo_graft {i : Nat} (hi : i < t.size) (payload : α) (k : Nat) :
    ((t.graft i payload).edgesTo k).Perm
      (t.edgesTo k ++ if k = t.size then [(i, (t.size : Int))] else []) := by
  refine ((edgeIndices_graft hi payload).filter _).trans ?_
  rw [List.filter_append, edgesTo]
  by_cases hk : k = t.size
  · simp [hk]
  · have hne : ¬ (t.size : Int) = k := by omega
    simp [hk, hne]

namespace Rooted

theorem child_lt (h : t.Rooted) {i : Nat} {child : Handle} (hchild : child ∈ t.childrenAt i) :
    child.index < t.size :=
  (h.ends (i, child.index) ((mem_edgeIndices t).2 ⟨child, hchild, rfl⟩)).2

/-- Every node other than the first is listed as the end of one edge. -/
theorem length_edges (h : t.Rooted) : t.edges.length + 1 = t.size := by
  have hends : ∀ e ∈ t.edgeIndices, ∃ payload, t.payloadAt? e.2 = some payload := by
    intro e he
    obtain ⟨hpos, hlt⟩ := h.ends e he
    have hindex : e.2.toNat < t.nodes.size := (Int.toNat_lt (Int.le_of_lt hpos)).2 hlt
    refine ⟨(t.nodes[e.2.toNat]).payload, ?_⟩
    rw [payloadAt?, if_pos (Int.le_of_lt hpos), Array.getElem?_eq_getElem hindex, Option.map_some]
  rw [Tree.length_edges t hends, h.size_eq, Nat.add_comm]

/-- The index of a new node is larger than all others: no edge leads to it yet, and it comes after
the other children of its parent. -/
theorem graft (h : t.Rooted) {i : Nat} (hi : i < t.size) (payload : α) :
    (t.graft i payload).Rooted where
  nonempty := by
    rw [size_graft]
    exact Nat.succ_pos _
  size_eq := by
    rw [size_graft, edgeCount_graft hi, h.size_eq]
    rfl
  ends e he := by
    rw [size_graft]
    have hpos := h.nonempty
    rcases List.mem_append.1 ((edgeIndices_graft hi payload).mem_iff.1 he) with hold | hnew
    · have hends := h.ends e hold
      omega
    · rw [List.mem_singleton.1 hnew]
      show (0 : Int) < t.size ∧ (t.size : Int) < (t.size + 1 : Nat)
      omega
  parent k hpos hk := by
    have hperm := edgesTo_graft hi payload k
    by_cases hnew : k = t.size
    · subst hnew
      have hnone : t.edgesTo t.size = [] := by
        refine List.filter_eq_nil_iff.2 fun e he => ?_
        have hends := (h.ends e he).2
        simp only [decide_eq_true_eq]
        omega
      rw [hnone, if_pos rfl, List.nil_append] at hperm
      exact ⟨i, hi, List.perm_singleton.1 hperm⟩
    · rw [size_graft] at hk
      obtain ⟨j, hj, hedges⟩ := h.parent k hpos (by omega)
      rw [if_neg hnew, List.append_nil, hedges] at hperm
      exact ⟨j, hj, List.perm_singleton.1 hperm⟩
  increasing k := by
    rw [childrenAt_graft hi]
    by_cases hk : k = i
    · rw [if_pos hk, List.pairwise_append]
      refine ⟨h.increasing k, List.pairwise_singleton _ _, fun child hchild new hnew => ?_⟩
      rw [List.mem_singleton.1 hnew]
      exact h.child_lt hchild
    · rw [if_neg hk, List.append_nil]
      exact h.increasing k

/-! ## Paths -/

/-- A node is reached by an edge from one node only, which was there before it. -/
theorem edge_unique (h : t.Rooted) {i j k : Nat} (hi : t.Edge i k) (hj : t.Edge j k) : i = j := by
  have hends := h.ends _ hi
  obtain ⟨p, -, hedges⟩ := h.parent k (by simpa using hends.1) (by simpa using hends.2)
  have hp : ∀ {i}, t.Edge i k → i = p := by
    intro i hi
    rw [← mem_edgesTo, hedges, List.mem_singleton] at hi
    exact congrArg Prod.fst hi
  rw [hp hi, hp hj]

theorem exists_edge (h : t.Rooted) {k : Nat} (hpos : 0 < k) (hk : k < t.size) :
    ∃ i < k, t.Edge i k := by
  obtain ⟨i, hi, hedges⟩ := h.parent k hpos hk
  refine ⟨i, hi, mem_edgesTo.1 ?_⟩
  rw [hedges]
  exact List.mem_singleton_self _

theorem lt_of_edge (h : t.Rooted) {i k : Nat} (hi : t.Edge i k) : i < k ∧ k < t.size := by
  have hends := h.ends _ hi
  have hpos : 0 < k := by simpa using hends.1
  have hk : k < t.size := by simpa using hends.2
  obtain ⟨p, hp, hedge⟩ := h.exists_edge hpos hk
  rw [h.edge_unique hi hedge]
  exact ⟨hp, hk⟩

theorem not_edge_zero (h : t.Rooted) (i : Nat) : ¬ t.Edge i 0 :=
  fun hi => Nat.not_lt_zero i (h.lt_of_edge hi).1

theorem lt_of_transGen (h : t.Rooted) {i k : Nat} (hik : TransGen t.Edge i k) : i < k := by
  induction hik with
  | single hedge => exact (h.lt_of_edge hedge).1
  | tail _ hedge ih => exact Nat.lt_trans ih (h.lt_of_edge hedge).1

/-- There is no cycle. -/
theorem not_transGen_edge (h : t.Rooted) (i : Nat) : ¬ TransGen t.Edge i i :=
  fun hcycle => Nat.lt_irrefl i (h.lt_of_transGen hcycle)

/-- Every node is reached from the root. -/
theorem reflTransGen_edge (h : t.Rooted) (k : Nat) (hk : k < t.size) :
    ReflTransGen t.Edge 0 k := by
  induction k using Nat.strongRecOn with
  | ind k ih =>
    rcases Nat.eq_zero_or_pos k with rfl | hpos
    · exact ReflTransGen.refl
    · obtain ⟨i, hi, hedge⟩ := h.exists_edge hpos hk
      exact (ih i hi (Nat.lt_trans hi hk)).tail hedge

end Rooted

end Arbor.Tree
