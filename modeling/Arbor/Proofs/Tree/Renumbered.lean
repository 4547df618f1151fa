import Arbor.Proofs.Tree.Attached
import Mathlib.Data.List.Nodup
import Mathlib.Logic.Equiv.Basic

/-!
# Trees that differ in numbering

Two trees may have the same nodes and the same edges and yet differ in the order in which the nodes
were added. One is then the other with its indices permuted (`Renumbered`). Grafting the same node
to both keeps this so, if it is grafted to a node that has the same index in both.

* `Renumbered.payloads_perm`, `Renumbered.edges_perm`, `Renumbered.edge_iff`: what is the same.
* `Attached.renumbered_exchange`: two trees attached to a node, one after the other, in either
  order.
-/

namespace Arbor.Tree

variable {α : Type} {t t' : Tree α}

/-! ## Edges by indices and by payloads -/

theorem payloadAt?_natCast (t : Tree α) (k : Nat) : t.payloadAt? k = t.payloads[k]? := by
  rw [payloadAt?, if_pos (Int.natCast_nonneg k), Int.toNat_natCast, getElem?_payloads]

/-- All edges are listed by their payloads in the order in which they are listed by indices. -/
theorem edges_eq_filterMap (t : Tree α) : t.edges = t.edgeIndices.filterMap t.edgePayloads? := by
  have hnodes : t.nodes.toList.map t.edgesOf = (List.range t.size).map fun i =>
      ((t.childrenAt i).map fun child => (i, child.index)).filterMap t.edgePayloads? := by
    refine List.ext_getElem (by simp [size]) fun i hi _ => ?_
    have hi : i < t.nodes.size := by simpa using hi
    have hpayload : t.payloadAt? i = some t.nodes[i].payload := by
      rw [payloadAt?_natCast, getElem?_payloads, Array.getElem?_eq_getElem hi]
      rfl
    simp only [List.getElem_map, List.getElem_range, Array.getElem_toList, edgesOf, childrenAt,
      Array.getElem?_eq_getElem hi, List.filterMap_map]
    refine List.filterMap_congr fun child _ => ?_
    simp only [Function.comp_apply, edgePayloads?, hpayload]
    cases t.payloadAt? child.index <;> rfl
  rw [edges, edgeIndices_eq, List.filterMap_flatMap, List.flatMap, hnodes]
  rfl

/-! ## Renumbering -/

/-- The nodes and the edges of a tree are those of another one with their indices permuted. The
permutation keeps to the indices that are in use. -/
structure Renumbered (σ : Equiv.Perm Nat) (t t' : Tree α) : Prop where
  id_eq : t'.id = t.id
  size_eq : t'.size = t.size
  beyond : ∀ k, t.size ≤ k → σ k = k
  payload : ∀ k, t'.payloads[σ k]? = t.payloads[k]?
  edges : t'.edgeIndices.Perm (t.edgeIndices.map (renumber σ))

namespace Renumbered

variable {σ : Equiv.Perm Nat}

theorem handleAt_eq (h : Renumbered σ t t') (k : Nat) : t'.handleAt k = t.handleAt k := by
  rw [handleAt, handleAt, h.id_eq]

theorem lt_size_iff (h : Renumbered σ t t') {k : Nat} : σ k < t.size ↔ k < t.size := by
  constructor
  · intro hσ
    by_contra hk
    rw [h.beyond k (Nat.le_of_not_lt hk)] at hσ
    exact hk hσ
  · intro hk
    by_contra hσ
    have hfixed : σ k = k := σ.injective (h.beyond (σ k) (Nat.le_of_not_lt hσ))
    rw [hfixed] at hσ
    exact hσ hk

/-- The same node is grafted to both trees. -/
theorem graft (h : Renumbered σ t t') {i : Nat} (hi : i < t.size) (hσ : σ i = i) (payload : α) :
    Renumbered σ (t.graft i payload) (t'.graft i payload) where
  id_eq := h.id_eq
  size_eq := by rw [size_graft, size_graft, h.size_eq]
  beyond k hk := by
    rw [size_graft] at hk
    exact h.beyond k (Nat.le_of_succ_le hk)
  payload k := by
    have hi' : i < t'.size := by rwa [h.size_eq]
    have hlt := h.lt_size_iff (k := k)
    rw [payloads_graft hi, payloads_graft hi', List.getElem?_append, List.getElem?_append,
      length_payloads, length_payloads, h.size_eq, h.payload]
    by_cases hk : k < t.size
    · rw [if_pos hk, if_pos (hlt.2 hk)]
    · rw [if_neg hk, if_neg (mt hlt.1 hk), h.beyond k (Nat.le_of_not_lt hk)]
  edges := by
    have hi' : i < t'.size := by rwa [h.size_eq]
    have hnew : renumber σ (i, (t.size : Int)) = (i, (t'.size : Int)) := by
      rw [renumber, hσ, Int.toNat_natCast, h.beyond t.size (Nat.le_refl _), h.size_eq]
    refine (edgeIndices_graft hi' payload).trans ((h.edges.append_right _).trans ?_)
    rw [← hnew, ← List.map_singleton, ← List.map_append]
    exact ((edgeIndices_graft hi payload).map _).symm

/-! ## What is the same -/

theorem payloads_perm (h : Renumbered σ t t') : t'.payloads.Perm t.payloads := by
  have hlist : ∀ t : Tree α,
      t.payloads.map some = (List.range t.size).map fun k => t.payloads[k]? := by
    intro t
    refine List.ext_getElem (by simp [length_payloads]) fun k hk _ => ?_
    have hk : k < t.payloads.length := by simpa using hk
    simp [List.getElem?_eq_getElem hk]
  have hrange : (List.range t.size).Perm ((List.range t.size).map σ) := by
    refine (List.perm_ext_iff_of_nodup List.nodup_range
      (List.nodup_range.map σ.injective)).2 fun k => ?_
    rw [List.mem_range, List.mem_map]
    constructor
    · intro hk
      refine ⟨σ.symm k, List.mem_range.2 (h.lt_size_iff.1 ?_), σ.apply_symm_apply k⟩
      rwa [σ.apply_symm_apply]
    · rintro ⟨j, hj, rfl⟩
      exact h.lt_size_iff.2 (List.mem_range.1 hj)
  have hpayloads : ((List.range t.size).map σ).map (fun k => t'.payloads[k]?) =
      (List.range t.size).map fun k => t.payloads[k]? := by
    rw [List.map_map]
    exact List.map_congr_left fun k _ => h.payload k
  refine (List.map_perm_map_iff (Option.some_injective α)).1 ?_
  rw [hlist t', hlist t, h.size_eq, ← hpayloads]
  exact hrange.map _

/-- An edge has the same payloads in both trees. -/
theorem edgePayloads?_eq (h : Renumbered σ t t') {e : Nat × Int} (he : 0 ≤ e.2) :
    t'.edgePayloads? (renumber σ e) = t.edgePayloads? e := by
  obtain ⟨i, j⟩ := e
  obtain ⟨k, rfl⟩ := Int.eq_ofNat_of_zero_le he
  simp only [edgePayloads?, renumber, Int.toNat_natCast, payloadAt?_natCast, h.payload]

theorem edges_perm (h : Renumbered σ t t') (hrooted : t.Rooted) : t'.edges.Perm t.edges := by
  rw [edges_eq_filterMap, edges_eq_filterMap]
  refine (h.edges.filterMap _).trans ?_
  rw [List.filterMap_map]
  refine List.Perm.of_eq (List.filterMap_congr fun e he => ?_)
  exact h.edgePayloads?_eq (Int.le_of_lt (hrooted.ends e he).1)

theorem edge_iff (h : Renumbered σ t t') (hrooted : t.Rooted) {i j : Nat} :
    t'.Edge (σ i) (σ j) ↔ t.Edge i j := by
  rw [Edge, Edge, h.edges.mem_iff, List.mem_map]
  constructor
  · rintro ⟨e, he, heq⟩
    obtain ⟨hstart, hend⟩ := Prod.mk.inj heq
    have hpos := (hrooted.ends e he).1
    have hj : e.2 = (j : Int) := by
      have hj := σ.injective (Int.ofNat_inj.1 hend)
      omega
    rw [← σ.injective hstart, ← hj]
    exact he
  · intro hedge
    exact ⟨_, hedge, by rw [renumber, Int.toNat_natCast]⟩

end Renumbered

/-! ## Two trees on one node -/

/-- After the first `n` indices, the next `p` change places with the `q` after them. -/
def exchange (n p q : Nat) : Equiv.Perm Nat where
  toFun k := if k < n then k else if k < n + p then k + q else if k < n + p + q then k - p else k
  invFun k := if k < n then k else if k < n + q then k + p else if k < n + q + p then k - q else k
  left_inv k := by
    dsimp only
    split_ifs <;> omega
  right_inv k := by
    dsimp only
    split_ifs <;> omega

theorem exchange_apply (n p q k : Nat) :
    exchange n p q k =
      if k < n then k else if k < n + p then k + q else if k < n + p + q then k - p else k := rfl

theorem exchange_of_lt {n k : Nat} (p q : Nat) (hk : k < n) : exchange n p q k = k := if_pos hk

/-- Two parts of a list exchanged, by places. -/
theorem getElem?_exchange (a b c : List α) (k : Nat) :
    (a ++ c ++ b)[exchange a.length b.length c.length k]? = (a ++ b ++ c)[k]? := by
  rw [exchange_apply]
  split_ifs with hfirst hsecond hthird
  · simp only [List.append_assoc, List.getElem?_append_left hfirst]
  · rw [List.append_assoc, List.append_assoc, List.getElem?_append_right (by omega),
      List.getElem?_append_right (by omega), List.getElem?_append_right (by omega),
      List.getElem?_append_left (by omega)]
    congr 1
    omega
  · rw [List.append_assoc, List.append_assoc, List.getElem?_append_right (by omega),
      List.getElem?_append_left (by omega), List.getElem?_append_right (by omega),
      List.getElem?_append_right (by omega)]
    congr 1
    omega
  · rw [List.getElem?_eq_none, List.getElem?_eq_none] <;>
      simp only [List.length_append] <;> omega

/-- The nodes of the tree that is attached first come after the others when it is attached
second. -/
theorem exchange_joined {n i k p : Nat} (q : Nat) (hi : i < n) (hk : k < p + 1) :
    exchange n p q (joined n i k) = joined (n + q) i k := by
  cases k <;> simp only [joined, exchange_apply] <;> split_ifs <;> omega

/-- The nodes of the tree that is attached second come before the others when it is attached
first. -/
theorem exchange_joined_add {n i k q : Nat} (p : Nat) (hi : i < n) (hk : k < q + 1) :
    exchange n p q (joined (n + p) i k) = joined n i k := by
  cases k <;> simp only [joined, exchange_apply] <;> split_ifs <;> omega

/-- Only the indices of nodes matter for what becomes of the edges. -/
theorem Rooted.map_renumber_congr {s : Tree α} (h : s.Rooted) {f f' : Nat → Nat}
    (hf : ∀ k < s.size, f k = f' k) :
    s.edgeIndices.map (renumber f) = s.edgeIndices.map (renumber f') := by
  refine List.map_congr_left fun e he => ?_
  have hends := h.ends e he
  have hedge : s.Edge e.1 e.2.toNat := by
    rw [Edge, Int.toNat_of_nonneg (Int.le_of_lt hends.1)]
    exact he
  have hlt := h.lt_of_edge hedge
  rw [renumber, renumber, hf e.1 (Nat.lt_trans hlt.1 hlt.2), hf e.2.toNat hlt.2]

theorem Rooted.map_renumber_id {s : Tree α} (h : s.Rooted) :
    (s.edgeIndices.map (renumber fun k => k)) = s.edgeIndices := by
  refine (List.map_congr_left fun e he => ?_).trans (List.map_id' _)
  rw [renumber, Int.toNat_of_nonneg (Int.le_of_lt (h.ends e he).1)]

/-- It does not matter, but for the numbering, which of two trees is attached to a node first. -/
theorem Attached.renumbered_exchange {u v tu tv tuv tvu : Tree α} {i : Nat} (ht : t.Rooted)
    (hu : u.Rooted) (hv : v.Rooted) (htu : t.Attached i u tu) (htuv : tu.Attached i v tuv)
    (htv : t.Attached i v tv) (htvu : tv.Attached i u tvu) :
    Renumbered (exchange t.size (u.size - 1) (v.size - 1)) tuv tvu := by
  obtain ⟨p, hp⟩ := Nat.exists_eq_succ_of_ne_zero (Nat.ne_of_gt htu.size_pos)
  obtain ⟨q, hq⟩ := Nat.exists_eq_succ_of_ne_zero (Nat.ne_of_gt htv.size_pos)
  have hi := htu.lt_size
  have hsize_tu : tu.size = t.size + p := by
    have hsize := htu.size_eq
    omega
  have hsize_tv : tv.size = t.size + q := by
    have hsize := htv.size_eq
    omega
  have hsize_tuv := htuv.size_eq
  have hsize_tvu := htvu.size_eq
  rw [hp, hq, Nat.succ_sub_one, Nat.succ_sub_one]
  refine ⟨?_, by omega, fun k hk => ?_, fun k => ?_, ?_⟩
  · rw [htvu.id_eq, htv.id_eq, htuv.id_eq, htu.id_eq]
  · rw [exchange_apply]
    split_ifs <;> omega
  · have hpu : u.payloads.tail.length = p := by simp [length_payloads, hp]
    have hqv : v.payloads.tail.length = q := by simp [length_payloads, hq]
    have hexchange := getElem?_exchange t.payloads u.payloads.tail v.payloads.tail k
    rw [hpu, hqv, length_payloads] at hexchange
    rw [htvu.payloads_eq, htv.payloads_eq, htuv.payloads_eq, htu.payloads_eq]
    exact hexchange
  · -- the edges of the old tree stay, and those of the two others change their places
    have hold : t.edgeIndices.map (renumber (exchange t.size p q)) = t.edgeIndices :=
      (ht.map_renumber_congr fun k hk => exchange_of_lt p q hk).trans ht.map_renumber_id
    have hfirst : (u.edgeIndices.map (renumber (joined t.size i))).map
        (renumber (exchange t.size p q)) = u.edgeIndices.map (renumber (joined tv.size i)) := by
      rw [List.map_map, hsize_tv]
      exact hu.map_renumber_congr (f := exchange t.size p q ∘ joined t.size i) fun k hk =>
        exchange_joined q hi (by omega)
    have hsecond : (v.edgeIndices.map (renumber (joined tu.size i))).map
        (renumber (exchange t.size p q)) = v.edgeIndices.map (renumber (joined t.size i)) := by
      rw [List.map_map, hsize_tu]
      exact hv.map_renumber_congr (f := exchange t.size p q ∘ joined (t.size + p) i) fun k hk =>
        exchange_joined_add p hi (by omega)
    have hedges := (htuv.edgeIndices_perm.trans (htu.edgeIndices_perm.append_right _)).map
      (renumber (exchange t.size p q))
    rw [List.map_append, List.map_append, hold, hfirst, hsecond] at hedges
    refine (htvu.edgeIndices_perm.trans (htv.edgeIndices_perm.append_right _)).trans
      (List.Perm.trans ?_ hedges.symm)
    rw [List.append_assoc, List.append_assoc]
    exact List.perm_append_comm.append_left _

end Arbor.Tree
