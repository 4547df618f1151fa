import Arbor.Proofs.Fault.Outcome
import Arbor.Proofs.Tree.Renumbered
import Arbor.Proofs.Tree.Traversal

/-!
# Listing the edges of a tree

A tree keeps its edges apart, node by node, and lists them in that order. Seen from outside there is
one list: the calls that have added an edge, in the order in which they were made (`added`). What a
tree keeps for a node is the part of that list that starts there, so listing the edges is sorting
the calls by where they start, without changing the order of those that start at the same node.

* `childrenAt_change`, `childrenAt_changes`: what a call adds to the children of a node, and what
  some calls do.
* `mergeSort_eq_flatMap`: sorting by a key collects what has the same key.
* `edges_eq_sorted`: the edges of a tree are the calls that added them, sorted by their start.
-/

namespace Arbor

/-! ## Sorting by a key -/

section Sorting

variable {β : Type} (key : β → Int)

/-- The order that a key gives. -/
def keyLE (a b : β) : Bool := key a ≤ key b

variable {key}

theorem keyLE_trans (a b c : β) (hab : keyLE key a b) (hbc : keyLE key b c) : keyLE key a c :=
  decide_eq_true (Int.le_trans (of_decide_eq_true hab) (of_decide_eq_true hbc))

theorem keyLE_total (a b : β) : (keyLE key a b || keyLE key b a) = true := by
  simp [keyLE, Int.le_total]

/-- Sorting keeps the order of what has the same key. -/
theorem filter_mergeSort (l : List β) (k : Int) :
    (l.mergeSort (keyLE key)).filter (key · = k) = l.filter (key · = k) := by
  have hsorted : (l.filter (key · = k)).Pairwise fun a b => keyLE key a b := by
    refine List.Pairwise.imp_of_mem ?_ (List.pairwise_of_forall fun _ _ => trivial)
    intro a b ha hb _
    have ha : key a = k := by simpa using (List.mem_filter.1 ha).2
    have hb : key b = k := by simpa using (List.mem_filter.1 hb).2
    simp [keyLE, ha, hb]
  have hkept := (List.sublist_mergeSort keyLE_trans keyLE_total hsorted List.filter_sublist).filter
    (key · = k)
  rw [List.filter_filter] at hkept
  simp only [Bool.and_self] at hkept
  exact (hkept.eq_of_length ((List.mergeSort_perm l _).filter _).length_eq.symm).symm

/-- In a sorted list those with the greatest key come last. -/
theorem filter_lt_succ {l : List β} (hl : l.Pairwise fun a b => keyLE key a b) (n : Int) :
    l.filter (key · < n + 1) = l.filter (key · < n) ++ l.filter (key · = n) := by
  induction l with
  | nil => rfl
  | cons a l ih =>
    obtain ⟨hle, hl⟩ := List.pairwise_cons.1 hl
    have hih := ih hl
    rcases Int.lt_trichotomy (key a) n with hlt | rfl | hgt
    · have hsucc : key a < n + 1 := by omega
      have hne : key a ≠ n := by omega
      simp only [List.filter_cons, hlt, hsucc, hne, decide_true, decide_false, if_true, hih,
        Bool.false_eq_true, if_false, List.cons_append]
    · -- nothing after `a` has a smaller key
      have hnone : l.filter (key · < key a) = [] := by
        rw [List.filter_eq_nil_iff]
        intro b hb
        have hab : key a ≤ key b := of_decide_eq_true (hle b hb)
        simp only [decide_eq_true_eq]
        omega
      have hsucc : key a < key a + 1 := by omega
      have hlt : ¬ key a < key a := by omega
      rw [hnone, List.nil_append] at hih
      simp only [List.filter_cons, hlt, hsucc, decide_true, decide_false, if_true, hih, hnone,
        Bool.false_eq_true, if_false, List.nil_append]
    · have hsucc : ¬ key a < n + 1 := by omega
      have hlt : ¬ key a < n := by omega
      have hne : key a ≠ n := by omega
      simp only [List.filter_cons, hlt, hsucc, hne, decide_false, hih, Bool.false_eq_true, if_false]

/-- **Sorting by a key collects what has the same key**, from the smallest key to the greatest. -/
theorem mergeSort_eq_flatMap {l : List β} {n : Nat} (hkey : ∀ a ∈ l, 0 ≤ key a ∧ key a < n) :
    l.mergeSort (keyLE key) =
      (List.range n).flatMap fun k : Nat => l.filter (key · = (k : Int)) := by
  have hsorted : (l.mergeSort (keyLE key)).Pairwise fun a b => keyLE key a b :=
    List.pairwise_mergeSort keyLE_trans keyLE_total l
  have hkey : ∀ a ∈ l.mergeSort (keyLE key), 0 ≤ key a ∧ key a < n := fun a ha =>
    hkey a (List.mem_mergeSort.1 ha)
  have hcollect : ∀ m : Nat, (l.mergeSort (keyLE key)).filter (key · < (m : Int)) =
      (List.range m).flatMap fun k : Nat =>
        (l.mergeSort (keyLE key)).filter (key · = (k : Int)) := by
    intro m
    induction m with
    | zero =>
      rw [List.range_zero, List.flatMap_nil, List.filter_eq_nil_iff]
      intro a ha
      have hpos := (hkey a ha).1
      simp only [decide_eq_true_eq]
      omega
    | succ m ih =>
      rw [List.range_succ, List.flatMap_append, List.flatMap_singleton, ← ih]
      exact filter_lt_succ hsorted m
  have hall : (l.mergeSort (keyLE key)).filter (key · < (n : Int)) = l.mergeSort (keyLE key) := by
    rw [List.filter_eq_self]
    intro a ha
    exact decide_eq_true (hkey a ha).2
  rw [← hall, hcollect]
  simp only [filter_mergeSort]

end Sorting

namespace Tree

variable {α : Type} {t : Tree α}

/-! ## The calls that add an edge -/

/-- The edge that a call adds, from one handle to another; none if the call is refused. -/
def Change.edge? (t : Tree α) : Change α → Option (Handle × Handle)
  | .edge (.handle h) (.handle k) =>
    match (addEdge h k).run t with
    | .ok _ _ => some (h, k)
    | .error _ _ => none
  | _ => none

/-- The edges that some calls add, in the order of the calls. -/
def added : List (Change α) → Tree α → List (Handle × Handle)
  | [], _ => []
  | c :: calls, t => (c.edge? t).toList ++ added calls (t.change c)

/-- What a call can do: add a node, or an edge between two nodes, or nothing. -/
theorem change_cases (t : Tree α) (c : Change α) :
    (∃ payload, t.change c = (t.addNode payload).1 ∧ c.edge? t = none) ∨
    (∃ i j : Fin t.nodes.size, t.change c = t.appendChild i (t.handleAt j) ∧
      c.edge? t = some (t.handleAt i, t.handleAt j)) ∨
    (t.change c = t ∧ c.edge? t = none) := by
  cases c with
  | node payload => exact Or.inl ⟨payload, rfl, rfl⟩
  | edge start end_ =>
    right
    cases hends : t.ends start end_ with
    | error fault =>
      right
      have hadd : (addEdge start end_).run t = .error fault t := by rw [addEdge_run, hends]
      refine ⟨Action.reached_of_error hadd, ?_⟩
      cases start with
      | other value => rfl
      | handle h =>
        cases end_ with
        | other value => rfl
        | handle k => simp only [Change.edge?, hadd]
    | ok ij =>
      left
      obtain ⟨hi, hj⟩ := ends_eq_ok_iff.1 hends
      obtain rfl := eq_handleAt_of_locate hi
      obtain rfl := eq_handleAt_of_locate hj
      have hadd : (addEdge (t.handleAt ij.1) (t.handleAt ij.2)).run t =
          .ok () (t.appendChild ij.1 (t.handleAt ij.2)) := by rw [addEdge_run, hends]
      exact ⟨ij.1, ij.2, Action.reached_of_ok hadd, by simp only [Change.edge?, hadd]⟩

/-- A call issues no handle anew. -/
theorem handleAt_change (t : Tree α) (c : Change α) (k : Nat) :
    (t.change c).handleAt k = t.handleAt k := by
  rcases t.change_cases c with ⟨payload, h, -⟩ | ⟨i, j, h, -⟩ | ⟨h, -⟩ <;> rw [h] <;> rfl

theorem size_le_change (t : Tree α) (c : Change α) : t.size ≤ (t.change c).size := by
  rcases t.change_cases c with ⟨payload, h, -⟩ | ⟨i, j, h, -⟩ | ⟨h, -⟩
  · rw [h]
    simp [addNode, size]
  · rw [h]
    simp [appendChild, size]
  · rw [h]

/-- A call adds its edge, if it has one, to the children of the node where it starts. -/
theorem childrenAt_change (t : Tree α) (c : Change α) (k : Nat) :
    (t.change c).childrenAt k =
      t.childrenAt k ++ ((c.edge? t).toList.filter (·.1 = t.handleAt k)).map Prod.snd := by
  rcases t.change_cases c with ⟨payload, h, hedge⟩ | ⟨i, j, h, hedge⟩ | ⟨h, hedge⟩
  · rw [h, hedge, childrenAt_addNode]
    simp
  · rw [h, hedge, childrenAt_appendChild]
    by_cases hk : k = i
    · simp [hk]
    · have hne : t.handleAt i ≠ t.handleAt k := by
        rw [Ne, handleAt_inj]
        exact fun heq => hk heq.symm
      simp [hk, hne]
  · rw [h, hedge]
    simp

/-! ## A run of calls -/

theorem handleAt_changes (calls : List (Change α)) (t : Tree α) (k : Nat) :
    (calls.foldl change t).handleAt k = t.handleAt k := by
  induction calls generalizing t with
  | nil => rfl
  | cons c calls ih => rw [List.foldl_cons, ih, handleAt_change]

theorem size_le_changes (calls : List (Change α)) (t : Tree α) :
    t.size ≤ (calls.foldl change t).size := by
  induction calls generalizing t with
  | nil => exact Nat.le_refl _
  | cons c calls ih => exact Nat.le_trans (t.size_le_change c) (ih _)

/-- The children of a node are those that it had and the ends of the edges added there since. -/
theorem childrenAt_changes (calls : List (Change α)) (t : Tree α) (k : Nat) :
    (calls.foldl change t).childrenAt k =
      t.childrenAt k ++ ((added calls t).filter (·.1 = t.handleAt k)).map Prod.snd := by
  induction calls generalizing t with
  | nil => simp [added]
  | cons c calls ih =>
    rw [List.foldl_cons, ih, childrenAt_change, handleAt_change, added, List.filter_append,
      List.map_append, List.append_assoc]

/-- Edges are added between nodes of the tree. -/
theorem mem_added {calls : List (Change α)} {e : Handle × Handle} (he : e ∈ added calls t) :
    ∃ i j, i < (calls.foldl change t).size ∧ j < (calls.foldl change t).size ∧
      e = (t.handleAt i, t.handleAt j) := by
  induction calls generalizing t with
  | nil => cases he
  | cons c calls ih =>
    have hle := Nat.le_trans (t.size_le_change c) (size_le_changes calls (t.change c))
    rcases List.mem_append.1 he with hnew | hlater
    · rcases t.change_cases c with ⟨payload, -, hedge⟩ | ⟨i, j, -, hedge⟩ | ⟨-, hedge⟩
      · rw [hedge] at hnew
        cases hnew
      · rw [hedge] at hnew
        rw [List.mem_singleton.1 hnew]
        exact ⟨i, j, Nat.lt_of_lt_of_le i.isLt hle, Nat.lt_of_lt_of_le j.isLt hle, rfl⟩
      · rw [hedge] at hnew
        cases hnew
    · obtain ⟨i, j, hi, hj, heq⟩ := ih hlater
      rw [handleAt_change, handleAt_change] at heq
      exact ⟨i, j, hi, hj, heq⟩

/-! ## The edges as one list -/

def payloadsAt (t : Tree α) (e : Handle × Handle) : Except Fault (α × α) := do
  let a ← t.get e.1
  let b ← t.get e.2
  return (a, b)

def indicesAt (e : Handle × Handle) : Nat × Int := (e.1.index.toNat, e.2.index)

theorem exists_payloadsAt {i j : Nat} (hi : i < t.size) (hj : j < t.size) :
    ∃ pair, t.edgePayloads? (indicesAt (t.handleAt i, t.handleAt j)) = some pair ∧
      t.payloadsAt (t.handleAt i, t.handleAt j) = .ok pair := by
  have hpayload : ∀ {k : Nat} (hk : k < t.size), t.payloadAt? k = some (t.node ⟨k, hk⟩).payload ∧
      t.get (t.handleAt k) = .ok (t.node ⟨k, hk⟩).payload := by
    intro k hk
    refine ⟨?_, get_eq_ok_iff.2 ⟨_, locate_handleAt hk, rfl⟩⟩
    rw [payloadAt?_natCast, getElem?_payloads, Array.getElem?_eq_getElem hk]
    rfl
  refine ⟨((t.node ⟨i, hi⟩).payload, (t.node ⟨j, hj⟩).payload), ?_, ?_⟩
  · simp only [edgePayloads?, indicesAt, handleAt, Int.toNat_natCast, (hpayload hi).1,
      (hpayload hj).1]
    rfl
  · simp only [payloadsAt, (hpayload hi).2, (hpayload hj).2]
    rfl

/-- What is found for every item of a list corresponds to the list. -/
theorem forall₂_filterMap {β γ : Type} {f : β → Option γ} {R : β → γ → Prop} {l : List β}
    (h : ∀ a ∈ l, ∃ b, f a = some b ∧ R a b) : List.Forall₂ R l (l.filterMap f) := by
  induction l with
  | nil => exact .nil
  | cons a l ih =>
    obtain ⟨⟨b, hb, hab⟩, hl⟩ := List.forall_mem_cons.1 h
    rw [List.filterMap_cons_some hb]
    exact .cons hab (ih hl)

section Run

variable (id : Nat) (calls : List (Change α))

/-- The edges by their indices are the calls that added them, sorted by their start. -/
theorem edgeIndices_changes :
    (calls.foldl change (empty id)).edgeIndices =
      ((added calls (empty id)).mergeSort (keyLE (·.1.index))).map indicesAt := by
  have hkey : ∀ e ∈ added calls (empty id),
      0 ≤ e.1.index ∧ e.1.index < (calls.foldl change (empty id)).size := by
    intro e he
    obtain ⟨i, j, hi, -, rfl⟩ := mem_added he
    simp only [handleAt]
    omega
  have hnode : ∀ k : Nat, ((calls.foldl change (empty id)).childrenAt k).map
        (fun child => (k, child.index)) =
      ((added calls (empty id)).filter (·.1.index = (k : Int))).map indicesAt := by
    intro k
    have hstart : (added calls (empty id)).filter (·.1 = (empty (α := α) id).handleAt k) =
        (added calls (empty id)).filter (·.1.index = (k : Int)) := by
      refine List.filter_congr fun e he => decide_eq_decide.2 ?_
      obtain ⟨i, j, -, -, rfl⟩ := mem_added he
      simp [handleAt]
    rw [childrenAt_changes, childrenAt_of_size_le _ (Nat.zero_le k), List.nil_append, hstart,
      List.map_map]
    refine List.map_congr_left fun e he => ?_
    have hindex : e.1.index = k := by simpa using (List.mem_filter.1 he).2
    simp [indicesAt, hindex]
  rw [edgeIndices_eq, mergeSort_eq_flatMap hkey, List.map_flatMap]
  simp only [hnode]

end Run

/-- **The edges of a tree are the calls that added them.** After any calls, some of which may have
been refused, the edges are those that the calls have added, none lost, none twice and in the order
of the calls, but sorted by the index of the node where they start. A tree shows their number, and
the children of a node are the ends of those that start there. -/
theorem edges_eq_sorted (id : Nat) (calls : List (Change α)) :
    let t := calls.foldl change (empty id)
    let log := added calls (empty id)
    (log.mergeSort fun e f => e.1.index ≤ f.1.index).mapM t.payloadsAt = .ok t.edges ∧
      t.edges.length = log.length ∧
      t.text = s!"Tree(nodes={t.size}, edges={log.length})" ∧
      ∀ r children, t.children r = .ok children ↔
        ∃ h ∈ t.handles, r = .handle h ∧ children = (log.filter (·.1 = h)).map Prod.snd := by
  intro t log
  have hindices : t.edgeIndices = (log.mergeSort (keyLE (·.1.index))).map indicesAt :=
    edgeIndices_changes id calls
  have hlisted : List.Forall₂ (fun e pair => t.payloadsAt e = .ok pair)
      (log.mergeSort (keyLE (·.1.index))) t.edges := by
    rw [edges_eq_filterMap, hindices, List.filterMap_map]
    refine forall₂_filterMap fun e he => ?_
    obtain ⟨i, j, hi, hj, rfl⟩ := mem_added (List.mem_mergeSort.1 he)
    rw [← handleAt_changes calls (empty id) i, ← handleAt_changes calls (empty id) j]
    exact exists_payloadsAt hi hj
  have hcount : t.edgeCount = log.length := by
    rw [edgeCount_eq, hindices, List.length_map, List.length_mergeSort]
  refine ⟨mapM_eq_ok_iff.2 hlisted, ?_, ?_, fun r children => ?_⟩
  · rw [← hlisted.length_eq, List.length_mergeSort]
  · rw [text, hcount]
  · have hnode : ∀ k, t.childrenAt k = (log.filter (·.1 = t.handleAt k)).map Prod.snd := by
      intro k
      rw [handleAt_changes calls, childrenAt_changes, childrenAt_of_size_le _ (Nat.zero_le k),
        List.nil_append]
    simp only [children_eq_ok_iff, handles, List.mem_map, List.mem_range, hnode]
    constructor
    · rintro ⟨k, hk, rfl, rfl⟩
      exact ⟨_, ⟨k, hk, rfl⟩, rfl, rfl⟩
    · rintro ⟨h, ⟨k, hk, rfl⟩, rfl, rfl⟩
      exact ⟨k, hk, rfl, rfl⟩

end Tree

end Arbor
