import Arbor.Proofs.Tree.Handles
import Arbor.Tree.EdgeCursor
import Mathlib.Data.List.Nodup

/-!
# Stepping through the edges of a growing tree

A cursor steps through the edges while nodes and edges are added in between, in any order (`Walk`).
Every edge has a place, its position among the children of the node where it starts, and it keeps
this place for ever. A cursor passes the places in their order and passes none without its edge, so
all depends on whether a place is still ahead of the cursor when its edge is added.

* `EdgeCursor.finds_step`: which edge a cursor finds.
* `Walk.goes_act`: what a walk can do.
* `Walk.awaits_iff`: when a new edge is still ahead of the cursor.
* `Walk.perform_yields_once`: which edges are yielded, in which order and how often.
-/

namespace Arbor

variable {α : Type}

namespace Tree

/-! ## Places -/

/-- There is an edge at the place: at a position among the children of the node at an index. -/
def Place (t : Tree α) (p : Nat × Nat) : Prop := p.2 < (t.childrenAt p.1).length

/-- The edge at a place as a pair of payloads. -/
def pairAt? (t : Tree α) (p : Nat × Nat) : Option (α × α) := do
  let child ← (t.childrenAt p.1)[p.2]?
  t.edgePayloads? (p.1, child.index)

variable {t t' : Tree α} {p : Nat × Nat}

theorem place_iff : t.Place p ↔ ∃ child, (t.childrenAt p.1)[p.2]? = some child :=
  ⟨fun h => ⟨_, List.getElem?_eq_getElem h⟩, fun ⟨_, h⟩ => (List.getElem?_eq_some_iff.1 h).1⟩

theorem Place.lt_size (hp : t.Place p) : p.1 < t.size := by
  by_contra hle
  rw [Place, childrenAt_of_size_le t (Nat.le_of_not_lt hle)] at hp
  exact Nat.not_lt_zero _ hp

theorem pairAt?_eq {child : Handle} (h : (t.childrenAt p.1)[p.2]? = some child) :
    t.pairAt? p = t.edgePayloads? (p.1, child.index) := by
  rw [pairAt?, h]
  rfl

/-- At every place there is a pair of payloads. -/
theorem ChildrenLocated.exists_pairAt? (h : t.ChildrenLocated) (hp : t.Place p) :
    ∃ pair, t.pairAt? p = some pair := by
  obtain ⟨child, hchild⟩ := place_iff.1 hp
  obtain ⟨b, hb⟩ := h.edges.1 (p.1, child.index)
    ((mem_edgeIndices t).2 ⟨child, List.mem_of_getElem? hchild, rfl⟩)
  have ha : t.payloadAt? p.1 = some (t.node ⟨p.1, hp.lt_size⟩).payload := by
    rw [payloadAt?, if_pos (Int.natCast_nonneg _), Int.toNat_natCast,
      Array.getElem?_eq_getElem hp.lt_size]
    rfl
  refine ⟨((t.node ⟨p.1, hp.lt_size⟩).payload, b), ?_⟩
  rw [pairAt?_eq hchild, edgePayloads?, ha, hb]
  rfl

/-! ## Growing -/

/-- A tree that has come from another one by adding nodes and edges. -/
structure Extends (t t' : Tree α) : Prop where
  children : ∀ k, t.childrenAt k <+: t'.childrenAt k
  payload : ∀ i a, t.payloadAt? i = some a → t'.payloadAt? i = some a
  located : t.ChildrenLocated → t'.ChildrenLocated

/-- A call that adds to a tree. -/
inductive Change (α : Type)
  | node (payload : α)
  | edge (start end_ : Reference)

/-- The tree that such a call leaves, whether it is accepted or refused. -/
def change (t : Tree α) : Change α → Tree α
  | .node payload => (t.addNode payload).1
  | .edge start end_ => (addEdge start end_).reached t

theorem addEdge_eq_ok {start end_ : Reference} (h : (addEdge start end_).run t = .ok () t') :
    ∃ i j : Fin t.nodes.size, start = t.handleAt i ∧ t' = t.appendChild i (t.handleAt j) := by
  rw [addEdge_run] at h
  cases hends : t.ends start end_ with
  | error fault =>
    rw [hends] at h
    cases h
  | ok ij =>
    rw [hends] at h
    cases h
    exact ⟨ij.1, ij.2, eq_handleAt_of_locate (ends_eq_ok_iff.1 hends).1, rfl⟩

/-- Payloads stay where they are if they do by index. -/
theorem payloadAt?_of_nodes {i : Int} {a : α}
    (h : ∀ k < t.nodes.size, (t'.nodes[k]?).map Node.payload = (t.nodes[k]?).map Node.payload)
    (ha : t.payloadAt? i = some a) : t'.payloadAt? i = some a := by
  unfold payloadAt? at ha ⊢
  split_ifs at ha ⊢ with hi
  obtain ⟨node, hnode, -⟩ := Option.map_eq_some_iff.1 ha
  rw [h _ (Array.getElem?_eq_some_iff.1 hnode).1, ha]

theorem extends_addNode (t : Tree α) (payload : α) : t.Extends (t.addNode payload).1 where
  children k := ⟨[], by rw [childrenAt_addNode, List.append_nil]⟩
  payload i a := by
    refine payloadAt?_of_nodes fun k hk => ?_
    simp only [addNode, Array.getElem?_push, if_neg (Nat.ne_of_lt hk)]
  located h := h.addNode payload

theorem extends_appendChild (t : Tree α) (i j : Fin t.nodes.size) :
    t.Extends (t.appendChild i (t.handleAt j)) where
  children k := by
    rw [childrenAt_appendChild]
    exact List.prefix_append _ _
  payload i a := by
    refine payloadAt?_of_nodes fun k hk => ?_
    simp only [appendChild, Array.getElem?_modify]
    split_ifs
    · rw [Option.map_map]
      rfl
    · rfl
  located h := h.appendChild i j

theorem Extends.refl (t : Tree α) : t.Extends t where
  children _ := List.prefix_rfl
  payload _ _ h := h
  located h := h

theorem Extends.trans {t'' : Tree α} (h : t.Extends t') (h' : t'.Extends t'') : t.Extends t'' where
  children k := (h.children k).trans (h'.children k)
  payload i a ha := h'.payload i a (h.payload i a ha)
  located ht := h'.located (h.located ht)

theorem extends_change (t : Tree α) (c : Change α) : t.Extends (t.change c) := by
  cases c with
  | node payload => exact t.extends_addNode payload
  | edge start end_ =>
    rw [change, Action.reached, addEdge_run]
    cases t.ends start end_ with
    | error fault => exact .refl t
    | ok ij => exact t.extends_appendChild ij.1 ij.2

theorem childrenLocated_changes (id : Nat) (made : List (Change α)) :
    (made.foldl change (empty id)).ChildrenLocated := by
  have h : ∀ t : Tree α, t.ChildrenLocated → (made.foldl change t).ChildrenLocated := by
    induction made with
    | nil => exact fun t ht => ht
    | cons c made ih => exact fun t ht => ih _ ((t.extends_change c).located ht)
  exact h _ (childrenLocated_empty id)

theorem Extends.place (h : t.Extends t') (hp : t.Place p) : t'.Place p :=
  Nat.lt_of_lt_of_le hp (h.children p.1).length_le

/-- An edge keeps its place and its payloads. -/
theorem Extends.pairAt?_eq_some (h : t.Extends t') {pair : α × α} (hp : t.pairAt? p = some pair) :
    t'.pairAt? p = some pair := by
  obtain ⟨child, hchild, hpair⟩ := Option.bind_eq_some_iff.1 hp
  obtain ⟨a, ha, hrest⟩ := Option.bind_eq_some_iff.1 hpair
  obtain ⟨b, hb, heq⟩ := Option.bind_eq_some_iff.1 hrest
  obtain ⟨more, hmore⟩ := h.children p.1
  have hchild' : (t'.childrenAt p.1)[p.2]? = some child := by
    rw [← hmore, List.getElem?_append_left (List.getElem?_eq_some_iff.1 hchild).1, hchild]
  rw [pairAt?_eq hchild', edgePayloads?, h.payload _ _ ha, h.payload _ _ hb]
  exact heq

end Tree

/-! ## The cursor -/

namespace EdgeCursor

variable {t : Tree α} {c : EdgeCursor} {p q : Nat × Nat}

/-- The cursor has not passed the place yet and may still come to it. -/
def Ahead (c : EdgeCursor) (p : Nat × Nat) : Prop :=
  c.spent = false ∧ (c.node < p.1 ∨ c.node = p.1 ∧ c.position ≤ p.2)

/-- The place that the cursor has passed last. -/
def last (c : EdgeCursor) : Nat × Nat := (c.node, c.position - 1)

/-- The cursor that has just passed a place. -/
def after (p : Nat × Nat) : EdgeCursor := ⟨p.1, p.2 + 1, false⟩

theorem ahead_start (p : Nat × Nat) : start.Ahead p := by
  refine ⟨rfl, ?_⟩
  simp only [start]
  omega

theorem ahead_after_iff : (after p).Ahead q ↔ Prod.Lex (· < ·) (· < ·) p q := by
  simp only [Ahead, after, true_and, Prod.lex_def, Nat.lt_iff_add_one_le]

theorem not_ahead_after (p : Nat × Nat) : ¬ (after p).Ahead p := by
  rw [ahead_after_iff, Prod.lex_def]
  omega

/-- To a spent cursor no place is ahead. -/
theorem not_ahead_of_spent (h : c.spent = true) (p : Nat × Nat) : ¬ c.Ahead p :=
  fun hp => Bool.false_ne_true (hp.1.symm.trans h)

/-- The places that the cursor has passed are before those ahead. -/
theorem Ahead.lex_of_passed (h : c.Ahead p) (hq : ¬ c.Ahead q) :
    Prod.Lex (· < ·) (· < ·) q p := by
  simp only [Ahead, h.1, true_and, not_or, not_and] at hq
  obtain ⟨-, hp⟩ := h
  rw [Prod.lex_def]
  omega

theorem Ahead.trans (h : c.Ahead p) (hq : (after p).Ahead q) : c.Ahead q := by
  rw [ahead_after_iff, Prod.lex_def] at hq
  obtain ⟨hspent, hp⟩ := h
  exact ⟨hspent, by omega⟩

/-- What a cursor finds in a tree, and where it is then: the edge at the first place ahead of it,
or that there is none. -/
inductive Finds (t : Tree α) (c : EdgeCursor) : EdgeCursor × Option (Nat × Int) → Prop
  | edge {p child} : (t.childrenAt p.1)[p.2]? = some child → c.Ahead p →
      (∀ q, t.Place q → c.Ahead q → q = p ∨ (after p).Ahead q) →
      Finds t c (after p, some (p.1, child.index))
  | nothing {c' : EdgeCursor} : c'.spent = true → (∀ q, t.Place q → ¬ c.Ahead q) →
      Finds t c (c', none)

theorem finds_seek (t : Tree α) (node position : Nat) :
    Finds t ⟨node, position, false⟩ (seek t node position) := by
  fun_induction seek t node position with
  | case1 node position hnode child hchild =>
    rw [← Tree.childrenAt_of_lt t hnode] at hchild
    refine .edge (p := (node, position)) hchild ⟨rfl, Or.inr ⟨rfl, Nat.le_refl _⟩⟩ ?_
    rintro ⟨i, k⟩ - ⟨-, hahead⟩
    simp only [Ahead, after, Prod.mk.injEq, true_and] at hahead ⊢
    omega
  | case2 node position hnode hnone ih =>
    -- all places at this node are passed, so that those ahead are the ones from the next node on
    rw [← Tree.childrenAt_of_lt t hnode, List.getElem?_eq_none_iff] at hnone
    have hnext : ∀ q, t.Place q → (Ahead ⟨node, position, false⟩ q ↔
        Ahead ⟨node + 1, 0, false⟩ q) := by
      rintro ⟨i, k⟩ hq
      have hlt : node = i → k < position := by
        rintro rfl
        exact Nat.lt_of_lt_of_le hq hnone
      simp only [Ahead, true_and, Nat.zero_le, and_true]
      omega
    generalize seek t (node + 1) 0 = found at ih
    cases ih with
    | @edge p child hchild hahead hfirst =>
      have hp := Tree.place_iff.2 ⟨child, hchild⟩
      exact .edge hchild ((hnext p hp).2 hahead) fun q hq hq' => hfirst q hq ((hnext q hq).1 hq')
    | nothing hspent hnothing =>
      exact .nothing hspent fun q hq hq' => hnothing q hq ((hnext q hq).1 hq')
  | case3 node position hnode =>
    refine .nothing rfl ?_
    rintro ⟨i, k⟩ hq ⟨-, hahead⟩
    have hi : i < t.nodes.size := hq.lt_size
    simp only at hahead
    omega

/-- A cursor finds the edge at the first place ahead of it. -/
theorem finds_step (t : Tree α) (c : EdgeCursor) : Finds t c (c.step t) := by
  obtain ⟨node, position, spent⟩ := c
  cases spent with
  | true => exact .nothing rfl fun q _ => not_ahead_of_spent rfl q
  | false => exact finds_seek t node position

end EdgeCursor

/-! ## Walks -/

/-- A tree, a cursor into it, what the cursor has answered when it was asked for the next edge, and
the places of the edges among the answers. The places are a record: nothing depends on them. -/
structure Walk (α : Type) where
  tree : Tree α
  cursor : EdgeCursor
  answers : List (Option (α × α))
  places : List (Nat × Nat)

namespace Walk

open EdgeCursor

def start (t : Tree α) : Walk α := ⟨t, .start, [], []⟩

/-- What happens in a walk: the tree is added to, or the cursor is asked for the next edge. -/
inductive Act (α : Type)
  | change (c : Tree.Change α)
  | next

/-- The walk after something has happened. -/
def act (w : Walk α) : Act α → Walk α
  | .change c => { w with tree := w.tree.change c }
  | .next =>
    let found := w.cursor.next w.tree
    { w with
      cursor := found.1
      answers := w.answers ++ [found.2]
      places := w.places ++ (found.2.map fun _ => found.1.last).toList }

def perform (w : Walk α) (acts : List (Act α)) : Walk α := acts.foldl act w

/-- The cursor has not come to the end, and the edge that it has yielded last, if any, starts at an
index of at most `j`. -/
def Awaits (w : Walk α) (j : Nat) : Prop :=
  none ∉ w.answers ∧ ∀ p ∈ w.places.getLast?, p.1 ≤ j

/-- What can happen in a walk: the tree grows, or the cursor yields the edge at the first place
ahead of it, or it comes to the end. -/
inductive Goes (w : Walk α) : Walk α → Prop
  | grow {tree} : w.tree.Extends tree → Goes w { w with tree := tree }
  | yield {p} : w.tree.Place p → w.cursor.Ahead p →
      (∀ q, w.tree.Place q → w.cursor.Ahead q → q = p ∨ (after p).Ahead q) →
      Goes w { w with
        cursor := after p
        answers := w.answers ++ [w.tree.pairAt? p]
        places := w.places ++ [p] }
  | finish {c : EdgeCursor} : c.spent = true → (∀ q, w.tree.Place q → ¬ w.cursor.Ahead q) →
      Goes w { w with cursor := c, answers := w.answers ++ [none] }

theorem goes_act {w : Walk α} (h : w.tree.ChildrenLocated) (a : Act α) : w.Goes (w.act a) := by
  cases a with
  | change c => exact .grow (w.tree.extends_change c)
  | next =>
    have hnext : w.cursor.next w.tree =
        ((w.cursor.step w.tree).1, (w.cursor.step w.tree).2.bind w.tree.edgePayloads?) := rfl
    have hfinds := finds_step w.tree w.cursor
    simp only [act, hnext]
    generalize w.cursor.step w.tree = found at hfinds
    cases hfinds with
    | @edge p child hchild hahead hfirst =>
      have hp := Tree.place_iff.2 ⟨child, hchild⟩
      obtain ⟨pair, hpair⟩ := h.exists_pairAt? hp
      have hyield := Goes.yield hp hahead hfirst
      rw [Tree.pairAt?_eq hchild] at hpair
      rw [Tree.pairAt?_eq hchild, hpair] at hyield
      simp only [Option.bind_some, hpair]
      exact hyield
    | nothing hspent hnothing =>
      simp only [Option.bind_none, Option.map_none, Option.toList_none, List.append_nil]
      exact .finish hspent hnothing

/-! ## What is kept -/

/-- The answers are the edges at the places that have been passed, in their order, and the cursor
stands where it has yielded last. -/
structure Kept (w : Walk α) : Prop where
  located : w.tree.ChildrenLocated
  placed : ∀ p ∈ w.places, w.tree.Place p
  answered : w.answers.filter Option.isSome = w.places.map w.tree.pairAt?
  increasing : w.places.Pairwise (Prod.Lex (· < ·) (· < ·))
  passed : ∀ p ∈ w.places, ¬ w.cursor.Ahead p
  spent : w.cursor.spent = true ↔ none ∈ w.answers
  stands : w.cursor.spent = false → (w.places = [] ∧ w.cursor = .start) ∨
    ∃ p, w.places.getLast? = some p ∧ w.cursor = after p

theorem kept_start {t : Tree α} (h : t.ChildrenLocated) : (start t).Kept where
  located := h
  placed := List.forall_mem_nil _
  answered := rfl
  increasing := .nil
  passed := List.forall_mem_nil _
  spent := iff_of_false Bool.false_ne_true List.not_mem_nil
  stands _ := Or.inl ⟨rfl, rfl⟩

variable {w w' : Walk α} {p : Nat × Nat}

theorem Goes.kept (hgoes : w.Goes w') (h : w.Kept) : w'.Kept := by
  cases hgoes with
  | grow hextends =>
    refine ⟨hextends.located h.located, fun p hp => hextends.place (h.placed p hp), ?_,
      h.increasing, h.passed, h.spent, h.stands⟩
    rw [h.answered]
    refine List.map_congr_left fun p hp => ?_
    obtain ⟨pair, hpair⟩ := h.located.exists_pairAt? (h.placed p hp)
    rw [hpair, hextends.pairAt?_eq_some hpair]
  | @yield p hp hahead hfirst =>
    obtain ⟨pair, hpair⟩ := h.located.exists_pairAt? hp
    have hplaced := List.forall_mem_append.2 ⟨h.placed, List.forall_mem_singleton.2 hp⟩
    refine ⟨h.located, hplaced, ?_, ?_, ?_, ?_, fun _ => Or.inr ⟨p, List.getLast?_concat, rfl⟩⟩
    · rw [List.filter_append, h.answered, List.map_append, hpair]
      simp [hpair]
    · refine List.pairwise_append.2 ⟨h.increasing, List.pairwise_singleton _ _, ?_⟩
      intro q hq r hr
      rw [List.mem_singleton.1 hr]
      exact hahead.lex_of_passed (h.passed q hq)
    · refine List.forall_mem_append.2 ⟨fun q hq hafter => ?_, ?_⟩
      · exact h.passed q hq (hahead.trans hafter)
      · exact List.forall_mem_singleton.2 (not_ahead_after p)
    · have hold : none ∉ w.answers := fun hmem => not_ahead_of_spent (h.spent.2 hmem) p hahead
      simp [after, hold, hpair]
  | finish hspent hnothing =>
    refine ⟨h.located, h.placed, ?_, h.increasing, fun p _ => not_ahead_of_spent hspent p, ?_,
      fun hc => ?_⟩
    · rw [List.filter_append, h.answered]
      simp
    · exact iff_of_true hspent (List.mem_append_right _ List.mem_cons_self)
    · cases hspent.symm.trans hc

/-- What is kept by whatever can happen, is kept by a walk. -/
theorem Kept.perform {P : Walk α → Prop} (hP : ∀ w w', w.Kept → w.Goes w' → P w → P w')
    (h : w.Kept) (hw : P w) (acts : List (Act α)) :
    (w.perform acts).Kept ∧ P (w.perform acts) := by
  induction acts generalizing w with
  | nil => exact ⟨h, hw⟩
  | cons a acts ih =>
    have hgoes := goes_act h.located a
    exact ih (hgoes.kept h) (hP _ _ h hgoes hw)

/-! ## Which edges are yielded -/

/-- The edge at a place is yielded once at most. -/
theorem Kept.nodup (h : w.Kept) : w.places.Nodup := by
  refine h.increasing.imp ?_
  rintro p q hpq rfl
  exact not_ahead_after p (ahead_after_iff.2 hpq)

/-- There is an edge at the place, which has been yielded or will be. -/
def Due (w : Walk α) (p : Nat × Nat) : Prop :=
  w.tree.Place p ∧ (w.cursor.Ahead p ∨ p ∈ w.places)

/-- There is an edge at the place, but it came too late. -/
def Missed (w : Walk α) (p : Nat × Nat) : Prop :=
  w.tree.Place p ∧ ¬ w.cursor.Ahead p ∧ p ∉ w.places

theorem Goes.due (hgoes : w.Goes w') (h : w.Due p) : w'.Due p := by
  obtain ⟨hplace, hdue⟩ := h
  cases hgoes with
  | grow hextends => exact ⟨hextends.place hplace, hdue⟩
  | @yield q hq hahead hfirst =>
    refine ⟨hplace, ?_⟩
    rcases hdue with hp | hp
    · rcases hfirst p hplace hp with rfl | hafter
      · exact Or.inr (List.mem_append_right _ List.mem_cons_self)
      · exact Or.inl hafter
    · exact Or.inr (List.mem_append_left _ hp)
  | finish hspent hnothing => exact ⟨hplace, hdue.imp_left fun hp => absurd hp (hnothing p hplace)⟩

theorem Goes.missed (hgoes : w.Goes w') (h : w.Missed p) : w'.Missed p := by
  obtain ⟨hplace, hpassed, hnew⟩ := h
  cases hgoes with
  | grow hextends => exact ⟨hextends.place hplace, hpassed, hnew⟩
  | @yield q hq hahead hfirst =>
    refine ⟨hplace, fun hafter => ?_, fun hmem => ?_⟩
    · exact hpassed (hahead.trans hafter)
    · rcases List.mem_append.1 hmem with hold | hq
      · exact hnew hold
      · exact hpassed (List.mem_singleton.1 hq ▸ hahead)
  | finish hspent hnothing => exact ⟨hplace, not_ahead_of_spent hspent p, hnew⟩

/-- Once the cursor has come to the end, every edge that was due has been yielded exactly once. -/
theorem Kept.count_eq_one (h : w.Kept) (hdue : w.Due p) (hend : none ∈ w.answers) :
    w.places.count p = 1 := by
  rcases hdue.2 with hahead | hmem
  · exact absurd hahead (not_ahead_of_spent (h.spent.2 hend) p)
  · exact List.count_eq_one_of_mem h.nodup hmem

/-- The place of the next edge from a node is ahead of the cursor exactly if the cursor awaits
it. -/
theorem Kept.awaits_iff (h : w.Kept) (j : Nat) :
    w.Awaits j ↔ w.cursor.Ahead (j, (w.tree.childrenAt j).length) := by
  rw [Awaits, ← h.spent, Bool.not_eq_true]
  constructor
  · rintro ⟨hspent, hlast⟩
    rcases h.stands hspent with ⟨-, hstart⟩ | ⟨q, hq, hafter⟩
    · rw [hstart]
      exact ahead_start _
    · have hle := hlast q hq
      have hplace : q.2 < (w.tree.childrenAt q.1).length :=
        h.placed q (List.mem_of_getLast? hq)
      rw [hafter, ahead_after_iff, Prod.lex_def]
      rcases Nat.lt_or_eq_of_le hle with hlt | rfl
      · exact Or.inl hlt
      · exact Or.inr ⟨rfl, hplace⟩
  · intro hahead
    refine ⟨hahead.1, fun q hq => ?_⟩
    rcases h.stands hahead.1 with ⟨hnil, -⟩ | ⟨q', hq', hafter⟩
    · rw [hnil] at hq
      cases hq
    · cases hq.symm.trans hq'
      rw [hafter, ahead_after_iff, Prod.lex_def] at hahead
      omega

/-- After the end nothing more is yielded. -/
theorem Goes.ended (hgoes : w.Goes w') (hspent : w.cursor.spent = true) :
    w'.cursor.spent = true ∧ w'.places = w.places ∧
      ∃ n, w'.answers = w.answers ++ List.replicate n none := by
  cases hgoes with
  | grow => exact ⟨hspent, rfl, 0, (List.append_nil _).symm⟩
  | yield _ hahead => exact absurd hahead (not_ahead_of_spent hspent _)
  | finish hc => exact ⟨hc, rfl, 1, rfl⟩

theorem Goes.extends (hgoes : w.Goes w') : w.tree.Extends w'.tree := by
  cases hgoes with
  | grow hextends => exact hextends
  | yield => exact .refl _
  | finish => exact .refl _

/-- What becomes of an edge that is due. -/
theorem Kept.perform_due (h : w.Kept) (hdue : w.Due p) (acts : List (Act α)) :
    (w.perform acts).tree.pairAt? p = w.tree.pairAt? p ∧
      (none ∈ (w.perform acts).answers → (w.perform acts).places.count p = 1) := by
  obtain ⟨hkept, hextends, hdue'⟩ := h.perform
    (P := fun w' => w.tree.Extends w'.tree ∧ w'.Due p)
    (fun _ _ _ hgoes hw => ⟨hw.1.trans hgoes.extends, hgoes.due hw.2⟩) ⟨.refl _, hdue⟩ acts
  refine ⟨?_, hkept.count_eq_one hdue'⟩
  obtain ⟨pair, hpair⟩ := h.located.exists_pairAt? hdue.1
  rw [hpair, hextends.pairAt?_eq_some hpair]

/-- What becomes of an edge that came too late. -/
theorem Kept.perform_missed (h : w.Kept) (hmissed : w.Missed p) (acts : List (Act α)) :
    p ∉ (w.perform acts).places :=
  (h.perform (fun _ _ _ hgoes hw => hgoes.missed hw) hmissed acts).2.2.2

theorem Kept.perform_ended (h : w.Kept) (hend : none ∈ w.answers) (acts : List (Act α)) :
    (w.perform acts).places = w.places ∧
      ∃ n, (w.perform acts).answers = w.answers ++ List.replicate n none := by
  refine (h.perform (P := fun w' => w'.cursor.spent = true ∧ w'.places = w.places ∧
    ∃ n, w'.answers = w.answers ++ List.replicate n none) ?_
    ⟨h.spent.2 hend, rfl, 0, (List.append_nil _).symm⟩ acts).2.2
  rintro w' w'' - hgoes ⟨hspent, hplaces, n, hanswers⟩
  obtain ⟨hspent', hplaces', m, hanswers'⟩ := hgoes.ended hspent
  refine ⟨hspent', hplaces'.trans hplaces, n + m, ?_⟩
  rw [hanswers', hanswers, List.append_assoc, List.replicate_append_replicate]

/-- An edge that is added between two nodes of the tree is due or missed. -/
theorem Kept.change_edge (h : w.Kept) {start end_ : Reference} {grown : Tree α}
    (hadd : (Tree.addEdge start end_).run w.tree = .ok () grown) :
    ∃ j child, start = .handle (w.tree.handleAt j) ∧
      grown.childrenAt j = w.tree.childrenAt j ++ [child] ∧
      (w.act (.change (.edge start end_))).tree = grown ∧
      (w.Awaits j →
        (w.act (.change (.edge start end_))).Due (j, (w.tree.childrenAt j).length)) ∧
      (¬ w.Awaits j →
        (w.act (.change (.edge start end_))).Missed (j, (w.tree.childrenAt j).length)) := by
  have htree : (w.act (.change (.edge start end_))).tree = grown := by
    simp only [act, Tree.change, Action.reached_of_ok hadd]
  obtain ⟨i, j, hstart, hgrown⟩ := Tree.addEdge_eq_ok hadd
  have hchildren : grown.childrenAt i = w.tree.childrenAt i ++ [w.tree.handleAt j] := by
    rw [hgrown, Tree.childrenAt_appendChild, if_pos rfl]
  have hplace : grown.Place (i, (w.tree.childrenAt i).length) := by
    show _ < (grown.childrenAt i).length
    rw [hchildren, List.length_append]
    exact Nat.lt_succ_self _
  refine ⟨i, w.tree.handleAt j, hstart, hchildren, htree, fun hawaits => ?_, fun hlate => ?_⟩
  · exact ⟨htree ▸ hplace, Or.inl ((h.awaits_iff i).1 hawaits)⟩
  · refine ⟨htree ▸ hplace, mt (h.awaits_iff i).2 hlate, fun hmem => ?_⟩
    exact absurd (h.placed _ hmem) (Nat.lt_irrefl _)

/-- **Edges are yielded in their order, each once.** A walk starts at the first edge of a tree that
has been made by any calls, and in between any nodes and edges are added. What the cursor yields are
the edges at places that become strictly greater, by the index where an edge starts and then by its
position among the edges from there; an edge keeps its place and its payloads. If the cursor comes
to the end, it has yielded every edge of the first tree exactly once. So it has every edge that was
added later while it was awaited: before the end, and not after an edge that starts at a greater
index. Edges that were not awaited are never yielded. After the end nothing more is yielded. -/
theorem perform_yields_once (id : Nat) (made : List (Tree.Change α)) (acts : List (Act α)) :
    let t := made.foldl Tree.change (Tree.empty id)
    let walk := fun acts => (start t).perform acts
    let w := walk acts
    (w.answers.filter Option.isSome = w.places.map w.tree.pairAt? ∧
      w.places.Pairwise (Prod.Lex (· < ·) (· < ·))) ∧
    (∀ p, t.Place p → w.tree.pairAt? p = t.pairAt? p ∧
      (none ∈ w.answers → w.places.count p = 1)) ∧
    (∀ before after start end_ grown, acts = before ++ .change (.edge start end_) :: after →
      (Tree.addEdge start end_).run (walk before).tree = .ok () grown →
      ∃ j child, start = .handle ((walk before).tree.handleAt j) ∧
        let p := (j, ((walk before).tree.childrenAt j).length)
        grown.childrenAt j = (walk before).tree.childrenAt j ++ [child] ∧
        ((walk before).Awaits j → w.tree.pairAt? p = grown.pairAt? p ∧
          (none ∈ w.answers → w.places.count p = 1)) ∧
        (¬ (walk before).Awaits j → p ∉ w.places)) ∧
    ∀ before after, acts = before ++ after → none ∈ (walk before).answers →
      w.places = (walk before).places ∧
        ∃ n, w.answers = (walk before).answers ++ List.replicate n none := by
  intro t walk w
  have hstart : (start t).Kept := kept_start (Tree.childrenLocated_changes id made)
  have hkept : ∀ acts, (walk acts).Kept := fun acts =>
    (hstart.perform (P := fun _ => True) (fun _ _ _ _ h => h) trivial acts).1
  refine ⟨⟨(hkept acts).answered, (hkept acts).increasing⟩, fun p hp => ?_, ?_, ?_⟩
  · exact hstart.perform_due ⟨hp, Or.inl (ahead_start p)⟩ acts
  · intro before after start end_ grown hacts hadd
    obtain ⟨j, child, hj, hchildren, htree, hdue, hmissed⟩ := (hkept before).change_edge hadd
    have hw : w = ((walk before).act (.change (.edge start end_))).perform after := by
      simp only [w, walk, hacts, perform, List.foldl_append, List.foldl_cons]
    have hnext := (goes_act (hkept before).located (.change (.edge start end_))).kept (hkept before)
    refine ⟨j, child, hj, hchildren, fun hawaits => ?_, fun hlate => ?_⟩
    · rw [hw, ← htree]
      exact hnext.perform_due (hdue hawaits) after
    · rw [hw]
      exact hnext.perform_missed (hmissed hlate) after
  · intro before after hacts hend
    have hw : w = (walk before).perform after := by
      simp only [w, walk, hacts, perform, List.foldl_append]
    rw [hw]
    exact (hkept before).perform_ended hend after

end Walk

end Arbor
