import Arbor.Proofs.Tree.Renumbered
import Arbor.Proofs.Turtle.ClosedBranch

/-!
# Sibling branches

Two closed branches next to each other grow from the same joint, and neither sees the other. In
whatever order the turtle makes them, it comes back with the same pose to a tree that is the same
but for its numbering: the joints of the one branch have changed places with those of the other.
From there on, the two turtles are `Twins`: they stand at the same joint, which has the same index
in both trees, and so are all joints that they can go back to.

* `Twins.move`: twins can do the same and stay twins.
* `exists_exchange`: two closed branches make twins of the turtles that grow them in either order.
* `interpret_exchange`: what stays the same when two branches of a word change places.
-/

namespace Arbor.Turtle

variable {R : Type} {g : Geometry R} {σ : Equiv.Perm Nat} {growth growth' other : Turtle R}

/-! ## Twins -/

/-- Two turtles whose trees differ in numbering only. They stand at the same joint and have saved
the same poses, and none of these joints has different indices. -/
structure Twins (σ : Equiv.Perm Nat) (growth other : Turtle R) : Prop where
  tree : Tree.Renumbered σ growth.tree other.tree
  state : other.state = growth.state
  saved : other.saved = growth.saved
  fixed : ∀ pose ∈ growth.state :: growth.saved, ∀ k, pose.last = growth.tree.handleAt k → σ k = k

theorem Twins.extend (h : Twins σ growth other) {i : Nat} (hi : i < growth.tree.size)
    (hσ : σ i = i) (joint : Joint R) :
    Twins σ (Turtle.extend growth i joint) (Turtle.extend other i joint) where
  tree := h.tree.graft hi hσ joint
  state := by
    show ({ other.state with last := other.tree.handleAt other.tree.size } : Pose R) =
      { growth.state with last := growth.tree.handleAt growth.tree.size }
    rw [h.state, h.tree.size_eq, h.tree.handleAt_eq]
  saved := h.saved
  fixed := by
    intro pose hpose k hlast
    rcases List.mem_cons.1 hpose with rfl | hsaved
    · have hk : growth.tree.size = k := (Tree.handleAt_inj (t := growth.tree)).1 hlast
      exact h.tree.beyond k (Nat.le_of_eq hk)
    · exact h.fixed pose (List.mem_cons_of_mem _ hsaved) k hlast

/-- What one of two twins does, the other one does as well. -/
theorem Twins.move (h : Twins σ growth other) {c : Command} {params : List Value}
    (hmove : Move g growth c params growth') :
    ∃ other', Move g other c params other' ∧ Twins σ growth' other' := by
  have hstate := h.fixed growth.state List.mem_cons_self
  have hsaved := fun pose hpose => h.fixed pose (List.mem_cons_of_mem growth.state hpose)
  cases hmove with
  | @forward value length i hlength hlocate =>
    have hlast := Tree.locate_eq_ok_iff.1 hlocate
    have hσ := hstate i hlast
    have hi : i.val < other.tree.nodes.size := lt_of_lt_of_eq i.isLt h.tree.size_eq.symm
    have hlocate' : other.tree.locate other.state.last = .ok ⟨i, hi⟩ := by
      rw [Tree.locate_eq_ok_iff, h.state, hlast, h.tree.handleAt_eq]
    have hnode : (other.tree.node ⟨i, hi⟩).payload = (growth.tree.node i).payload := by
      have hpayload := h.tree.payload i
      rw [hσ] at hpayload
      exact Tree.node_payload_eq i.isLt hi hpayload
    have hahead : ahead g other.state length (other.tree.node ⟨i, hi⟩).payload =
        ahead g growth.state length (growth.tree.node i).payload := by
      rw [hnode, h.state]
    refine ⟨_, .forward hlength hlocate', ?_⟩
    rw [hahead]
    exact h.extend i.isLt hσ _
  | diameter hlength =>
    refine ⟨_, .diameter hlength, h.tree, ?_, h.saved, List.forall_mem_cons.2 ⟨hstate, hsaved⟩⟩
    rw [h.state]
  | rotate hrotation =>
    refine ⟨_, .rotate hrotation, h.tree, ?_, h.saved, List.forall_mem_cons.2 ⟨hstate, hsaved⟩⟩
    rw [h.state]
  | push =>
    refine ⟨_, .push, h.tree, h.state, ?_, List.forall_mem_cons.2 ⟨hstate, h.fixed⟩⟩
    rw [h.state, h.saved]
  | pop hcons =>
    rw [hcons] at hsaved
    exact ⟨_, .pop (h.saved.trans hcons), h.tree, rfl, rfl, hsaved⟩

/-! ## Two branches -/

variable {u v : Word} {first second : Turtle R}

/-- Two closed branches, one after the other, are two trees attached to the joint where the turtle
stands; each is what its word grows from a copy of this joint. -/
theorem exists_both (hsound : growth.Sound) {i : Nat} {here : Joint R}
    (hlast : growth.state.last = growth.tree.handleAt i)
    (hhere : growth.tree.payloads[i]? = some here) (hu : u.Balanced) (hv : v.Balanced)
    (hrun : Runs g growth (u.group ++ v.group) first) :
    ∃ between ownu ownv,
      Runs g (sprout 0 here growth.state.diameter growth.state.heading) u ownu ∧
      Runs g (sprout 0 here growth.state.diameter growth.state.heading) v ownv ∧
      growth.tree.Attached i ownu.tree between ∧ between.Attached i ownv.tree first.tree ∧
      first = { growth with tree := first.tree } := by
  obtain ⟨next, hfirst, hsecond⟩ := runs_append_iff.1 hrun
  obtain ⟨ownu, hownu, hattachedu, hnext⟩ := exists_own hsound hlast hhere hu hfirst
  have hstate : next.state = growth.state := by rw [hnext]
  have hlast' : next.state.last = next.tree.handleAt i := by
    rw [hstate, hattachedu.handleAt_eq, hlast]
  have hhere' : next.tree.payloads[i]? = some here := by
    obtain ⟨more, hmore⟩ := payloads_of_runs hfirst
    rw [← hmore, List.getElem?_append_left (List.getElem?_eq_some_iff.1 hhere).1, hhere]
  obtain ⟨ownv, hownv, hattachedv, hend⟩ :=
    exists_own (sound_of_runs hsound hfirst) hlast' hhere' hv hsecond
  rw [hstate] at hownv
  refine ⟨next.tree, ownu, ownv, hownu, hownv, hattachedu, hattachedv, ?_⟩
  rw [hend, hnext]

/-- **The order of two branches is a matter of numbering.** -/
theorem exists_exchange (hsound : growth.Sound) (hu : u.Balanced) (hv : v.Balanced)
    (hfirst : Runs g growth (u.group ++ v.group) first)
    (hsecond : Runs g growth (v.group ++ u.group) second) :
    ∃ σ : Equiv.Perm Nat, σ 0 = 0 ∧ Twins σ first second := by
  obtain ⟨i, here, hlast, hhere⟩ := hsound.exists_here
  obtain ⟨between, ownu, ownv, hownu, hownv, hu₁, hv₁, hgrown⟩ :=
    exists_both hsound hlast hhere hu hv hfirst
  obtain ⟨between', ownv', ownu', hownv', hownu', hv₂, hu₂, hgrown'⟩ :=
    exists_both hsound hlast hhere hv hu hsecond
  obtain rfl := runs_unique hownu hownu'
  obtain rfl := runs_unique hownv hownv'
  have hsprout := sound_sprout 0 here growth.state.diameter growth.state.heading
  have hexchange := Tree.Attached.renumbered_exchange hsound.rooted
    (sound_of_runs hsprout hownu).rooted (sound_of_runs hsprout hownv).rooted hu₁ hv₁ hv₂ hu₂
  refine ⟨_, Tree.exchange_of_lt _ _ (Nat.lt_of_le_of_lt (Nat.zero_le i) hu₁.lt_size), hexchange,
    ?_, ?_, fun pose hpose k hk => ?_⟩
  · rw [hgrown, hgrown']
  · rw [hgrown, hgrown']
  · -- the poses are those from before the branches, at joints whose indices have not changed
    rw [hgrown] at hpose
    obtain ⟨j, hj, hlast'⟩ := hsound.poses pose hpose
    rw [hv₁.handleAt_eq, hu₁.handleAt_eq, hlast'] at hk
    obtain rfl := Tree.handleAt_inj.1 hk
    exact Tree.exchange_of_lt _ _ hj

/-! ## In a word -/

/-- Whether a word can be carried out does not depend on the order of two branches in it. -/
theorem exists_runs_exchange (hsound : growth.Sound) (hu : u.Balanced) (hv : v.Balanced)
    (x y : Word) :
    (∃ growth', Runs g growth (x ++ (u.group ++ v.group) ++ y) growth') ↔
      ∃ growth', Runs g growth (x ++ (v.group ++ u.group) ++ y) growth' := by
  have hgroup : ∀ {w : Word}, w.Balanced → w.group.Balanced := fun hw => .group rfl hw rfl .nil
  have hskip : ∀ {w w' : Word}, w.Balanced → w'.Balanced →
      Word.surplus (w.group ++ w'.group ++ y) = y.surplus := by
    intro w w' hw hw'
    rw [List.append_assoc, Word.surplus_balanced_append (hgroup hw),
      Word.surplus_balanced_append (hgroup hw')]
  have hperm : (x ++ (u.group ++ v.group) ++ y).Perm (x ++ (v.group ++ u.group) ++ y) :=
    (List.perm_append_comm.append_left x).append_right y
  have hsurplus : Word.surplus (x ++ (u.group ++ v.group) ++ y) =
      Word.surplus (x ++ (v.group ++ u.group) ++ y) := by
    rw [List.append_assoc, List.append_assoc x, Word.surplus_append, Word.surplus_append x,
      hskip hu hv, hskip hv hu]
  rw [exists_runs_iff hsound, exists_runs_iff hsound, hsurplus]
  exact and_congr_left fun _ => forall_congr' fun s => by rw [hperm.mem_iff]

/-- **Sibling branches may change places.** Let two words whose brackets match stand between
brackets, one after the other, anywhere in a word. Whether the turtle can carry out the whole word
does not depend on which of them comes first. If it can, then it ends with the same pose and the
same saved poses, and the trees are the same but for the numbering: they have the same root, the
same joints and the same edges between them. -/
theorem interpret_exchange (g : Geometry R) (id : Nat) (root : Joint R) (diameter : R)
    (heading : Matrix3 R) (x u v y : Word) (hu : u.Dyck) (hv : v.Dyck) :
    let run := fun w => (Step.interpret (Command.process g Command.standard) w).run
      (sprout id root diameter heading)
    ((∃ first, run (x ++ (u.group ++ v.group) ++ y) = .ok () first) ↔
      ∃ second, run (x ++ (v.group ++ u.group) ++ y) = .ok () second) ∧
    ∀ first second, run (x ++ (u.group ++ v.group) ++ y) = .ok () first →
      run (x ++ (v.group ++ u.group) ++ y) = .ok () second →
      second.state = first.state ∧ second.saved = first.saved ∧
      first.tree.payloads[0]? = some root ∧ second.tree.payloads[0]? = some root ∧
      second.tree.payloads.Perm first.tree.payloads ∧
      second.tree.edges.Perm first.tree.edges ∧
      ∃ σ : Equiv.Perm Nat, σ 0 = 0 ∧
        (∀ k, second.tree.payloads[σ k]? = first.tree.payloads[k]?) ∧
        ∀ i j, second.tree.Edge (σ i) (σ j) ↔ first.tree.Edge i j := by
  intro run
  rw [Word.dyck_iff_balanced] at hu hv
  have hsound := sound_sprout id root diameter heading
  refine ⟨exists_runs_exchange hsound hu hv x y, fun first second hfirst hsecond => ?_⟩
  have hroot : ∀ {w : Word} {grown : Turtle R}, run w = .ok () grown →
      grown.tree.payloads[0]? = some root := by
    intro w grown hrun
    obtain ⟨more, hmore⟩ := payloads_of_runs hrun
    rw [← hmore]
    rfl
  -- the two runs are one until the branches, and those of twins after them
  obtain ⟨grown, hgrown, hy⟩ := runs_append_iff.1 hfirst
  obtain ⟨before, hx, hbranches⟩ := runs_append_iff.1 hgrown
  obtain ⟨grown', hgrown', hy'⟩ := runs_append_iff.1 hsecond
  obtain ⟨before', hx', hbranches'⟩ := runs_append_iff.1 hgrown'
  obtain rfl := runs_unique hx hx'
  obtain ⟨σ, hσ, htwins⟩ := exists_exchange (sound_of_runs hsound hx) hu hv hbranches hbranches'
  obtain ⟨other, hother, hend⟩ := exists_runs_of_moves (fun _ _ _ _ _ h => h.move) htwins hy
  obtain rfl := runs_unique hy' hother
  have hrooted := (sound_of_runs hsound hfirst).rooted
  exact ⟨hend.state, hend.saved, hroot hfirst, hroot hsecond, hend.tree.payloads_perm,
    hend.tree.edges_perm hrooted, σ, hσ, hend.tree.payload, fun i j => hend.tree.edge_iff hrooted⟩

/-- Two branches of different sizes on the first joint after the root, and a third joint after
them. -/
theorem interpret_exchange_fork :
    let x : Word := [⟨"F", [.number (.float 1.0)]⟩]
    let u : Word := [⟨"F", [.number (.float 2.0)]⟩, ⟨"F", [.number (.float 3.0)]⟩]
    let v : Word := [⟨"W", [.number (.float 0.5)]⟩, ⟨"F", [.number (.int 4)]⟩]
    let run := fun w => (Step.interpret (Command.process .binary64 Command.standard) w).run
      (initial .binary64 (origin .binary64))
    u.Dyck ∧ v.Dyck ∧ ∃ first second,
      run (x ++ (u.group ++ v.group) ++ x) = .ok () first ∧
      run (x ++ (v.group ++ u.group) ++ x) = .ok () second ∧
      second.state = first.state ∧ second.tree.edges.Perm first.tree.edges := by
  intro x u v run
  have hu : u.Dyck := by decide
  have hv : v.Dyck := by decide
  obtain ⟨hiff, hsame⟩ := interpret_exchange .binary64 0 (origin .binary64) _
    (Geometry.identity .binary64) x u v x hu hv
  have hok : (match run (x ++ (u.group ++ v.group) ++ x) with
    | .ok _ _ => true
    | .error _ _ => false) = true := by decide +kernel
  cases hfirst : run (x ++ (u.group ++ v.group) ++ x) with
  | error fault grown =>
    rw [hfirst] at hok
    cases hok
  | ok _ first =>
    obtain ⟨second, hsecond⟩ := hiff.1 ⟨first, hfirst⟩
    obtain ⟨hstate, -, -, -, -, hedges, -⟩ := hsame first second hfirst hsecond
    exact ⟨hu, hv, first, second, rfl, hsecond, hstate, hedges⟩

end Arbor.Turtle
