import Arbor.Proofs.Tree.Attached
import Arbor.Proofs.Turtle.Acceptance

/-!
# Closed branches

Between two matching brackets the turtle grows a tree of its own: it does what a turtle does that
starts from a copy of the joint where it stands, with the diameter and the heading that it has
there. Of all that was there before, it changes nothing but the children of that one joint. When the
bracket closes, the pose and the stack are those from before, and the tree that has grown in between
is attached to the joint.

The two turtles, the one that starts afresh and the one that has a past, move `Alongside` each
other.

* `Alongside.move`: what the one can do, the other does as well.
* `exists_own`: what a closed branch attaches, and that nothing else happens.
* `interpret_group`: what is restored and what has been added.
-/

namespace Arbor

/-- A word between brackets. -/
def Word.group (u : Word) : Word := ⟨"[", []⟩ :: (u ++ [⟨"]", []⟩])

namespace Turtle

open Relation

variable {R : Type} {g : Geometry R}

/-! ## Two turtles -/

/-- A pose in a tree and the same pose in the whole `t'` where that tree is attached at index `i`
to one of `n` nodes. -/
structure Rides (n i : Nat) (s t' : Tree (Joint R)) (pose pose' : Pose R) : Prop where
  diameter : pose'.diameter = pose.diameter
  heading : pose'.heading = pose.heading
  last : ∃ k < s.size, pose.last = s.handleAt k ∧ pose'.last = t'.handleAt (Tree.joined n i k)

/-- A turtle with a tree of its own, and one that grows this tree on the joint at index `i` of a
turtle from before. -/
structure Alongside (base : Turtle R) (i : Nat) (own growth : Turtle R) : Prop where
  tree : base.tree.Attached i own.tree growth.tree
  state : Rides base.tree.size i own.tree growth.tree own.state growth.state
  saved : ∃ above, growth.saved = above ++ base.saved ∧
    List.Forall₂ (Rides base.tree.size i own.tree growth.tree) own.saved above

theorem Rides.graft {n i : Nat} {s t' : Tree (Joint R)} {pose pose' : Pose R}
    (h : Rides n i s t' pose pose') (k k' : Nat) (joint : Joint R) :
    Rides n i (s.graft k joint) (t'.graft k' joint) pose pose' := by
  obtain ⟨j, hj, hlast, hlast'⟩ := h.last
  refine ⟨h.diameter, h.heading, j, ?_, hlast, hlast'⟩
  rw [Tree.size_graft]
  exact Nat.lt_succ_of_lt hj

variable {base own own' growth : Turtle R} {i : Nat}

/-- A turtle that starts from a copy of the joint where another one stands. -/
theorem alongside_sprout {here : Joint R} (hlast : growth.state.last = growth.tree.handleAt i)
    (hhere : growth.tree.payloads[i]? = some here) :
    Alongside growth i (sprout 0 here growth.state.diameter growth.state.heading) growth where
  tree := .root hhere
  state := ⟨rfl, rfl, 0, Nat.one_pos, rfl, hlast⟩
  saved := ⟨[], rfl, .nil⟩

/-- The joint that a turtle adds to its own tree, the other one adds to the whole. -/
theorem Alongside.extend (h : Alongside base i own growth) {k : Nat} (hk : k < own.tree.size)
    (joint : Joint R) :
    Alongside base i (Turtle.extend own k joint)
      (Turtle.extend growth (Tree.joined base.tree.size i k) joint) where
  tree := h.tree.graft joint hk
  state := by
    refine ⟨h.state.diameter, h.state.heading, own.tree.size, ?_, rfl, ?_⟩
    · show own.tree.size < (own.tree.graft k joint).size
      rw [Tree.size_graft]
      exact Nat.lt_succ_self _
    · rw [h.tree.joined_size]
      rfl
  saved := by
    obtain ⟨above, hsaved, hrides⟩ := h.saved
    exact ⟨above, hsaved, hrides.imp fun pose pose' hpose => hpose.graft k _ joint⟩

/-- What a turtle does by itself, the one alongside it does as well. -/
theorem Alongside.move (h : Alongside base i own growth) {c : Command} {params : List Value}
    (hmove : Move g own c params own') :
    ∃ growth', Move g growth c params growth' ∧ Alongside base i own' growth' := by
  obtain ⟨above, hsaved, hrides⟩ := h.saved
  cases hmove with
  | @forward value length k hlength hlocate =>
    obtain ⟨k', hk', hlast, hlast'⟩ := h.state.last
    obtain rfl : k' = k := Tree.handleAt_inj.1 (hlast.symm.trans (Tree.locate_eq_ok_iff.1 hlocate))
    have hjoined := h.tree.joined_lt hk'
    have hlocate' : growth.tree.locate growth.state.last = .ok ⟨_, hjoined⟩ :=
      Tree.locate_eq_ok_iff.2 hlast'
    have hnode : (growth.tree.node ⟨_, hjoined⟩).payload = (own.tree.node k).payload :=
      Tree.node_payload_eq k.isLt hjoined (h.tree.payload_joined hk')
    have hahead : ahead g growth.state length (growth.tree.node ⟨_, hjoined⟩).payload =
        ahead g own.state length (own.tree.node k).payload := by
      rw [hnode, ahead, ahead, h.state.heading, h.state.diameter]
    refine ⟨_, .forward hlength hlocate', ?_⟩
    rw [hahead]
    exact h.extend hk' _
  | diameter hlength =>
    exact ⟨_, .diameter hlength, h.tree, ⟨rfl, h.state.heading, h.state.last⟩, h.saved⟩
  | rotate hrotation =>
    refine ⟨_, .rotate hrotation, h.tree, ⟨h.state.diameter, ?_, h.state.last⟩, h.saved⟩
    rw [h.state.heading]
  | push =>
    refine ⟨_, .push, h.tree, h.state, growth.state :: above, ?_, .cons h.state hrides⟩
    rw [hsaved]
    rfl
  | pop hcons =>
    rw [hcons] at hrides
    cases hrides with
    | cons hpose hrest =>
      exact ⟨_, .pop hsaved, h.tree, hpose, _, rfl, hrest⟩

theorem Alongside.runs (h : Alongside base i own growth) {w : Word} (hrun : Runs g own w own') :
    ∃ growth', Runs g growth w growth' ∧ Alongside base i own' growth' :=
  exists_runs_of_moves (fun _ _ _ _ _ h => h.move) h hrun

/-! ## Between brackets -/

variable {grown : Turtle R} {u : Word}

/-- A word whose brackets match leaves no pose on the stack of a turtle that starts with none. -/
theorem saved_of_balanced {id : Nat} {root : Joint R} {diameter : R} {heading : Matrix3 R}
    (hu : u.Balanced) (hrun : Runs g (sprout id root diameter heading) u own) :
    own.saved = [] := by
  have hsaved := (tracks_of_runs id id hrun).saved
  rw [hu.counts.2] at hsaved
  exact List.forall₂_nil_right_iff.1 hsaved

theorem Sound.exists_here (hsound : growth.Sound) :
    ∃ i here, growth.state.last = growth.tree.handleAt i ∧
      growth.tree.payloads[i]? = some here := by
  obtain ⟨i, hi, hlast⟩ := hsound.poses growth.state List.mem_cons_self
  rw [← Tree.length_payloads] at hi
  exact ⟨i, _, hlast, List.getElem?_eq_getElem hi⟩

/-- **A closed branch is a tree of its own.** It grows from a copy of the joint where the turtle
stands, and then it is attached to this joint; nothing else has changed. -/
theorem exists_own (hsound : growth.Sound) {here : Joint R}
    (hlast : growth.state.last = growth.tree.handleAt i)
    (hhere : growth.tree.payloads[i]? = some here) (hu : u.Balanced)
    (hrun : Runs g growth u.group grown) :
    ∃ own, Runs g (sprout 0 here growth.state.diameter growth.state.heading) u own ∧
      growth.tree.Attached i own.tree grown.tree ∧ grown = { growth with tree := grown.tree } := by
  obtain ⟨opened, hopen, hrest⟩ := runs_cons_iff.1 hrun
  obtain ⟨inside, hinside, hclose⟩ := runs_append_iff.1 hrest
  have hopened := hsound.process hopen
  have hpush := process_opening rfl hopen
  subst hpush
  -- the word can be carried out by itself, and takes the turtle to what it is alongside there
  obtain ⟨own, hown⟩ := (exists_runs_iff (sound_sprout 0 here growth.state.diameter
    growth.state.heading)).2
      ⟨((exists_runs_iff hopened).1 ⟨inside, hinside⟩).1, Nat.le_of_eq hu.counts.1⟩
  have hstart : Alongside { growth with saved := growth.state :: growth.saved } i
      (sprout 0 here growth.state.diameter growth.state.heading)
      { growth with saved := growth.state :: growth.saved } := alongside_sprout hlast hhere
  obtain ⟨other, hother, halong⟩ := hstart.runs hown
  obtain rfl := runs_unique hinside hother
  obtain ⟨above, hsaved, hrides⟩ := halong.saved
  rw [saved_of_balanced hu hown] at hrides
  cases hrides
  obtain ⟨closed, hpop, hnil⟩ := runs_cons_iff.1 hclose
  cases hnil
  obtain ⟨state, saved, hcons, rfl⟩ := process_closing rfl hpop
  cases hsaved.symm.trans hcons
  exact ⟨own, hown, halong.tree, rfl⟩

/-- **A closed branch restores everything it should.** After any operations, let the turtle carry
out a word whose brackets match, between brackets. Then the pose and all saved poses are those from
before. Every joint from before is where it was; its children are the same, but for the joint where
the turtle stands, which may have got more after the ones it had. All new joints are below this
joint, and there are as many as the word has moves forward. -/
theorem interpret_group (g : Geometry R) (id : Nat) (root : Joint R) (diameter : R)
    (heading : Matrix3 R) (ops : List Op) (u : Word) (hu : u.Dyck) {grown : Turtle R}
    (hrun : (Step.interpret (Command.process g Command.standard) u.group).run
      (perform g ops (sprout id root diameter heading)) = .ok () grown) :
    let growth := perform g ops (sprout id root diameter heading)
    grown.state = growth.state ∧ grown.saved = growth.saved ∧
    (∀ (h : Handle) joint, growth.tree.get h = .ok joint → grown.tree.get h = .ok joint) ∧
    (∀ (h : Handle) children, growth.tree.children h = .ok children →
      h ≠ growth.state.last → grown.tree.children h = .ok children) ∧
    (∃ old new, growth.tree.children growth.state.last = .ok old ∧
      grown.tree.children growth.state.last = .ok (old ++ new)) ∧
    (∃ i, growth.state.last = growth.tree.handleAt i ∧
      ∀ k, growth.tree.size ≤ k → k < grown.tree.size → TransGen grown.tree.Edge i k) ∧
    grown.tree.size = growth.tree.size + u.joints := by
  intro growth
  have hsound : growth.Sound := (sound_perform id root diameter heading ops).1
  obtain ⟨i, here, hlast, hhere⟩ := hsound.exists_here
  obtain ⟨own, hown, hattached, hgrown⟩ :=
    exists_own hsound hlast hhere (Word.dyck_iff_balanced.1 hu) hrun
  have hsize := hattached.size_eq
  rw [(tracks_of_runs 0 0 hown).size] at hsize
  refine ⟨by rw [hgrown], by rw [hgrown], fun h joint => hattached.get_eq_ok,
    fun h children hchildren hne => ?_, ?_, ⟨i, hlast, fun k => hattached.transGen_of_le⟩, by omega⟩
  · rw [hlast] at hne
    exact hattached.children_eq_ok hchildren hne
  · rw [hlast]
    exact hattached.exists_children_append

/-- A branch with a branch on it, grown while another one is still open. -/
theorem interpret_group_nested :
    let u : Word := [⟨"F", [.number (.float 2.0)]⟩, ⟨"[", []⟩, ⟨"F", [.number (.float 3.0)]⟩,
      ⟨"]", []⟩, ⟨"W", [.number (.int 4)]⟩]
    let g := Geometry.binary64
    let ops : List Op := [.command .forward [.number (.float 1.0)], .command .push [],
      .command .diameter [.number (.float 0.5)]]
    let growth := perform g ops (sprout 0 (origin g) g.one g.identity)
    u.Dyck ∧ ∃ grown, (Step.interpret (Command.process g Command.standard) u.group).run growth =
        .ok () grown ∧
      grown.state = growth.state ∧ grown.saved = growth.saved ∧
      grown.tree.size = growth.tree.size + 2 := by
  intro u g ops growth
  have hdyck : u.Dyck := by decide
  have hok : (match (Step.interpret (Command.process g Command.standard) u.group).run growth with
    | .ok _ _ => true
    | .error _ _ => false) = true := by decide +kernel
  cases hrun : (Step.interpret (Command.process g Command.standard) u.group).run growth with
  | error fault grown =>
    rw [hrun] at hok
    cases hok
  | ok _ grown =>
    obtain ⟨hstate, hsaved, -, -, -, -, hsize⟩ := interpret_group g 0 _ _ _ ops u hdyck hrun
    exact ⟨hdyck, grown, rfl, hstate, hsaved, hsize⟩

end Turtle

end Arbor
