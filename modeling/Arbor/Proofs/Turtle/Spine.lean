import Arbor.Proofs.Tree.Branch
import Arbor.Proofs.Turtle.RootedTree
import Arbor.Proofs.Word.Brackets
import Mathlib.Data.List.Induction

/-!
# Going back is never having left

A word with brackets makes the turtle leave the way it was on and come back to it. Where it is in
the end does not depend on these detours: interpreting the spine of the word, which has no
brackets, takes a turtle along a line to the same end. The trees are different and so are the
indices of their joints; what is the same is the pose, apart from the handle in it, the last joint,
and the joints on the branch to it.

The invariant `Tracks` says this not only of the current pose but of every saved one, with the
word before its bracket, and of every joint, with the word up to the symbol that made it.

* `SameEnd.letter`: a letter keeps two turtles together.
* `Tracks.step`: a symbol keeps the invariant.
* `interpret_spine`: what the interpretation of a word comes to.
-/

namespace Arbor

def Word.joints (w : Word) : Nat := w.countP fun s => s.tag = "F"

/-- `q` is the part of `p` up to the symbol that makes joint `k`. -/
def Word.Makes (p q : Word) (k : Nat) : Prop :=
  q <+: p ∧ q.joints = k ∧ ∀ s ∈ q.getLast?, s.tag = "F"

theorem Word.Makes.concat {w q : Word} {k : Nat} (h : w.Makes q k) (s : Symbol) :
    Word.Makes (w ++ [s]) q k :=
  ⟨h.1.trans (List.prefix_append w [s]), h.2⟩

namespace Turtle

variable {R : Type}

/-! ## Where a line ends -/

/-- Interpreting a word with the turtle's commands takes one turtle to another. -/
def Runs (g : Geometry R) (start : Turtle R) (w : Word) (grown : Turtle R) : Prop :=
  (Step.interpret (Command.process g Command.standard) w).run start = .ok () grown

/-- A turtle that went along a line is where a pose in a tree is: it has the same diameter and
heading, the last joint is the same, and the branch to it is all that there is on the line. -/
structure SameEnd (line : Turtle R) (t : Tree (Joint R)) (pose : Pose R) : Prop where
  diameter : line.state.diameter = pose.diameter
  heading : line.state.heading = pose.heading
  joint : ∃ joint, line.tree.get line.state.last = .ok joint ∧ t.get pose.last = .ok joint
  branch : ∃ k, pose.last = t.handleAt k ∧ ∀ above, t.Branch above k ↔ above = line.tree.payloads

/-- The spine of a word takes a turtle to where a pose in a tree is. -/
def Mirrors (g : Geometry R) (start : Turtle R) (t : Tree (Joint R)) (pose : Pose R) (w : Word) :
    Prop :=
  ∃ line, Runs g start w.spine line ∧ SameEnd line t pose

/-- The branch to a joint is what the spine of a word makes. -/
def Leads (g : Geometry R) (start : Turtle R) (t : Tree (Joint R)) (k : Nat) (w : Word) : Prop :=
  ∃ line, Runs g start w.spine line ∧ ∀ above, t.Branch above k ↔ above = line.tree.payloads

variable {g : Geometry R} {start growth growth' line : Turtle R}

theorem runs_concat {w : Word} {s : Symbol} :
    Runs g start (w ++ [s]) growth ↔
      ∃ before, Runs g start w before ∧
        (Command.process g Command.standard s).run before = .ok () growth :=
  Step.interpret_concat_run

theorem sameEnd_sprout (id id' : Nat) (root : Joint R) (diameter : R) (heading : Matrix3 R) :
    SameEnd (sprout id' root diameter heading) (.leaf id root)
      (sprout id root diameter heading).state where
  diameter := rfl
  heading := rfl
  joint := ⟨root, Tree.get_handleAt.2 rfl, Tree.get_handleAt.2 rfl⟩
  branch := ⟨0, rfl, fun _ => Tree.branch_leaf⟩

/-! ## Grafting elsewhere -/

theorem SameEnd.graft {t : Tree (Joint R)} {pose : Pose R} (h : SameEnd line t pose)
    (hrooted : t.Rooted) {i : Nat} (hi : i < t.size) (joint : Joint R) :
    SameEnd line (t.graft i joint) pose := by
  obtain ⟨here, hline, hhere⟩ := h.joint
  obtain ⟨k, hlast, hbranch⟩ := h.branch
  rw [hlast] at hhere
  have hk : k < t.size := ((hbranch _).2 rfl).lt_size
  refine ⟨h.diameter, h.heading, ⟨here, hline, ?_⟩, k, hlast, fun above => ?_⟩
  · rw [hlast]
    refine Tree.get_handleAt.2 ?_
    rw [Tree.getElem?_payloads_graft hi joint hk]
    exact Tree.get_handleAt.1 hhere
  · rw [hrooted.branch_graft_of_lt hi joint hk, hbranch]

/-! ## Letters -/

theorem standard_get? (tag : String) :
    Command.standard.get? tag =
      if "F" = tag then some .forward else if "W" = tag then some .diameter
      else if "R" = tag then some .rotate else if "[" = tag then some .push
      else if "]" = tag then some .pop else none := rfl

theorem standard_opening {s : Symbol} (hs : s.bracket? = some .opening) :
    Command.standard.get? s.tag = some .push := by
  rw [Symbol.bracket?_eq_opening.1 hs]
  rfl

theorem standard_closing {s : Symbol} (hs : s.bracket? = some .closing) :
    Command.standard.get? s.tag = some .pop := by
  rw [Symbol.bracket?_eq_closing.1 hs]
  rfl

/-- A letter has no command or one that is neither of the brackets'. -/
theorem standard_letter {s : Symbol} (hs : s.bracket? = none) {c : Command}
    (hc : Command.standard.get? s.tag = some c) : c ≠ .push ∧ c ≠ .pop := by
  obtain ⟨hopen, hclose⟩ := Symbol.bracket?_eq_none.1 hs
  rw [standard_get?, if_neg hopen.symm, if_neg hclose.symm] at hc
  split_ifs at hc <;> cases hc <;> decide

theorem standard_forward {tag : String} :
    Command.standard.get? tag = some .forward ↔ tag = "F" := by
  rw [standard_get?, eq_comm (a := tag)]
  by_cases hF : "F" = tag
  · simp [hF]
  · rw [if_neg hF]
    refine iff_of_false ?_ hF
    split_ifs <;> exact nofun

/-- The tree grows by a joint exactly with the symbols that tell the turtle to move forward. -/
theorem tree_of_process {s : Symbol}
    (hrun : (Command.process g Command.standard s).run growth = .ok () growth') :
    (s.tag ≠ "F" ∧ growth'.tree = growth.tree) ∨
      (s.tag = "F" ∧ ∃ i < growth.tree.size, ∃ joint, growth' = extend growth i joint) := by
  rw [Ne, ← standard_forward]
  rcases process_eq_ok_iff.1 hrun with ⟨hget, rfl⟩ | ⟨c, hget, hmove⟩
  · exact Or.inl ⟨by simp [hget], rfl⟩
  · rw [hget]
    generalize s.params = params at hmove
    cases hmove with
    | @forward value length i _ _ => exact Or.inr ⟨rfl, i, i.isLt, _, rfl⟩
    | _ => exact Or.inl ⟨by simp, rfl⟩

/-- Two turtles that are at the same end still are when they go on to the same joint. -/
theorem SameEnd.extend (h : SameEnd line growth.tree growth.state)
    (hrooted : growth.tree.Rooted) {i : Fin growth.tree.nodes.size} {i' : Nat}
    (hlocate : growth.tree.locate growth.state.last = .ok i) (hi' : i' < line.tree.size)
    (joint : Joint R) :
    SameEnd (Turtle.extend line i' joint) (Turtle.extend growth i joint).tree
      (Turtle.extend growth i joint).state where
  diameter := h.diameter
  heading := h.heading
  joint := by
    refine ⟨joint, ?_, ?_⟩
    · show (line.tree.graft i' joint).get ((line.tree.graft i' joint).handleAt line.tree.size) = _
      rw [Tree.get_handleAt, Tree.payloads_graft hi', ← Tree.length_payloads,
        List.getElem?_concat_length]
    · show (growth.tree.graft i joint).get
        ((growth.tree.graft i joint).handleAt growth.tree.size) = _
      rw [Tree.get_handleAt, Tree.payloads_graft i.isLt, ← Tree.length_payloads,
        List.getElem?_concat_length]
  branch := by
    obtain ⟨k, hlast, hbranch⟩ := h.branch
    have hki : k = i := Tree.handleAt_inj.1 (hlast.symm.trans (Tree.locate_eq_ok_iff.1 hlocate))
    subst hki
    refine ⟨growth.tree.size, rfl, fun above => ?_⟩
    show (growth.tree.graft i joint).Branch above growth.tree.size ↔
      above = (line.tree.graft i' joint).payloads
    rw [hrooted.branch_graft_size i.isLt, Tree.payloads_graft hi']
    constructor
    · rintro ⟨before, rfl, hbefore⟩
      rw [(hbranch before).1 hbefore]
    · rintro rfl
      exact ⟨_, rfl, (hbranch _).2 rfl⟩

/-- A letter keeps two turtles together. -/
theorem SameEnd.letter {s : Symbol} (h : SameEnd line growth.tree growth.state)
    (hrooted : growth.tree.Rooted) (hs : s.bracket? = none)
    (hrun : (Command.process g Command.standard s).run growth = .ok () growth') :
    ∃ line', (Command.process g Command.standard s).run line = .ok () line' ∧
      SameEnd line' growth'.tree growth'.state := by
  rcases process_eq_ok_iff.1 hrun with ⟨hget, rfl⟩ | ⟨c, hget, hmove⟩
  · exact ⟨line, process_run_none hget line, h⟩
  · obtain ⟨hpush, hpop⟩ := standard_letter hs hget
    simp only [process_run_some hget, run_eq_ok_iff]
    generalize s.params = params at hmove
    cases hmove with
    | @forward value length i hlength hlocate =>
      obtain ⟨here, hline, hhere⟩ := h.joint
      obtain ⟨i', hlocate', hnode'⟩ := Tree.get_eq_ok_iff.1 hline
      obtain ⟨_, hlocate'', hnode⟩ := Tree.get_eq_ok_iff.1 hhere
      obtain rfl : i = _ := Except.ok.inj (hlocate.symm.trans hlocate'')
      have hahead : ahead g line.state length (line.tree.node i').payload =
          ahead g growth.state length (growth.tree.node i).payload := by
        rw [hnode', hnode, ahead, ahead, h.heading, h.diameter]
      refine ⟨_, .forward hlength hlocate', ?_⟩
      rw [hahead]
      exact h.extend hrooted hlocate i'.isLt _
    | diameter hlength =>
      exact ⟨_, .diameter hlength, rfl, h.heading, h.joint, h.branch⟩
    | @rotate x y z r hrotation =>
      refine ⟨_, .rotate hrotation, h.diameter, ?_, h.joint, h.branch⟩
      show g.product line.state.heading r = g.product growth.state.heading r
      rw [h.heading]
    | push => exact absurd rfl hpush
    | pop => exact absurd rfl hpop

theorem saved_of_letter {s : Symbol} (hs : s.bracket? = none)
    (hrun : (Command.process g Command.standard s).run growth = .ok () growth') :
    growth'.saved = growth.saved := by
  rcases process_eq_ok_iff.1 hrun with ⟨-, rfl⟩ | ⟨c, hget, hmove⟩
  · rfl
  · obtain ⟨hpush, hpop⟩ := standard_letter hs hget
    generalize s.params = params at hmove
    cases hmove with
    | push => exact absurd rfl hpush
    | pop => exact absurd rfl hpop
    | _ => rfl

/-! ## Brackets -/

theorem process_opening {s : Symbol} (hs : s.bracket? = some .opening)
    (hrun : (Command.process g Command.standard s).run growth = .ok () growth') :
    growth' = { growth with saved := growth.state :: growth.saved } := by
  rw [process_run_some (standard_opening hs), run_eq_ok_iff] at hrun
  generalize s.params = params at hrun
  cases hrun
  rfl

theorem process_closing {s : Symbol} (hs : s.bracket? = some .closing)
    (hrun : (Command.process g Command.standard s).run growth = .ok () growth') :
    ∃ state saved, growth.saved = state :: saved ∧
      growth' = { growth with state := state, saved := saved } := by
  rw [process_run_some (standard_closing hs), run_eq_ok_iff] at hrun
  generalize s.params = params at hrun
  cases hrun with
  | pop hsaved => exact ⟨_, _, hsaved, rfl⟩

/-! ## A whole word -/

/-- The end, the saved poses and the joints of a turtle are those that the spines of the parts of
a word make. -/
structure Tracks (g : Geometry R) (start : Turtle R) (w : Word) (growth : Turtle R) : Prop where
  sound : growth.Sound
  size : growth.tree.size = 1 + w.joints
  state : Mirrors g start growth.tree growth.state w
  saved : List.Forall₂ (Mirrors g start growth.tree) growth.saved w.unfinished.reverse
  joints : ∀ k < growth.tree.size, ∃ q, w.Makes q k ∧ Leads g start growth.tree k q

theorem tracks_sprout (g : Geometry R) (id id' : Nat) (root : Joint R) (diameter : R)
    (heading : Matrix3 R) :
    Tracks g (sprout id' root diameter heading) [] (sprout id root diameter heading) where
  sound := sound_sprout id root diameter heading
  size := rfl
  state := ⟨_, rfl, sameEnd_sprout id id' root diameter heading⟩
  saved := .nil
  joints k hk := by
    obtain rfl : k = 0 := Nat.lt_one_iff.1 hk
    exact ⟨[], ⟨List.nil_prefix, rfl, by simp⟩, _, rfl, fun _ => Tree.branch_leaf⟩

/-- What is said of a pose stays true when the turtle goes on. -/
theorem Mirrors.process {pose : Pose R} {w : Word} {s : Symbol}
    (h : Mirrors g start growth.tree pose w) (hrooted : growth.tree.Rooted)
    (hrun : (Command.process g Command.standard s).run growth = .ok () growth') :
    Mirrors g start growth'.tree pose w := by
  obtain ⟨line, hline, hend⟩ := h
  rcases tree_of_process hrun with ⟨-, htree⟩ | ⟨-, i, hi, joint, rfl⟩
  · exact ⟨line, hline, htree ▸ hend⟩
  · exact ⟨line, hline, hend.graft hrooted hi joint⟩

theorem Mirrors.letter {w : Word} {s : Symbol} (h : Mirrors g start growth.tree growth.state w)
    (hrooted : growth.tree.Rooted) (hs : s.bracket? = none)
    (hrun : (Command.process g Command.standard s).run growth = .ok () growth') :
    Mirrors g start growth'.tree growth'.state (w ++ [s]) := by
  obtain ⟨line, hline, hend⟩ := h
  obtain ⟨line', hrun', hend'⟩ := hend.letter hrooted hs hrun
  refine ⟨line', ?_, hend'⟩
  rw [Word.spine_concat_letter w hs, runs_concat]
  exact ⟨line, hline, hrun'⟩

namespace Tracks

variable {w : Word} {s : Symbol}

theorem joints_step (h : Tracks g start w growth)
    (hrun : (Command.process g Command.standard s).run growth = .ok () growth') :
    growth'.tree.size = 1 + (w ++ [s]).joints ∧
      ∀ k < growth'.tree.size, ∃ q, (w ++ [s]).Makes q k ∧ Leads g start growth'.tree k q := by
  have hjoints : (w ++ [s]).joints = w.joints + if s.tag = "F" then 1 else 0 := by
    simp [Word.joints, List.countP_append, List.countP_cons]
  rcases tree_of_process hrun with ⟨htag, htree⟩ | ⟨htag, i, hi, joint, rfl⟩
  · rw [htree, hjoints, if_neg htag]
    refine ⟨h.size, fun k hk => ?_⟩
    obtain ⟨q, hq, hleads⟩ := h.joints k hk
    exact ⟨q, hq.concat s, hleads⟩
  · have hsize : (extend growth i joint).tree.size = growth.tree.size + 1 := Tree.size_graft ..
    have hletter : s.bracket? = none := Symbol.bracket?_eq_none.2 (by rw [htag]; decide)
    have hrooted := h.sound.rooted
    rw [hsize, hjoints, if_pos htag]
    refine ⟨by rw [h.size, Nat.add_assoc], fun k hk => ?_⟩
    rcases Nat.lt_or_eq_of_le (Nat.le_of_lt_succ hk) with hold | rfl
    · obtain ⟨q, hq, line, hline, hbranch⟩ := h.joints k hold
      refine ⟨q, hq.concat s, line, hline, fun above => ?_⟩
      rw [← hbranch]
      exact hrooted.branch_graft_of_lt hi joint hold
    · obtain ⟨line, hline, hend⟩ := h.state.letter hrooted hletter hrun
      obtain ⟨k, hlast, hbranch⟩ := hend.branch
      have hk : growth.tree.size = k := (Tree.handleAt_inj (t := growth.tree)).1 hlast
      refine ⟨w ++ [s], ⟨List.prefix_rfl, ?_, by simp [htag]⟩, line, hline, ?_⟩
      · rw [hjoints, if_pos htag, h.size, Nat.add_comm]
      · rw [hk]
        exact hbranch

/-- A symbol keeps the invariant. -/
theorem step (h : Tracks g start w growth)
    (hrun : (Command.process g Command.standard s).run growth = .ok () growth') :
    Tracks g start (w ++ [s]) growth' := by
  obtain ⟨hsize, hjoints⟩ := h.joints_step hrun
  have hrooted := h.sound.rooted
  have hsound := h.sound.process hrun
  have hsaved := h.saved.imp fun pose q hq => hq.process hrooted hrun
  -- no bracket adds a joint, and only a letter moves the pose on
  match hs : s.bracket? with
  | some .opening =>
    have heq := process_opening hs hrun
    subst heq
    refine ⟨hsound, hsize, ?_, ?_, hjoints⟩
    · show Mirrors g start growth.tree growth.state (w ++ [s])
      rw [Mirrors, Word.spine_concat_opening w hs]
      exact h.state
    · rw [Word.unfinished_concat_opening w hs, List.reverse_append]
      exact .cons h.state h.saved
  | some .closing =>
    -- what was said of the pose saved last, before its bracket, is now said of the current one
    obtain ⟨state, saved, heq, rfl⟩ := process_closing hs hrun
    rw [heq] at hsaved
    generalize hreverse : w.unfinished.reverse = opened at hsaved
    cases hsaved with
    | @cons _ q _ rest hq hrest =>
      have hunfinished : w.unfinished = rest.reverse ++ [q] := by
        rw [← List.reverse_reverse w.unfinished, hreverse, List.reverse_cons]
      refine ⟨hsound, hsize, ?_, ?_, hjoints⟩
      · rw [Mirrors, Word.spine_concat_closing hs hunfinished]
        exact hq
      · rw [Word.unfinished_concat_closing w hs, hunfinished, List.dropLast_concat,
          List.reverse_reverse]
        exact hrest
  | none =>
    refine ⟨hsound, hsize, h.state.letter hrooted hs hrun, ?_, hjoints⟩
    rw [Word.unfinished_concat_letter w hs, saved_of_letter hs hrun]
    exact hsaved

end Tracks

/-- The invariant holds all along a word. -/
theorem tracks_of_runs (id id' : Nat) {root : Joint R} {diameter : R} {heading : Matrix3 R}
    {w : Word} (hrun : Runs g (sprout id root diameter heading) w growth) :
    Tracks g (sprout id' root diameter heading) w growth := by
  induction w using List.reverseRecOn generalizing growth with
  | nil =>
    cases hrun
    exact tracks_sprout g id id' root diameter heading
  | append_singleton w s ih =>
    obtain ⟨before, hbefore, hstep⟩ := runs_concat.1 hrun
    exact (ih hbefore).step hstep

/-- **Interpreting a word is interpreting its spine**, which has no brackets. A turtle that a word
takes anywhere is where the spine of the word takes it; so is each saved pose, with the part of
the word before its bracket; and the branch to each joint is the line that the spine of the part of
the word up to this joint makes. -/
theorem interpret_spine (g : Geometry R) (id id' : Nat) (root : Joint R) (diameter : R)
    (heading : Matrix3 R) (p : Word) {grown : Turtle R}
    (hrun : (Step.interpret (Command.process g Command.standard) p).run
      (sprout id root diameter heading) = .ok () grown) :
    let start := sprout id' root diameter heading
    p.spine.BracketFree ∧
    Mirrors g start grown.tree grown.state p ∧
    List.Forall₂ (Mirrors g start grown.tree) grown.saved.reverse p.unfinished ∧
    ∀ k < grown.tree.size, ∃ q, p.Makes q k ∧ Leads g start grown.tree k q := by
  have htracks := tracks_of_runs id id' hrun
  refine ⟨p.bracketFree_spine, htracks.state, ?_, htracks.joints⟩
  rw [← List.forall₂_reverse_iff, List.reverse_reverse]
  exact htracks.saved

/-- The turtle goes up, makes a detour, and starts a branch that it does not come back from. -/
theorem interpret_spine_detour :
    let w : Word := [⟨"F", [.number (.float 1.0)]⟩, ⟨"[", []⟩, ⟨"F", [.number (.float 2.0)]⟩,
      ⟨"]", []⟩, ⟨"[", []⟩, ⟨"F", [.number (.float 3.0)]⟩]
    let g := Geometry.binary64
    ∃ grown, (Step.interpret (Command.process g Command.standard) w).run
        (sprout 0 (origin g) g.one g.identity) = .ok () grown ∧
      Mirrors g (sprout 1 (origin g) g.one g.identity) grown.tree grown.state w := by
  intro w g
  have hok : (match (Step.interpret (Command.process g Command.standard) w).run
      (sprout 0 (origin g) g.one g.identity) with
    | .ok _ _ => true
    | .error _ _ => false) = true := by decide +kernel
  cases hrun : (Step.interpret (Command.process g Command.standard) w).run
      (sprout 0 (origin g) g.one g.identity) with
  | error fault grown =>
    rw [hrun] at hok
    cases hok
  | ok _ grown => exact ⟨grown, rfl, (interpret_spine g 0 1 _ _ _ w hrun).2.1⟩

end Turtle

end Arbor
