import Arbor.Proofs.Growth.Stack
import Arbor.Proofs.Species.Crown
import Arbor.Proofs.Turtle.Balance

/-!
# The shape of Honda's tree

A crown of `n` generations grows an internode that carries two crowns of one generation less. So the
tree that it grows on a joint doubles with every generation: below the joint there is one internode,
every other joint carries two more until depth `n`, and each is thinner than the one before it by
the same factor. The diameter that is pending when a bracket opens is the one that counts when it
closes, and each internode sets its own.

* `Bears.fork`: an internode and two crowns on it are a crown of one generation more.
* `exists_runs_crown`, `exists_growJoints`: what the turtle grows from a crown.
* `growJoints_shape`: the shape of every tree of the species.
-/

namespace Arbor

/-! ## Trees on a joint -/

/-- The node at an index is `k` edges away from the root. -/
def Tree.Depth {α : Type} (t : Tree α) (i k : Nat) : Prop :=
  ∃ above, t.Branch above i ∧ above.length = k + 1

/-- A branch ends at its node. -/
theorem Tree.Branch.getLast?_eq {α : Type} {t : Tree α} {above : List α} {k : Nat}
    (h : t.Branch above k) : above.getLast? = t.payloads[k]? := by
  cases h with
  | root hpayload => rw [hpayload, List.getLast?_singleton]
  | child _ _ hpayload => rw [hpayload, List.getLast?_concat]

namespace Honda

/-- A node with `kids` children that a crown of `n` generations has grown on the joint at an index:
on its branch there are up to `n` joints after that one, with diameters from `w` on that become
smaller by the factor `shrink`, and only at depth `n` does it carry nothing. -/
def Hangs (shrink : Float) (n : Nat) (w : Float) (i : Nat) (t : Tree (Joint Float))
    (above : List (Joint Float)) (kids : Nat) : Prop :=
  ∃ base path, t.Branch base i ∧ above = base ++ path ∧ 0 < path.length ∧ path.length ≤ n ∧
    path.map Joint.diameter = List.iterate (· * shrink) w path.length ∧
    kids = if path.length = n then 0 else 2

/-- A tree after a crown of `n` generations has grown on the joint at an index, with internodes of
diameter `w` that become thinner by the factor `shrink`. Nothing else has changed. -/
structure Bears (shrink : Float) (n : Nat) (w : Float) (i : Nat) (t t' : Tree (Joint Float)) :
    Prop where
  rooted : t'.Rooted
  id : t'.id = t.id
  size : t'.size + 1 = t.size + 2 ^ n
  branch : ∀ k < t.size, ∀ above, t'.Branch above k ↔ t.Branch above k
  children : ∀ k < t.size,
    (t'.childrenAt k).length = (t.childrenAt k).length + if k = i ∧ 0 < n then 1 else 0
  grown : ∀ k, t.size ≤ k → ∀ above, t'.Branch above k →
    Hangs shrink n w i t above (t'.childrenAt k).length

variable {shrink w : Float} {n i : Nat} {t t₂ t₃ : Tree (Joint Float)} {joint : Joint Float}

theorem bears_nothing (h : t.Rooted) : Bears shrink 0 w i t t where
  rooted := h
  id := rfl
  size := rfl
  branch k _ above := Iff.rfl
  children k _ := by rw [if_neg (by omega), Nat.add_zero]
  grown k hk above habove := absurd habove.lt_size (Nat.not_lt.2 hk)

/-- What is on an internode, or is the internode itself, hangs on the joint below it. -/
theorem Hangs.of_graft (h : t.Rooted) (hi : i < t.size) (hjoint : joint.diameter = w)
    {base path : List (Joint Float)} {kids : Nat} (hbase : (t.graft i joint).Branch base t.size)
    (hle : path.length ≤ n)
    (hdiameters : path.map Joint.diameter = List.iterate (· * shrink) (w * shrink) path.length)
    (hkids : kids = if path.length = n then 0 else 2) :
    Hangs shrink (n + 1) w i t (base ++ path) kids := by
  obtain ⟨before, rfl, hbefore⟩ := (h.branch_graft_size hi joint).1 hbase
  refine ⟨before, joint :: path, hbefore, List.append_assoc .., Nat.succ_pos _,
    Nat.succ_le_succ hle, ?_, ?_⟩
  · rw [List.map_cons, hdiameters, hjoint]
    rfl
  · rw [hkids, List.length_cons]
    simp only [Nat.add_right_cancel_iff]

/-- An internode and two crowns on it make a crown of one generation more. -/
theorem Bears.fork (h : t.Rooted) (hi : i < t.size) (hjoint : joint.diameter = w)
    (h₂ : Bears shrink n (w * shrink) t.size (t.graft i joint) t₂)
    (h₃ : Bears shrink n (w * shrink) t.size t₂ t₃) : Bears shrink (n + 1) w i t t₃ := by
  have hsize₁ : (t.graft i joint).size = t.size + 1 := Tree.size_graft ..
  have hsize₂ := h₂.size
  have hsize₃ := h₃.size
  have hpos : 0 < 2 ^ n := Nat.two_pow_pos n
  have hchildren₁ : ∀ k, ((t.graft i joint).childrenAt k).length =
      (t.childrenAt k).length + if k = i then 1 else 0 := by
    intro k
    rw [Tree.childrenAt_graft hi, List.length_append]
    split <;> rfl
  refine ⟨h₃.rooted, h₃.id.trans h₂.id, ?_, fun k hk above => ?_, fun k hk => ?_,
    fun k hk above habove => ?_⟩
  · rw [pow_succ]
    omega
  · rw [h₃.branch k (by omega), h₂.branch k (by omega), h.branch_graft_of_lt hi joint hk]
  · have hk₂ : ¬ (k = t.size ∧ 0 < n) := by omega
    rw [h₃.children k (by omega), h₂.children k (by omega), hchildren₁, if_neg hk₂]
    simp only [Nat.add_zero, Nat.succ_pos, and_true]
  -- a new joint is in the second crown, the internode, or in the first crown
  by_cases hk₂ : t₂.size ≤ k
  · obtain ⟨base, path, hbase, rfl, -, hle, hdiameters, hkids⟩ := h₃.grown k hk₂ above habove
    rw [h₂.branch t.size (by omega)] at hbase
    exact .of_graft h hi hjoint hbase hle hdiameters hkids
  rw [h₃.branch k (by omega)] at habove
  have hkids₃ := h₃.children k (by omega)
  by_cases hk₁ : k = t.size
  · subst hk₁
    rw [h₂.branch t.size (by omega)] at habove
    have hkids₂ := h₂.children t.size (by omega)
    rw [hchildren₁, Tree.childrenAt_of_size_le t (Nat.le_refl _), if_neg (by omega)] at hkids₂
    rw [← List.append_nil above]
    refine .of_graft h hi hjoint habove (Nat.zero_le n) rfl ?_
    rw [hkids₃, hkids₂]
    simp only [true_and, List.length_nil]
    split_ifs <;> omega
  · obtain ⟨base, path, hbase, rfl, -, hle, hdiameters, hkids⟩ :=
      h₂.grown k (by omega) above habove
    rw [if_neg (by omega), Nat.add_zero] at hkids₃
    exact .of_graft h hi hjoint hbase hle hdiameters (hkids₃.trans hkids)

/-! ## What the turtle grows -/

open Turtle (Runs Move)

/-- A move for the first symbol, and then the others. -/
theorem runs_cons {c : Command} {s : Symbol} {v : Word} {start growth grown : Turtle Float}
    (h : Move .binary64 start c s.params growth) (h' : Runs .binary64 growth v grown)
    (hc : Command.standard.get? s.tag = some c) : Runs .binary64 start (s :: v) grown := by
  rw [Runs, Step.interpret_cons_run, Turtle.process_run_some hc, h.run_eq]
  exact h'

/-- The angles of a lateral apex are not infinite. -/
def Lateral.Turns (side : Lateral) : Prop :=
  Binary64.isInfinite side.pitch = false ∧ Binary64.isInfinite side.yaw = false

/-- Between brackets the turtle turns, grows something on the joint where it stands, and comes
back. -/
theorem exists_runs_turned {side : Lateral} (hside : side.Turns) {v : Word} {growth : Turtle Float}
    {P : Tree (Joint Float) → Prop} (hv : ∀ start : Turtle Float, start.tree = growth.tree →
      start.state.last = growth.state.last → ∃ grown, Runs .binary64 start v grown ∧
        grown.saved = start.saved ∧ P grown.tree) :
    ∃ grown, Runs .binary64 growth (turned side v) grown ∧ grown.saved = growth.saved ∧
      grown.state = growth.state ∧ P grown.tree := by
  have hzero : Binary64.isInfinite 0.0 = false := by decide +kernel
  obtain ⟨r, hr⟩ := rotation_eq_ok (x := .number (.float 0.0)) (y := .number (.float side.pitch))
    (z := .number (.float side.yaw)) ⟨_, rfl, hzero⟩ ⟨_, rfl, hside.1⟩ ⟨_, rfl, hside.2⟩
  let aside : Turtle Float := { growth with saved := growth.state :: growth.saved }
  let facing : Turtle Float := { aside with
    state := { aside.state with heading := Geometry.binary64.product aside.state.heading r } }
  have hpush : Move .binary64 growth .push [] aside := .push
  have hrotate : Move .binary64 aside .rotate _ facing := .rotate hr
  obtain ⟨grown, hrun, hsaved, hP⟩ := hv facing rfl rfl
  have hpop : Move .binary64 grown .pop [] { grown with
    state := growth.state, saved := growth.saved } := .pop hsaved
  have hclose := runs_cons (v := []) (s := ⟨"]", []⟩) hpop rfl rfl
  have hinside := Turtle.runs_append_iff.2 ⟨_, hrun, hclose⟩
  exact ⟨_, runs_cons hpush (runs_cons hrotate hinside rfl) rfl, rfl, rfl, hP⟩

/-- **What the turtle grows from a crown.** -/
theorem exists_runs_crown {c : Fork} (hfirst : c.first.Turns) (hsecond : c.second.Turns) (n : Nat)
    (s w : Float) {growth : Turtle Float} (hrooted : growth.tree.Rooted) {i : Nat}
    (hi : i < growth.tree.size) (hlast : growth.state.last = growth.tree.handleAt i) :
    ∃ grown, Runs .binary64 growth (crown c n s w) grown ∧ grown.saved = growth.saved ∧
      Bears c.shrink n w i growth.tree grown.tree := by
  induction n generalizing s w growth i with
  | zero => exact ⟨growth, rfl, rfl, bears_nothing hrooted⟩
  | succ n ih =>
    -- the internode, with the diameter that has just been set
    let thick : Turtle Float := { growth with state := { growth.state with diameter := w } }
    let joint := Turtle.ahead .binary64 thick.state s (growth.tree.node ⟨i, hi⟩).payload
    let grafted := Turtle.extend thick i joint
    have hwidth : Move .binary64 growth .diameter [.number (.float w)] thick := .diameter rfl
    have hlocate : thick.tree.locate thick.state.last = .ok ⟨i, hi⟩ :=
      Tree.locate_eq_ok_iff.2 hlast
    have hforward : Move .binary64 thick .forward [.number (.float s)] grafted :=
      .forward rfl hlocate
    have hgrafted : grafted.tree.Rooted := hrooted.graft hi joint
    have hsize : growth.tree.size < grafted.tree.size := by
      show growth.tree.size < (growth.tree.graft i joint).size
      rw [Tree.size_graft]
      exact Nat.lt_succ_self _
    have hlater : ∀ (side : Lateral) (start : Turtle Float), start.tree.Rooted →
        start.tree.id = growth.tree.id → growth.tree.size < start.tree.size →
        start.state = grafted.state → side.Turns →
        ∃ grown,
          Runs .binary64 start (turned side (crown c n (s * side.scale) (w * c.shrink))) grown ∧
          grown.saved = start.saved ∧ grown.state = start.state ∧
          Bears c.shrink n (w * c.shrink) growth.tree.size start.tree grown.tree := by
      intro side start hroot hid hlt hstate hside
      refine exists_runs_turned hside fun turnedStart htree hsame => ?_
      rw [← htree]
      refine ih _ _ (htree ▸ hroot) (htree ▸ hlt) ?_
      rw [hsame, hstate, htree, Tree.handleAt, hid]
      rfl
    obtain ⟨g₂, hrun₂, hsaved₂, hstate₂, hbears₂⟩ :=
      hlater c.first grafted hgrafted rfl hsize rfl hfirst
    have hsize₂ : growth.tree.size < g₂.tree.size := by
      have hcount := hbears₂.size
      have hpos : 0 < 2 ^ n := Nat.two_pow_pos n
      omega
    obtain ⟨g₃, hrun₃, hsaved₃, -, hbears₃⟩ :=
      hlater c.second g₂ hbears₂.rooted hbears₂.id hsize₂ hstate₂ hsecond
    have hcrowns := Turtle.runs_append_iff.2 ⟨_, hrun₂, hrun₃⟩
    exact ⟨g₃, runs_cons hwidth (runs_cons hforward hcrowns rfl) rfl, hsaved₃.trans hsaved₂,
      .fork hrooted hi rfl hbears₂ hbears₃⟩

/-- The tree that a word which is a crown grows on a root. -/
theorem exists_growJoints {c : Fork} (hfirst : c.first.Turns) (hsecond : c.second.Turns)
    {first : Word} {g : Grammar} {s w : Float}
    (hevolve : (LSystem.ofCommands .binary64 first g Command.standard).evolve n =
      .ok (crown c n s w)) (root : Joint Float) :
    ∃ tree, (LSystem.ofCommands .binary64 first g Command.standard).growJoints .binary64
        (.ok root) (.int n) = .ok tree ∧ Bears c.shrink n w 0 (.leaf 0 root) tree := by
  have hrooted : (Turtle.initial .binary64 root).tree.Rooted := Tree.rooted_leaf 0 root
  obtain ⟨grown, hrun, hsaved, hbears⟩ :=
    exists_runs_crown hfirst hsecond n s w hrooted Nat.one_pos rfl
  have hinterpret := Turtle.interpretJoints_eq first g root (crown c n s w)
  rw [hrun] at hinterpret
  have hclosed : grown.saved.length = 0 := congrArg List.length hsaved
  refine ⟨grown.tree, ?_, hbears⟩
  exact (LSystem.construct_natCast root _ hevolve).trans (hinterpret.trans (if_pos hclosed))

/-! ## The shape of the tree -/

/-- What is said of a node at depth `k` of a tree of `n` generations. -/
theorem Bears.node {d : Float} {root : Joint Float} {tree : Tree (Joint Float)}
    (h : Bears d n w 0 (.leaf 0 root) tree) (hi : i < tree.size) :
    ∃ k ≤ n, ∃ joint children, (∀ m, tree.Depth i m ↔ m = k) ∧
      tree.get (tree.handleAt i) = .ok joint ∧ tree.children (tree.handleAt i) = .ok children ∧
      (0 < n → children.length = if k = 0 then 1 else if k < n then 2 else 0) ∧
      (0 < k → joint.diameter = (· * d)^[k - 1] w) := by
  obtain ⟨above, habove, hunique⟩ := h.rooted.existsUnique_branch hi
  have hdepth : ∀ {k}, above.length = k + 1 → ∀ m, tree.Depth i m ↔ m = k := by
    intro k hlength m
    constructor
    · rintro ⟨other, hother, hm⟩
      rw [hunique other hother, hlength] at hm
      exact (Nat.succ_inj.1 hm).symm
    · rintro rfl
      exact ⟨above, habove, hlength⟩
  have hlast := habove.getLast?_eq
  have hlt : i < tree.payloads.length := by rwa [Tree.length_payloads]
  rw [List.getElem?_eq_getElem hlt] at hlast
  have hget : tree.get (tree.handleAt i) = .ok tree.payloads[i] :=
    Tree.get_handleAt.2 (List.getElem?_eq_getElem hlt)
  rcases Nat.eq_zero_or_pos i with rfl | hpos
  · have hroot : above = [root] := Tree.branch_leaf.1 ((h.branch 0 Nat.one_pos above).1 habove)
    have hchildren := h.children 0 Nat.one_pos
    rw [Tree.childrenAt_leaf] at hchildren
    refine ⟨0, Nat.zero_le n, _, _, hdepth (by rw [hroot]; rfl), hget, Tree.children_handleAt hi,
      fun hn => ?_, fun h => absurd h (Nat.lt_irrefl 0)⟩
    rw [hchildren, if_pos ⟨rfl, hn⟩]
    rfl
  · obtain ⟨base, path, hbase, rfl, hpath, hle, hdiameters, hkids⟩ := h.grown i hpos above habove
    obtain rfl := Tree.branch_leaf.1 hbase
    refine ⟨path.length, hle, _, _, hdepth (by rw [List.length_append, Nat.add_comm]; rfl), hget,
      Tree.children_handleAt hi, fun _ => ?_, fun _ => ?_⟩
    · rw [hkids, if_neg (Nat.ne_of_gt hpath)]
      split_ifs <;> omega
    · have hend : (path.map Joint.diameter).getLast? = some tree.payloads[i].diameter := by
        rw [List.getLast?_append_of_ne_nil _ (List.ne_nil_of_length_pos hpath)] at hlast
        rw [List.getLast?_map, hlast]
        rfl
      rw [hdiameters, List.getLast?_eq_getElem?, List.length_iterate,
        List.getElem?_iterate _ _ _ _ (Nat.sub_lt hpath Nat.one_pos)] at hend
      exact (Option.some.inj hend).symm

theorem Lateral.turns_of {side : Lateral} (hpitch : (Value.number (.float side.pitch)).Turns)
    (hyaw : (Value.number (.float side.yaw)).Turns) : side.Turns := by
  obtain ⟨pitch, hp, hpitch⟩ := hpitch
  obtain ⟨yaw, hy, hyaw⟩ := hyaw
  cases hp
  cases hy
  exact ⟨hpitch, hyaw⟩

/-- **The shape of every tree of the species.** Let all parameters be doubles, no angle infinite,
and let the power by which apices become thinner be a double. After `n` generations the word has
`9 * 2 ^ n - 8` symbols of which `2 ^ n` are apices, and from every root it grows a tree of `2 ^ n`
joints. The root carries one joint, every joint above depth `n` two and those at depth `n` none. At
depth `k` the diameter is that of the parameters, multiplied `k - 1` times by the power. -/
theorem growJoints_shape (p : HondaParams) (d : Float) (n : Nat)
    (hp : ∀ entry ∈ p.toTable, ∃ x, entry.2 = .float x)
    (hangles : ∀ angle ∈ [p.branchPitch1, p.branchYaw1, p.branchPitch2, p.branchYaw2],
      (Value.number angle).Turns)
    (hd : p.shrink = .ok (.float d)) :
    ∃ l w diameter, system .binary64 p = .ok l ∧ l.evolve n = .ok w ∧
      w.length = 9 * 2 ^ n - 8 ∧ w.countP (fun s => s.tag = "A") = 2 ^ n ∧
      p.rootDiameter = .float diameter ∧
      ∀ root : Joint Float, ∃ tree, l.growJoints .binary64 (.ok root) (.int n) = .ok tree ∧
        tree.size = 2 ^ n ∧ tree.edgeCount = 2 ^ n - 1 ∧
        ∀ i < tree.size, ∃ k ≤ n, ∃ joint children, (∀ m, tree.Depth i m ↔ m = k) ∧
          tree.get (tree.handleAt i) = .ok joint ∧
          tree.children (tree.handleAt i) = .ok children ∧
          (0 < n → children.length = if k = 0 then 1 else if k < n then 2 else 0) ∧
          (0 < k → joint.diameter = (· * d)^[k - 1] diameter) := by
  simp only [HondaParams.toTable, List.forall_mem_cons] at hp
  obtain ⟨⟨scale₁, hscale₁⟩, ⟨scale₂, hscale₂⟩, ⟨yaw₁, hyaw₁⟩, ⟨yaw₂, hyaw₂⟩, ⟨pitch₁, hpitch₁⟩,
    ⟨pitch₂, hpitch₂⟩, -, -, ⟨diameter, hdiameter⟩, ⟨length, hlength⟩, -⟩ := hp
  simp only [hpitch₁, hyaw₁, hpitch₂, hyaw₂, List.forall_mem_cons] at hangles
  obtain ⟨hturn₁, hturn₂, hturn₃, hturn₄, -⟩ := hangles
  let c : Fork := ⟨⟨scale₁, pitch₁, yaw₁⟩, ⟨scale₂, pitch₂, yaw₂⟩, d⟩
  have hc : Describes p c := ⟨hscale₁, hpitch₁, hyaw₁, hscale₂, hpitch₂, hyaw₂⟩
  let l : LSystem (Joint Float) (Pose Float) :=
    .ofCommands .binary64 (seed p) ⟨alphabet, [rule p (.float d)]⟩ Command.standard
  have hsystem : system .binary64 p = .ok l := by
    rw [system, grammar_eq_ok hd]
    rfl
  have hevolve : l.evolve n = .ok (crown c n length diameter) := by
    have hseed : seed p = crown c 0 length diameter := by
      rw [seed, hlength, hdiameter]
      rfl
    show (Grammar.evolve ⟨alphabet, [rule p (.float d)]⟩ (seed p) n).result = _
    rw [hseed]
    exact (evolve_crown hc n 0 length diameter).trans (by rw [Nat.zero_add])
  have hsymbols := length_crown c n length diameter
  refine ⟨l, _, diameter, hsystem, hevolve, by omega, countP_crown c n length diameter, hdiameter,
    fun root => ?_⟩
  obtain ⟨tree, hgrown, hbears⟩ := exists_growJoints (Lateral.turns_of hturn₁ hturn₂)
    (Lateral.turns_of hturn₃ hturn₄) hevolve root
  have hsize : tree.size = 2 ^ n := by
    have hcount : tree.size + 1 = 1 + 2 ^ n := hbears.size
    omega
  have hedges : tree.edgeCount = 2 ^ n - 1 := by
    have hcount := hbears.rooted.size_eq
    omega
  exact ⟨tree, hgrown, hsize, hedges, fun i hi => hbears.node hi⟩

/-- The parameters of a tree whose internodes all have the diameter of the first. -/
def even : HondaParams := { branchDiameterConservationFactor := .float 0.0 }

theorem growJoints_shape_even :
    (∀ entry ∈ even.toTable, ∃ x, entry.2 = .float x) ∧
    (∀ angle ∈ [even.branchPitch1, even.branchYaw1, even.branchPitch2, even.branchYaw2],
      (Value.number angle).Turns) ∧
    even.shrink = .ok (.float 1.0) ∧
    ∃ l w diameter, system .binary64 even = .ok l ∧ l.evolve 2 = .ok w ∧
      w.length = 28 ∧ w.countP (fun s => s.tag = "A") = 4 ∧
      even.rootDiameter = .float diameter ∧
      ∀ root : Joint Float, ∃ tree, l.growJoints .binary64 (.ok root) (.int 2) = .ok tree ∧
        tree.size = 4 ∧ tree.edgeCount = 3 ∧
        ∀ i < tree.size, ∃ k ≤ 2, ∃ joint children, (∀ m, tree.Depth i m ↔ m = k) ∧
          tree.get (tree.handleAt i) = .ok joint ∧
          tree.children (tree.handleAt i) = .ok children ∧
          (0 < 2 → children.length = if k = 0 then 1 else if k < 2 then 2 else 0) ∧
          (0 < k → joint.diameter = (· * 1.0)^[k - 1] diameter) := by
  have hfloats : ∀ entry ∈ even.toTable, ∃ x, entry.2 = .float x := by
    simp only [HondaParams.toTable, even, List.forall_mem_cons, Number.float.injEq,
      exists_eq', List.not_mem_nil, false_imp_iff, implies_true, and_self]
  have hangles : ∀ angle ∈
      [even.branchPitch1, even.branchYaw1, even.branchPitch2, even.branchYaw2],
      (Value.number angle).Turns := by
    have hpitch : Binary64.isInfinite 180.0 = false := by decide +kernel
    have hyaw₁ : Binary64.isInfinite 25.0 = false := by decide +kernel
    have hyaw₂ : Binary64.isInfinite (-15.0) = false := by decide +kernel
    simp only [even, List.forall_mem_cons]
    exact ⟨⟨_, rfl, hpitch⟩, ⟨_, rfl, hyaw₁⟩, ⟨_, rfl, hpitch⟩, ⟨_, rfl, hyaw₂⟩, nofun⟩
  have hshrink : even.shrink = .ok (.float 1.0) := by
    have hzero : ((0.0 : Float) == 0.0) = true := by decide +kernel
    show Number.floatPow 0.45 0.0 = _
    rw [Number.floatPow, if_pos hzero]
  exact ⟨hfloats, hangles, hshrink, growJoints_shape even 1.0 2 hfloats hangles hshrink⟩

end Honda

end Arbor
