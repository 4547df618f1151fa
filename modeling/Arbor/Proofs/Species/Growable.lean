import Arbor.Proofs.Species.Honda
import Arbor.Proofs.Species.Parameters
import Arbor.Proofs.Turtle.Callable

/-!
# When Honda's tree grows

With parameters that are doubles the words of the species always evolve. Every generation puts the
turns of both sides and the diameters of the apices before it into the word, and there they stay, as
only apices are rewritten. So from the first generation on no angle may be infinite, and from the
second on the factor by which apices become thinner must not have left the real line. If neither
happens, the tree doubles with every generation.

* `exists_evolve`: the words of the species.
* `mem_of_evolve`, `generation_apex`: what is in all of them from some generation on.
* `exists_tree_iff`: the trees of the species.
-/

namespace Arbor.Honda

/-! ## Diameters -/

/-- What the diameter of an apex can be: a double, or off the real line. -/
inductive Width : Number → Prop
  | float (x : Float) : Width (.float x)
  | nonreal : Width .nonreal

/-- A diameter and a factor that is one have a product, which is off the real line if the factor
is. -/
theorem Width.exists_mul {w d : Number} (hw : Width w) (hd : Width d) :
    ∃ w', (Value.number w).mul d = .ok (.number w') ∧ Width w' ∧
      (d = .nonreal → w' = .nonreal) := by
  cases hw <;> cases hd
  · exact ⟨_, rfl, .float _, nofun⟩
  · exact ⟨_, rfl, .nonreal, fun _ => rfl⟩
  · exact ⟨_, rfl, .nonreal, nofun⟩
  · exact ⟨_, rfl, .nonreal, fun _ => rfl⟩

theorem width_of_shrink {p : HondaParams} {d : Number} (hp : p.Doubles) (hd : p.shrink = .ok d) :
    Width d := by
  obtain ⟨x, y, -, -, hshrink⟩ := hp.exists_shrink
  rw [hshrink] at hd
  rcases Number.isPower_floatPow x y with ⟨r, hr⟩ | hr | ⟨fault, hr, -⟩ <;> rw [hr] at hd <;>
    cases hd
  · exact .float r
  · exact .nonreal

/-! ## Splitting -/

/-- What an apex of length `s` and diameter `w` becomes if the apices on it have the diameter
`w'`. -/
def forked (c : Fork) (s : Float) (w w' : Number) : Word :=
  let lateral (side : Lateral) : Word :=
    turned side [⟨"A", [.number (.float (s * side.scale)), .number w']⟩]
  ⟨"W", [.number w]⟩ :: ⟨"F", [.number (.float s)]⟩ :: (lateral c.first ++ lateral c.second)

variable {p : HondaParams} {c : Fork} {d : Number}

theorem exists_describes (hp : p.Doubles) (x : Float) : ∃ c, Describes p c ∧ c.shrink = x := by
  simp only [HondaParams.Doubles, HondaParams.toTable, List.forall_mem_cons] at hp
  obtain ⟨⟨scale₁, hscale₁⟩, ⟨scale₂, hscale₂⟩, ⟨yaw₁, hyaw₁⟩, ⟨yaw₂, hyaw₂⟩, ⟨pitch₁, hpitch₁⟩,
    ⟨pitch₂, hpitch₂⟩, -⟩ := hp
  exact ⟨⟨⟨scale₁, pitch₁, yaw₁⟩, ⟨scale₂, pitch₂, yaw₂⟩, x⟩,
    ⟨hscale₁, hpitch₁, hyaw₁, hscale₂, hpitch₂, hyaw₂⟩, rfl⟩

/-- The symbols of the words of the species: if one is an apex, its length is a double and its
diameter one that an apex can have. -/
def Apical (x : Symbol) : Prop :=
  x.tag = "A" → ∃ s w, x.params = [.number (.float s), .number w] ∧ Width w

theorem split_eq_forked (h : Describes p c) {s : Float} {w w' : Number}
    (hw : (Value.number w).mul d = .ok (.number w')) :
    split p d (.number (.float s)) (.number w) = .ok (forked c s w w') := by
  simp only [split, lateral, h.scale₁, h.pitch₁, h.yaw₁, h.scale₂, h.pitch₂, h.yaw₂, hw]
  rfl

theorem apical_of_ne {x : Symbol} (h : x.tag ≠ "A") : Apical x := fun htag => absurd htag h

theorem apical_turned (side : Lateral) {w : Word} (hw : ∀ x ∈ w, Apical x) :
    ∀ x ∈ turned side w, Apical x := fun x hx =>
  (mem_turned hx).elim apical_of_ne (hw x)

theorem apical_forked {s : Float} {w w' : Number} (hw' : Width w') :
    ∀ x ∈ forked c s w w', Apical x := by
  have hlateral : ∀ side : Lateral, ∀ x ∈ turned side
      [⟨"A", [.number (.float (s * side.scale)), .number w']⟩], Apical x := fun side =>
    apical_turned side (List.forall_mem_singleton.2 fun _ => ⟨_, _, rfl, hw'⟩)
  simp only [forked, List.forall_mem_cons, List.forall_mem_append]
  exact ⟨apical_of_ne (by simp), apical_of_ne (by simp), hlateral c.first, hlateral c.second⟩

/-! ## Generations -/

/-- The grammar of the species, by its parameters and the factor that they give. -/
def grammarOf (p : HondaParams) (d : Number) : Grammar := ⟨alphabet, [rule p d]⟩

/-- The species, by its parameters and the factor that they give. -/
def systemOf (p : HondaParams) (d : Number) : LSystem (Joint Float) (Pose Float) :=
  .ofCommands .binary64 (seed p) (grammarOf p d) Command.standard

theorem system_eq_ok (hd : p.shrink = .ok d) : system .binary64 p = .ok (systemOf p d) := by
  rw [system, grammar_eq_ok hd]
  rfl

theorem exists_seed (hp : p.Doubles) :
    ∃ s w, seed p = [⟨"A", [.number (.float s), .number (.float w)]⟩] := by
  simp only [HondaParams.Doubles, HondaParams.toTable, List.forall_mem_cons] at hp
  obtain ⟨-, -, -, -, -, -, -, -, ⟨w, hw⟩, ⟨s, hs⟩, -⟩ := hp
  exact ⟨s, w, by rw [seed, hs, hw]⟩

/-- An apex splits, and all else stays. -/
theorem exists_forked (h : Describes p c) (hd : Width d) {s : Float} {w : Number} (hw : Width w) :
    ∃ w', Width w' ∧ (d = .nonreal → w' = .nonreal) ∧ ∀ site left right,
      ((grammarOf p d).applyBetween site ⟨"A", [.number (.float s), .number w]⟩ left right).result =
        .ok (forked c s w w') := by
  obtain ⟨w', hmul, hw', hnonreal⟩ := hw.exists_mul hd
  exact ⟨w', hw', hnonreal, applyBetween_apex (split_eq_forked h hmul)⟩

/-- Something becomes of every symbol of the species, and wherever it stands the same. -/
theorem Apical.exists_piece (h : Describes p c) (hd : Width d) {x : Symbol} (hx : Apical x) :
    ∃ piece, (∀ y ∈ piece, Apical y) ∧ ∀ site left right,
      ((grammarOf p d).applyBetween site x left right).result = .ok piece := by
  by_cases htag : x.tag = "A"
  · obtain ⟨s, w, hparams, hw⟩ := hx htag
    obtain ⟨w', hw', -, hforked⟩ := exists_forked h hd (s := s) hw
    obtain ⟨tag, params⟩ := x
    obtain rfl : tag = "A" := htag
    obtain rfl : params = _ := hparams
    exact ⟨_, apical_forked hw', hforked⟩
  · exact ⟨[x], List.forall_mem_singleton.2 hx, applyBetween_of_ne htag⟩

theorem exists_generation (h : Describes p c) (hd : Width d) (w : Word) (hw : ∀ x ∈ w, Apical x) :
    ∃ v, ((grammarOf p d).generation w).result = .ok v ∧ ∀ x ∈ v, Apical x := by
  obtain ⟨v, hv⟩ := Grammar.exists_generation_of fun x hx site left right =>
    have ⟨piece, _, hpiece⟩ := (hw x hx).exists_piece h hd
    ⟨piece, hpiece site left right⟩
  obtain ⟨pieces, hpieces, rfl⟩ := Grammar.exists_forall₂_becomes hv
  refine ⟨_, hv, ?_⟩
  rw [List.forall_mem_flatten]
  refine forall_of_forall₂ ((List.forall₂_and_left w pieces).2 ⟨hw, hpieces⟩).flip ?_
  rintro piece x ⟨hx, site, left, right, hresult⟩
  obtain ⟨piece', hapical, hpiece'⟩ := hx.exists_piece h hd
  rwa [Except.ok.inj (hresult.symm.trans (hpiece' site left right))]

/-- The words of the species, whatever the factor is. -/
theorem exists_evolve (h : Describes p c) (hd : Width d) {w : Word} (hw : ∀ x ∈ w, Apical x)
    (n : Nat) : ∃ v, ((grammarOf p d).evolve w n).result = .ok v :=
  Grammar.exists_evolve_of (exists_generation h hd) hw n

/-- What is not an apex stays. -/
theorem mem_of_evolve {x : Symbol} (hx : x.tag ≠ "A") {w v : Word} {n : Nat} (hw : x ∈ w)
    (h : ((grammarOf p d).evolve w n).result = .ok v) : x ∈ v := by
  have hrules : ∀ r ∈ (grammarOf p d).rules, r.focus.tag ≠ x.tag :=
    List.forall_mem_singleton.2 (Ne.symm hx)
  exact Grammar.evolve_induction (P := (x ∈ ·))
    (fun w v hw hv => Grammar.mem_of_generation hw hrules hv) hw h

/-- The first generation: the one apex splits. -/
theorem generation_apex (h : Describes p c) (hd : Width d) (s : Float) {w : Number}
    (hw : Width w) :
    ∃ w', (d = .nonreal → w' = .nonreal) ∧
      ((grammarOf p d).generation [⟨"A", [.number (.float s), .number w]⟩]).result =
        .ok (forked c s w w') := by
  obtain ⟨w', -, hnonreal, hforked⟩ := exists_forked h hd (s := s) hw
  refine ⟨w', hnonreal, ?_⟩
  have hpiece : ∀ x ∈ ([⟨"A", [.number (.float s), .number w]⟩] : Word), ∀ site left right,
      ((grammarOf p d).applyBetween site x left right).result =
        .ok ((fun _ => forked c s w w') x) := List.forall_mem_singleton.2 hforked
  rw [Grammar.generation_eq_flatMap hpiece, List.flatMap_singleton]

/-! ## Trees -/

/-- What it takes to grow a number of generations: from the first on no infinite angles, and from
the second on a factor on the real line. -/
def Grows (p : HondaParams) (d : Number) (n : Nat) : Prop :=
  n = 0 ∨ ((∀ angle ∈ [p.branchPitch1, p.branchYaw1, p.branchPitch2, p.branchYaw2],
    (Value.number angle).Turns) ∧ (n = 1 ∨ d ≠ .nonreal))

theorem turns_iff {x : Float} :
    (Value.number (.float x)).Turns ↔ Binary64.isInfinite x = false := by
  constructor
  · rintro ⟨degrees, ⟨⟩, h⟩
    exact h
  · exact fun h => ⟨x, rfl, h⟩

theorem forall_turns_iff (h : Describes p c) :
    (∀ angle ∈ [p.branchPitch1, p.branchYaw1, p.branchPitch2, p.branchYaw2],
      (Value.number angle).Turns) ↔ c.first.Turns ∧ c.second.Turns := by
  simp only [h.pitch₁, h.yaw₁, h.pitch₂, h.yaw₂, List.forall_mem_cons, turns_iff, List.not_mem_nil,
    false_imp_iff, implies_true, and_true, Lateral.Turns, and_assoc]

def turn (side : Lateral) : Symbol :=
  ⟨"R", [.number (.float 0.0), .number (.float side.pitch), .number (.float side.yaw)]⟩

theorem callable_turn_iff {side : Lateral} : (turn side).Callable ↔ side.Turns := by
  have hzero : Binary64.isInfinite 0.0 = false := by decide +kernel
  constructor
  · intro h
    cases h .rotate rfl with
    | rotate _ hpitch hyaw => exact ⟨turns_iff.1 hpitch, turns_iff.1 hyaw⟩
  · rintro ⟨hpitch, hyaw⟩ command hcommand
    cases hcommand
    exact .rotate (turns_iff.2 hzero) (turns_iff.2 hpitch) (turns_iff.2 hyaw)

theorem callable_diameter_iff {w : Number} (hw : Width w) :
    Symbol.Callable ⟨"W", [.number w]⟩ ↔ w ≠ .nonreal := by
  constructor
  · rintro h rfl
    cases h .diameter rfl with
    | diameter hlength => cases hlength
  · intro hreal command hcommand
    cases hcommand
    cases hw with
    | float x => exact .diameter rfl
    | nonreal => exact absurd rfl hreal

/-- The turns of both sides and the apices on them are in what an apex becomes. -/
theorem mem_forked (c : Fork) (s : Float) (w w' : Number) :
    turn c.first ∈ forked c s w w' ∧ turn c.second ∈ forked c s w w' ∧
      ⟨"A", [.number (.float (s * c.first.scale)), .number w']⟩ ∈ forked c s w w' ∧
      ⟨"W", [.number w]⟩ ∈ forked c s w w' := by
  refine ⟨?_, ?_, ?_, ?_⟩ <;> simp [forked, turned, turn]

/-- What has grown a tree met what it takes. -/
theorem grows_of_eq_ok (hp : p.Doubles) (h : Describes p c) (hd : Width d) {n : Nat} {word : Word}
    (hevolve : (systemOf p d).evolve n = .ok word) {root : Joint Float}
    {tree : Tree (Joint Float)}
    (htree : (systemOf p d).interpretJoints .binary64 root word = .ok tree) : Grows p d n := by
  have hcallable : ∀ x ∈ word, x.Callable :=
    ((Turtle.exists_interpretJoints_iff _ _ root word).1.1 ⟨tree, htree⟩).1
  obtain ⟨s, w, hseed⟩ := exists_seed hp
  replace hevolve : ((grammarOf p d).evolve (seed p) n).result = .ok word := hevolve
  rw [hseed] at hevolve
  match n with
  | 0 => exact Or.inl rfl
  | n + 1 =>
    obtain ⟨w', hnonreal, hfirst⟩ := generation_apex h hd s (.float w)
    obtain ⟨hturn₁, hturn₂, hapex, -⟩ := mem_forked c s (.float w) w'
    rw [Grammar.evolve_succ, Traced.bind_ok_iff] at hevolve
    obtain ⟨next, hnext, hevolve⟩ := hevolve
    cases hfirst.symm.trans hnext
    refine Or.inr ⟨(forall_turns_iff h).2 ⟨?_, ?_⟩, ?_⟩
    · exact callable_turn_iff.1 (hcallable _ (mem_of_evolve (by simp [turn]) hturn₁ hevolve))
    · exact callable_turn_iff.1 (hcallable _ (mem_of_evolve (by simp [turn]) hturn₂ hevolve))
    match n with
    | 0 => exact Or.inl rfl
    | n + 1 =>
      right
      rintro rfl
      obtain rfl := hnonreal rfl
      rw [Grammar.evolve_succ, Traced.bind_ok_iff] at hevolve
      obtain ⟨second, hsecond, hevolve⟩ := hevolve
      obtain ⟨piece, ⟨site, left, right, hbecomes⟩, hpiece⟩ :=
        Grammar.exists_becomes hapex hsecond
      obtain ⟨w'', -, -, hforked⟩ := exists_forked h .nonreal (s := s * c.first.scale) .nonreal
      cases (hforked site left right).symm.trans hbecomes
      have hdiameter := hpiece (mem_forked c (s * c.first.scale) .nonreal w'').2.2.2
      have hcall := hcallable _ (mem_of_evolve (by simp) hdiameter hevolve)
      exact (callable_diameter_iff .nonreal).1 hcall rfl

/-- What the word of the first generation grows, whatever the diameter of the apices is. -/
theorem exists_tree_forked (h : c.first.Turns ∧ c.second.Turns) (seed : Word) (g : Grammar)
    (root : Joint Float) (s w : Float) (w' : Number) :
    ∃ tree, (LSystem.ofCommands .binary64 seed g Command.standard).interpretJoints .binary64 root
      (forked c s (.float w) w') = .ok tree ∧ tree.size = 2 := by
  have hcallable : ∀ x ∈ forked c s (.float w) w', x.Callable := by
    have hside : ∀ side : Lateral, side.Turns → ∀ x ∈ turned side
        [⟨"A", [.number (.float (s * side.scale)), .number w']⟩], x.Callable := by
      intro side hside
      simp only [turned, List.cons_append, List.nil_append, List.forall_mem_cons]
      refine ⟨?_, callable_turn_iff.2 hside, ?_, ?_, List.forall_mem_nil _⟩ <;> intro command hc <;>
        cases hc
      · exact .push
      · exact .pop
    simp only [forked, List.forall_mem_cons, List.forall_mem_append]
    refine ⟨(callable_diameter_iff (.float w)).2 (by simp), ?_, hside _ h.1, hside _ h.2⟩
    intro command hc
    cases hc
    exact .forward rfl
  have hdyck : (forked c s (.float w) w').Dyck := by
    rw [Word.dyck_iff_balanced, Word.balanced_iff]
    exact ⟨rfl, rfl⟩
  obtain ⟨hexists, hsize⟩ :=
    Turtle.exists_interpretJoints_iff seed g root (forked c s (.float w) w')
  obtain ⟨tree, htree⟩ := hexists.2 ⟨hcallable, hdyck⟩
  exact ⟨tree, htree, hsize tree htree⟩

/-- What meets what it takes grows a tree that has doubled with every generation. -/
theorem exists_tree_of_grows (hp : p.Doubles) (hd : Width d) {n : Nat} (hgrows : Grows p d n)
    {word : Word} (hevolve : (systemOf p d).evolve n = .ok word) (root : Joint Float) :
    ∃ tree, (systemOf p d).interpretJoints .binary64 root word = .ok tree ∧ tree.size = 2 ^ n := by
  obtain ⟨s, w, hseed⟩ := exists_seed hp
  replace hevolve : ((grammarOf p d).evolve (seed p) n).result = .ok word := hevolve
  rw [hseed] at hevolve
  rcases hgrows with rfl | ⟨hturns, hfactor⟩
  · cases hevolve
    obtain ⟨hexists, hsize⟩ := Turtle.exists_interpretJoints_iff (seed p) (grammarOf p d) root
      [⟨"A", [.number (.float s), .number (.float w)]⟩]
    have hcallable : ∀ x ∈ ([⟨"A", [.number (.float s), .number (.float w)]⟩] : Word),
        x.Callable := List.forall_mem_singleton.2 nofun
    obtain ⟨tree, htree⟩ := hexists.2 ⟨hcallable, Word.dyck_iff_balanced.2 (.letter rfl .nil)⟩
    exact ⟨tree, htree, hsize tree htree⟩
  cases hd with
  | nonreal =>
    obtain ⟨c, h, -⟩ := exists_describes hp 0.0
    obtain rfl := hfactor.resolve_right (not_not_intro rfl)
    obtain ⟨w', -, hfirst⟩ := generation_apex h .nonreal s (.float w)
    rw [Grammar.evolve_succ, Traced.bind_ok_iff] at hevolve
    obtain ⟨next, hnext, hevolve⟩ := hevolve
    cases hfirst.symm.trans hnext
    cases hevolve
    exact exists_tree_forked ((forall_turns_iff h).1 hturns) _ _ root s w w'
  | float x =>
    obtain ⟨c, h, rfl⟩ := exists_describes hp x
    obtain ⟨hfirst, hsecond⟩ := (forall_turns_iff h).1 hturns
    have hcrown : (systemOf p (.float c.shrink)).evolve n = .ok (crown c n s w) := by
      show ((grammarOf p (.float c.shrink)).evolve (seed p) n).result = _
      rw [hseed]
      exact (evolve_crown h n 0 s w).trans (by rw [Nat.zero_add])
    obtain ⟨tree, htree, hbears⟩ := exists_growJoints hfirst hsecond hcrown root
    have hsize : tree.size + 1 = 1 + 2 ^ n := hbears.size
    refine ⟨tree, ?_, by omega⟩
    have hword : (systemOf p (.float c.shrink)).evolve n = .ok word := by
      rw [← hseed] at hevolve
      exact hevolve
    exact (LSystem.construct_natCast root _ hword).symm.trans htree

/-- **When the species grows.** The words of the species always evolve, and they grow a tree exactly
if no angle is infinite once there are sides and the factor is on the real line once it has become a
diameter. The tree has doubled with every generation. -/
theorem exists_tree_iff (hp : p.Doubles) (hd : p.shrink = .ok d) (n : Nat) (root : Joint Float) :
    ∃ word, (systemOf p d).evolve n = .ok word ∧
      ((∃ tree, (systemOf p d).interpretJoints .binary64 root word = .ok tree) ↔ Grows p d n) ∧
      ∀ tree, (systemOf p d).interpretJoints .binary64 root word = .ok tree →
        tree.size = 2 ^ n := by
  have hwidth := width_of_shrink hp hd
  obtain ⟨c, h, -⟩ := exists_describes hp 0.0
  obtain ⟨s, w, hseed⟩ := exists_seed hp
  have hapical : ∀ x ∈ seed p, Apical x := by
    rw [hseed]
    exact List.forall_mem_singleton.2 fun _ => ⟨s, .float w, rfl, .float w⟩
  obtain ⟨word, hword⟩ := exists_evolve h hwidth hapical n
  have hgrows : ∀ tree, (systemOf p d).interpretJoints .binary64 root word = .ok tree →
      Grows p d n := fun tree => grows_of_eq_ok hp h hwidth hword
  refine ⟨word, hword, ⟨fun ⟨tree, htree⟩ => hgrows tree htree, fun hgrows => ?_⟩,
    fun tree htree => ?_⟩
  · obtain ⟨tree, htree, -⟩ := exists_tree_of_grows hp hwidth hgrows hword root
    exact ⟨tree, htree⟩
  · obtain ⟨tree', htree', hsize⟩ := exists_tree_of_grows hp hwidth (hgrows tree htree) hword root
    rwa [Except.ok.inj (htree.symm.trans htree')]

end Arbor.Honda
