import Arbor.Proofs.Evolution.Pieces
import Arbor.Proofs.Rule.Compiling
import Arbor.Species.Honda

/-!
# Crowns

An apex of Honda's tree becomes an internode with two apices on it, between brackets and turned, and
in the next generation both become the same in smaller. What one apex becomes in `n` generations is
its crown, and a crown is an internode that carries two crowns of one generation less.

* `grammar_eq_ok`: the grammar of the species, compiled.
* `flatMap_becomes`: a generation makes a crown a crown of the next generation.
* `evolve_crown`: the words of the species are crowns.
* `length_crown`, `countP_crown`: how many symbols and how many apices a crown has.
-/

namespace Arbor.Honda

/-! ## The rule -/

/-- The one rule, compiled: it splits every apex. -/
def rule (p : HondaParams) (shrink : Number) : Rule :=
  ⟨[], ⟨"A", [.named "s", .named "w"]⟩, [], none, .function (splitBound p shrink)⟩

theorem ofText_focus : Token.ofText "A(s, w)" = .ok [⟨"A", ["s", "w"]⟩] := by
  cbv

/-- A name that is not reserved and not used yet is bound. -/
theorem readSlot_name {place : Pattern.Place} {name : String} {used : List String}
    (hwildcard : name ≠ "_") (hname : Text.isIdentifier name.toList = true)
    (hfree : Pattern.reservedNames.contains name = false) (hnew : used.contains name = false) :
    Pattern.readSlot place name used = .ok (.named name, used ++ [name]) := by
  simp only [Pattern.readSlot, if_neg hwildcard, hname, if_true, hfree, hnew, Bool.false_eq_true,
    if_false]

theorem read_focus (place : Pattern.Place) :
    Pattern.read place alphabet "A(s, w)" [] =
      .ok ([⟨"A", [.named "s", .named "w"]⟩], ["s", "w"]) := by
  have hs : Pattern.readSlot place "s" [] = .ok (.named "s", ["s"]) :=
    readSlot_name (by decide) (by decide +kernel) (by decide +kernel) (by decide)
  have hw : Pattern.readSlot place "w" ["s"] = .ok (.named "w", ["s", "w"]) :=
    readSlot_name (by decide) (by decide +kernel) (by decide +kernel) (by decide)
  have hslots : Pattern.readSlots place ["s", "w"] [] =
      .ok ([.named "s", .named "w"], ["s", "w"]) := by
    simp only [Pattern.readSlots, hs, hw, bind, Except.bind, pure, Except.pure]
  have harity : alphabet.arity? "A" = some (.count 2) := rfl
  have hcount : ¬ ["s", "w"].length ≠ (Arity.count 2).toNat := by decide
  simp only [Pattern.read, ofText_focus, bind, Except.bind, Pattern.readTokens, harity,
    if_neg hcount, hslots, pure, Except.pure]

theorem compile_ruleSource (p : HondaParams) (shrink : Number) (index : Nat) :
    (ruleSource p shrink).compile alphabet index = .ok (rule p shrink) :=
  RuleSource.compile_eq_ok_iff.2 ⟨_, _, _, read_focus _, rfl, rfl, rfl, rfl⟩

theorem grammar_eq_ok {p : HondaParams} {shrink : Number} (h : p.shrink = .ok shrink) :
    grammar p = .ok ⟨alphabet, [rule p shrink]⟩ := by
  have hadd : (Grammar.add (ruleSource p shrink)).run (Grammar.empty alphabet) =
      .ok () ⟨alphabet, [rule p shrink]⟩ :=
    Grammar.add_run_ok_iff.2 ⟨_, compile_ruleSource p shrink _, rfl⟩
  rw [grammar, h]
  show Grammar.ofRules alphabet [ruleSource p shrink] = _
  rw [Grammar.ofRules, List.forM_eq_forM, List.forM_cons, EStateM.run_bind, hadd]
  rfl

/-! ## Crowns -/

/-- How a lateral apex lies to the apex before it: how much shorter it is and how it is turned. -/
structure Lateral where
  scale : Float
  pitch : Float
  yaw : Float

/-- The two lateral apices and the factor by which both are thinner. -/
structure Fork where
  first : Lateral
  second : Lateral
  shrink : Float

def apex (s w : Float) : Symbol := ⟨"A", [.number (.float s), .number (.float w)]⟩

/-- A part of a word that the turtle does turned and comes back from. -/
def turned (side : Lateral) (w : Word) : Word :=
  ⟨"[", []⟩ :: ⟨"R", [.number (.float 0.0), .number (.float side.pitch),
    .number (.float side.yaw)]⟩ :: (w ++ [⟨"]", []⟩])

/-- What an apex becomes in `n` generations. -/
def crown (c : Fork) : Nat → Float → Float → Word
  | 0, s, w => [apex s w]
  | n + 1, s, w =>
    ⟨"W", [.number (.float w)]⟩ :: ⟨"F", [.number (.float s)]⟩ ::
      (turned c.first (crown c n (s * c.first.scale) (w * c.shrink)) ++
        turned c.second (crown c n (s * c.second.scale) (w * c.shrink)))

/-- What a symbol becomes in a generation: an apex splits, and all else stays. -/
def becomes (c : Fork) (x : Symbol) : Word :=
  match x.params with
  | [.number (.float s), .number (.float w)] => if x.tag = "A" then crown c 1 s w else [x]
  | _ => [x]

theorem flatMap_turned (c : Fork) (side : Lateral) (w : Word) :
    (turned side w).flatMap (becomes c) = turned side (w.flatMap (becomes c)) := by
  rw [turned, List.flatMap_cons, List.flatMap_cons, List.flatMap_append]
  rfl

/-- A generation makes a crown the crown of the next generation. -/
theorem flatMap_becomes (c : Fork) (n : Nat) (s w : Float) :
    (crown c n s w).flatMap (becomes c) = crown c (n + 1) s w := by
  induction n generalizing s w with
  | zero => rfl
  | succ n ih =>
    rw [crown, List.flatMap_cons, List.flatMap_cons, List.flatMap_append, flatMap_turned,
      flatMap_turned, ih, ih]
    rfl

theorem mem_turned {side : Lateral} {w : Word} {x : Symbol} (h : x ∈ turned side w) :
    x.tag ≠ "A" ∨ x ∈ w := by
  simp only [turned, List.mem_cons, List.mem_append, List.not_mem_nil, or_false] at h
  rcases h with rfl | rfl | h | rfl
  · exact Or.inl (by simp)
  · exact Or.inl (by simp)
  · exact Or.inr h
  · exact Or.inl (by simp)

/-- Of the symbols of a crown only apices have the rule's tag. -/
theorem eq_apex_of_mem_crown {c : Fork} {n : Nat} {s w : Float} {x : Symbol}
    (h : x ∈ crown c n s w) (htag : x.tag = "A") : ∃ s w, x = apex s w := by
  induction n generalizing s w with
  | zero => exact ⟨s, w, List.mem_singleton.1 h⟩
  | succ n ih =>
    simp only [crown, List.mem_cons, List.mem_append] at h
    rcases h with rfl | rfl | h | h
    · exact absurd htag (by simp)
    · exact absurd htag (by simp)
    · exact ih ((mem_turned h).resolve_left (not_not_intro htag))
    · exact ih ((mem_turned h).resolve_left (not_not_intro htag))

/-! ## Counting -/

/-- A crown of `n` generations has `9 * 2 ^ n - 8` symbols. -/
theorem length_crown (c : Fork) (n : Nat) (s w : Float) :
    (crown c n s w).length + 8 = 9 * 2 ^ n := by
  induction n generalizing s w with
  | zero => rfl
  | succ n ih =>
    have hfirst := ih (s * c.first.scale) (w * c.shrink)
    have hsecond := ih (s * c.second.scale) (w * c.shrink)
    simp only [crown, turned, List.length_cons, List.length_append, List.length_nil, pow_succ]
    omega

theorem countP_turned (side : Lateral) (w : Word) :
    (turned side w).countP (fun x => x.tag = "A") = w.countP fun x => x.tag = "A" := by
  simp [turned, List.countP_append]

/-- A crown of `n` generations has `2 ^ n` apices. -/
theorem countP_crown (c : Fork) (n : Nat) (s w : Float) :
    (crown c n s w).countP (fun x => x.tag = "A") = 2 ^ n := by
  induction n generalizing s w with
  | zero => rfl
  | succ n ih =>
    simp only [crown, List.countP_cons, List.countP_append, countP_turned, ih]
    simp [pow_succ]
    omega

/-! ## Evolution -/

/-- All numbers that an apex meets are doubles. -/
structure Describes (p : HondaParams) (c : Fork) : Prop where
  scale₁ : p.internodeScaleFactor1 = .float c.first.scale
  pitch₁ : p.branchPitch1 = .float c.first.pitch
  yaw₁ : p.branchYaw1 = .float c.first.yaw
  scale₂ : p.internodeScaleFactor2 = .float c.second.scale
  pitch₂ : p.branchPitch2 = .float c.second.pitch
  yaw₂ : p.branchYaw2 = .float c.second.yaw

variable {p : HondaParams} {c : Fork}

theorem split_eq (h : Describes p c) (s w : Float) :
    split p (.float c.shrink) (.number (.float s)) (.number (.float w)) = .ok (crown c 1 s w) := by
  simp only [split, lateral, h.scale₁, h.pitch₁, h.yaw₁, h.scale₂, h.pitch₂, h.yaw₂]
  rfl

theorem becomes_of_ne {x : Symbol} (h : x.tag ≠ "A") : becomes c x = [x] := by
  unfold becomes
  split
  · rw [if_neg h]
  · rfl

/-- The rule splits apices. -/
theorem applyBetween_apex {shrink : Number} {s w : Value} {v : Word}
    (h : split p shrink s w = .ok v) (site : Site) (left right : Word) :
    (Grammar.applyBetween ⟨alphabet, [rule p shrink]⟩ site ⟨"A", [s, w]⟩ left right).result =
      .ok v := by
  have hbind : (rule p shrink).bind? site ⟨"A", [s, w]⟩ (.ofList left) (.ofList right) =
      some ⟨[("s", s), ("w", w)], site⟩ := rfl
  have hproduct : splitBound p shrink ⟨[("s", s), ("w", w)], site⟩ = .ok v := h
  simp only [Grammar.applyBetween, Grammar.apply, Grammar.applyFrom, Rule.fire, hbind]
  simp only [Rule.checkGuard, Rule.product, rule, Traced.ofResult, Traced.ofCall, Traced.bind,
    hproduct, if_true]

/-- The rule leaves all else as it is. -/
theorem applyBetween_of_ne {shrink : Number} {x : Symbol} (htag : x.tag ≠ "A") (site : Site)
    (left right : Word) :
    (Grammar.applyBetween ⟨alphabet, [rule p shrink]⟩ site x left right).result = .ok [x] := by
  have hbind : (rule p shrink).bind? site x (.ofList left) (.ofList right) = none := by
    have hfocus : (rule p shrink).focus.bind? x (.empty site) = none := if_neg htag
    rw [Rule.bind?, hfocus]
  simp only [Grammar.applyBetween, Grammar.apply, Grammar.applyFrom, Rule.fire, hbind]
  rfl

theorem applyBetween_eq (h : Describes p c) {n : Nat} {s w : Float} :
    ∀ x ∈ crown c n s w, ∀ site left right,
      (Grammar.applyBetween ⟨alphabet, [rule p (.float c.shrink)]⟩ site x left right).result =
        .ok (becomes c x) := by
  intro x hx site left right
  by_cases htag : x.tag = "A"
  · obtain ⟨s, w, rfl⟩ := eq_apex_of_mem_crown hx htag
    exact applyBetween_apex (split_eq h s w) site left right
  · rw [becomes_of_ne htag]
    exact applyBetween_of_ne htag site left right

/-- **The words of the species are crowns.** -/
theorem evolve_crown (h : Describes p c) (n k : Nat) (s w : Float) :
    (Grammar.evolve ⟨alphabet, [rule p (.float c.shrink)]⟩ (crown c k s w) n).result =
      .ok (crown c (k + n) s w) := by
  induction n generalizing k with
  | zero => rfl
  | succ n ih =>
    have hgeneration := Grammar.generation_eq_flatMap (applyBetween_eq h (n := k) (s := s) (w := w))
    rw [flatMap_becomes] at hgeneration
    rw [Grammar.evolve_succ, Traced.bind_ok_iff]
    exact ⟨_, hgeneration, (ih (k + 1)).trans (by rw [Nat.add_right_comm]; rfl)⟩

end Arbor.Honda
