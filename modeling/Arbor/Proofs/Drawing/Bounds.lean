import Arbor.Drawing.Bounds
import Arbor.Proofs.Binary64.Nearest

/-!
# The bounds of a drawing are exact

The running minima and maxima of coordinates end at the least and the greatest one that is a
number. Both are a case of one search, for a coordinate that no other one comes before (`First`): a
step of it gives up what it has only for a coordinate that comes before that, and never for what is
not a number.

What is found depends on nothing but which coordinates there are. So the order of the segments does
not matter, and neither does which end of a segment is its start, except that one zero can be found
for the other.

* `First.step`, `First.foldl`: a step of the search, and the search.
* `First.sameNumber`: two searches through the same coordinates.
* `First.spans`: what the two searches for an axis find.
* `Bounds.ofSegments_exact`: what the bounds of segments are, and when there are none.
-/

namespace Arbor

open Binary64 (Exact exactValue? infinity Finite)

/-! ## Searching coordinates -/

/-- A first coordinate in an order is a number, and no other number comes before it. -/
structure First (before : Exact → Exact → Prop) (coordinates : List Float) (x : Float) : Prop where
  mem : x ∈ coordinates
  first : ∃ v, exactValue? x = some v ∧
    ∀ y ∈ coordinates, ∀ w, exactValue? y = some w → ¬ before w v

/-- A choice between two doubles that takes the second one only if it comes before the first one. -/
structure Prefers (before : Exact → Exact → Prop) (pick : Float → Float → Float) : Prop where
  second {x y : Float} {v w : Exact} : exactValue? x = some v → exactValue? y = some w →
    before w v → pick x y = y
  first {x y : Float} : (∀ v w, exactValue? x = some v → exactValue? y = some w → ¬ before w v) →
    pick x y = x

theorem prefers_lesser : Prefers (· < ·) lesser where
  second hx hy h := if_pos ((Binary64.lt_iff _ _).2 ⟨_, hy, _, hx, h⟩)
  first h := by
    refine if_neg fun hlt => ?_
    obtain ⟨w, hy, v, hx, hwv⟩ := (Binary64.lt_iff _ _).1 hlt
    exact h v w hx hy hwv

theorem prefers_greater : Prefers (· > ·) greater where
  second hx hy h := if_pos ((Binary64.lt_iff _ _).2 ⟨_, hx, _, hy, h⟩)
  first h := by
    refine if_neg fun hlt => ?_
    obtain ⟨v, hx, w, hy, hvw⟩ := (Binary64.lt_iff _ _).1 hlt
    exact h v w hx hy hvw

/-- Two doubles are the same number: one double, or zeros of either sign. -/
def SameNumber (x y : Float) : Prop :=
  x = y ∨ exactValue? x = some (.ofRat 0) ∧ exactValue? y = some (.ofRat 0)

namespace First

variable {before : Exact → Exact → Prop} {pick : Float → Float → Float}
variable {start x y : Float} {l m : List Float}

section Search

variable [IsStrictTotalOrder Exact before]

/-- A step of the search takes the next coordinate only if that comes before what it has. -/
theorem step (hpick : Prefers before pick) (h : First before l x) (y : Float) :
    First before (l ++ [y]) (pick x y) := by
  obtain ⟨hmem, v, hv, hfirst⟩ := h
  by_cases hy : ∃ w, exactValue? y = some w ∧ before w v
  · obtain ⟨w, hw, hbefore⟩ := hy
    rw [hpick.second hv hw hbefore]
    refine ⟨List.mem_append_right _ (List.mem_singleton_self y), w, hw, ?_⟩
    refine List.forall_mem_append.2 ⟨fun z hz u hu huw => ?_, List.forall_mem_singleton.2 ?_⟩
    · exact hfirst z hz u hu (IsTrans.trans _ _ _ huw hbefore)
    · intro u hu
      obtain rfl : w = u := Option.some.inj (hw.symm.trans hu)
      exact irrefl w
  · have hlater : ∀ w, exactValue? y = some w → ¬ before w v := fun w hw h => hy ⟨w, hw, h⟩
    have hkept : pick x y = x := by
      refine hpick.first fun v' w hv' hw => ?_
      obtain rfl : v = v' := Option.some.inj (hv.symm.trans hv')
      exact hlater w hw
    rw [hkept]
    exact ⟨List.mem_append_left _ hmem, v, hv,
      List.forall_mem_append.2 ⟨hfirst, List.forall_mem_singleton.2 hlater⟩⟩

/-- The search finds a first one of the coordinates and of what it starts with. -/
theorem foldl (hpick : Prefers before pick) (hstart : exactValue? start ≠ none) (l : List Float) :
    First before (start :: l) (l.foldl pick start) := by
  induction l using List.reverseRecOn with
  | nil =>
    obtain ⟨v, hv⟩ := Option.ne_none_iff_exists'.1 hstart
    refine ⟨List.mem_singleton_self start, v, hv, List.forall_mem_singleton.2 fun w hw => ?_⟩
    obtain rfl : v = w := Option.some.inj (hv.symm.trans hw)
    exact irrefl v
  | append_singleton l y ih =>
    rw [List.foldl_append]
    exact ih.step hpick y

/-- Searches through the same coordinates find the same number. -/
theorem sameNumber (hx : First before l x) (hy : First before m y) (hsame : ∀ z, z ∈ l ↔ z ∈ m) :
    SameNumber x y := by
  obtain ⟨hxl, v, hv, hfirstv⟩ := hx
  obtain ⟨hym, w, hw, hfirstw⟩ := hy
  obtain rfl : v = w := by
    rcases trichotomous_of before v w with hvw | heq | hwv
    · exact absurd hvw (hfirstw x ((hsame x).1 hxl) v hv)
    · exact heq
    · exact absurd hwv (hfirstv y ((hsame y).2 hym) w hw)
  refine (Binary64.eq_or_zero_of_exactValue hv hw).imp_right ?_
  rintro rfl
  exact ⟨hv, hw⟩

end Search

/-- One of the coordinates is found if there is a number among them and the search starts with the
only double that comes last. -/
theorem mem_of_number {u : Exact} (h : First before (start :: l) x)
    (hstart : exactValue? start = some u)
    (hlast : ∀ y w, exactValue? y = some w → before w u ∨ y = start)
    (hnumber : ∃ y ∈ l, exactValue? y ≠ none) : x ∈ l := by
  obtain ⟨hmem, v, hv, hfirst⟩ := h
  rcases List.mem_cons.1 hmem with rfl | hmem
  · obtain rfl : u = v := Option.some.inj (hstart.symm.trans hv)
    obtain ⟨y, hy, hne⟩ := hnumber
    obtain ⟨w, hw⟩ := Option.ne_none_iff_exists'.1 hne
    have hlater := hfirst y (List.mem_cons_of_mem _ hy) w hw
    rwa [← (hlast y w hw).resolve_left hlater]
  · exact hmem

end First

/-! ## The two bounds of an axis -/

/-- The values that some coordinates stand for. What is not a number stands for none. -/
def exactValues (coordinates : List Float) : Set Exact :=
  {v | ∃ x ∈ coordinates, exactValue? x = some v}

/-- Two bounds span some coordinates if they are the least and the greatest number among these.
Where there is no number, they are the infinities, the wrong way round. -/
inductive Spans (coordinates : List Float) : Float → Float → Prop
  | nothing : (∀ x ∈ coordinates, exactValue? x = none) →
      Spans coordinates (infinity false) (infinity true)
  | between {least greatest : Float} {v w : Exact} :
      least ∈ coordinates → exactValue? least = some v → IsLeast (exactValues coordinates) v →
      greatest ∈ coordinates → exactValue? greatest = some w →
      IsGreatest (exactValues coordinates) w → Spans coordinates least greatest

/-- What is found from the infinities spans the coordinates. -/
theorem First.spans {l : List Float} {least greatest : Float}
    (hleast : First (· < ·) (infinity false :: l) least)
    (hgreatest : First (· > ·) (infinity true :: l) greatest) : Spans l least greatest := by
  by_cases hnumber : ∃ y ∈ l, exactValue? y ≠ none
  · have hmin : least ∈ l := by
      refine hleast.mem_of_number (Binary64.exactValue?_ofInfinity false) (fun y w hw => ?_) hnumber
      refine (lt_or_eq_of_le le_top).imp_right ?_
      rintro rfl
      exact Binary64.eq_infinity_of_exactValue false hw
    have hmax : greatest ∈ l := by
      refine hgreatest.mem_of_number (Binary64.exactValue?_ofInfinity true) (fun y w hw => ?_)
        hnumber
      refine (lt_or_eq_of_le bot_le).imp_right ?_
      rintro rfl
      exact Binary64.eq_infinity_of_exactValue true hw
    obtain ⟨-, v, hv, hfirst⟩ := hleast
    obtain ⟨-, w, hw, hlast⟩ := hgreatest
    refine .between hmin hv ⟨⟨least, hmin, hv⟩, ?_⟩ hmax hw ⟨⟨greatest, hmax, hw⟩, ?_⟩
    · rintro u ⟨y, hy, hu⟩
      exact not_lt.1 (hfirst y (List.mem_cons_of_mem _ hy) u hu)
    · rintro u ⟨y, hy, hu⟩
      exact not_lt.1 (hlast y (List.mem_cons_of_mem _ hy) u hu)
  · have hnone : ∀ x ∈ l, exactValue? x = none := by
      intro x hx
      by_contra hne
      exact hnumber ⟨x, hx, hne⟩
    have hstart : ∀ {before start y}, First before (start :: l) y → y = start := by
      rintro before start y ⟨hmem, v, hv, -⟩
      refine (List.mem_cons.1 hmem).resolve_right fun hy => ?_
      rw [hnone y hy] at hv
      cases hv
    rw [hstart hleast, hstart hgreatest]
    exact .nothing hnone

namespace Spans

variable {l : List Float} {least greatest : Float}

/-- A coordinate that is a number lies within the bounds. -/
theorem within (h : Spans l least greatest) {x : Float} (hx : x ∈ l)
    (hnumber : exactValue? x ≠ none) : least ≤ x ∧ x ≤ greatest := by
  obtain ⟨u, hu⟩ := Option.ne_none_iff_exists'.1 hnumber
  cases h with
  | nothing hnone => exact absurd (hnone x hx) hnumber
  | between _ hv hleast _ hw hgreatest =>
    exact ⟨(Binary64.le_iff _ _).2 ⟨_, hv, u, hu, hleast.2 ⟨x, hx, hu⟩⟩,
      (Binary64.le_iff _ _).2 ⟨u, hu, _, hw, hgreatest.2 ⟨x, hx, hu⟩⟩⟩

/-- A bound that is finite is a coordinate. -/
theorem attained (h : Spans l least greatest) :
    (Finite least → least ∈ l) ∧ (Finite greatest → greatest ∈ l) := by
  have hinfinity : ∀ negative, ¬ Finite (infinity negative) := by
    rintro negative ⟨v, hv⟩
    rw [Binary64.exactValue?_ofInfinity] at hv
    cases negative <;> cases hv
  cases h with
  | nothing => exact ⟨fun h => absurd h (hinfinity _), fun h => absurd h (hinfinity _)⟩
  | between hmin _ _ hmax => exact ⟨fun _ => hmin, fun _ => hmax⟩

/-- The least coordinate is positive infinity exactly if no number is below that. -/
theorem beq_infinity_iff (h : Spans l least greatest) :
    (least == infinity false) = true ↔
      ∀ x ∈ l, exactValue? x = none ∨ exactValue? x = some ⊤ := by
  rw [Binary64.beq_iff, Binary64.exactValue?_ofInfinity]
  constructor
  · rintro ⟨v, hv, htop⟩ x hx
    obtain rfl : ⊤ = v := Option.some.inj htop
    by_cases hnumber : exactValue? x = none
    · exact Or.inl hnumber
    · obtain ⟨t, ht, u, hu, hle⟩ := (Binary64.le_iff _ _).1 (h.within hx hnumber).1
      obtain rfl : ⊤ = t := Option.some.inj (hv.symm.trans ht)
      rw [hu, top_le_iff.1 hle]
      exact Or.inr rfl
  · intro hall
    refine ⟨⊤, ?_, rfl⟩
    cases h with
    | nothing => exact Binary64.exactValue?_ofInfinity false
    | between hmin hv =>
      refine (hall least hmin).resolve_left fun hnone => ?_
      rw [hnone] at hv
      cases hv

end Spans

/-! ## Bounds of points -/

/-- Segments in another order, and some of them with their ends exchanged. -/
def Segment.Rearranged (segments other : List Segment) : Prop :=
  ∃ turned, List.Forall₂ (fun s t => t = s ∨ t = ⟨s.stop, s.start, s.diameter⟩) segments turned ∧
    turned.Perm other

theorem Segment.Rearranged.mem_ends_iff {segments other : List Segment}
    (h : Rearranged segments other) (p : Point) :
    p ∈ segments.flatMap ends ↔ p ∈ other.flatMap ends := by
  obtain ⟨turned, hturned, hperm⟩ := h
  rw [← (hperm.flatMap_right ends).mem_iff]
  clear hperm
  induction hturned with
  | nil => exact Iff.rfl
  | cons hst _ ih =>
    rw [List.flatMap_cons, List.flatMap_cons, List.mem_append, List.mem_append, ih]
    refine or_congr_left ?_
    rcases hst with rfl | rfl
    · exact Iff.rfl
    · simp only [ends, List.mem_cons, List.not_mem_nil, or_false]
      exact or_comm

namespace Bounds

/-- Two bounds are the same but for the signs of zeros. -/
structure Same (b c : Bounds) : Prop where
  minX : SameNumber b.minX c.minX
  minY : SameNumber b.minY c.minY
  maxX : SameNumber b.maxX c.maxX
  maxY : SameNumber b.maxY c.maxY

/-- The bounds of points. -/
def around (points : List Point) : Bounds := points.foldl widenTo nothing

theorem foldl_widenTo (points : List Point) (b : Bounds) :
    points.foldl widenTo b =
      ⟨(points.map Point.x).foldl lesser b.minX, (points.map Point.y).foldl lesser b.minY,
        (points.map Point.x).foldl greater b.maxX, (points.map Point.y).foldl greater b.maxY⟩ := by
  induction points generalizing b with
  | nil => rfl
  | cons p points ih => exact ih (b.widenTo p)

section Around

variable (points : List Point)

theorem number_infinity (negative : Bool) : exactValue? (infinity negative) ≠ none := by
  rw [Binary64.exactValue?_ofInfinity]
  exact Option.some_ne_none _

/-- The four bounds are found by a search each. -/
theorem first_around :
    First (· < ·) (infinity false :: points.map Point.x) (around points).minX ∧
    First (· < ·) (infinity false :: points.map Point.y) (around points).minY ∧
    First (· > ·) (infinity true :: points.map Point.x) (around points).maxX ∧
    First (· > ·) (infinity true :: points.map Point.y) (around points).maxY := by
  rw [around, foldl_widenTo]
  exact ⟨.foldl prefers_lesser (number_infinity false) _,
    .foldl prefers_lesser (number_infinity false) _,
    .foldl prefers_greater (number_infinity true) _,
    .foldl prefers_greater (number_infinity true) _⟩

theorem spans_around :
    Spans (points.map Point.x) (around points).minX (around points).maxX ∧
      Spans (points.map Point.y) (around points).minY (around points).maxY := by
  obtain ⟨hminX, hminY, hmaxX, hmaxY⟩ := first_around points
  exact ⟨hminX.spans hmaxX, hminY.spans hmaxY⟩

end Around

/-- The bounds of points depend only on which points there are. -/
theorem same_around {points others : List Point} (h : ∀ p, p ∈ points ↔ p ∈ others) :
    Same (around points) (around others) := by
  have hmem : ∀ (f : Point → Float) (start x : Float),
      x ∈ start :: points.map f ↔ x ∈ start :: others.map f := by
    intro f start x
    simp only [List.mem_cons, List.mem_map, h]
  obtain ⟨hminX, hminY, hmaxX, hmaxY⟩ := first_around points
  obtain ⟨hminX', hminY', hmaxX', hmaxY'⟩ := first_around others
  exact ⟨hminX.sameNumber hminX' (hmem _ _), hminY.sameNumber hminY' (hmem _ _),
    hmaxX.sameNumber hmaxX' (hmem _ _), hmaxY.sameNumber hmaxY' (hmem _ _)⟩

theorem ofSegments_cases (segments : List Segment) :
    (ofSegments segments = .error .noGeometry ∧
        ∀ p ∈ segments.flatMap Segment.ends, exactValue? p.x = none ∨ exactValue? p.x = some ⊤) ∨
      ofSegments segments = .ok (around (segments.flatMap Segment.ends)) ∧
        ¬ ∀ p ∈ segments.flatMap Segment.ends,
          exactValue? p.x = none ∨ exactValue? p.x = some ⊤ := by
  have hiff := (spans_around (segments.flatMap Segment.ends)).1.beq_infinity_iff
  rw [List.forall_mem_map] at hiff
  rw [← hiff]
  by_cases hinfinite : ((around (segments.flatMap Segment.ends)).minX == infinity false) = true
  · exact Or.inl ⟨if_pos hinfinite, hinfinite⟩
  · exact Or.inr ⟨if_neg hinfinite, hinfinite⟩

/-- **The bounds of segments are exact.** Segments have no bounds, which is a configuration error,
exactly if the first coordinate of each end is not a number or positive infinity. Otherwise the
bounds of an axis are the least and the greatest number among the coordinates of the ends, so that
every number lies within them and a finite bound is a coordinate of an end; where no second
coordinate is a number, the bounds of that axis are the infinities. Neither the order of the
segments matters nor which end of a segment is the first, but for the sign of zero. -/
theorem ofSegments_exact (segments : List Segment) :
    let points := segments.flatMap Segment.ends
    (∀ fault, ofSegments segments = .error fault ↔ fault = .noGeometry ∧
      ∀ p ∈ points, exactValue? p.x = none ∨ exactValue? p.x = some ⊤) ∧
    Fault.noGeometry.kind = .configuration ∧
    (∀ b, ofSegments segments = .ok b →
      Spans (points.map Point.x) b.minX b.maxX ∧ Spans (points.map Point.y) b.minY b.maxY ∧
      (∀ p ∈ points, (exactValue? p.x ≠ none → b.minX ≤ p.x ∧ p.x ≤ b.maxX) ∧
        (exactValue? p.y ≠ none → b.minY ≤ p.y ∧ p.y ≤ b.maxY)) ∧
      (Finite b.minX → ∃ p ∈ points, p.x = b.minX) ∧ (Finite b.maxX → ∃ p ∈ points, p.x = b.maxX) ∧
      (Finite b.minY → ∃ p ∈ points, p.y = b.minY) ∧
      (Finite b.maxY → ∃ p ∈ points, p.y = b.maxY)) ∧
    ∀ other, Segment.Rearranged segments other →
      (ofSegments segments = .error .noGeometry ∧ ofSegments other = .error .noGeometry) ∨
      ∃ b c, ofSegments segments = .ok b ∧ ofSegments other = .ok c ∧ Same b c := by
  intro points
  refine ⟨fun fault => ?_, rfl, fun b hb => ?_, fun other hother => ?_⟩
  · rcases ofSegments_cases segments with ⟨heq, hall⟩ | ⟨heq, hnot⟩
    · rw [heq, Except.error.injEq]
      exact ⟨fun h => ⟨h.symm, hall⟩, fun h => h.1.symm⟩
    · rw [heq]
      refine ⟨fun h => ?_, fun h => absurd h.2 hnot⟩
      cases h
  · rcases ofSegments_cases segments with ⟨heq, -⟩ | ⟨heq, -⟩
    · rw [heq] at hb
      cases hb
    · rw [heq] at hb
      cases hb
      obtain ⟨hx, hy⟩ := spans_around points
      refine ⟨hx, hy, fun p hp => ⟨hx.within (List.mem_map_of_mem hp),
        hy.within (List.mem_map_of_mem hp)⟩, ?_, ?_, ?_, ?_⟩
      · exact fun h => List.mem_map.1 (hx.attained.1 h)
      · exact fun h => List.mem_map.1 (hx.attained.2 h)
      · exact fun h => List.mem_map.1 (hy.attained.1 h)
      · exact fun h => List.mem_map.1 (hy.attained.2 h)
  · have hsame := same_around hother.mem_ends_iff
    rcases ofSegments_cases segments with ⟨heq, hall⟩ | ⟨heq, hnot⟩ <;>
      rcases ofSegments_cases other with ⟨heq', hall'⟩ | ⟨heq', hnot'⟩
    · exact Or.inl ⟨heq, heq'⟩
    · exact absurd (fun p hp => hall p ((hother.mem_ends_iff p).2 hp)) hnot'
    · exact absurd (fun p hp => hall' p ((hother.mem_ends_iff p).1 hp)) hnot
    · exact Or.inr ⟨_, _, heq, heq', hsame⟩

/-- Exchanging the segments, and the ends of one, finds a negative zero in the place of a positive
one; what is not a number is passed over. -/
theorem ofSegments_exact_turned :
    let first : Segment := ⟨⟨1.0, Binary64.notANumber⟩, ⟨-2.5, 0.0⟩, 1.0⟩
    let second : Segment := ⟨⟨Binary64.notANumber, -0.0⟩, ⟨0.5, -0.0⟩, 1.0⟩
    let turned : Segment := ⟨first.stop, first.start, first.diameter⟩
    ∃ b c, ofSegments [first, second] = .ok b ∧ ofSegments [second, turned] = .ok c ∧ Same b c ∧
      (b.minX = -2.5 ∧ b.maxX = 1.0 ∧ b.minX ≤ 0.5) ∧ b.minY = 0.0 ∧ c.minY = -0.0 := by
  intro first second turned
  have hrearranged : Segment.Rearranged [first, second] [second, turned] :=
    ⟨[turned, second], .cons (Or.inr rfl) (.cons (Or.inl rfl) .nil), .swap _ _ _⟩
  have hfirst : ofSegments [first, second] = .ok (around ([first, second].flatMap Segment.ends)) :=
    if_neg (by decide +kernel)
  have hsecond : ofSegments [second, turned] =
      .ok (around ([second, turned].flatMap Segment.ends)) := if_neg (by decide +kernel)
  obtain ⟨-, -, hspans, hother⟩ := ofSegments_exact [first, second]
  obtain ⟨hminX, hmaxX⟩ : (around ([first, second].flatMap Segment.ends)).minX = -2.5 ∧
      (around ([first, second].flatMap Segment.ends)).maxX = 1.0 := by decide +kernel
  obtain ⟨hminY, hminY'⟩ : (around ([first, second].flatMap Segment.ends)).minY = 0.0 ∧
      (around ([second, turned].flatMap Segment.ends)).minY = -0.0 := by decide +kernel
  rcases hother _ hrearranged with ⟨hfails, -⟩ | ⟨b, c, hb, hc, hsame⟩
  · cases hfirst.symm.trans hfails
  · obtain ⟨-, -, hwithin, -⟩ := hspans b hb
    have hend : (⟨0.5, -0.0⟩ : Point) ∈ [first, second].flatMap Segment.ends := by
      simp [first, second, Segment.ends]
    have hhalf : exactValue? 0.5 ≠ none := by
      obtain ⟨v, hv⟩ : ∃ v, exactValue? 0.5 = some v :=
        Binary64.exists_exactValue (by decide +kernel)
      rw [hv]
      exact Option.some_ne_none v
    have hle := ((hwithin _ hend).1 hhalf).1
    obtain rfl := Except.ok.inj (hfirst.symm.trans hb)
    obtain rfl := Except.ok.inj (hsecond.symm.trans hc)
    exact ⟨_, _, hb, hc, hsame, ⟨hminX, hmaxX, hle⟩, hminY, hminY'⟩

end Bounds

end Arbor
