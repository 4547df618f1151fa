import Arbor.Proofs.Grammar.FirstMatch
import Arbor.Proofs.Grammar.Fitting
import Arbor.Proofs.Rule.WellFormed

/-!
# Offers to a grammar

A grammar accepts what is offered to it or refuses it. What it refuses leaves no trace: after any
offers the grammar is the one made of the rules that it has accepted, in their order. The fault of
an offer that is refused names no rule but the offered one, by the index that it would have had. A
rule that is accepted is asked after all rules before it, so that it decides only where these
decline.

* `RuleSource.failsOnly_compile`: the faults of a rule, and the rule that they name.
* `accept_run_error`: what an offer that is refused leaves.
* `exists_sources_accepted`: the grammar after some offers.
* `Rule.FirstMatch.append`: what earlier rules decide.
* `offers_leave_no_trace`: all of this, for the grammar after any offers.
-/

namespace Arbor

/-! ## The faults of a rule -/

/-- The faults that the rule at a place can be refused with: its own, which name it, those of the
words in it, and that of a symbol in it that cannot be shown. -/
inductive Fault.OfRule (place : Pattern.Place) : Fault → Prop
  | rule (cause : RuleFault) : OfRule place (place.fault cause)
  | word {fault : Fault} : fault.OfWord → OfRule place fault
  | unshown : OfRule place .intTooLong

namespace Pattern

variable (place : Place) (a : Alphabet)

theorem failsOnly_readSlot (text : String) (used : List String) :
    FailsOnly (Fault.OfRule place) (readSlot place text used) := by
  unfold readSlot
  split
  · exact .ok _
  · split
    · split
      · exact .error (.rule _)
      · split
        · exact .error (.rule _)
        · exact .ok _
    · exact ((Number.failsOnly_read text).mono fun _ h => .word h.ofWord).bind fun x _ => .ok _

theorem failsOnly_readSlots (texts used : List String) :
    FailsOnly (Fault.OfRule place) (readSlots place texts used) := by
  induction texts generalizing used with
  | nil => exact .ok _
  | cons text texts ih =>
    exact (failsOnly_readSlot place text used).bind fun r _ => (ih r.2).bind fun rest _ => .ok _

theorem failsOnly_readTokens (text : String) (tokens : List Token) (used : List String) :
    FailsOnly (Fault.OfRule place) (readTokens place a text tokens used) := by
  induction tokens generalizing used with
  | nil => exact .ok _
  | cons t tokens ih =>
    rw [readTokens]
    split
    · exact .error (.rule _)
    · split
      · exact .error (.rule _)
      · exact (failsOnly_readSlots place t.arguments used).bind fun r _ =>
          (ih r.2).bind fun rest _ => .ok _

theorem failsOnly_read (text : String) (used : List String) :
    FailsOnly (Fault.OfRule place) (read place a text used) :=
  ((Token.failsOnly_ofText text).mono fun _ h => .word h.ofWord).bind fun tokens _ =>
    failsOnly_readTokens place a text tokens used

theorem failsOnly_readContext (text : Option String) (used : List String) :
    FailsOnly (Fault.OfRule place) (readContext place a text used) := by
  rw [readContext_eq]
  exact failsOnly_read place a _ used

end Pattern

namespace RuleSource

variable (place : Pattern.Place) (a : Alphabet)

theorem failsOnly_readGuard (guard : GuardSource) :
    FailsOnly (Fault.OfRule place) (readGuard place guard) := by
  cases guard with
  | absent => exact .ok _
  | function f => exact .ok _
  | unusable => exact .error (.rule _)

theorem failsOnly_readItem (item : ProducerItem) :
    FailsOnly (Fault.OfRule place) (readItem place a item) := by
  cases item with
  | symbol s =>
    refine (a.failsOnly_check s).mono fun fault h => ?_
    rcases h with hword | rfl
    · exact .word hword
    · exact .unshown
  | other => exact .error (.rule _)

theorem failsOnly_readProducer (producer : ProducerSource) :
    FailsOnly (Fault.OfRule place) (readProducer place a producer) := by
  cases producer with
  | text word => exact ((a.failsOnly_parse word).mono fun _ => .word).bind fun w _ => .ok _
  | list items =>
    have hitems : FailsOnly (Fault.OfRule place) (items.mapM (readItem place a)) :=
      .mapM fun item _ => failsOnly_readItem place a item
    exact hitems.bind fun w _ => .ok _
  | function f => exact .ok _
  | unusable => exact .error (.rule _)

theorem failsOnly_compile (source : RuleSource) (index : Nat) :
    FailsOnly (Fault.OfRule ⟨index, source.focus⟩) (source.compile a index) := by
  refine (Pattern.failsOnly_read _ a source.focus []).bind fun r _ => ?_
  obtain ⟨focuses, used⟩ := r
  rcases focuses with _ | ⟨focus, _ | ⟨other, rest⟩⟩
  · exact .error (.rule _)
  · refine (Pattern.failsOnly_readContext _ a source.left used).bind fun left _ => ?_
    refine (Pattern.failsOnly_readContext _ a source.right left.2).bind fun right _ => ?_
    refine (failsOnly_readGuard _ source.guard).bind fun guard _ => ?_
    exact (failsOnly_readProducer _ a source.producer).bind fun producer _ => .ok _
  · exact .error (.rule _)

end RuleSource

/-! ## Accepted and refused offers -/

/-- The rule that is offered, if it is a rule. -/
def Offer.source? : Offer → Option RuleSource
  | .rule source => some source
  | .framed frame producer => some (frame.around producer)
  | .other _ => none

namespace Grammar

/-- The grammar that an offer leaves, whether it is accepted or refused. -/
def offered (g : Grammar) (offer : Offer) : Grammar := (accept offer).reached g

/-- The grammar that some offers leave. -/
def afterOffers (g : Grammar) (offers : List Offer) : Grammar := offers.foldl offered g

def accepted (g : Grammar) : List Offer → List Offer
  | [] => []
  | offer :: offers =>
    match (accept offer).run g with
    | .ok _ g' => offer :: accepted g' offers
    | .error _ g' => accepted g' offers

variable {g g' : Grammar} {offer : Offer}

/-- A rule is added, whichever way it is offered. -/
theorem accept_eq_add {source : RuleSource} (h : offer.source? = some source) :
    accept offer = add source := by
  cases offer with
  | other kind => cases h
  | rule source => exact congrArg add (Option.some.inj h)
  | framed frame producer => exact congrArg add (Option.some.inj h)

theorem accept_run_ok_iff :
    (accept offer).run g = .ok () g' ↔
      ∃ source r, offer.source? = some source ∧ source.compile g.alphabet g.size = .ok r ∧
        g' = ⟨g.alphabet, g.rules ++ [r]⟩ := by
  cases hsource : offer.source? with
  | some source => simp [accept_eq_add hsource, add_run_ok_iff]
  | none =>
    cases offer with
    | other kind =>
      refine ⟨?_, ?_⟩
      · rintro ⟨⟩
      · rintro ⟨source, r, ⟨⟩, -⟩
    | rule source => cases hsource
    | framed frame producer => cases hsource

/-- An offer is refused if it is no rule, or with a fault of the rule that it is, by the index that
this rule would have had. The grammar stays as it was. -/
theorem accept_run_error {fault : Fault} (h : (accept offer).run g = .error fault g') :
    g' = g ∧ ((∃ kind, offer = .other kind ∧ fault = .notARule kind) ∨
      ∃ source, offer.source? = some source ∧ fault.OfRule ⟨g.size, source.focus⟩) := by
  cases hsource : offer.source? with
  | some source =>
    rw [accept_eq_add hsource] at h
    obtain ⟨hcompile, hsame⟩ := add_run_error_iff.1 h
    exact ⟨hsame, Or.inr ⟨source, rfl, source.failsOnly_compile _ _ fault hcompile⟩⟩
  | none =>
    cases offer with
    | other kind =>
      cases h
      exact ⟨rfl, Or.inl ⟨kind, rfl, rfl⟩⟩
    | rule source => cases hsource
    | framed frame producer => cases hsource

/-- Offers add a rule for each of them that is accepted, after the rules that are there. -/
theorem exists_rules_afterOffers (g : Grammar) (offers : List Offer) :
    ∃ more, (g.afterOffers offers).rules = g.rules ++ more ∧
      more.length = (g.accepted offers).length := by
  induction offers generalizing g with
  | nil => exact ⟨[], (List.append_nil _).symm, rfl⟩
  | cons offer offers ih =>
    rw [afterOffers, List.foldl_cons, offered, accepted]
    cases haccept : (accept offer).run g with
    | error fault g' =>
      rw [Action.reached_of_error haccept, (accept_run_error haccept).1]
      exact ih g
    | ok _ g' =>
      rw [Action.reached_of_ok haccept]
      obtain ⟨source, r, -, -, rfl⟩ := accept_run_ok_iff.1 haccept
      obtain ⟨more, hmore, hlength⟩ := ih ⟨g.alphabet, g.rules ++ [r]⟩
      refine ⟨r :: more, ?_, congrArg Nat.succ hlength⟩
      rw [List.append_assoc] at hmore
      exact hmore

/-- The offers that are accepted are rules, and adding these takes the same way. -/
theorem exists_sources_accepted (g : Grammar) (offers : List Offer) :
    ∃ sources : List RuleSource, (g.accepted offers).map Offer.source? = sources.map some ∧
      (sources.forM add).run g = .ok () (g.afterOffers offers) := by
  induction offers generalizing g with
  | nil => exact ⟨[], rfl, rfl⟩
  | cons offer offers ih =>
    rw [afterOffers, List.foldl_cons, offered, accepted]
    cases haccept : (accept offer).run g with
    | error fault g' =>
      rw [Action.reached_of_error haccept, (accept_run_error haccept).1]
      exact ih g
    | ok _ g' =>
      rw [Action.reached_of_ok haccept]
      obtain ⟨source, r, hsource, -, -⟩ := accept_run_ok_iff.1 haccept
      obtain ⟨sources, hsources, hadded⟩ := ih g'
      refine ⟨source :: sources, ?_, ?_⟩
      · rw [List.map_cons, List.map_cons, hsource, hsources]
      · rw [accept_eq_add hsource] at haccept
        rw [List.forM_eq_forM, List.forM_cons]
        exact Action.bind_run_ok_iff.2 ⟨_, _, haccept, hadded⟩

end Grammar

/-! ## Later rules -/

section Later

variable {site : Site} {s : Symbol} {left right : Word} {rules : List Rule} {r : Rule}

/-- Rules that are added later change nothing where an earlier one does not decline. -/
theorem Rule.FirstMatch.append {t : Traced Word} (h : FirstMatch site s left right rules t)
    (hsome : ∃ e ∈ rules, ¬ e.Declines site s left right) (more : List Rule) :
    FirstMatch site s left right (rules ++ more) t := by
  cases h with
  | word hrules hearlier hfires hproducer =>
    exact .word (by rw [hrules, List.append_assoc, List.cons_append]) hearlier hfires hproducer
  | function hrules hearlier hfires hproducer =>
    exact .function (by rw [hrules, List.append_assoc, List.cons_append]) hearlier hfires
      hproducer
  | fault hrules hearlier hfaults =>
    exact .fault (by rw [hrules, List.append_assoc, List.cons_append]) hearlier hfaults
  | unchanged hall =>
    obtain ⟨e, he, hnot⟩ := hsome
    exact absurd (hall e he) hnot

/-- Where all earlier rules decline, the last one gives its product if it fires. -/
theorem Rule.Fires.exists_firstMatch (hall : ∀ e ∈ rules, e.Declines site s left right)
    (hr : r.Fires site s left right) :
    ∃ t, FirstMatch site s left right (rules ++ [r]) t ∧
      t.result = (r.product rules.length (r.bindingsAt site s left right)).result := by
  cases hproducer : r.producer with
  | word w => exact ⟨_, .word rfl hall hr hproducer, by simp only [product, hproducer]; rfl⟩
  | function f => exact ⟨_, .function rfl hall hr hproducer, by simp only [product, hproducer]; rfl⟩

end Later

namespace Grammar

/-- **A refused offer leaves no trace.** After any offers, a grammar has a rule for each offer that
it has accepted, and is the grammar that is made of the accepted rules alone; so it gives the same
for all symbols, contexts and words. An offer that is no rule is refused as such. A rule is refused
with a fault that names it, and the index in the message is the number of offers accepted before, or
with one that names no rule.

Whatever is offered later, a symbol for which one of the rules does not decline keeps what becomes
of it. A rule that is accepted next changes what becomes of a symbol only where all rules before it
decline, which had left the symbol as it is: then its product takes the symbol's place if it fires,
and it fails if its guard does. -/
theorem offers_leave_no_trace (a : Alphabet) (offers : List Offer) :
    let g := (empty a).afterOffers offers
    let accepted := (empty a).accepted offers
    g.size = accepted.length ∧
    (∃ sources : List RuleSource, accepted.map Offer.source? = sources.map some ∧
      ofRules a sources = .ok g) ∧
    (∀ offer fault g', (accept offer).run g = .error fault g' → g' = g ∧
      ((∃ kind, offer = .other kind ∧ fault = .notARule kind) ∨
      ∃ source, offer.source? = some source ∧
        ((∃ cause, fault = .inRule accepted.length source.focus cause ∧
            fault.message = LooseText.ofString
              (s!"rule {accepted.length} ({Text.quoted source.focus}): {cause.message}")) ∨
          fault.OfWord ∨ fault = .intTooLong))) ∧
    ∀ site s, ∀ left right : Window Symbol, left.WellPlaced → right.WellPlaced →
      (∀ later, (∃ r ∈ g.rules, ¬ r.Declines site s left.items right.items) →
        (g.afterOffers later).apply site s left right = g.apply site s left right) ∧
      ((∀ r ∈ g.rules, r.Declines site s left.items right.items) →
        (g.apply site s left right).result = .ok [s] ∧
        ∀ offer g', (accept offer).run g = .ok () g' → ∃ r, g'.rules = g.rules ++ [r] ∧
          (r.Declines site s left.items right.items →
            (g'.apply site s left right).result = .ok [s]) ∧
          (r.Fires site s left.items right.items → (g'.apply site s left right).result =
            (r.product g.size (r.bindingsAt site s left.items right.items)).result) ∧
          ∀ fault, r.Faults site s left.items right.items fault →
            (g'.apply site s left right).result = .error fault) := by
  intro g accepted
  have hsize : g.size = accepted.length := by
    obtain ⟨more, hrules, hlength⟩ := exists_rules_afterOffers (empty a) offers
    rw [size, hrules]
    exact hlength
  refine ⟨hsize, ?_, fun offer fault g' h => ?_, ?_⟩
  · obtain ⟨sources, hsources, hadded⟩ := exists_sources_accepted (empty a) offers
    exact ⟨sources, hsources, ofRules_eq_ok_iff.2 hadded⟩
  · rw [← hsize]
    refine (accept_run_error h).imp_right fun hrefused => hrefused.imp_right ?_
    rintro ⟨source, hsource, hfault⟩
    refine ⟨source, hsource, ?_⟩
    cases hfault with
    | rule cause => exact Or.inl ⟨cause, rfl, rfl⟩
    | word hword => exact Or.inr (Or.inl hword)
    | unshown => exact Or.inr (Or.inr rfl)
  · intro site s left right hl hr
    refine ⟨fun later hsome => ?_, fun hall => ⟨?_, fun offer g' haccept => ?_⟩⟩
    · obtain ⟨more, hrules, -⟩ := exists_rules_afterOffers g later
      rw [apply_eq_iff _ site s hl hr, hrules]
      exact ((apply_eq_iff g site s hl hr _).1 rfl).append hsome more
    · rw [(apply_eq_iff g site s hl hr _).2 (.unchanged hall)]
    · obtain ⟨source, r, -, -, rfl⟩ := accept_run_ok_iff.1 haccept
      refine ⟨r, rfl, fun hdeclines => ?_, fun hfires => ?_, fun fault hfaults => ?_⟩
      · rw [(apply_eq_iff _ site s hl hr _).2 (.unchanged ?_)]
        exact List.forall_mem_append.2 ⟨hall, List.forall_mem_singleton.2 hdeclines⟩
      · obtain ⟨t, ht, hresult⟩ := hfires.exists_firstMatch hall
        rw [(apply_eq_iff _ site s hl hr t).2 ht]
        exact hresult
      · rw [(apply_eq_iff _ site s hl hr _).2 (.fault rfl hall hfaults)]

/-- The second offer is refused, since its focus is not in the alphabet, and the third one is no
rule. The fourth one, a producer for a frame, is the second to be accepted, so the next fault names
the index two; it takes the place of `B` and leaves `A` to the first rule. -/
theorem offers_leave_no_trace_framed :
    let a : Alphabet := ⟨[("A", .count 0), ("B", .count 0)]⟩
    let foreign : Offer := .rule ⟨"C", none, none, .absent, .text ""⟩
    let earlier : List Offer :=
      [.rule ⟨"A", none, none, .absent, .text "B A"⟩, foreign, .other "int"]
    let framed : Offer := .framed ⟨"B", none, none, .absent⟩ (.function fun _ => .ok [])
    let g := (empty a).afterOffers earlier
    let g' := g.afterOffers [framed]
    g'.size = 2 ∧ (accept foreign).run g' = .error (.inRule 2 "C" (.unknownTag "C" "C")) g' ∧
      (g.applyBetween ⟨0, 0⟩ ⟨"B", []⟩ [] []).result = .ok [⟨"B", []⟩] ∧
      (g'.applyBetween ⟨0, 0⟩ ⟨"B", []⟩ [] []).result = .ok [] ∧
      g'.applyBetween ⟨0, 0⟩ ⟨"A", []⟩ [] [] = g.applyBetween ⟨0, 0⟩ ⟨"A", []⟩ [] [] := by
  intro a foreign earlier framed g g'
  let first : Rule := ⟨[], ⟨"A", []⟩, [], none, .word [⟨"B", []⟩, ⟨"A", []⟩]⟩
  let second : Rule := ⟨[], ⟨"B", []⟩, [], none, .function fun _ => .ok []⟩
  have hg : (empty a).afterOffers earlier = ⟨a, [first]⟩ := by cbv
  have hg' : (accept framed).run g = .ok () ⟨a, [first, second]⟩ := by
    show (accept framed).run ((empty a).afterOffers earlier) = _
    rw [hg]
    cbv
  have happend : g' = (empty a).afterOffers (earlier ++ [framed]) := List.foldl_append.symm
  have hafter : (empty a).afterOffers (earlier ++ [framed]) = ⟨a, [first, second]⟩ := by cbv
  have hempty := Window.wellPlaced_ofList ([] : Word)
  have hfirst : ¬ first.Declines ⟨0, 0⟩ ⟨"A", []⟩ [] [] := by
    rintro (hmatch | ⟨guard, hguard, -⟩)
    · exact hmatch (by decide)
    · cases hguard
  have hdeclines : ∀ r ∈ g.rules, r.Declines ⟨0, 0⟩ ⟨"B", []⟩ [] [] := by
    show ∀ r ∈ ((empty a).afterOffers earlier).rules, _
    rw [hg]
    exact List.forall_mem_singleton.2 (Or.inl (by decide))
  have hsecond : second.Fires ⟨0, 0⟩ ⟨"B", []⟩ [] [] := by
    refine ⟨by decide, fun guard hguard => ?_⟩
    cases hguard
  obtain ⟨-, -, -, happly⟩ := offers_leave_no_trace a earlier
  obtain ⟨hsize, -, -, -⟩ := offers_leave_no_trace a (earlier ++ [framed])
  obtain ⟨hkept, -⟩ := happly ⟨0, 0⟩ ⟨"A", []⟩ (.ofList []) (.ofList []) hempty hempty
  obtain ⟨-, hlater⟩ := happly ⟨0, 0⟩ ⟨"B", []⟩ (.ofList []) (.ofList []) hempty hempty
  obtain ⟨hsame, hnext⟩ := hlater hdeclines
  obtain ⟨r, hrules, -, hfires, -⟩ := hnext framed _ hg'
  obtain rfl : second = r := by
    rw [show g.rules = [first] from congrArg rules hg] at hrules
    exact (List.cons.inj (List.cons.inj hrules).2).1
  refine ⟨?_, ?_, hsame, ?_, hkept [framed] ⟨first, ?_, hfirst⟩⟩
  · rw [happend]
    exact hsize.trans (by cbv)
  · rw [happend, hafter]
    cbv
  · rw [happend, hafter]
    exact hfires hsecond
  · show first ∈ ((empty a).afterOffers earlier).rules
    rw [hg]
    exact List.mem_singleton.2 rfl

end Grammar

end Arbor
