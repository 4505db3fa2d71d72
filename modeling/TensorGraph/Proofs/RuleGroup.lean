import TensorGraph.Proofs.Graph.Order
import TensorGraph.RuleGroup

/-!
# Sweeps

`RuleGroup.Offered` and `RuleGroup.Swept` say how an offer and a sweep go, step by step; what they
keep is shown by induction on them. Honest rules leave the graph alone when they say so, hence a
sweep that has not changed anything does, too (`RuleGroup.eq_of_offerAll`). A group that does not go
on after a sweep is done with its answer (`RuleGroup.runOn_run_of_not_goesOn`).
-/

namespace TensorGraph

/-- If the rule says that it has not changed the graph, then it has not. -/
def Rule.Honest (ctx : Context) (rule : Rule) : Prop :=
  ∀ m g g', (rule.apply ctx m).runOn g = (.ok .unchanged, g') → g' = g

/-- How the sweep ends with the offer, if it does. -/
def Offer.ending? (o : Offer) : Option Ending :=
  match o.outcome with
  | .error e => some (.failed e)
  | .ok .restart => some .restarted
  | .ok _ => none

theorem Offer.outcome_eq_of_unchanged {o : Offer} (goesOn : o.ending? = none)
    (unchanged : o.changed = false) : o.outcome = .ok .unchanged := by
  rcases outcome : o.outcome with e | _ | _ | _ <;> simp_all [Offer.ending?, Offer.changed]

/-- A sweep that an offer ends has failed or changed the graph. -/
theorem Offer.result_ne_of_ending {o : Offer} {ending : Ending} (ends : o.ending? = some ending) :
    (⟨[o], ending⟩ : Sweep).result ≠ .ok false := by
  rcases outcome : o.outcome with e | _ | _ | _ <;>
    simp only [Offer.ending?, outcome, Option.some.injEq, reduceCtorEq] at ends <;> subst ends <;>
    simp [Sweep.result, Sweep.changed, Offer.changed, outcome]

namespace RuleGroup

variable {ctx : Context} {turn : Turn} {k limit : Nat} {rule : Rule} {rules : List Rule}
  {turns : List Turn} {g g' g'' : Graph} {group : RuleGroup} {sweep : Sweep}

/-! ### Offers -/

theorem offer_of_match?_eq_none (h : ∀ rule ∈ rules, rule.pattern.match? g turn.id = none) :
    offer ctx turn k rules g = (⟨turn.id, turn.seq, [], .ok .unchanged⟩, g) := by
  induction rules generalizing k with
  | nil => rfl
  | cons rule rest ih =>
    obtain ⟨first, later⟩ := List.forall_mem_cons.1 h
    rw [offer, first]
    exact ih later

theorem offer_cons_of_match?_eq_none (h : rule.pattern.match? g turn.id = none) :
    offer ctx turn k (rule :: rules) g = offer ctx turn (k + 1) rules g := by
  rw [offer, h]

theorem offer_cons_of_unchanged {m : Match} (fits : rule.pattern.match? g turn.id = some m)
    (applied : (rule.apply ctx m).runOn g = (.ok .unchanged, g')) {o : Offer}
    (offered : offer ctx turn (k + 1) rules g' = (o, g'')) :
    offer ctx turn k (rule :: rules) g = ({ o with applied := k :: o.applied }, g'') := by
  rw [offer, fits]
  simp only [applied, offered]

/-- The first rule that fits and does anything is the last one to be tried. -/
theorem offer_cons_of_ne_unchanged {m : Match} {answer : Except Error Outcome}
    (fits : rule.pattern.match? g turn.id = some m)
    (applied : (rule.apply ctx m).runOn g = (answer, g')) (other : answer ≠ .ok .unchanged) :
    offer ctx turn k (rule :: rules) g = (⟨turn.id, turn.seq, [k], answer⟩, g') := by
  rw [offer, fits]
  simp only [applied]

theorem offer_cons_of_changed {m : Match} (fits : rule.pattern.match? g turn.id = some m)
    (applied : (rule.apply ctx m).runOn g = (.ok .changed, g')) :
    offer ctx turn k (rule :: rules) g = (⟨turn.id, turn.seq, [k], .ok .changed⟩, g') :=
  offer_cons_of_ne_unchanged fits applied (by simp)

/-- How a node is offered to rules, rule by rule, from one graph to another. -/
inductive Offered (ctx : Context) (turn : Turn) :
    Nat → List Rule → Graph → Offer → Graph → Prop where
  | done (k : Nat) (g : Graph) :
      Offered ctx turn k [] g ⟨turn.id, turn.seq, [], .ok .unchanged⟩ g
  /-- The rule does not fit. -/
  | skip {k : Nat} {rule : Rule} {rules : List Rule} {g g' : Graph} {o : Offer} :
      rule.pattern.match? g turn.id = none → Offered ctx turn (k + 1) rules g o g' →
      Offered ctx turn k (rule :: rules) g o g'
  /-- The rule says that it does nothing. -/
  | decline {k : Nat} {rule : Rule} {rules : List Rule} {m : Match} {g g' g'' : Graph}
      {o : Offer} :
      rule.pattern.match? g turn.id = some m →
      (rule.apply ctx m).runOn g = (.ok .unchanged, g') →
      Offered ctx turn (k + 1) rules g' o g'' →
      Offered ctx turn k (rule :: rules) g { o with applied := k :: o.applied } g''
  /-- The rule fails or changes the graph. -/
  | act {k : Nat} {rule : Rule} {rules : List Rule} {m : Match} {g g' : Graph}
      {answer : Except Error Outcome} :
      rule.pattern.match? g turn.id = some m → (rule.apply ctx m).runOn g = (answer, g') →
      answer ≠ .ok .unchanged →
      Offered ctx turn k (rule :: rules) g ⟨turn.id, turn.seq, [k], answer⟩ g'

theorem offered_of_offer {o : Offer} (offered : offer ctx turn k rules g = (o, g')) :
    Offered ctx turn k rules g o g' := by
  induction rules generalizing k g o with
  | nil =>
    obtain ⟨rfl, rfl⟩ := Prod.mk.inj offered
    exact .done k g
  | cons rule rest ih =>
    cases fits : rule.pattern.match? g turn.id with
    | none => exact .skip fits (ih ((offer_cons_of_match?_eq_none fits).symm.trans offered))
    | some m =>
      rcases applied : (rule.apply ctx m).runOn g with ⟨answer, g₁⟩
      by_cases answered : answer = .ok .unchanged
      · subst answered
        rcases later : offer ctx turn (k + 1) rest g₁ with ⟨laterOffer, g₂⟩
        obtain ⟨rfl, rfl⟩ :=
          Prod.mk.inj ((offer_cons_of_unchanged fits applied later).symm.trans offered)
        exact .decline fits applied (ih later)
      · obtain ⟨rfl, rfl⟩ :=
          Prod.mk.inj ((offer_cons_of_ne_unchanged fits applied answered).symm.trans offered)
        exact .act fits applied answered

/-! ### Sweeps -/

/-- Is it the node of the turn that stands in its place? -/
theorem stands_iff :
    ((g.get? turn.id).any fun entry => entry.seq = turn.seq) ↔
      g.seq? turn.id = some turn.seq := by
  rw [Graph.seq?_eq_some_iff, Option.any_eq_true]
  simp only [decide_eq_true_eq]

theorem offerAll_of_gone (gone : g.seq? turn.id ≠ some turn.seq) :
    offerAll ctx rules (turn :: turns) g = offerAll ctx rules turns g := by
  rw [offerAll, if_neg (stands_iff.not.2 gone)]

theorem offerAll_of_ending (here : g.seq? turn.id = some turn.seq) {o : Offer} {ending : Ending}
    (offered : offer ctx turn 0 rules g = (o, g')) (ends : o.ending? = some ending) :
    offerAll ctx rules (turn :: turns) g = (⟨[o], ending⟩, g') := by
  rw [offerAll, if_pos (stands_iff.2 here), offered]
  rcases outcome : o.outcome with e | _ | _ | _ <;>
    simp only [Offer.ending?, outcome, Option.some.injEq, reduceCtorEq] at ends <;> subst ends <;>
    simp only [outcome]

theorem offerAll_cons (here : g.seq? turn.id = some turn.seq) {o : Offer}
    (offered : offer ctx turn 0 rules g = (o, g')) (goesOn : o.ending? = none)
    (swept : offerAll ctx rules turns g' = (sweep, g'')) :
    offerAll ctx rules (turn :: turns) g = ({ sweep with offers := o :: sweep.offers }, g'') := by
  rw [offerAll, if_pos (stands_iff.2 here), offered]
  rcases outcome : o.outcome with e | _ | _ | _ <;>
    simp only [Offer.ending?, outcome, reduceCtorEq] at goesOn <;> simp only [outcome, swept]

/-- A turn is passed over if its node is gone; otherwise the node is offered, which ends the sweep
or does not. -/
theorem offerAll_cases (ctx : Context) (rules : List Rule) (turn : Turn) (turns : List Turn)
    (g : Graph) :
    (g.seq? turn.id ≠ some turn.seq ∧
        offerAll ctx rules (turn :: turns) g = offerAll ctx rules turns g) ∨
      g.seq? turn.id = some turn.seq ∧ ∃ o g', offer ctx turn 0 rules g = (o, g') ∧
        ((∃ ending, o.ending? = some ending ∧
            offerAll ctx rules (turn :: turns) g = (⟨[o], ending⟩, g')) ∨
          o.ending? = none ∧ ∃ sweep g'', offerAll ctx rules turns g' = (sweep, g'') ∧
            offerAll ctx rules (turn :: turns) g =
              ({ sweep with offers := o :: sweep.offers }, g'')) := by
  by_cases here : g.seq? turn.id = some turn.seq
  · refine .inr ⟨here, _, _, rfl, ?_⟩
    cases ends : (offer ctx turn 0 rules g).1.ending? with
    | some ending => exact .inl ⟨ending, rfl, offerAll_of_ending here rfl ends⟩
    | none => exact .inr ⟨rfl, _, _, rfl, offerAll_cons here rfl ends rfl⟩
  · exact .inl ⟨here, offerAll_of_gone here⟩

/-- How a sweep over turns goes, turn by turn, from one graph to another. -/
inductive Swept (ctx : Context) (rules : List Rule) : List Turn → Graph → Sweep → Graph → Prop where
  | done (g : Graph) : Swept ctx rules [] g ⟨[], .finished⟩ g
  /-- The node of the turn is gone. -/
  | gone {turn : Turn} {turns : List Turn} {g g' : Graph} {sweep : Sweep} :
      g.seq? turn.id ≠ some turn.seq → Swept ctx rules turns g sweep g' →
      Swept ctx rules (turn :: turns) g sweep g'
  /-- The offer of the node ends the sweep. -/
  | stop {turn : Turn} {turns : List Turn} {g g' : Graph} {o : Offer} {ending : Ending} :
      g.seq? turn.id = some turn.seq → offer ctx turn 0 rules g = (o, g') →
      o.ending? = some ending → Swept ctx rules (turn :: turns) g ⟨[o], ending⟩ g'
  /-- The sweep goes on after the offer of the node. -/
  | pass {turn : Turn} {turns : List Turn} {g g' g'' : Graph} {o : Offer} {sweep : Sweep} :
      g.seq? turn.id = some turn.seq → offer ctx turn 0 rules g = (o, g') → o.ending? = none →
      Swept ctx rules turns g' sweep g'' →
      Swept ctx rules (turn :: turns) g { sweep with offers := o :: sweep.offers } g''

theorem swept_of_offerAll (swept : offerAll ctx rules turns g = (sweep, g')) :
    Swept ctx rules turns g sweep g' := by
  induction turns generalizing g sweep with
  | nil =>
    obtain ⟨rfl, rfl⟩ := Prod.mk.inj swept
    exact .done g
  | cons turn rest ih =>
    rcases offerAll_cases ctx rules turn rest g with ⟨gone, same⟩ |
      ⟨here, o, g₁, offered, ⟨ending, ends, stopped⟩ | ⟨goesOn, later, g₂, sweptLater, passed⟩⟩
    · exact .gone gone (ih (same ▸ swept))
    · obtain ⟨rfl, rfl⟩ := Prod.mk.inj (stopped.symm.trans swept)
      exact .stop here offered ends
    · obtain ⟨rfl, rfl⟩ := Prod.mk.inj (passed.symm.trans swept)
      exact .pass here offered goesOn (ih sweptLater)

/-- Nothing happens in a sweep if no rule fits anywhere. -/
theorem offerAll_of_match?_eq_none
    (h : ∀ turn ∈ turns, ∀ rule ∈ rules, rule.pattern.match? g turn.id = none) :
    ∃ sweep, offerAll ctx rules turns g = (sweep, g) ∧ sweep.ending = .finished ∧
      sweep.changed = false := by
  induction turns with
  | nil => exact ⟨_, rfl, rfl, rfl⟩
  | cons turn rest ih =>
    obtain ⟨first, later⟩ := List.forall_mem_cons.1 h
    obtain ⟨sweep, swept, ending, changed⟩ := ih later
    by_cases here : g.seq? turn.id = some turn.seq
    · refine ⟨_, offerAll_cons here (offer_of_match?_eq_none first) rfl swept, ending, ?_⟩
      simpa [Sweep.changed, Offer.changed] using changed
    · exact ⟨sweep, (offerAll_of_gone here).trans swept, ending, changed⟩

/-- Every node has its turn with its age, in the order of the graph. -/
theorem map_id_itinerary (g : Graph) : (itinerary g).map Turn.id = g.order := by
  have live : ∀ id ∈ g.order, ∃ entry, g.get? id = some entry := fun id hid =>
    Graph.contains_iff.1 (Graph.contains_of_mem_order hid)
  simp only [itinerary]
  generalize g.order = ids at live
  induction ids with
  | nil => rfl
  | cons id rest ih =>
    obtain ⟨⟨entry, hentry⟩, later⟩ := List.forall_mem_cons.1 live
    rw [List.filterMap_cons, hentry, Option.map_some]
    exact congrArg (id :: ·) (ih later)

theorem seq?_of_mem_itinerary (h : turn ∈ itinerary g) : g.seq? turn.id = some turn.seq := by
  obtain ⟨id, _, hturn⟩ := List.mem_filterMap.1 h
  obtain ⟨entry, hentry, rfl⟩ := Option.map_eq_some_iff.1 hturn
  exact Graph.seq?_eq_some_iff.2 ⟨entry, hentry, rfl⟩

/-! ### Honest rules -/

/-- Only the last rule that was tried can have changed the graph. -/
theorem eq_of_offer {o : Offer} (honest : ∀ rule ∈ rules, rule.Honest ctx)
    (offered : offer ctx turn k rules g = (o, g')) (unchanged : o.outcome = .ok .unchanged) :
    g' = g := by
  replace offered := offered_of_offer offered
  induction offered with
  | done => rfl
  | skip _ _ ih => exact ih (List.forall_mem_cons.1 honest).2 unchanged
  | decline _ applied _ ih =>
    obtain ⟨honestHere, honest⟩ := List.forall_mem_cons.1 honest
    rw [ih honest unchanged]
    exact honestHere _ _ _ applied
  | act _ _ other => exact absurd unchanged other

theorem eq_of_offerAll (honest : ∀ rule ∈ rules, rule.Honest ctx)
    (swept : offerAll ctx rules turns g = (sweep, g')) (answer : sweep.result = .ok false) :
    g' = g := by
  replace swept := swept_of_offerAll swept
  induction swept with
  | done => rfl
  | gone _ _ ih => exact ih answer
  | stop _ _ ends => exact absurd answer (Offer.result_ne_of_ending ends)
  | @pass _ _ _ _ _ o sweep _ offered goesOn _ ih =>
    have unchanged : o.changed = false ∧ sweep.result = .ok false := by
      rcases ending : sweep.ending with _ | _ | e
      · simpa [Sweep.result, Sweep.changed, ending] using answer
      · simpa [Sweep.result, Sweep.changed, ending] using answer
      · simp [Sweep.result, ending] at answer
    rw [ih unchanged.2]
    exact eq_of_offer honest offered (o.outcome_eq_of_unchanged goesOn unchanged.1)

/-! ### Groups -/

/-- A group that does not go on after the first sweep has the answer of this sweep. -/
theorem runOn_run_of_not_goesOn (wide : 1 ≤ group.limit.getD limit)
    (swept : group.sweep ctx g = (sweep, g')) (done : group.goesOn sweep = false) :
    (group.run ctx limit).runOn g = (sweep.result, g') := by
  obtain ⟨left, hleft⟩ : ∃ left, group.limit.getD limit = left + 1 :=
    ⟨_, (Nat.sub_add_cancel wide).symm⟩
  have trace : group.trace ctx limit g = (⟨[sweep], sweep.result⟩, g') := by
    simp [RuleGroup.trace, hleft, sweepUpTo, swept, done]
  rw [run, GraphM.runOn_ofFn, trace]

/-- A group that is swept once has the answer of the sweep. -/
theorem runOn_run (once : group.untilFixpoint = false) (wide : 1 ≤ group.limit.getD limit)
    (swept : group.sweep ctx g = (sweep, g')) (finished : sweep.ending = .finished) :
    (group.run ctx limit).runOn g = (.ok sweep.changed, g') := by
  have done : group.goesOn sweep = false := by simp [goesOn, finished, once]
  rw [runOn_run_of_not_goesOn wide swept done, Sweep.result, finished]

end RuleGroup

end TensorGraph
