import Mathlib.Data.Nat.Find
import Mathlib.Logic.Function.Iterate
import TensorGraph.Proofs.Graph.Actions
import TensorGraph.Proofs.RuleGroup.Applications

/-!
# Running until a fixpoint

A group is swept again and again, each time from where the last sweep has stopped
(`RuleGroup.graphAfter`), until a sweep does not call for another one. Either there is such a sweep
within the limit, and the first of them is the last sweep, or the limit is reached
(`RuleGroup.trace_cases`). If the rules are honest and the group runs until a fixpoint, then there
is nothing left to do after it (`RuleGroup.settles_of_honest`).
-/

namespace TensorGraph

/-- The rule does not fail as a group does that has reached its limit. -/
def Rule.NeverExhausts (ctx : Context) (rule : Rule) : Prop :=
  ∀ m g name k, ((rule.apply ctx m).runOn g).1 ≠ .error (.fixpointNotReached name k)

namespace RuleGroup

variable {ctx : Context} {turn : Turn} {k n left limit : Nat} {rules : List Rule}
  {turns : List Turn} {g g' : Graph} {sweep : Sweep} {group : RuleGroup} {e : Error}

/-! ### Failures -/

theorem exists_rule_of_offer {o : Offer} (offered : offer ctx turn k rules g = (o, g'))
    (failed : o.outcome = .error e) :
    ∃ rule ∈ rules, ∃ m g₁, ((rule.apply ctx m).runOn g₁).1 = .error e := by
  replace offered := offered_of_offer offered
  induction offered with
  | done => cases failed
  | skip _ _ ih | decline _ _ _ ih =>
    obtain ⟨rule, hrule, blame⟩ := ih failed
    exact ⟨rule, List.mem_cons_of_mem _ hrule, blame⟩
  | act _ applied _ =>
    exact ⟨_, List.mem_cons_self, _, _, (congrArg Prod.fst applied).trans failed⟩

/-- A sweep fails where a rule does. -/
theorem exists_rule_of_failed (swept : offerAll ctx rules turns g = (sweep, g'))
    (failed : sweep.ending = .failed e) :
    ∃ rule ∈ rules, ∃ m g₁, ((rule.apply ctx m).runOn g₁).1 = .error e := by
  replace swept := swept_of_offerAll swept
  induction swept with
  | done => cases failed
  | gone _ _ ih => exact ih failed
  | @stop _ _ _ _ o ending _ offered ends =>
    obtain rfl : ending = .failed e := failed
    refine exists_rule_of_offer offered ?_
    rcases outcome : o.outcome with e | _ | _ | _ <;> simp_all [Offer.ending?]
  | pass _ _ _ _ ih => exact ih failed

/-! ### Sweep after sweep -/

/-- The graph after `n` sweeps, each of which starts where the one before has stopped. -/
def graphAfter (group : RuleGroup) (ctx : Context) (g : Graph) (n : Nat) : Graph :=
  (fun g => (group.sweep ctx g).2)^[n] g

/-- The sweep that comes after `n` others. -/
def sweepAfter (group : RuleGroup) (ctx : Context) (g : Graph) (n : Nat) : Sweep :=
  (group.sweep ctx (group.graphAfter ctx g n)).1

theorem graphAfter_succ (group : RuleGroup) (ctx : Context) (g : Graph) (n : Nat) :
    group.graphAfter ctx g (n + 1) = (group.sweep ctx (group.graphAfter ctx g n)).2 :=
  Function.iterate_succ_apply' ..

theorem goesOn_iff : group.goesOn sweep ↔ sweep.ending = .restarted ∨
    sweep.ending = .finished ∧ group.untilFixpoint ∧ sweep.changed := by
  cases ending : sweep.ending <;> simp [goesOn, ending]

/-- The first sweep comes first. -/
theorem map_sweepAfter_range_succ (group : RuleGroup) (ctx : Context) (g : Graph) (n : Nat) :
    (List.range (n + 1)).map (group.sweepAfter ctx g) =
      (group.sweep ctx g).1 ::
        (List.range n).map (group.sweepAfter ctx (group.sweep ctx g).2) := by
  rw [List.range_succ_eq_map, List.map_cons, List.map_map]
  rfl

/-- The limit is reached if every sweep calls for another one. -/
theorem sweepUpTo_of_forall_goesOn (goesOn : ∀ i < left, group.goesOn (group.sweepAfter ctx g i)) :
    group.sweepUpTo ctx limit left g =
      (⟨(List.range left).map (group.sweepAfter ctx g),
        .error (.fixpointNotReached group.name limit)⟩, group.graphAfter ctx g left) := by
  induction left generalizing g with
  | zero => rfl
  | succ left ih =>
    have first : group.goesOn (group.sweep ctx g).1 := goesOn 0 (Nat.zero_lt_succ left)
    have later := ih (g := (group.sweep ctx g).2) fun i hi => goesOn (i + 1) (Nat.succ_lt_succ hi)
    rw [sweepUpTo, map_sweepAfter_range_succ]
    simp only [first, if_true, later]
    rfl

/-- The first sweep that does not call for another one is the last one. -/
theorem sweepUpTo_of_goesOn_eq_false (goesOn : ∀ i < n, group.goesOn (group.sweepAfter ctx g i))
    (stops : group.goesOn (group.sweepAfter ctx g n) = false) (within : n < left) :
    group.sweepUpTo ctx limit left g =
      (⟨(List.range (n + 1)).map (group.sweepAfter ctx g),
        (group.sweepAfter ctx g n).result.map fun _ =>
          ((List.range (n + 1)).map (group.sweepAfter ctx g)).any Sweep.changed⟩,
        group.graphAfter ctx g (n + 1)) := by
  obtain ⟨left, rfl⟩ := Nat.exists_eq_add_one_of_ne_zero (Nat.ne_zero_of_lt within)
  induction n generalizing g left with
  | zero =>
    have last : group.goesOn (group.sweep ctx g).1 = false := stops
    have answer : (group.sweepAfter ctx g 0).result = (group.sweepAfter ctx g 0).result.map
        fun _ => [group.sweepAfter ctx g 0].any Sweep.changed := by
      cases ending : (group.sweepAfter ctx g 0).ending <;> simp [Sweep.result, ending, Except.map]
    rw [sweepUpTo]
    simp only [last]
    exact congrArg (fun result => ((⟨[group.sweepAfter ctx g 0], result⟩ : GroupRun), _)) answer
  | succ n ih =>
    obtain ⟨left, rfl⟩ :=
      Nat.exists_eq_add_one_of_ne_zero (Nat.ne_zero_of_lt (Nat.lt_of_succ_lt_succ within))
    have first : group.goesOn (group.sweep ctx g).1 := goesOn 0 (Nat.zero_lt_succ n)
    have later := ih (g := (group.sweep ctx g).2)
      (fun i hi => goesOn (i + 1) (Nat.succ_lt_succ hi)) stops left (Nat.lt_of_succ_lt_succ within)
    rw [sweepUpTo, map_sweepAfter_range_succ]
    simp only [first, if_true, later]
    have answer : (group.sweepAfter ctx g (n + 1)).result =
      (group.sweepAfter ctx (group.sweep ctx g).2 n).result := rfl
    rw [answer]
    cases (group.sweepAfter ctx (group.sweep ctx g).2 n).result <;> rfl

/-- Either every sweep that is allowed calls for another one, or the first that does not is the
last. -/
theorem trace_cases (group : RuleGroup) (ctx : Context) (d : Nat) (g : Graph) :
    ((∀ i < group.limit.getD d, group.goesOn (group.sweepAfter ctx g i)) ∧
      group.trace ctx d g =
        (⟨(List.range (group.limit.getD d)).map (group.sweepAfter ctx g),
          .error (.fixpointNotReached group.name (group.limit.getD d))⟩,
          group.graphAfter ctx g (group.limit.getD d))) ∨
    ∃ n < group.limit.getD d, (∀ i < n, group.goesOn (group.sweepAfter ctx g i)) ∧
      group.goesOn (group.sweepAfter ctx g n) = false ∧
      group.trace ctx d g =
        (⟨(List.range (n + 1)).map (group.sweepAfter ctx g),
          (group.sweepAfter ctx g n).result.map fun _ =>
            ((List.range (n + 1)).map (group.sweepAfter ctx g)).any Sweep.changed⟩,
          group.graphAfter ctx g (n + 1)) := by
  by_cases goesOn : ∀ i < group.limit.getD d, group.goesOn (group.sweepAfter ctx g i)
  · exact .inl ⟨goesOn, sweepUpTo_of_forall_goesOn goesOn⟩
  · have stop : ∃ n, n < group.limit.getD d ∧ ¬group.goesOn (group.sweepAfter ctx g n) := by
      simpa using goesOn
    obtain ⟨within, stops⟩ := Nat.find_spec stop
    have earlier (i : Nat) (hi : i < Nat.find stop) : group.goesOn (group.sweepAfter ctx g i) :=
      not_not.1 fun h => Nat.find_min stop hi ⟨Nat.lt_trans hi within, h⟩
    rw [Bool.not_eq_true] at stops
    exact .inr ⟨_, within, earlier, stops, sweepUpTo_of_goesOn_eq_false earlier stops within⟩

theorem runOn_run_eq (group : RuleGroup) (ctx : Context) (d : Nat) (g : Graph) :
    (group.run ctx d).runOn g = ((group.trace ctx d g).1.result, (group.trace ctx d g).2) := rfl

/-- A sweep that succeeds without calling for another one is finished. -/
theorem ending_of_goesOn_eq_false {changed : Bool} (stops : group.goesOn sweep = false)
    (answer : sweep.result = .ok changed) :
    sweep.ending = .finished ∧ ¬(group.untilFixpoint ∧ sweep.changed) := by
  cases ending : sweep.ending <;> simp_all [goesOn, Sweep.result]

theorem result_of_finished (finished : sweep.ending = .finished) :
    sweep.result = .ok sweep.changed := by
  rw [Sweep.result, finished]

/-- The last sweep of a run that succeeds is the first one that does not call for another one, and it
is finished. -/
theorem exists_last_of_runOn_run {d : Nat} {changed : Bool}
    (ok : ((group.run ctx d).runOn g).1 = .ok changed) :
    ∃ n < group.limit.getD d, (∀ i < n, group.goesOn (group.sweepAfter ctx g i)) ∧
      (group.sweepAfter ctx g n).ending = .finished ∧
      ¬(group.untilFixpoint ∧ (group.sweepAfter ctx g n).changed) ∧
      (group.trace ctx d g).1.sweeps = (List.range (n + 1)).map (group.sweepAfter ctx g) ∧
      changed = ((List.range (n + 1)).map (group.sweepAfter ctx g)).any Sweep.changed ∧
      ((group.run ctx d).runOn g).2 = group.graphAfter ctx g (n + 1) := by
  rw [runOn_run_eq] at ok ⊢
  rcases trace_cases group ctx d g with ⟨-, traced⟩ | ⟨n, within, earlier, stops, traced⟩
  · rw [traced] at ok
    cases ok
  · rw [traced] at ok ⊢
    rcases answer : (group.sweepAfter ctx g n).result with e | last
    · simp [answer, Except.map] at ok
    · simp only [answer, Except.map, Except.ok.injEq] at ok
      obtain ⟨finished, done⟩ := ending_of_goesOn_eq_false stops answer
      exact ⟨n, within, earlier, finished, done, rfl, ok.symm, rfl⟩

/-! ### The main statement -/

/-- How a run of the group comes out, be it with its own limit or with the limit `d`. -/
structure Settles (ctx : Context) (d : Nat) (group : RuleGroup) (g : Graph) : Prop where
  /-- A run is a number of sweeps, which the limit bounds. -/
  sweeps : ∃ n ≤ group.limit.getD d,
    (group.trace ctx d g).1.sweeps = (List.range n).map (group.sweepAfter ctx g)
  /-- The limit is reached if every sweep that it allows either asks for a new start or changes the
  graph in a group that runs until a fixpoint. -/
  exhausted_iff : ∀ name k,
    ((group.run ctx d).runOn g).1 = .error (.fixpointNotReached name k) ↔
      name = group.name ∧ k = group.limit.getD d ∧ ∀ i < group.limit.getD d,
        (group.sweepAfter ctx g i).ending = .restarted ∨
          (group.sweepAfter ctx g i).ending = .finished ∧ group.untilFixpoint ∧
            (group.sweepAfter ctx g i).changed
  /-- The run succeeds if one of the sweeps that the limit allows is finished without such a
  change, and all sweeps before it call for another one. -/
  succeeds_iff : (∃ changed, ((group.run ctx d).runOn g).1 = .ok changed) ↔
    ∃ n < group.limit.getD d, (∀ i < n, group.goesOn (group.sweepAfter ctx g i)) ∧
      (group.sweepAfter ctx g n).ending = .finished ∧
      ¬(group.untilFixpoint ∧ (group.sweepAfter ctx g n).changed)
  /-- The answer is whether a rule says in one of the sweeps that it has changed the graph. -/
  changed_iff : ∀ changed, ((group.run ctx d).runOn g).1 = .ok changed →
    (changed = true ↔ ∃ i < (group.trace ctx d g).1.sweeps.length,
      ∃ a ∈ group.log ctx (group.graphAfter ctx g i), a.changed)
  /-- A sweep without such a rule that is finished leaves the graph as it was. -/
  unchanged : ∀ i, (group.sweepAfter ctx g i).result = .ok false →
    group.graphAfter ctx g (i + 1) = group.graphAfter ctx g i
  /-- After a group that runs until a fixpoint there is nothing left to do. -/
  fixpoint : group.untilFixpoint → ∀ changed g', (group.run ctx d).runOn g = (.ok changed, g') →
    ∀ limit d', 1 ≤ limit.getD d' →
      ({ group with limit }.run ctx d').runOn g' = (.ok false, g')

theorem exists_rule_of_result (failed : (group.sweepAfter ctx g n).result = .error e) :
    ∃ rule ∈ group.rules, ∃ m g₁, ((rule.apply ctx m).runOn g₁).1 = .error e := by
  have ending : (group.sweepAfter ctx g n).ending = .failed e := by
    cases ending : (group.sweepAfter ctx g n).ending <;> simp_all [Sweep.result]
  exact exists_rule_of_failed rfl ending

/-- A sweep does not fail as a group does that has reached its limit. -/
theorem result_sweepAfter_ne (silent : ∀ rule ∈ group.rules, rule.NeverExhausts ctx)
    (g : Graph) (n : Nat) (name : String) (k : Nat) :
    (group.sweepAfter ctx g n).result ≠ .error (.fixpointNotReached name k) := by
  intro failed
  obtain ⟨rule, hrule, m, g₁, blame⟩ := exists_rule_of_result failed
  exact silent rule hrule m g₁ name k blame

/-- A group fails since it has reached its limit or where one of its rules does. -/
theorem error_cases {d : Nat} (failed : ((group.run ctx d).runOn g).1 = .error e) :
    e = .fixpointNotReached group.name (group.limit.getD d) ∨
      ∃ rule ∈ group.rules, ∃ m g₁, ((rule.apply ctx m).runOn g₁).1 = .error e := by
  rw [runOn_run_eq] at failed
  rcases trace_cases group ctx d g with ⟨-, traced⟩ | ⟨n, -, -, -, traced⟩
  · rw [traced] at failed
    exact .inl (Except.error.inj failed).symm
  · rw [traced] at failed
    cases answer : (group.sweepAfter ctx g n).result with
    | ok changed => simp [answer, Except.map] at failed
    | error e' =>
      simp only [answer, Except.map, Except.error.injEq] at failed
      exact .inr (exists_rule_of_result (failed ▸ answer))

theorem changed_sweepAfter_iff : (group.sweepAfter ctx g n).changed ↔
    ∃ a ∈ group.log ctx (group.graphAfter ctx g n), a.changed := by
  have listed : (group.log ctx (group.graphAfter ctx g n)).any Application.changed =
      (group.sweepAfter ctx g n).changed := any_changed_applications rfl
  rw [← listed, List.any_eq_true]

/-- If the rules are honest, a sweep that does not change the graph ends with it. -/
theorem graphAfter_succ_eq (honest : ∀ rule ∈ group.rules, rule.Honest ctx)
    (answer : (group.sweepAfter ctx g n).result = .ok false) :
    group.graphAfter ctx g (n + 1) = group.graphAfter ctx g n :=
  (graphAfter_succ group ctx g n).trans (eq_of_offerAll honest rfl answer)

theorem exhausted_iff (silent : ∀ rule ∈ group.rules, rule.NeverExhausts ctx) (d : Nat)
    (g : Graph) (name : String) (k : Nat) :
    ((group.run ctx d).runOn g).1 = .error (.fixpointNotReached name k) ↔
      name = group.name ∧ k = group.limit.getD d ∧
        ∀ i < group.limit.getD d, group.goesOn (group.sweepAfter ctx g i) := by
  rw [runOn_run_eq]
  rcases trace_cases group ctx d g with ⟨goesOn, traced⟩ | ⟨n, within, -, stops, traced⟩
  · rw [traced]
    constructor
    · intro failed
      cases failed
      exact ⟨rfl, rfl, goesOn⟩
    · rintro ⟨rfl, rfl, -⟩
      rfl
  · rw [traced]
    refine iff_of_false (fun failed => ?_) fun h => by simp [h.2.2 n within] at stops
    have own := result_sweepAfter_ne silent g n name k
    generalize (group.sweepAfter ctx g n).result = result at failed own
    cases result with
    | error e => exact own failed
    | ok changed => cases failed

theorem succeeds_iff (ctx : Context) (d : Nat) (group : RuleGroup) (g : Graph) :
    (∃ changed, ((group.run ctx d).runOn g).1 = .ok changed) ↔
      ∃ n < group.limit.getD d, (∀ i < n, group.goesOn (group.sweepAfter ctx g i)) ∧
        (group.sweepAfter ctx g n).ending = .finished ∧
        ¬(group.untilFixpoint ∧ (group.sweepAfter ctx g n).changed) := by
  constructor
  · rintro ⟨changed, ok⟩
    obtain ⟨n, within, earlier, finished, done, -⟩ := exists_last_of_runOn_run ok
    exact ⟨n, within, earlier, finished, done⟩
  · rintro ⟨n, within, earlier, finished, done⟩
    have stops : group.goesOn (group.sweepAfter ctx g n) = false := by
      rw [← Bool.not_eq_true, goesOn_iff, finished]
      simpa using done
    rw [runOn_run_eq, trace, sweepUpTo_of_goesOn_eq_false earlier stops within,
      result_of_finished finished]
    exact ⟨_, rfl⟩

/-- The last sweep of a group that runs until a fixpoint has changed nothing, and the next one would
do the same. -/
theorem runOn_run_again {changed : Bool} {d d' : Nat} {limit : Option Nat}
    (honest : ∀ rule ∈ group.rules, rule.Honest ctx) (repeated : group.untilFixpoint)
    (run : (group.run ctx d).runOn g = (.ok changed, g')) (wide : 1 ≤ limit.getD d') :
    ({ group with limit }.run ctx d').runOn g' = (.ok false, g') := by
  obtain ⟨n, -, -, finished, done, -, -, last⟩ :=
    exists_last_of_runOn_run (congrArg Prod.fst run)
  obtain rfl : g' = group.graphAfter ctx g (n + 1) := (congrArg Prod.snd run).symm.trans last
  have clean : (group.sweepAfter ctx g n).changed = false :=
    Bool.eq_false_iff.2 fun changed => done ⟨repeated, changed⟩
  have answer : (group.sweepAfter ctx g n).result = .ok false := by
    rw [result_of_finished finished, clean]
  have same := graphAfter_succ_eq honest answer
  -- the graph that the last sweep has found is the one that the first sweep of the other run finds
  have again : RuleGroup.sweep { group with limit } ctx (group.graphAfter ctx g (n + 1)) =
      (group.sweepAfter ctx g n, group.graphAfter ctx g (n + 1)) := by
    rw [same]
    exact congrArg (_, ·) ((graphAfter_succ group ctx g n).symm.trans same)
  have stops : RuleGroup.goesOn { group with limit } (group.sweepAfter ctx g n) = false := by
    simp [RuleGroup.goesOn, finished, clean]
  rw [runOn_run_of_not_goesOn wide again stops, answer]

/-- A run of honest rules is a number of sweeps within the limit. It reaches the limit exactly if
all of them call for another one; otherwise it answers whether a rule has changed the graph, and a
group that runs until a fixpoint has found one. -/
theorem settles_of_honest (honest : ∀ rule ∈ group.rules, rule.Honest ctx)
    (silent : ∀ rule ∈ group.rules, rule.NeverExhausts ctx) (d : Nat) (g : Graph) :
    group.Settles ctx d g where
  sweeps := by
    rcases trace_cases group ctx d g with ⟨-, traced⟩ | ⟨n, within, -, -, traced⟩
    · exact ⟨_, Nat.le_refl _, by rw [traced]⟩
    · exact ⟨n + 1, within, by rw [traced]⟩
  exhausted_iff name k := by simp only [RuleGroup.exhausted_iff silent, goesOn_iff]
  succeeds_iff := RuleGroup.succeeds_iff ctx d group g
  changed_iff changed ok := by
    obtain ⟨n, -, -, -, -, listed, rfl, -⟩ := exists_last_of_runOn_run ok
    simp [listed, ← changed_sweepAfter_iff]
  unchanged i := graphAfter_succ_eq honest
  fixpoint repeated _ _ run _ _ wide := runOn_run_again honest repeated run wide

/-- Turns nodes of one operator type into nodes of another one. -/
def retyping (source target : String) : Rule where
  name := "retype"
  pattern := .op source
  apply _ m := do
    GraphM.editNode m.root fun node => { node with op := target }
    pure .changed

/-- An `A` turns into a `B` and then into a `C`. -/
def twoSteps : RuleGroup where
  name := "two_steps"
  rules := [retyping "B" "C", retyping "A" "B"]
  untilFixpoint := true

theorem retyping_cases (ctx : Context) (source target : String) (m : Match) (g : Graph) :
    (∃ g', ((retyping source target).apply ctx m).runOn g = (.ok .changed, g')) ∨
      ((retyping source target).apply ctx m).runOn g =
        (.error (.structural (.nodeMissing m.root)), g) := by
  simp only [retyping, GraphM.runOn_bind, GraphM.runOn_editNode]
  cases g.node? m.root with
  | none => exact .inr rfl
  | some node => exact .inl ⟨_, rfl⟩

/-- A graph of one node. -/
def loneA : Graph := (Graph.empty "f").insert { op := "A" }

/-- Three sweeps are enough, the last of which changes nothing; two are not. -/
theorem settles_twoSteps :
    (∀ rule ∈ twoSteps.rules, rule.Honest ⟨.empty, false⟩) ∧
      (∀ rule ∈ twoSteps.rules, rule.NeverExhausts ⟨.empty, false⟩) ∧
      twoSteps.Settles ⟨.empty, false⟩ 3 loneA ∧
      ((twoSteps.run ⟨.empty, false⟩ 3).runOn loneA).1 = .ok true ∧
      ((twoSteps.run ⟨.empty, false⟩ 2).runOn loneA).1 =
        .error (.fixpointNotReached "two_steps" 2) := by
  have member {rule : Rule} (h : rule ∈ twoSteps.rules) :
      ∃ source target, rule = retyping source target := by
    rcases List.mem_pair.1 h with rfl | rfl <;> exact ⟨_, _, rfl⟩
  have honest : ∀ rule ∈ twoSteps.rules, rule.Honest ⟨.empty, false⟩ := by
    intro rule h m g g' applied
    obtain ⟨source, target, rfl⟩ := member h
    rcases retyping_cases ⟨.empty, false⟩ source target m g with ⟨_, h⟩ | h <;>
      cases h.symm.trans applied
  have silent : ∀ rule ∈ twoSteps.rules, rule.NeverExhausts ⟨.empty, false⟩ := by
    intro rule h m g name k failed
    obtain ⟨source, target, rfl⟩ := member h
    rcases retyping_cases ⟨.empty, false⟩ source target m g with ⟨_, h⟩ | h <;>
      cases (congrArg Prod.fst h).symm.trans failed
  exact ⟨honest, silent, settles_of_honest honest silent 3 _, by rfl, by rfl⟩

end RuleGroup

end TensorGraph
