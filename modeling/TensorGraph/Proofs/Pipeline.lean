import TensorGraph.Access.Lowering
import TensorGraph.Proofs.Batch.CurrentShapes
import TensorGraph.Proofs.Graph.Collection
import TensorGraph.Proofs.RuleGroup

/-!
# Runs of pipelines

After a stage that changed the graph a pipeline collects, validates and infers, in this order.
Nothing that comes later undoes what was reached before: inference changes no edge, and a stage that
says that it has not changed the graph has not (`Stage.Honest`). So the graph at the end of a run
that changed something is tidy, whatever the stages have done to it (`Pipeline.tidy_of_run`).
-/

namespace TensorGraph

namespace Graph

variable {g g' : Graph} {id : NodeId}

/-- Nothing is out of date, closes a cycle, leads nowhere or is needed by nobody. -/
structure Tidy (g : Graph) : Prop where
  fresh : g.hasStale = false
  irreflexive : ∀ id,
    ¬Relation.TransGen (fun reader source => source ∈ g.predecessors reader) id id
  inputs_live : ∀ id port o, g.input? id port = some o → g.contains o.node
  parameters_live : ∀ id ∈ g.parameters, g.contains id
  results_live : ∀ id ∈ g.results, g.contains id
  needed : ∀ id, g.contains id → id ∈ g.parameters ∨ ∃ result ∈ g.results,
    Relation.ReflTransGen (fun reader source => source ∈ g.predecessors reader) result id
  collected : GraphM.removeUnreachable.runOn g = (.ok 0, g)
  ordered : ∀ id, g.contains id → id ∈ g.order

/-! ### After inference -/

/-- What is dead is seen from the edges, the parameters and the results. -/
theorem SameSkeleton.dead_eq_nil (same : g.SameSkeleton g') (h : g.dead = []) : g'.dead = [] := by
  rw [List.eq_nil_iff_forall_not_mem] at h ⊢
  intro id
  have edges : g'.predecessors = g.predecessors := by
    funext i
    rw [predecessors, same.edges]
    rfl
  rw [mem_dead, same.contains, same.parameters, same.results, edges, ← mem_dead]
  exact h id

/-- Inference on a valid graph from which everything unneeded has been collected makes it tidy. -/
theorem Valid.tidy {registry : Registry} {n : Nat} (valid : g.Valid) (collected : g.dead = [])
    (inferred : (GraphM.inferStale registry).runOn g = (.ok n, g')) : g'.Tidy := by
  have same := GraphM.sameSkeleton_of_inferStale inferred
  have acyclic : g'.isCyclic = false := same.isCyclic.2 valid.acyclic
  have nothing : g'.dead = [] := same.dead_eq_nil collected
  refine ⟨?_, isCyclic_eq_false_iff_irreflexive.1 acyclic, ?_, ?_, ?_,
    fun id live => needed_of_dead_eq_nil nothing live,
    runOn_removeUnreachable_of_dead_eq_nil nothing,
    fun id live => isCyclic_eq_false_iff_forall_mem.1 acyclic id live⟩
  · exact hasStale_eq_false_iff.2 (isStale_eq_false_of_inferStale valid.acyclic inferred)
  · intro id port o hread
    rw [same.input?] at hread
    rw [same.contains]
    exact valid.inputsLive id port o hread
  · simpa only [same.parameters, same.contains] using valid.parameters_live
  · simpa only [same.results, same.contains] using valid.results_live

end Graph

/-! ### Stages -/

variable {ctx : Context} {turn : Turn} {k : Nat} {rules : List Rule} {turns : List Turn}
  {group : RuleGroup} {stage : Stage} {stages : List Stage} {g g' : Graph} {changed : Bool}

/-- If the stage says that it has not changed a tidy graph, then it has not. -/
def Stage.Honest (ctx : Context) (stage : Stage) : Prop :=
  ∀ g g', g.Tidy → (stage.runOn {} ctx g).2 = (.ok false, g') → g' = g

namespace RuleGroup

theorem eq_of_sweepUpTo {limit left : Nat} {run : GroupRun}
    (honest : ∀ rule ∈ group.rules, rule.Honest ctx)
    (traced : group.sweepUpTo ctx limit left g = (run, g')) (answer : run.result = .ok false) :
    g' = g := by
  induction left generalizing g run with
  | zero =>
    obtain ⟨rfl, -⟩ := Prod.mk.inj traced
    cases answer
  | succ left ih =>
    rw [sweepUpTo] at traced
    rcases swept : group.sweep ctx g with ⟨sweep, g₁⟩
    by_cases goesOn : group.goesOn sweep
    · rcases later : group.sweepUpTo ctx limit left g₁ with ⟨laterRun, g₂⟩
      simp only [swept, goesOn, later, if_true] at traced
      obtain ⟨rfl, rfl⟩ := Prod.mk.inj traced
      rcases laterAnswer : laterRun.result with e | changed
      · simp [laterAnswer, Except.map] at answer
      · simp only [laterAnswer, Except.map, Except.ok.injEq, Bool.or_eq_false_iff] at answer
        obtain ⟨unchanged, rfl⟩ := answer
        rw [ih later laterAnswer]
        refine eq_of_offerAll honest swept ?_
        cases ending : sweep.ending <;>
          simp [RuleGroup.goesOn, Sweep.result, ending, unchanged] at goesOn ⊢
    · simp only [swept, goesOn] at traced
      obtain ⟨rfl, rfl⟩ := Prod.mk.inj traced
      exact eq_of_offerAll honest swept answer

end RuleGroup

/-- A group of honest rules is honest. -/
theorem Stage.honest_group (honest : ∀ rule ∈ group.rules, rule.Honest ctx) :
    (Stage.group group).Honest ctx := by
  intro g g' _ run
  obtain ⟨answer, rfl⟩ := Prod.mk.inj run
  exact RuleGroup.eq_of_sweepUpTo honest rfl answer

namespace Pipeline

theorem tidy_of_runOn_tidy (run : (tidy {} ctx).runOn g = (.ok (), g')) : g'.Tidy := by
  obtain ⟨valid, n, inferred⟩ := runOn_tidy_eq_ok_iff.1 run
  exact (Graph.validate_eq_ok_iff.1 valid).tidy (Graph.dead_collect g) inferred

/-- The graph is tidy from the first change on. -/
theorem tidy_of_runStages (honest : ∀ stage ∈ stages, stage.Honest ctx)
    (before : changed = true → g.Tidy)
    (run : (runStages {} ctx stages changed g).2 = (.ok true, g')) : g'.Tidy := by
  induction stages generalizing changed g with
  | nil =>
    obtain ⟨answer, rfl⟩ := Prod.mk.inj run
    exact before (Except.ok.inj answer)
  | cons stage rest ih =>
    obtain ⟨honestHere, honest⟩ := List.forall_mem_cons.1 honest
    rw [runStages] at run
    rcases result : stage.runOn {} ctx g with ⟨stageRun, _ | _ | _, g₁⟩
    · simp [result] at run
    · simp only [result] at run
      refine ih honest (fun earlier => ?_) run
      rw [honestHere g g₁ (before earlier) (by rw [result])]
      exact before earlier
    · simp only [result] at run
      rcases tidied : (tidy {} ctx).runOn g₁ with ⟨_ | _, g₂⟩
      · simp [tidied] at run
      · simp only [tidied] at run
        exact ih honest (fun _ => tidy_of_runOn_tidy tidied) run

/-- A run that changed something leaves a tidy graph. -/
theorem tidy_of_run (honest : ∀ stage ∈ stages, stage.Honest ctx)
    (run : (Pipeline.run { stages } ctx).runOn g = (.ok true, g')) : g'.Tidy := by
  rw [Pipeline.run, GraphM.runOn_ofFn, trace] at run
  rcases inferred : (GraphM.inferStale ctx.registry).runOn g with ⟨_ | n, g₀⟩
  · simp [inferred] at run
  · simp only [inferred] at run
    exact tidy_of_runStages honest (fun never => by cases never) run

/-! ### Batches and accesses -/

/-- Relaxing batches says that nothing has changed if there was nothing to relax. -/
theorem honest_relaxBatches {registry : Registry} :
    (Stage.pass .relaxBatches).Honest ⟨registry, true⟩ := by
  intro g g' tidy run
  obtain ⟨n, g₀, cs, inferred, -, relaxed, answer⟩ :=
    Relaxation.runOn_relaxBatches_eq_ok_iff.1 run
  obtain ⟨-, rfl⟩ :=
    Prod.mk.inj ((Graph.runOn_inferStale_of_fresh tidy.fresh).symm.trans inferred)
  obtain rfl : cs = [] := by simpa using answer.symm
  exact (Prod.mk.inj relaxed).2.symm

/-- A rule that lowers an access has changed the graph. -/
theorem honest_lowerAccesses : (Stage.group .lowerAccesses).Honest ctx := by
  have changes (op : String) (m : Match) (g g' : Graph) (outcome : Outcome)
      (run : (MemoryAccess.lower op ctx m).runOn g = (.ok outcome, g')) : outcome = .changed := by
    simp only [MemoryAccess.lower, GraphM.runOn_bind_eq_ok_iff, GraphM.runOn_pure_eq_ok_iff] at run
    obtain ⟨_, _, _, _, _, _, _, _, _, _, _, _, answer, _⟩ := run
    exact answer.symm
  refine Stage.honest_group fun rule hrule m g g' applied => ?_
  have lowers : rule = .lowerLoads ∨ rule = .lowerStores := by
    simpa [RuleGroup.lowerAccesses] using hrule
  rcases lowers with rfl | rfl <;> exact absurd (changes _ m g g' _ applied) (by decide)

/-- Adapts a graph to another batch, and to a machine that moves single elements only. -/
def adaptation : Pipeline := { stages := [.pass .relaxBatches, .group .lowerAccesses] }

/-- The graph with a fixed batch, adapted: there is no access to lower. -/
def adapted : Graph := ((adaptation.run ⟨.core, true⟩).runOn Relaxation.fixedBatch).2

theorem tidy_adapted : adapted.Tidy := by
  have honest : ∀ stage ∈ adaptation.stages, stage.Honest ⟨.core, true⟩ := by
    intro stage hstage
    have known : stage = .pass .relaxBatches ∨ stage = .group .lowerAccesses := by
      simpa [adaptation] using hstage
    rcases known with rfl | rfl
    · exact honest_relaxBatches
    · exact honest_lowerAccesses
  have run : (adaptation.run ⟨.core, true⟩).runOn Relaxation.fixedBatch = (.ok true, adapted) := by
    decide +kernel
  exact tidy_of_run honest run

end Pipeline

end TensorGraph
