import TensorGraph.Graph.Validate
import TensorGraph.RuleGroup

/-!
# Pipelines

A pipeline runs stages one after the other. After a stage that changed the graph it collects what
no result depends on, validates the graph and brings the outputs of its nodes up to date, so that
the next stage finds a graph that can be relied on. The first failure ends the run.
-/

namespace TensorGraph

/-- One stage of a pipeline. -/
inductive Stage where
  /-- A pass over the whole graph. -/
  | pass (pass : Pass)
  /-- A single rule. -/
  | rule (rule : Rule)
  /-- Rules that share their sweeps. -/
  | group (group : RuleGroup)

/-- What holds for all stages of a pipeline. -/
structure Settings where
  /-- How many sweeps a group without a limit of its own may take. -/
  sweepLimit : Nat := 64
  /-- Is the graph validated after a change? -/
  validate : Bool := true
  /-- Are nodes collected, after a change, that no result depends on? -/
  collect : Bool := true
deriving DecidableEq, Repr

/-- What happened in a stage. -/
inductive StageRun where
  /-- A pass was started on a graph of the given size. -/
  | pass (size : Nat)
  /-- The rules were swept over the graph. -/
  | group (sweeps : List Sweep)

namespace Stage

/-- A single rule as a group of its name. -/
def ofRule (rule : Rule) : RuleGroup := { name := rule.name, rules := [rule] }

/-- The name of the stage. -/
def name : Stage → String
  | pass p => p.name
  | rule r => r.name
  | group g => g.name

/-- Runs the stage, with what happened in it and the answer whether the graph changed. -/
def runOn (stage : Stage) (settings : Settings) (ctx : Context) (g : Graph) :
    StageRun × Except Error Bool × Graph :=
  let sweep (group : RuleGroup) :=
    let (run, g) := group.trace ctx settings.sweepLimit g
    (.group run.sweeps, run.result, g)
  match stage with
  | pass p =>
    let (result, after) := (p.run ctx).runOn g
    (.pass g.size, result, after)
  | rule r => sweep (ofRule r)
  | group g => sweep g

end Stage

/-- Stages that are run one after the other. -/
structure Pipeline where
  /-- The stages, in order. -/
  stages : List Stage := []
  /-- What holds for all of them. -/
  settings : Settings := {}

namespace Pipeline

/-- Collects, validates and infers, as far as the settings say. -/
def tidy (settings : Settings) (ctx : Context) : GraphM Unit := do
  if settings.collect then
    let _ ← GraphM.removeUnreachable
  if settings.validate then
    GraphM.ask (·.validate)
  let _ ← GraphM.inferStale ctx.registry

/-- Runs the stages; `changed` says whether an earlier one changed the graph. -/
def runStages (settings : Settings) (ctx : Context) :
    List Stage → Bool → Graph → List StageRun × Except Error Bool × Graph
  | [], changed, g => ([], .ok changed, g)
  | stage :: rest, changed, g =>
    let (run, result, g) := stage.runOn settings ctx g
    match result with
    | .error e => ([run], .error e, g)
    | .ok false =>
      let (runs, result, g) := runStages settings ctx rest changed g
      (run :: runs, result, g)
    | .ok true =>
      match (tidy settings ctx).runOn g with
      | (.error e, g) => ([run], .error e, g)
      | (.ok _, g) =>
        let (runs, result, g) := runStages settings ctx rest true g
        (run :: runs, result, g)

/-- Brings the graph up to date and runs the stages, with what happened in each. -/
def trace (p : Pipeline) (ctx : Context) (g : Graph) : List StageRun × Except Error Bool × Graph :=
  match (GraphM.inferStale ctx.registry).runOn g with
  | (.error e, g) => ([], .error e, g)
  | (.ok _, g) => runStages p.settings ctx p.stages false g

/-- Runs the pipeline, with the answer whether a stage changed the graph. -/
def run (p : Pipeline) (ctx : Context) : GraphM Bool :=
  .ofFn fun g => (p.trace ctx g).2

/-- Runs the pipeline on each of the graphs. -/
def runAll (p : Pipeline) (ctx : Context) (graphs : List Graph) :
    List (Except Error Bool × Graph) :=
  graphs.map (p.run ctx).runOn

end Pipeline

end TensorGraph
