import TensorGraph.Pass

/-!
# Groups of rules

The rules of a group share their sweeps: a sweep offers every node to the rules, in the order that
the graph had at the start, and goes on to the next node once a rule has changed the graph. A
place is left out if the node that stood there at the start is gone, even if another one has taken
the place. A group that runs until a fixpoint is swept again as long as there are changes.
-/

namespace TensorGraph

/-- Rules that are applied together. -/
structure RuleGroup where
  /-- The name of the group. -/
  name : String
  /-- The rules; earlier ones are tried first. -/
  rules : List Rule
  /-- Is the graph swept until nothing changes? -/
  untilFixpoint : Bool := false
  /-- How many sweeps there may be, if the group has a limit of its own. -/
  limit : Option Nat := none

/-- How one node was offered to the rules. -/
structure Offer where
  /-- The place of the node. -/
  node : NodeId
  /-- The number of insertions before that of the node. -/
  seq : Nat
  /-- The positions of the rules that were applied to it; only the last may have had an effect. -/
  applied : List Nat
  /-- What the last rule did, or why it failed. -/
  outcome : Except Error Outcome

/-- How a sweep ended. -/
inductive Ending where
  /-- Every node was offered. -/
  | finished
  /-- A rule asked for a new start. -/
  | restarted
  /-- A rule failed. -/
  | failed (error : Error)

/-- What happened in one sweep. -/
structure Sweep where
  /-- The nodes that were offered, in order. -/
  offers : List Offer
  /-- How the sweep ended. -/
  ending : Ending

namespace Offer

/-- Did a rule change the graph? -/
def changed (o : Offer) : Bool :=
  match o.outcome with
  | .ok .unchanged | .error _ => false
  | .ok .changed | .ok .restart => true

end Offer

namespace Sweep

/-- Did a rule change the graph? -/
def changed (s : Sweep) : Bool := s.offers.any Offer.changed

/-- The answer of a group of which this is the last sweep. -/
def result (s : Sweep) : Except Error Bool :=
  match s.ending with
  | .failed e => .error e
  | .finished | .restarted => .ok s.changed

end Sweep

namespace RuleGroup

/-- Tries the rules from position `k` on at a node, up to the first one that changes the graph. -/
def offer (ctx : Context) (turn : Turn) : Nat → List Rule → Graph → Offer × Graph
  | _, [], g => (⟨turn.id, turn.seq, [], .ok .unchanged⟩, g)
  | k, rule :: rest, g =>
    match rule.pattern.match? g turn.id with
    | none => offer ctx turn (k + 1) rest g
    | some m =>
      match (rule.apply ctx m).runOn g with
      | (.ok .unchanged, g) =>
        let (later, g) := offer ctx turn (k + 1) rest g
        ({ later with applied := k :: later.applied }, g)
      | (outcome, g) => (⟨turn.id, turn.seq, [k], outcome⟩, g)

/-- Offers the nodes that still stand where they stood. -/
def offerAll (ctx : Context) (rules : List Rule) : List Turn → Graph → Sweep × Graph
  | [], g => (⟨[], .finished⟩, g)
  | turn :: rest, g =>
    if (g.get? turn.id).any fun entry => entry.seq = turn.seq then
      let (offer, g) := offer ctx turn 0 rules g
      match offer.outcome with
      | .error e => (⟨[offer], .failed e⟩, g)
      | .ok .restart => (⟨[offer], .restarted⟩, g)
      | .ok _ =>
        let (later, g) := offerAll ctx rules rest g
        ({ later with offers := offer :: later.offers }, g)
    else offerAll ctx rules rest g

/-- The nodes in the order of the graph, each with its age, by which it is known again. -/
def itinerary (g : Graph) : List Turn :=
  g.order.filterMap fun id => (g.get? id).map fun entry => ⟨entry.seq, id⟩

/-- One sweep over the graph. -/
def sweep (group : RuleGroup) (ctx : Context) (g : Graph) : Sweep × Graph :=
  offerAll ctx group.rules (itinerary g) g

end RuleGroup

/-- What happened while a group ran. -/
structure GroupRun where
  /-- The sweeps, in order. -/
  sweeps : List Sweep
  /-- Did a rule change the graph, or why did the group fail? -/
  result : Except Error Bool

namespace RuleGroup

/-- Does the group go on after the sweep? -/
def goesOn (group : RuleGroup) (sweep : Sweep) : Bool :=
  match sweep.ending with
  | .failed _ => false
  | .restarted => true
  | .finished => group.untilFixpoint && sweep.changed

/-- Sweeps at most `left` times out of `limit`. -/
def sweepUpTo (group : RuleGroup) (ctx : Context) (limit : Nat) : Nat → Graph → GroupRun × Graph
  | 0, g => (⟨[], .error (.fixpointNotReached group.name limit)⟩, g)
  | left + 1, g =>
    let (sweep, g) := group.sweep ctx g
    if group.goesOn sweep then
      let (later, g) := sweepUpTo group ctx limit left g
      (⟨sweep :: later.sweeps, later.result.map (sweep.changed || ·)⟩, g)
    else (⟨[sweep], sweep.result⟩, g)

/-- Sweeps the graph until the group is done, at most as often as the limit of the group or else
`defaultLimit` says. -/
def trace (group : RuleGroup) (ctx : Context) (defaultLimit : Nat) (g : Graph) :
    GroupRun × Graph :=
  let limit := group.limit.getD defaultLimit
  group.sweepUpTo ctx limit limit g

/-- Runs the group, with the answer whether a rule changed the graph. -/
def run (group : RuleGroup) (ctx : Context) (defaultLimit : Nat) : GraphM Bool :=
  .ofFn fun g =>
    let (run, g) := group.trace ctx defaultLimit g
    (run.result, g)

end RuleGroup

end TensorGraph
