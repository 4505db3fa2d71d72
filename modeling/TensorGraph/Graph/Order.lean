import TensorGraph.Graph.Turn

/-!
# The order of the nodes

`Graph.order` lists producers before consumers. Among the nodes that are ready at the same time
the one inserted first comes first, so that the order depends on the edges and the ages only.
Nodes on a cycle, and those behind one, are never ready and are left out.
-/

namespace TensorGraph

/-- The state of ordering the nodes. -/
structure Schedule where
  /-- By node, how many edges come from nodes that are not listed yet. The counters are integers,
  so that one that fell below zero would show. -/
  pending : Array Int
  /-- The nodes all of whose producers are listed, by age. -/
  ready : List Turn
  /-- The nodes listed so far, the last one first. -/
  listed : List NodeId

namespace Schedule

/-- At first the nodes that read nothing are ready. -/
def start (g : Graph) : Schedule where
  pending := Array.ofFn fun id : Fin g.arena.capacity => (g.predecessors id).length
  ready := g.turns.filter fun turn => (g.predecessors turn.id).isEmpty
  listed := []

/-- Counts down one edge to a node, which is ready once its last edge is counted. -/
def release (g : Graph) (s : Schedule) (id : NodeId) : Schedule :=
  match g.get? id with
  | none => s
  | some entry =>
    let left := s.pending.getD id 0 - 1
    { s with
      pending := s.pending.setIfInBounds id left
      ready := if left = 0 then Turn.enqueue ⟨entry.seq, id⟩ s.ready else s.ready }

/-- Lists the first ready node and counts down its outgoing edges. -/
def step (g : Graph) (s : Schedule) : Schedule :=
  match s.ready with
  | [] => s
  | turn :: ready =>
    (g.successors turn.id).foldl (release g) { s with ready, listed := turn.id :: s.listed }

/-- The state after the given number of steps. -/
def run (g : Graph) : Nat → Schedule → Schedule
  | 0, s => s
  | fuel + 1, s => run g fuel (s.step g)

end Schedule

namespace Graph

/-- Producers before consumers, then by age; without the nodes on or behind a cycle. A node is
listed at most once, so that there are no more steps than nodes. -/
def order (g : Graph) : List NodeId :=
  ((Schedule.start g).run g g.size).listed.reverse

/-- Do the edges close a cycle? Exactly then some node is never ready. -/
def isCyclic (g : Graph) : Bool := g.order.length < g.size

end Graph

end TensorGraph
