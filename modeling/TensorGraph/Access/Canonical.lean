import TensorGraph.Graph.Order
import TensorGraph.Operators.MemoryAccess

/-!
# Canonical form of memory accesses

A graph is in canonical form if every load and store has a width and all widths are the same.
-/

namespace TensorGraph.MemoryAccess

/-- Is the node a load or a store? -/
def isAccess (node : Node) : Bool := node.op = load || node.op = store

/-- The width of an access, an integer of at least 1. -/
def width (node : Node) : Except PreconditionFault Int :=
  match node.attributes.find? widthKey with
  | some (.int i) =>
    if 1 ≤ i.toInt then .ok i.toInt else .error (.widthInvalid node.op node.name (.int i))
  | some other => .error (.widthInvalid node.op node.name other)
  | none => .error (.widthMissing node.op node.name)

/-- The common width of the nodes; `first` is the width of the accesses so far with the name of the
first one. -/
def commonWidth : Option (Int × String) → List Node → Except PreconditionFault (Option Int)
  | first, [] => .ok (first.map Prod.fst)
  | first, node :: rest =>
    if isAccess node then do
      let own ← width node
      match first with
      | none => commonWidth (some (own, node.name)) rest
      | some (expected, name) =>
        if own = expected then commonWidth first rest
        else throw (.widthsDiffer node.op node.name own name expected)
    else commonWidth first rest

/-- The common width of all loads and stores, which are looked at in the order of the graph; `none`
if there are none. -/
def canonicalWidth (g : Graph) : Except Error (Option Int) :=
  (commonWidth none (g.order.filterMap g.node?)).mapError .precondition

end TensorGraph.MemoryAccess
