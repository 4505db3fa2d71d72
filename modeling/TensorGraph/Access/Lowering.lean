import TensorGraph.Access.Canonical
import TensorGraph.Pipeline

/-!
# Lowering of memory accesses

For machines that move single elements only, every load and store of a greater width is replaced
by its scalar form, which has width 1 and all else of the node it replaces.
-/

namespace TensorGraph

namespace MemoryAccess

/-- Does the node move more than one element at once? -/
def isVector (g : Graph) (id : NodeId) : Bool :=
  ((g.node? id).bind fun node => node.attributes.int? widthKey).any (1 < ·)

/-- The scalar form of an access. -/
def scalarForm (op : String) (node : Node) : Node where
  op
  name := node.name
  attributes := node.attributes.insert widthKey (.int 1)
  inputs := node.inputs

/-- Replaces an access by its scalar form. -/
def lower (op : String) (ctx : Context) (m : Match) : GraphM Outcome := do
  let vector ← GraphM.ask (·.node m.root)
  let scalar ← GraphM.makeNode ctx.registry (scalarForm op vector)
  GraphM.replaceNode m.root scalar
  let _ ← GraphM.removeNode m.root
  pure .changed

/-- The accesses of an operator type that move more than one element at once. -/
def vectorPattern (op : String) : Pattern := (Pattern.op op).satisfying isVector

end MemoryAccess

/-- Lowers loads. -/
def Rule.lowerLoads : Rule where
  name := "replace_loads_with_scalar_loads"
  pattern := MemoryAccess.vectorPattern MemoryAccess.load
  apply := MemoryAccess.lower MemoryAccess.scalarLoad

/-- Lowers stores. -/
def Rule.lowerStores : Rule where
  name := "replace_stores_with_scalar_stores"
  pattern := MemoryAccess.vectorPattern MemoryAccess.store
  apply := MemoryAccess.lower MemoryAccess.scalarStore

/-- Lowers loads and stores. -/
def RuleGroup.lowerAccesses : RuleGroup where
  name := "vector_to_scalar"
  rules := [.lowerLoads, .lowerStores]

/-- Lowers the accesses of a graph in canonical form, in at most `limit` sweeps. -/
def Pass.lowerAccesses (limit : Nat) : Pass where
  name := "vector_to_scalar"
  run ctx := do
    match ← GraphM.ask MemoryAccess.canonicalWidth with
    | none | some 1 => pure false
    | some _ =>
      let group := { RuleGroup.lowerAccesses with limit := some limit }
      group.run ctx 0

/-- How many sweeps the lowering may take unless told otherwise. -/
def Pass.lowerAccessesLimit : Nat := ({} : Settings).sweepLimit

end TensorGraph
