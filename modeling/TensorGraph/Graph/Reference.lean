/-!
# References

Nodes are named by their place in the arena of a graph; the place of a removed node may be taken
again by a later one.
-/

namespace TensorGraph

/-- The place of a node in the arena of its graph. -/
abbrev NodeId := Nat

/-- The text of a node's place. -/
def NodeId.text (id : NodeId) : String := "NodeIndex(" ++ toString id ++ ")"

/-- A reference to one output slot of a node. -/
structure Output where
  /-- The node that produces the output. -/
  node : NodeId
  /-- The position of the output among those of the node. -/
  slot : Nat
deriving DecidableEq, Repr

end TensorGraph
