import TensorGraph.Inference
import TensorGraph.Pattern

/-!
# Passes

A pass changes a graph. A `Rule` does so in one place, where its pattern fits; a `Pass` looks at the
whole graph.
-/

namespace TensorGraph

/-- What a pass is told beside the graph. -/
structure Context where
  /-- The operators that compute the outputs of new nodes. -/
  registry : Registry
  /-- Does the pass run as part of a change of the batch size? -/
  batchUpdate : Bool := false

/-- What a rule did in a place. -/
inductive Outcome where
  /-- Nothing. -/
  | unchanged
  /-- It changed the graph; the nodes behind are still to be looked at. -/
  | changed
  /-- It changed the graph so that the nodes are to be looked at from the start. -/
  | restart
deriving DecidableEq, Repr

/-- A change to make wherever a pattern fits. -/
structure Rule where
  /-- The name of the rule. -/
  name : String
  /-- Where the rule applies. -/
  pattern : Pattern
  /-- The change. -/
  apply : Context → Match → GraphM Outcome

/-- A change to the whole graph. -/
structure Pass where
  /-- The name of the pass. -/
  name : String
  /-- The change, with the answer whether there was one. -/
  run : Context → GraphM Bool

/-- Computes the outputs of every node again. -/
def Pass.shapeInference : Pass where
  name := "shape_inference"
  run ctx := GraphM.inferAll ctx.registry

end TensorGraph
