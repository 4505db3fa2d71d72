import TensorGraph.Operators.Core
import TensorGraph.Proofs.Batch.Candidates
import TensorGraph.Proofs.Graph.Growth

/-!
# The nodes in front of a relaxed target

Relaxing a candidate makes fourteen nodes (`Candidate.plan`) and lets the reshape read the last of
them as its target. `Relaxation.exists_grown_of_relax` says what has become of the graph.
-/

namespace TensorGraph.Relaxation

/-- The places of the nodes that compute a target. -/
structure Chain where
  /-- The extents of the data. -/
  shape : NodeId
  /-- The index of the batch among them. -/
  first : NodeId
  /-- The axis of both gathers. -/
  axis : NodeId
  /-- The batch of the data. -/
  batch : NodeId
  /-- The batch as a number. -/
  number : NodeId
  /-- The batch that the target asked for. -/
  outBatch : NodeId
  /-- The product of the two. -/
  scaled : NodeId
  /-- The batch that the data had. -/
  inBatch : NodeId
  /-- The quotient by it. -/
  ratio : NodeId
  /-- The quotient rounded up. -/
  rounded : NodeId
  /-- The quotient as an element of the target. -/
  modified : NodeId
  /-- The indices of what the target says of the other dimensions. -/
  indices : NodeId
  /-- What it says of them. -/
  rest : NodeId
  /-- The new target. -/
  target : NodeId

/-- The first output of a node. -/
def output (id : NodeId) : Output := ⟨id, 0⟩

/-- The indices of the entries of the target after the first one. -/
def Candidate.indices (c : Candidate) : Tensor :=
  .ofInts ((List.range' 1 (c.length - 1)).map Int.ofNat)

/-- The nodes that compute a target, in the order in which they are made. -/
def Candidate.plan (c : Candidate) (stem : String) (chain : Chain) : List (NodeId × Node) :=
  [(chain.shape, {
      op := "ShapeOf", name := stem ++ "/" ++ "shape", inputs := [c.data]
      attributes := typeAttribute "output_type" .i64 }),
    (chain.first, (GraphM.constantNode (.ofInts [0])).bare),
    (chain.axis, (GraphM.constantNode (.ofInts [0])).bare),
    (chain.batch, {
      op := "Gather", name := stem ++ "/" ++ "batch"
      inputs := [output chain.shape, output chain.first, output chain.axis] }),
    (chain.number, {
      op := "Convert", inputs := [output chain.batch]
      attributes := typeAttribute "destination_type" .f64 }),
    (chain.outBatch, (GraphM.constantNode (oneNumber c.outBatch)).bare),
    (chain.scaled, { op := "Multiply", inputs := [output chain.number, output chain.outBatch] }),
    (chain.inBatch, (GraphM.constantNode (oneNumber c.inBatch)).bare),
    (chain.ratio, { op := "Divide", inputs := [output chain.scaled, output chain.inBatch] }),
    (chain.rounded, { op := "Ceiling", inputs := [output chain.ratio] }),
    (chain.modified, {
      op := "Convert", name := stem ++ "/" ++ "modified_batch", inputs := [output chain.rounded]
      attributes := typeAttribute "destination_type" c.element }),
    (chain.indices, (GraphM.constantNode c.indices).bare),
    (chain.rest, {
      op := "Gather", name := stem ++ "/" ++ "non_batch_dims"
      inputs := [c.target, output chain.indices, output chain.axis] }),
    (chain.target, {
      op := "Concat", name := stem ++ "/" ++ "target"
      inputs := [output chain.modified, output chain.rest]
      attributes := AttributeMap.empty.insert "axis" (.int 0) })]

variable {c : Candidate} {g g' : Graph}

/-- Relaxing a candidate makes the nodes of its plan, and lets the reshape read the last one. -/
theorem exists_grown_of_relax (data : g.contains c.data.node) (target : g.contains c.target.node)
    (relaxed : (relax .core c).runOn g = (.ok (), g')) :
    ∃ (stem : String) (chain : Chain) (g₁ : Graph),
      Graph.Grown .core [c.data.node, c.target.node] (c.plan stem chain) g g₁ ∧
        (GraphM.setInput c.reshape 1 (output chain.target)).runOn g₁ = (.ok (), g') := by
  simp only [relax, GraphM.runOn_bind_eq_ok_iff] at relaxed
  obtain ⟨node, _, asked, shape, _, hshape, first, _, hfirst, axis, _, haxis, batch, _, hbatch,
    number, _, hnumber, outBatch, _, houtBatch, scaled, _, hscaled, inBatch, _, hinBatch, ratio, _,
    hratio, rounded, _, hrounded, modified, _, hmodified, indices, _, hindices, rest, _, hrest,
    last, _, hlast, rewired⟩ := relaxed
  obtain ⟨-, rfl⟩ := GraphM.runOn_ask_eq_ok_iff.1 asked
  have steady := Registry.steady_core
  have live : ∀ s ∈ [c.data.node, c.target.node], g.contains s := by simp [data, target]
  have grown := Graph.Grown.refl .core [c.data.node, c.target.node] g
  replace grown := grown.make steady live hshape (by simp)
  replace grown := grown.constant live hfirst
  replace grown := grown.constant live haxis
  replace grown := grown.make steady live hbatch (by simp)
  replace grown := grown.make steady live hnumber (by simp)
  replace grown := grown.constant live houtBatch
  replace grown := grown.make steady live hscaled (by simp)
  replace grown := grown.constant live hinBatch
  replace grown := grown.make steady live hratio (by simp)
  replace grown := grown.make steady live hrounded (by simp)
  replace grown := grown.make steady live hmodified (by simp)
  replace grown := grown.constant live hindices
  replace grown := grown.make steady live hrest (by simp)
  replace grown := grown.make steady live hlast (by simp)
  exact ⟨node.name, ⟨shape, first, axis, batch, number, outBatch, scaled, inBatch, ratio, rounded,
    modified, indices, rest, last⟩, _, grown, rewired⟩

end TensorGraph.Relaxation
