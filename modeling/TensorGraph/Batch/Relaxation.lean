import TensorGraph.Pass

/-!
# Relaxation of batches

A reshape with a known target fixes the batch, the extent of its first dimension. Relaxing it puts
nodes in front of the target that compute the batch from that of the data, so that the reshape
follows a change of the batch:

```text
ShapeOf(data) → Gather([0]) → Convert(f64) → Multiply(outBatch) → Divide(inBatch)
  → Ceiling → Convert
Concat(that, Gather(target, [1 .. length - 1]))
```
-/

namespace TensorGraph

namespace Relaxation

/-- A reshape that is to be relaxed. -/
structure Candidate where
  /-- The reshape. -/
  reshape : NodeId
  /-- What it reads as its data. -/
  data : Output
  /-- What it reads as its target. -/
  target : Output
  /-- The element type of the target. -/
  element : ElementType
  /-- The number of entries of the target. -/
  length : Nat
  /-- The batch of the data. -/
  inBatch : Nat
  /-- The batch that the target asks for. -/
  outBatch : Int
deriving DecidableEq, Repr

/-- The batch of data that have a rank above 1 and whose first extent is known. -/
def inBatch? (data : Slot) : Option Nat :=
  match data.shape with
  | .ranked (.fixed batch :: _ :: _) => some batch
  | _ => none

/-- Has the first output of a node a known rank above 1? -/
def hasRows (node : Node) : Bool :=
  match node.outputs.head?.bind fun slot => slot.shape.rank? with
  | some rank => 1 < rank
  | none => false

/-- The candidate at a reshape. There is none if a shape is not known well enough, if the target is
not known, or if its first entry is 0 or -1, which follows the batch of the data anyway. -/
def candidate? (g : Graph) (reshape : NodeId) : Except Error (Option Candidate) := do
  let node ← g.node reshape
  match node.inputs with
  | [data, target] =>
    match inBatch? (← g.slot data) with
    | none => pure none
    | some inBatch =>
      if !hasRows node then return none
      let slot ← g.slot target
      match slot.value.bind Tensor.integers? with
      | none | some [] => pure none
      | some (outBatch :: rest) =>
        if outBatch ≤ 0 then return none
        if inBatch = 0 then throw (.precondition (.zeroInputBatch node.name))
        pure (some
          { reshape, data, target, element := slot.element, length := rest.length + 1, inBatch,
            outBatch })
  | _ => pure none

/-- The attributes of a node with one attribute that names an element type. -/
def typeAttribute (key : String) (element : ElementType) : AttributeMap :=
  AttributeMap.empty.insert key (.text element.name)

/-- A tensor of one number. -/
def oneNumber (x : Int) : Tensor := .ofData (.f64 [.ofInt x])

/-- Puts the nodes that compute its target in front of a reshape. -/
def relax (registry : Registry) (c : Candidate) : GraphM Unit := do
  let stem := (← GraphM.ask (·.node c.reshape)).name
  let named (part : String) : String := stem ++ "/" ++ part
  let read (id : NodeId) : Output := ⟨id, 0⟩
  let make := GraphM.makeNode registry
  let shape ← make {
    op := "ShapeOf", name := named "shape", inputs := [c.data]
    attributes := typeAttribute "output_type" .i64 }
  let first ← GraphM.addConstant (.ofInts [0])
  let axis ← GraphM.addConstant (.ofInts [0])
  let batch ← make {
    op := "Gather", name := named "batch", inputs := [read shape, read first, read axis] }
  let number ← make {
    op := "Convert", inputs := [read batch]
    attributes := typeAttribute "destination_type" .f64 }
  let outBatch ← GraphM.addConstant (oneNumber c.outBatch)
  let scaled ← make { op := "Multiply", inputs := [read number, read outBatch] }
  let inBatch ← GraphM.addConstant (oneNumber c.inBatch)
  let ratio ← make { op := "Divide", inputs := [read scaled, read inBatch] }
  let rounded ← make { op := "Ceiling", inputs := [read ratio] }
  let modified ← make {
    op := "Convert", name := named "modified_batch", inputs := [read rounded]
    attributes := typeAttribute "destination_type" c.element }
  let indices ← GraphM.addConstant (.ofInts ((List.range' 1 (c.length - 1)).map Int.ofNat))
  let rest ← make {
    op := "Gather", name := named "non_batch_dims", inputs := [c.target, read indices, read axis] }
  let target ← make {
    op := "Concat", name := named "target", inputs := [read modified, read rest]
    attributes := AttributeMap.empty.insert "axis" (.int 0) }
  GraphM.setInput c.reshape 1 (read target)

/-- A reshape with its data and its target. -/
def pattern : Pattern :=
  (Pattern.op "Reshape").withInputs [Pattern.any.named "data", Pattern.any.named "target"]

/-- The candidates of a graph, in its order. -/
def candidates (g : Graph) : Except Error (List Candidate) := do
  let found ← (pattern.findAll g).mapM fun m => candidate? g m.root
  pure (found.filterMap id)

end Relaxation

/-- Relaxes every reshape that fixes the batch. It runs as part of a change of the batch size
only. All candidates are found before the first one is relaxed. -/
def Pass.relaxBatches : Pass where
  name := "mimic_set_batch_size"
  run ctx := do
    if !ctx.batchUpdate then throw (.precondition .noBatchUpdate)
    let _ ← GraphM.inferStale ctx.registry
    let candidates ← GraphM.ask Relaxation.candidates
    candidates.forM (Relaxation.relax ctx.registry)
    pure !candidates.isEmpty

end TensorGraph
