import TensorGraph.Attribute
import TensorGraph.Graph.Reference
import TensorGraph.Tensor

/-!
# Errors

An error states its cause. The causes are grouped by what went wrong: the structure of the graph,
the conditions under which a pass may run, the inference of types, the folding of constants, or
the attributes of a node. `Error.message` is the report that a reader gets.
-/

namespace TensorGraph

/-- The graph lacks something that is referred to, or holds a cycle. -/
inductive StructuralFault where
  /-- There is no such node. -/
  | nodeMissing (id : NodeId)
  /-- A reference names a slot that its producer does not have. -/
  | slotMissing (name op : String) (slot : Nat)
  /-- A slot is to be given a type that its node does not have. -/
  | outputMissing (id : NodeId) (slot : Nat)
  /-- There is no such input port. -/
  | portOutOfRange (port : Nat) (id : NodeId) (inputs : Nat)
  /-- The replacement of a node lacks a slot that is read. -/
  | replacementTooNarrow (old : NodeId) (slot : Nat) (new : NodeId) (outputs : Nat)
  /-- An input reads a node that does not exist. -/
  | inputMissing (name op : String) (id : NodeId) (port : Nat) (source : NodeId)
  /-- An input reads a slot that its producer does not have. -/
  | inputSlotMissing (name op : String) (id : NodeId) (port slot : Nat) (producer : String)
      (outputs : Nat)
  /-- A parameter or result of the graph does not exist. -/
  | designatedMissing (id : NodeId)
  /-- The edges close a cycle. -/
  | cyclic (graph : String)
deriving DecidableEq, Repr

/-- A pass was run where it does not apply. -/
inductive PreconditionFault where
  /-- Batches are relaxed outside a change of the batch size. -/
  | noBatchUpdate
  /-- The data of a reshape to be relaxed has batch 0. -/
  | zeroInputBatch (name : String)
  /-- A batch is scaled from one that is not positive. -/
  | inputBatchNotPositive (batch : Int)
  /-- The batch size is to become 0. -/
  | zeroBatch
  /-- The width of a memory access is no integer of at least 1. -/
  | widthInvalid (op name : String) (width : Attribute)
  /-- A memory access has no width. -/
  | widthMissing (op name : String)
  /-- A memory access has another width than the first one. -/
  | widthsDiffer (op name : String) (width : Int) (first : String) (expected : Int)
deriving DecidableEq

/-- The types of a node's outputs cannot be inferred. -/
inductive InferenceFault where
  /-- There is no operator of that type. -/
  | unregistered (op : String)
  /-- The node has the wrong number of inputs. -/
  | arity (op : String) (expected actual : Nat)
  /-- An input is asked for that the node does not have. -/
  | inputOutOfRange (index inputs : Nat)
  /-- A parameter declares no type. -/
  | parameterUntyped (name : String)
  /-- A constant holds no tensor. -/
  | constantEmpty (name : String)
  /-- The operands have different element types. -/
  | elementTypesDiffer (op : String) (left right : ElementType)
  /-- Two shapes do not broadcast. -/
  | notBroadcastable (left right : Shape) (position m n : Nat)
  /-- The broadcast of fixed shapes is not fixed. -/
  | broadcastNotFixed
  /-- An axis is no dimension of its tensor. -/
  | axisOutOfRange (op : String) (axis : Int) (rank : Nat)
  /-- A reshape pattern leaves two entries to be inferred. -/
  | inferredTwice
  /-- A reshape pattern copies a dimension that the data lacks. -/
  | copiedDimMissing (position : Nat) (data : Shape)
  /-- An entry of a reshape pattern is below -1. -/
  | entryInvalid (entry : Int) (position : Nat)
  /-- The inferred entry of a reshape pattern would be no whole number. -/
  | entryNotInferable (pattern : List Int) (data : Shape)
  /-- A reshape changes the number of elements. -/
  | elementCountsDiffer (data : Shape) (before : Nat) (target : Shape) (after : Nat)
  /-- Nothing is concatenated. -/
  | concatEmpty
  /-- An input of a concatenation has another element type than the first. -/
  | concatElementType (input : Nat) (actual expected : ElementType)
  /-- An input of a concatenation has another rank than the first. -/
  | concatRank (input actual expected : Nat)
  /-- An input of a concatenation has another extent off the axis. -/
  | concatExtent (input dim actual expected : Nat)
  /-- A gather has neither two nor three inputs. -/
  | gatherArity (actual : Nat)
  /-- The axis of a gather is no single integer. -/
  | gatherAxis (extents : List Nat)
deriving DecidableEq, Repr

/-- The value of a node's outputs cannot be computed. -/
inductive FoldingFault where
  /-- An operator gives a value for more or fewer outputs than there are. -/
  | valueCount (op : String) (values types : Nat)
  /-- There are no elements of the target type. -/
  | castUnsupported (source target : ElementType)
  /-- The values to be concatenated have different element types. -/
  | concatMixed
  /-- An index of a gather is beyond the axis. -/
  | indexOutOfRange (index : Int) (extent : Nat)
deriving DecidableEq, Repr

/-- An attribute of a node is missing or has the wrong value. -/
inductive AttributeFault where
  /-- There is no element type of that name. -/
  | unknownElementType (name : String)
  /-- An integer attribute is missing. -/
  | integerMissing (op key : String)
  /-- A text attribute is missing. -/
  | textMissing (op key : String)
  /-- An attribute is no integer. -/
  | notInteger (op key : String) (value : Attribute)
  /-- An attribute is no truth value. -/
  | notBool (op key : String) (value : Attribute)
  /-- A shape cannot be given in that element type. -/
  | shapeElementType (type : ElementType)
  /-- The width of a memory access is below 1. -/
  | widthTooSmall (op : String) (width : Int)
  /-- A scalar memory access has a width other than 1. -/
  | scalarWidth (op : String) (width : Int)
deriving DecidableEq

/-- Why an operation failed. -/
inductive Error where
  | structural (fault : StructuralFault)
  | precondition (fault : PreconditionFault)
  /-- A group of rules was still changing the graph after its last sweep. -/
  | fixpointNotReached (pass : String) (sweeps : Nat)
  | inference (fault : InferenceFault)
  | folding (fault : FoldingFault)
  | attr (fault : AttributeFault)
  /-- Something an operator or a pass does not do, in its own words. -/
  | unsupported (what : String)
  /-- The types of the named node cannot be inferred, for the given cause. -/
  | untyped (name op : String) (cause : Error)
  /-- The named node cannot be folded, for the given cause. -/
  | unfolded (name op : String) (cause : Error)
deriving DecidableEq

/-- The report of a structural fault. -/
def StructuralFault.message : StructuralFault → String
  | nodeMissing id => "Node " ++ id.text ++ " not found"
  | slotMissing name op slot => s!"Node '{name}' ({op}) has no output slot {slot}"
  | outputMissing id slot => "Node " ++ id.text ++ s!" has no output slot {slot}"
  | portOutOfRange port id inputs =>
    s!"Input port {port} out of range (node " ++ id.text ++ s!" has {inputs} inputs)"
  | replacementTooNarrow old slot new outputs =>
    "Cannot replace node " ++ old.text ++ s!": slot {slot} is consumed but replacement " ++
      new.text ++ s!" has {outputs} outputs"
  | inputMissing name op id port source =>
    s!"Node '{name}' ({op}, " ++ id.text ++ s!") input {port} references missing node " ++
      source.text
  | inputSlotMissing name op id port slot producer outputs =>
    s!"Node '{name}' ({op}, " ++ id.text ++
      s!") input {port} references slot {slot} of {producer} which has {outputs} outputs"
  | designatedMissing id => "Designated input/output " ++ id.text ++ " is not part of the function"
  | cyclic graph => s!"Function '{graph}' contains a cycle"

/-- The report of a violated precondition. -/
def PreconditionFault.message : PreconditionFault → String
  | noBatchUpdate => "mimic_set_batch_size only runs inside a set-batch-size operation"
  | zeroInputBatch name =>
    s!"Reshape '{name}' has a zero input batch; cannot compute the batch ratio"
  | inputBatchNotPositive batch => s!"Input batch must be positive to relax a Reshape, got {batch}"
  | zeroBatch => "Batch size must be at least 1"
  | widthInvalid op name width => s!"{op} '{name}' has invalid vector_width " ++ width.tagged
  | widthMissing op name => s!"{op} '{name}' has no vector_width attribute"
  | widthsDiffer op name width first expected =>
    s!"{op} '{name}' has vector_width {width}, but '{first}' has {expected}"

/-- The report of a fault of type inference. -/
def InferenceFault.message : InferenceFault → String
  | unregistered op => s!"No operator registered for type: {op}"
  | arity op expected actual => s!"{op} expects {expected} inputs, got {actual}"
  | inputOutOfRange index inputs => s!"Input index {index} out of range (node has {inputs} inputs)"
  | parameterUntyped name => s!"Parameter '{name}' has no declared output type"
  | constantEmpty name => s!"Constant '{name}' has no payload"
  | elementTypesDiffer op left right =>
    s!"{op}: element types differ (" ++ left.name ++ " vs " ++ right.name ++ ")"
  | notBroadcastable left right position m n =>
    "Cannot broadcast shapes " ++ left.text ++ " and " ++ right.text ++
      s!": dimension mismatch at position {position} ({m} vs {n})"
  | broadcastNotFixed => "Broadcast of static shapes is not static"
  | axisOutOfRange op axis rank => s!"{op}: axis {axis} out of bounds for rank {rank}"
  | inferredTwice => "Reshape: pattern has more than one -1 entry"
  | copiedDimMissing position data =>
    s!"Reshape: pattern entry {position} copies a dimension the input " ++ data.text ++
      " does not have"
  | entryInvalid entry position => s!"Reshape: invalid pattern entry {entry} at position {position}"
  | entryNotInferable pattern data =>
    "Reshape: cannot infer -1 entry of " ++ Text.bracketed (pattern.map toString) ++
      " from input " ++ data.text
  | elementCountsDiffer data before target after =>
    "Reshape: cannot reshape " ++ data.text ++ s!" ({before} elements) to " ++ target.text ++
      s!" ({after} elements)"
  | concatEmpty => "Concat requires at least one input"
  | concatElementType input actual expected =>
    s!"Concat input {input} has element type " ++ actual.name ++ ", expected " ++ expected.name
  | concatRank input actual expected =>
    s!"Concat input {input} has {actual} dimensions, expected {expected}"
  | concatExtent input dim actual expected =>
    s!"Concat input {input} dimension {dim} mismatch: {actual} vs {expected}"
  | gatherArity actual => s!"Gather expects 2 or 3 inputs, got {actual}"
  | gatherAxis extents =>
    "Gather: axis input must hold a single integer, got shape " ++
      Text.bracketed (extents.map toString)

/-- The report of a fault of constant folding. -/
def FoldingFault.message : FoldingFault → String
  | valueCount op values types =>
    s!"Operator {op} returned {values} folded outputs but {types} output types"
  | castUnsupported source target =>
    "Cast from " ++ source.label ++ " to " ++ target.label ++ " not supported in constant folding"
  | concatMixed => "Concat: input types mismatch"
  | indexOutOfRange index extent =>
    s!"Gather: index {index} out of bounds for axis of size {extent}"

/-- The report of a fault of an attribute. -/
def AttributeFault.message : AttributeFault → String
  | unknownElementType name => s!"Unknown element type '{name}'"
  | integerMissing op key => s!"{op}: missing required i64 attribute '{key}'"
  | textMissing op key => s!"{op}: missing required string attribute '{key}'"
  | notInteger op key value => s!"{op}: attribute '{key}' must be an integer, got " ++ value.plain
  | notBool op key value => s!"{op}: attribute '{key}' must be a bool, got " ++ value.plain
  | shapeElementType type => "ShapeOf: output_type must be i64 or i32, got " ++ type.name
  | widthTooSmall op width => s!"{op}: vector_width must be at least 1, got {width}"
  | scalarWidth op width => s!"{op}: scalar access requires vector_width = 1, got {width}"

namespace Error

/-- The report of an error, which opens with the group of its cause. -/
def message : Error → String
  | structural fault => "Structural error: " ++ fault.message
  | precondition fault => "Precondition violation: " ++ fault.message
  | fixpointNotReached pass sweeps =>
    s!"Pass '{pass}' did not reach a fixpoint within {sweeps} iterations"
  | inference fault => "Shape inference error: " ++ fault.message
  | folding fault => "Constant folding error: " ++ fault.message
  | attr fault => "Attribute error: " ++ fault.message
  | unsupported what => "Unsupported operation: " ++ what
  | untyped name op cause =>
    s!"Shape inference error: Failed to infer types for node '{name}' (op_type: {op}): " ++
      cause.message
  | unfolded name op cause =>
    s!"Constant folding error: Failed to fold node '{name}' (op_type: {op}): " ++
      cause.message

end Error

/-- The element type that an attribute names. -/
def ElementType.ofName (name : String) : Except Error ElementType :=
  match ofName? name with
  | some type => .ok type
  | none => .error (.attr (.unknownElementType name))

end TensorGraph
