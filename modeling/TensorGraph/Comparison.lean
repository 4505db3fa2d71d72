import TensorGraph.Graph.Consumers

/-!
# Comparison of graphs

Two graphs are compared node by node: the results and the parameters are put in correspondence,
then the nodes that they read, port by port. The correspondence has to be one to one. Some aspects
of the nodes are compared on demand only. `Comparator.compare` finds the first discrepancy.
-/

namespace TensorGraph

/-- What may be compared. -/
inductive Aspect where
  /-- Operators, numbers of inputs and outputs, and shapes; always compared. -/
  | nodes
  /-- The tensors of constants, bit by bit. -/
  | constants
  /-- The names of the nodes. -/
  | names
  /-- The element types of the outputs. -/
  | elementTypes
  /-- The attributes of the nodes. -/
  | attributes
  /-- How many inputs read each output. -/
  | consumerCounts
deriving DecidableEq, Repr

/-- A choice of what is compared. -/
structure Comparator where
  /-- Is the aspect compared? -/
  compares : Aspect → Bool

namespace Comparator

/-- The structure alone. -/
def structural : Comparator := ⟨fun a => a = .nodes⟩

/-- The comparator that compares an aspect as well. -/
def enable (c : Comparator) (aspect : Aspect) : Comparator :=
  ⟨fun a => a = aspect || c.compares a⟩

/-- The comparator that does not compare an aspect; the structure is compared all the same. -/
def disable (c : Comparator) (aspect : Aspect) : Comparator :=
  ⟨fun a => c.compares a && (a ≠ aspect || a = .nodes)⟩

/-- The structure and the element types. -/
def standard : Comparator := structural.enable .elementTypes

end Comparator

/-- What is compared beyond the structure and the element types. -/
structure CompareOptions where
  /-- The attributes of the nodes. -/
  attributes : Bool := false
  /-- The tensors of constants. -/
  constants : Bool := false
  /-- The names of the nodes. -/
  names : Bool := false
  /-- How many inputs read each output. -/
  consumerCounts : Bool := false
deriving DecidableEq, Repr

namespace CompareOptions

/-- Nothing more. -/
def structural : CompareOptions := {}

/-- What a node computes: its attributes and its tensor. -/
def standard : CompareOptions := { attributes := true, constants := true }

/-- The comparator with these options. -/
def comparator (options : CompareOptions) : Comparator :=
  let choices := [(Aspect.attributes, options.attributes), (.constants, options.constants),
    (.names, options.names), (.consumerCounts, options.consumerCounts)]
  choices.foldl (fun c (aspect, on) => if on then c.enable aspect else c) .standard

end CompareOptions

/-- Where two graphs differ; `left` and `right` are nodes that correspond. -/
inductive Discrepancy where
  /-- The graphs have different numbers of outputs. -/
  | resultCounts (left right : Nat)
  /-- The graphs have different numbers of inputs. -/
  | parameterCounts (left right : Nat)
  /-- One of two nodes that correspond does not exist. -/
  | dangling (left right : NodeId)
  /-- A node corresponds to two nodes. -/
  | paths (left right : NodeId)
  /-- The nodes have different operators. -/
  | ops (left right : Node)
  /-- The nodes have different numbers of inputs. -/
  | inputCounts (left right : Node)
  /-- The nodes have different numbers of outputs. -/
  | outputCounts (left right : Node)
  /-- The nodes have different names. -/
  | names (left right : Node)
  /-- An output has different shapes. -/
  | shapes (left right : Node) (slot : Nat) (a b : Shape)
  /-- An output has different element types. -/
  | elementTypes (left right : Node) (slot : Nat) (a b : ElementType)
  /-- An output is read by different numbers of inputs. -/
  | consumerCounts (left right : Node) (slot a b : Nat)
  /-- An attribute differs. -/
  | attributes (left right : Node) (key : String)
  /-- The nodes hold different tensors. -/
  | constants (left right : Node)
  /-- Only one of the nodes holds a tensor. -/
  | constantMissing (left right : Node)
  /-- An input reads different slots. -/
  | inputSlots (left right : Node) (port a b : Nat)
deriving DecidableEq

namespace Discrepancy

/-- A node by its operator and, if it has one, its name. -/
def describe (node : Node) : String :=
  if node.name = "" then node.op else node.op ++ " '" ++ node.name ++ "'"

/-- Two nodes that correspond, the name of the second one only if it differs. -/
def describeBoth (left right : Node) : String :=
  if left.name = right.name then describe left else describe left ++ " / '" ++ right.name ++ "'"

/-- The value of an attribute, if there is one. -/
def attributeText (node : Node) (key : String) : String :=
  ((node.attributes.find? key).map Attribute.plain).getD "<missing>"

/-- The report of a discrepancy. -/
def message : Discrepancy → String
  | resultCounts left right => s!"Different number of results: {left} vs {right}"
  | parameterCounts left right => s!"Different number of parameters: {left} vs {right}"
  | dangling left right => "Dangling node reference: " ++ left.text ++ " vs " ++ right.text
  | paths left right =>
    "Graph structure differs: " ++ left.text ++ " and " ++ right.text ++
      " are reached along different paths"
  | ops left right => "Different op types: " ++ describe left ++ " vs " ++ describe right
  | inputCounts left right =>
    describeBoth left right ++ " has " ++ toString left.inputs.length ++ " inputs vs " ++
      toString right.inputs.length
  | outputCounts left right =>
    describeBoth left right ++ " has " ++ toString left.outputs.length ++ " outputs vs " ++
      toString right.outputs.length
  | names left right =>
    "Different friendly names: '" ++ left.name ++ "' vs '" ++ right.name ++ "'"
  | shapes left right slot a b =>
    describeBoth left right ++ s!" output {slot} has shape " ++ a.text ++ " vs " ++ b.text
  | elementTypes left right slot a b =>
    describeBoth left right ++ s!" output {slot} has element type " ++ a.name ++ " vs " ++ b.name
  | consumerCounts left right slot a b =>
    describeBoth left right ++ s!" output {slot} has {a} consumers vs {b}"
  | attributes left right key =>
    describeBoth left right ++ s!" attribute '{key}' differs: " ++ attributeText left key ++
      " vs " ++ attributeText right key
  | constants left right => describeBoth left right ++ " holds different values"
  | constantMissing left right => describeBoth left right ++ " has a payload on only one side"
  | inputSlots left right port a b =>
    describeBoth left right ++ s!" input {port} reads slot {a} vs {b}"

end Discrepancy

/-- The nodes put in correspondence so far. -/
structure Correspondence where
  /-- The pairs, the last one first. -/
  pairs : List (NodeId × NodeId) := []
  /-- The pairs that are still to be compared, in order. -/
  queue : List (NodeId × NodeId) := []

namespace Correspondence

/-- Puts two nodes in correspondence, unless one of them has another partner already. -/
def pair (c : Correspondence) (l r : NodeId) : Except Discrepancy Correspondence :=
  match c.pairs.find? (·.1 = l), c.pairs.find? (·.2 = r) with
  | none, none => .ok ⟨(l, r) :: c.pairs, c.queue ++ [(l, r)]⟩
  | some (_, partner), _ => if partner = r then .ok c else .error (.paths l r)
  | none, some _ => .error (.paths l r)

/-- Puts nodes in correspondence, one by one. -/
def pairAll (c : Correspondence) : List NodeId → List NodeId → Except Discrepancy Correspondence
  | l :: ls, r :: rs => do (← c.pair l r).pairAll ls rs
  | _, _ => .ok c

/-- Puts the nodes in correspondence that two nodes read, from input `port` on. -/
def pairInputs (c : Correspondence) (left right : Node) :
    Nat → List Output → List Output → Except Discrepancy Correspondence
  | port, a :: as, b :: bs => do
    if a.slot ≠ b.slot then throw (.inputSlots left right port a.slot b.slot)
    (← c.pair a.node b.node).pairInputs left right (port + 1) as bs
  | _, _, _ => .ok c

end Correspondence

namespace Comparator

/-- Compares the outputs of two nodes, from `slot` on. -/
def compareOutputs (c : Comparator) (lhs rhs : Graph) (l r : NodeId) (left right : Node) :
    Nat → List Slot → List Slot → Except Discrepancy Unit
  | slot, a :: as, b :: bs => do
    if a.shape ≠ b.shape then throw (.shapes left right slot a.shape b.shape)
    if c.compares .elementTypes ∧ a.element ≠ b.element then
      throw (.elementTypes left right slot a.element b.element)
    if c.compares .consumerCounts then
      let m := (lhs.consumers ⟨l, slot⟩).length
      let n := (rhs.consumers ⟨r, slot⟩).length
      if m ≠ n then throw (.consumerCounts left right slot m n)
    c.compareOutputs lhs rhs l r left right (slot + 1) as bs
  | _, _, _ => .ok ()

/-- The first attribute that two nodes do not share, of those of the left one and then those of the
right one. Values are compared bit by bit. -/
def differingKey? (left right : Node) : Option String :=
  (left.attributes.keys ++ right.attributes.keys).find? fun key =>
    left.attributes.find? key ≠ right.attributes.find? key

/-- Compares the tensors that two nodes hold. -/
def compareConstants (left right : Node) : Except Discrepancy Unit :=
  match left.constant, right.constant with
  | none, none => .ok ()
  | some a, some b =>
    if a.elementType = b.elementType ∧ a.extents = b.extents ∧ a.data.bytes = b.data.bytes then
      .ok ()
    else .error (.constants left right)
  | _, _ => .error (.constantMissing left right)

/-- Compares two nodes. -/
def compareNodes (c : Comparator) (lhs rhs : Graph) (l r : NodeId) (left right : Node) :
    Except Discrepancy Unit := do
  if left.op ≠ right.op then throw (.ops left right)
  if left.inputs.length ≠ right.inputs.length then throw (.inputCounts left right)
  if left.outputs.length ≠ right.outputs.length then throw (.outputCounts left right)
  if c.compares .names ∧ left.name ≠ right.name then throw (.names left right)
  c.compareOutputs lhs rhs l r left right 0 left.outputs right.outputs
  if c.compares .attributes then
    match differingKey? left right with
    | some key => throw (.attributes left right key)
    | none => pure ()
  if c.compares .constants then compareConstants left right

/-- Compares the pairs that are still to be compared and puts what they read in correspondence.
Each node on the left is paired once, so that one step for each of them is enough, and one more for
a pair that does not exist. -/
def walk (c : Comparator) (lhs rhs : Graph) : Nat → Correspondence → Except Discrepancy Unit
  | 0, _ => .ok ()
  | fuel + 1, k =>
    match k.queue with
    | [] => .ok ()
    | (l, r) :: queue =>
      match lhs.node? l, rhs.node? r with
      | some left, some right => do
        c.compareNodes lhs rhs l r left right
        let k ← { k with queue }.pairInputs left right 0 left.inputs right.inputs
        c.walk lhs rhs fuel k
      | _, _ => throw (.dangling l r)

/-- Finds the first discrepancy of two graphs. -/
def compare (c : Comparator) (lhs rhs : Graph) : Except Discrepancy Unit := do
  if lhs.results.length ≠ rhs.results.length then
    throw (.resultCounts lhs.results.length rhs.results.length)
  if lhs.parameters.length ≠ rhs.parameters.length then
    throw (.parameterCounts lhs.parameters.length rhs.parameters.length)
  let k ← ({} : Correspondence).pairAll lhs.results rhs.results
  let k ← k.pairAll lhs.parameters rhs.parameters
  c.walk lhs rhs (lhs.size + 1) k

end Comparator

end TensorGraph
