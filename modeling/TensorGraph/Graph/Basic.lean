import TensorGraph.Arena
import TensorGraph.Error

/-!
# Graphs of tensor operations

A graph owns its nodes in an arena. A node reads output slots of other nodes through its inputs.
The edges of the graph stand beside the inputs: they are what order, staleness, collection and
consumers follow. An edge joins nodes that exist, while an input may name a node that does not.
-/

namespace TensorGraph

/-- What is known of the type of an output. -/
structure SlotType where
  /-- The element type. -/
  element : ElementType
  /-- The shape, as far as it is known. -/
  shape : Shape
deriving DecidableEq, Repr

/-- One output of a node. -/
structure Slot extends SlotType where
  /-- The value, if it is known before the graph runs. -/
  value : Option Tensor := none
deriving DecidableEq, Repr

/-- A slot of the given type whose value is not known. -/
def Slot.ofType (type : SlotType) : Slot := { type with }

/-- One operation of a graph. -/
structure Node where
  /-- The type of the operator. -/
  op : String
  /-- A name for the reader; it may be empty. -/
  name : String := ""
  /-- The constants that the operator is configured with. -/
  attributes : AttributeMap := .empty
  /-- What the node reads, by port. -/
  inputs : List Output := []
  /-- What the node produces, by slot. -/
  outputs : List Slot := []
  /-- The tensor that a constant holds. -/
  constant : Option Tensor := none
deriving DecidableEq

/-- A node in its place in an arena. -/
structure Entry where
  /-- The node. -/
  node : Node
  /-- How many nodes had been inserted into the graph before it. -/
  seq : Nat
  /-- Do its outputs have to be computed again? -/
  stale : Bool
deriving DecidableEq

/-- A node reads another one. -/
structure Edge where
  /-- The node that is read. -/
  source : NodeId
  /-- The node that reads. -/
  target : NodeId
  /-- The input port through which it reads. -/
  port : Nat
deriving DecidableEq, Repr

/-- A graph of tensor operations. -/
structure Graph where
  /-- The name of the graph. -/
  name : String
  /-- The nodes. -/
  arena : Arena Entry := .empty
  /-- Which node reads which. -/
  edges : List Edge := []
  /-- How many nodes have been inserted so far. -/
  nextSeq : Nat := 0
  /-- The inputs of the graph. -/
  parameters : List NodeId := []
  /-- The outputs of the graph. -/
  results : List NodeId := []
  /-- The edges join nodes that exist. -/
  edges_live : ∀ edge ∈ edges,
    (arena.get? edge.source).isSome ∧ (arena.get? edge.target).isSome := by simp
  /-- Every node has been inserted. -/
  seq_lt : ∀ id entry, arena.get? id = some entry → entry.seq < nextSeq := by simp
deriving DecidableEq

namespace Graph

/-- The graph of the given name without nodes. -/
def empty (name : String) : Graph := { name }

/-! ### Nodes -/

/-- What stands at a place of the arena. -/
def get? (g : Graph) (id : NodeId) : Option Entry := g.arena.get? id

/-- The node of the given place. -/
def node? (g : Graph) (id : NodeId) : Option Node := (g.get? id).map Entry.node

/-- Is there a node in that place? -/
def contains (g : Graph) (id : NodeId) : Bool := (g.get? id).isSome

/-- The node of the given place, or the complaint that there is none. -/
def node (g : Graph) (id : NodeId) : Except Error Node :=
  match g.node? id with
  | some node => .ok node
  | none => .error (.structural (.nodeMissing id))

/-- The slot that a reference names. -/
def slot (g : Graph) (o : Output) : Except Error Slot := do
  let node ← g.node o.node
  match node.outputs[o.slot]? with
  | some slot => .ok slot
  | none => .error (.structural (.slotMissing node.name node.op o.slot))

/-- The nodes with their places, in the order of the places. -/
def placed (g : Graph) : List (NodeId × Entry) := g.arena.toList

/-- The places of the nodes, in order. -/
def ids (g : Graph) : List NodeId := g.placed.map Prod.fst

/-- The number of nodes. -/
def size (g : Graph) : Nat := g.placed.length

/-- The number of nodes of an operator type. -/
def countOp (g : Graph) (op : String) : Nat :=
  (g.placed.filter fun place => place.2.node.op = op).length

theorem contains_iff {g : Graph} {id : NodeId} :
    g.contains id ↔ ∃ entry, g.get? id = some entry :=
  Option.isSome_iff_exists

theorem node?_eq_some_iff {g : Graph} {id : NodeId} {node : Node} :
    g.node? id = some node ↔ ∃ entry, g.get? id = some entry ∧ entry.node = node :=
  Option.map_eq_some_iff

theorem isSome_node? (g : Graph) (id : NodeId) : (g.node? id).isSome = g.contains id :=
  Option.isSome_map

theorem node_eq_ok_iff {g : Graph} {id : NodeId} {node : Node} :
    g.node id = .ok node ↔ g.node? id = some node := by
  unfold Graph.node
  split <;> simp_all

theorem slot_eq_ok_iff {g : Graph} {o : Output} {slot : Slot} :
    g.slot o = .ok slot ↔
      ∃ node, g.node? o.node = some node ∧ node.outputs[o.slot]? = some slot := by
  unfold Graph.slot Graph.node
  cases g.node? o.node with
  | none => simp [bind, Except.bind]
  | some node =>
    simp only [bind, Except.bind, Option.some.injEq, exists_eq_left']
    cases node.outputs[o.slot]? <;> simp

theorem mem_placed {g : Graph} {id : NodeId} {entry : Entry} :
    (id, entry) ∈ g.placed ↔ g.get? id = some entry :=
  Arena.mem_toList

theorem mem_ids {g : Graph} {id : NodeId} : id ∈ g.ids ↔ g.contains id := by
  simp [ids, mem_placed, contains_iff]

/-- The places are listed in ascending order. -/
theorem pairwise_ids (g : Graph) : g.ids.Pairwise (· < ·) :=
  List.pairwise_map.2 g.arena.pairwise_toList

/-! ### Staleness -/

/-- Do the outputs of the node have to be computed again? -/
def isStale (g : Graph) (id : NodeId) : Bool := (g.get? id).any Entry.stale

/-- The nodes whose outputs have to be computed again, in the order of their places. -/
def staleIds (g : Graph) : List NodeId :=
  (g.placed.filter fun place => place.2.stale).map Prod.fst

/-- Is there a node whose outputs have to be computed again? -/
def hasStale (g : Graph) : Bool := g.placed.any fun place => place.2.stale

theorem mem_staleIds {g : Graph} {id : NodeId} : id ∈ g.staleIds ↔ g.isStale id := by
  simp [staleIds, isStale, mem_placed, Option.any_eq_true]

theorem hasStale_iff {g : Graph} : g.hasStale ↔ ∃ id, g.isStale id := by
  simp [hasStale, isStale, mem_placed, Option.any_eq_true]

/-! ### Edges -/

/-- The nodes that read `id`, once for every edge. -/
def successors (g : Graph) (id : NodeId) : List NodeId :=
  (g.edges.filter fun edge => edge.source = id).map Edge.target

/-- The nodes that `id` reads, once for every edge. -/
def predecessors (g : Graph) (id : NodeId) : List NodeId :=
  (g.edges.filter fun edge => edge.target = id).map Edge.source

theorem mem_successors {g : Graph} {source target : NodeId} :
    target ∈ g.successors source ↔ ∃ port, ⟨source, target, port⟩ ∈ g.edges := by
  simp only [successors, List.mem_map, List.mem_filter, decide_eq_true_eq]
  constructor
  · rintro ⟨⟨_, _, port⟩, ⟨h, rfl⟩, rfl⟩
    exact ⟨port, h⟩
  · rintro ⟨port, h⟩
    exact ⟨_, ⟨h, rfl⟩, rfl⟩

theorem mem_predecessors {g : Graph} {source target : NodeId} :
    source ∈ g.predecessors target ↔ ∃ port, ⟨source, target, port⟩ ∈ g.edges := by
  simp only [predecessors, List.mem_map, List.mem_filter, decide_eq_true_eq]
  constructor
  · rintro ⟨⟨_, _, port⟩, ⟨h, rfl⟩, rfl⟩
    exact ⟨port, h⟩
  · rintro ⟨port, h⟩
    exact ⟨_, ⟨h, rfl⟩, rfl⟩

end Graph

end TensorGraph
