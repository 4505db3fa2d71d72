import TensorGraph.Graph.Action
import TensorGraph.Graph.Consumers
import TensorGraph.Graph.Reach

/-!
# Changes to a graph

Each change keeps the edges beside the inputs and marks what it may have made out of date.
The functions on `Graph` carry out one change that cannot fail, and a lemma says what becomes of the
entries; the actions of `GraphM` check their arguments first.
-/

namespace TensorGraph

namespace Graph

/-! ### Insertion -/

/-- The place that the next node goes to. -/
def nextId (g : Graph) : NodeId := g.arena.next

/-- The edges of a node in the next place, one from each of its inputs that exists once the node is
there; a node may read itself. -/
def edgesInto (g : Graph) (node : Node) : List Edge :=
  node.inputs.zipIdx.filterMap fun read =>
    if read.1.node = g.nextId ∨ g.contains read.1.node then some ⟨read.1.node, g.nextId, read.2⟩
    else none

theorem mem_edgesInto {g : Graph} {node : Node} {edge : Edge} (h : edge ∈ g.edgesInto node) :
    edge.target = g.nextId ∧ (edge.source = g.nextId ∨ g.contains edge.source) := by
  obtain ⟨read, _, h⟩ := List.mem_filterMap.1 h
  split at h
  · next source =>
    obtain rfl := Option.some.inj h
    exact ⟨rfl, source⟩
  · cases h

/-- The graph with one more node, whose outputs are still to be computed. -/
def insert (g : Graph) (node : Node) : Graph :=
  { g with
    arena := g.arena.insert ⟨node, g.nextSeq, true⟩
    edges := g.edges ++ g.edgesInto node
    nextSeq := g.nextSeq + 1
    edges_live := by
      intro edge h
      rw [Arena.get?_insert, Arena.get?_insert]
      rcases List.mem_append.1 h with h | h
      · obtain ⟨source, target⟩ := g.edges_live edge h
        constructor <;> split <;> simp_all
      · obtain ⟨target, source⟩ := mem_edgesInto h
        constructor
        · split
          · rfl
          · next fresh => exact source.resolve_left fresh
        · rw [if_pos (show edge.target = g.arena.next from target)]
          rfl
    seq_lt := by
      intro id entry h
      rw [Arena.get?_insert] at h
      split at h
      · obtain rfl := Option.some.inj h
        exact Nat.lt_succ_self _
      · exact Nat.lt_succ_of_lt (g.seq_lt id entry h) }

theorem get?_insert (g : Graph) (node : Node) (id : NodeId) :
    (g.insert node).get? id = if id = g.nextId then some ⟨node, g.nextSeq, true⟩ else g.get? id :=
  Arena.get?_insert ..

/-- The next place is free. -/
theorem get?_nextId (g : Graph) : g.get? g.nextId = none := g.arena.get?_next

/-! ### Contents of a place -/

/-- Changes the node in a place. -/
def modifyNode (g : Graph) (id : NodeId) (f : Node → Node) : Graph :=
  { g with
    arena := g.arena.modify id fun entry => { entry with node := f entry.node }
    edges_live := by
      intro edge h
      obtain ⟨source, target⟩ := g.edges_live edge h
      simp only [Arena.get?_modify]
      constructor <;> split <;> simp_all
    seq_lt := by
      intro i entry h
      rw [Arena.get?_modify] at h
      split at h
      · obtain ⟨old, hold, rfl⟩ := Option.map_eq_some_iff.1 h
        exact g.seq_lt i old hold
      · exact g.seq_lt i entry h }

/-- Changes which nodes are stale. -/
def mapStale (g : Graph) (f : NodeId → Bool → Bool) : Graph :=
  { g with
    arena := g.arena.mapIdx fun id entry => { entry with stale := f id entry.stale }
    edges_live := by
      intro edge h
      simpa using g.edges_live edge h
    seq_lt := by
      intro id entry h
      rw [Arena.get?_mapIdx] at h
      obtain ⟨old, hold, rfl⟩ := Option.map_eq_some_iff.1 h
      exact g.seq_lt id old hold }

theorem get?_modifyNode (g : Graph) (id i : NodeId) (f : Node → Node) :
    (g.modifyNode id f).get? i =
      if i = id then (g.get? i).map fun entry => { entry with node := f entry.node }
      else g.get? i :=
  Arena.get?_modify ..

theorem get?_mapStale (g : Graph) (f : NodeId → Bool → Bool) (id : NodeId) :
    (g.mapStale f).get? id =
      (g.get? id).map fun entry => { entry with stale := f id entry.stale } :=
  Arena.get?_mapIdx ..

/-- Marks the given nodes stale. -/
def setStale (g : Graph) (ids : List NodeId) : Graph :=
  g.mapStale fun id stale => stale || ids.contains id

/-- Marks a node as up to date. -/
def clearStale (g : Graph) (id : NodeId) : Graph :=
  g.mapStale fun i stale => stale && i ≠ id

/-- Marks a node and all that is computed from it stale. Behind a node that is stale already
nothing is marked. -/
def markStale (g : Graph) (id : NodeId) : Graph :=
  if g.contains id then g.setStale (g.dependents [id] g.staleIds) else g

/-- Marking changes no node. -/
theorem node?_mapStale (g : Graph) (f : NodeId → Bool → Bool) (id : NodeId) :
    (g.mapStale f).node? id = g.node? id := by
  simp only [node?, get?_mapStale, Option.map_map]
  rfl

theorem node?_markStale (g : Graph) (id i : NodeId) : (g.markStale id).node? i = g.node? i := by
  unfold markStale
  split
  · exact node?_mapStale ..
  · rfl

/-- The nodes marked are those that a walk leads to from the given one past no stale node. -/
theorem isStale_markStale {g : Graph} {id i : NodeId} (h : g.contains id) :
    (g.markStale id).isStale i ↔
      g.isStale i ∨ g.contains i ∧ Walk g.successors g.staleIds id i := by
  rw [markStale, if_pos h]
  simp only [isStale, setStale, get?_mapStale, contains]
  cases e : g.get? i with
  | none => simp
  | some entry =>
    have stale : i ∈ g.staleIds ↔ entry.stale = true := by simp [mem_staleIds, isStale, e]
    simp [mem_dependents, stale]

/-! ### Inputs -/

/-- The edges other than those into the input `port` of a node. -/
def edgesBeside (g : Graph) (id : NodeId) (port : Nat) : List Edge :=
  g.edges.filter fun edge => !(edge.target = id && edge.port = port)

/-- Replaces the edge into the input `port` of a node by one from `source`, or by none if that
node does not exist. -/
def reconnect (g : Graph) (id : NodeId) (port : Nat) (source : NodeId) : Graph :=
  if h : g.contains source ∧ g.contains id then
    { g with
      edges := g.edgesBeside id port ++ [⟨source, id, port⟩]
      edges_live := by
        intro edge he
        rcases List.mem_append.1 he with he | he
        · exact g.edges_live edge (List.mem_filter.1 he).1
        · obtain rfl := List.mem_singleton.1 he
          exact h }
  else
    { g with
      edges := g.edgesBeside id port
      edges_live := fun edge he => g.edges_live edge (List.mem_filter.1 he).1 }

@[simp] theorem get?_reconnect (g : Graph) (id : NodeId) (port : Nat) (source i : NodeId) :
    (g.reconnect id port source).get? i = g.get? i := by
  unfold reconnect
  split <;> rfl

/-- Lets the input `port` of a node read `source`. The node and all that is computed from it
becomes stale. -/
def rewire (g : Graph) (id : NodeId) (port : Nat) (source : Output) : Graph :=
  ((g.reconnect id port source.node).markStale id).modifyNode id fun node =>
    { node with inputs := node.inputs.set port source }

/-! ### Removal -/

/-- Takes a node out of its place, with its edges and its part in the graph's inputs and outputs.
What reads the node keeps its reference. -/
def vacate (g : Graph) (id : NodeId) : Graph :=
  { g with
    arena := g.arena.remove id
    edges := g.edges.filter fun edge => !(edge.source = id || edge.target = id)
    parameters := g.parameters.filter (· ≠ id)
    results := g.results.filter (· ≠ id)
    edges_live := by
      intro edge h
      obtain ⟨h, apart⟩ := List.mem_filter.1 h
      obtain ⟨source, target⟩ := g.edges_live edge h
      simp only [Bool.not_eq_true', Bool.or_eq_false_iff, decide_eq_false_iff_not] at apart
      rw [Arena.get?_remove, Arena.get?_remove, if_neg apart.1, if_neg apart.2]
      exact ⟨source, target⟩
    seq_lt := by
      intro i entry h
      rw [Arena.get?_remove] at h
      split at h
      · cases h
      · exact g.seq_lt i entry h }

theorem get?_vacate (g : Graph) (id i : NodeId) :
    (g.vacate id).get? i = if i = id then none else g.get? i :=
  Arena.get?_remove ..

/-- The nodes that no result depends on; the parameters of the graph are not among them. What
only a parameter reads is. -/
def dead (g : Graph) : List NodeId :=
  let live := g.dependencies g.results g.parameters
  g.ids.filter fun id => !live.contains id

/-- Takes out the nodes that no result depends on, in the order of their places. -/
def collect (g : Graph) : Graph := g.dead.foldl vacate g

end Graph

namespace GraphM

/-- Inserts a node. -/
def addNode (node : Node) : GraphM NodeId := ofFn fun g => (.ok g.nextId, g.insert node)

/-- Inserts a node of the given type as an input of the graph. -/
def addParameter (name : String) (type : SlotType) : GraphM NodeId := do
  let id ← addNode { op := "Parameter", name, outputs := [.ofType type] }
  modify fun g => { g with parameters := g.parameters ++ [id] }
  pure id

/-- Inserts a node that holds a tensor. -/
def addConstant (t : Tensor) : GraphM NodeId :=
  let slot : Slot := { element := t.elementType, shape := t.shape, value := some t }
  addNode { op := "Constant", outputs := [slot], constant := some t }

/-- Inserts a node that makes `source` an output of the graph. -/
def addResult (source : Output) : GraphM NodeId := do
  let slot ← ask (·.slot source)
  let id ← addNode { op := "Result", inputs := [source], outputs := [.ofType slot.toSlotType] }
  modify fun g => { g with results := g.results ++ [id] }
  pure id

/-- Changes a node, which becomes stale with all that is computed from it. -/
def editNode (id : NodeId) (f : Node → Node) : GraphM Unit := do
  let _ ← ask (·.node id)
  modify fun g => (g.markStale id).modifyNode id f

/-- Lets the input `port` of a node read `source`, which need not exist. -/
def setInput (id : NodeId) (port : Nat) (source : Output) : GraphM Unit := do
  let node ← ask (·.node id)
  if port < node.inputs.length then
    modify (·.rewire id port source)
  else
    throw (.structural (.portOutOfRange port id node.inputs.length))

/-- The inputs, other than those of `new`, that read the node `old`, by slot, each with what it is
to read of the node `new`. It fails at the first slot that `new` does not have. -/
def redirects (g : Graph) (old new : NodeId) (outputs : Nat) :
    List Nat → Except Error (List ((NodeId × Nat) × Output))
  | [] => .ok []
  | slot :: slots => do
    let readers := (g.consumers ⟨old, slot⟩).filter fun reader => reader.1 ≠ new
    if outputs ≤ slot ∧ readers ≠ [] then
      .error (.structural (.replacementTooNarrow old slot new outputs))
    else
      let rest ← redirects g old new outputs slots
      .ok (readers.map (·, ⟨new, slot⟩) ++ rest)

/-- Puts the node `new` in the place of `old` with everything that reads `old`, slot by slot,
except for `new` itself, and in the outputs of the graph. A node without a name takes the name of
`old`. The node `old` stays in the graph. -/
def replaceNode (old new : NodeId) : GraphM Unit := do
  let oldNode ← ask (·.node old)
  let newNode ← ask (·.node new)
  let changes ← ask fun g =>
    redirects g old new newNode.outputs.length (List.range oldNode.outputs.length)
  changes.forM fun (reader, source) => setInput reader.1 reader.2 source
  modify fun g => { g with results := g.results.map fun id => if id = old then new else id }
  editNode new fun node => { node with name := if node.name = "" then oldNode.name else node.name }

/-- Declares the type of an output, whose value is then not known. The node becomes stale even if
it does not have the slot. -/
def setOutputType (o : Output) (type : SlotType) : GraphM Unit := do
  editNode o.node id
  let node ← ask (·.node o.node)
  if o.slot < node.outputs.length then
    modify fun g => g.modifyNode o.node fun node =>
      { node with outputs := node.outputs.set o.slot (.ofType type) }
  else
    throw (.structural (.outputMissing o.node o.slot))

/-- Removes a node; what reads it becomes stale and keeps its reference. -/
def removeNode (id : NodeId) : GraphM Entry := do
  let g ← get
  -- readers are marked and designations go before the node itself is looked up
  set (((g.successors id).foldl Graph.markStale g).vacate id)
  match g.get? id with
  | none => throw (.structural (.nodeMissing id))
  | some entry => pure entry

/-- Removes every node that no result depends on, parameters apart, and counts them. -/
def removeUnreachable : GraphM Nat := ofFn fun g => (.ok g.dead.length, g.collect)

end GraphM

end TensorGraph
