import Mathlib.Data.List.Nodup
import TensorGraph.Proofs.Graph.Changes

/-!
# Edges that mirror the inputs

The inputs of the nodes say what reads what; the edges say it again for the searches along them.
`Graph.Mirrored` means that the two agree, `Graph.Wired` that besides every input reads a node that
is there, and `Graph.Linked` that no other reference of the graph leads nowhere either. The changes
of `Graph` keep a graph wired and linked as long as what they are told to read exists and what they
remove is read by nobody.
-/

namespace TensorGraph

/-- The node apart from what is known of its outputs. -/
def Node.bare (node : Node) : Node := { node with outputs := [] }

namespace Graph

variable {g : Graph} {id i source : NodeId} {port p : Nat} {node : Node} {o : Output}

/-- What the node in a place reads through a port. -/
def input? (g : Graph) (id : NodeId) (port : Nat) : Option Output :=
  (g.node? id).bind fun node => node.inputs[port]?

theorem input?_eq_some_iff :
    g.input? id port = some o ↔ ∃ node, g.node? id = some node ∧ node.inputs[port]? = some o :=
  Option.bind_eq_some_iff

theorem input?_eq (h : g.node? id = some node) (port : Nat) :
    g.input? id port = node.inputs[port]? := by
  rw [input?, h]
  rfl

theorem contains_of_input? (h : g.input? id port = some o) : g.contains id := by
  obtain ⟨node, hnode, _⟩ := input?_eq_some_iff.1 h
  exact contains_of_node? hnode

theorem exists_port_of_mem (h : g.node? id = some node) (ho : o ∈ node.inputs) :
    ∃ port, g.input? id port = some o := by
  obtain ⟨port, hport⟩ := List.mem_iff_getElem?.1 ho
  exact ⟨port, input?_eq_some_iff.2 ⟨node, h, hport⟩⟩

/-- What holds of every node can be seen from the nodes that there are. -/
theorem forall_node_iff {P : NodeId → Node → Prop} :
    (∀ id node, g.node? id = some node → P id node) ↔
      ∀ place ∈ g.placed, P place.1 place.2.node := by
  constructor
  · rintro h ⟨id, entry⟩ hplace
    exact h id entry.node (node?_eq_some_iff.2 ⟨entry, mem_placed.1 hplace, rfl⟩)
  · intro h id node hnode
    obtain ⟨entry, hentry, rfl⟩ := node?_eq_some_iff.1 hnode
    exact h (id, entry) (mem_placed.2 hentry)

/-- What holds of every input can be seen node by node. -/
theorem forall_input_iff {P : NodeId → Output → Prop} :
    (∀ id port o, g.input? id port = some o → P id o) ↔
      ∀ place ∈ g.placed, ∀ o ∈ place.2.node.inputs, P place.1 o := by
  constructor
  · rintro h ⟨id, entry⟩ hplace o ho
    have hnode := node?_eq_some_iff.2 ⟨entry, mem_placed.1 hplace, rfl⟩
    obtain ⟨port, hread⟩ := exists_port_of_mem hnode ho
    exact h id port o hread
  · intro h id port o hread
    obtain ⟨node, hnode, hport⟩ := input?_eq_some_iff.1 hread
    obtain ⟨entry, hentry, rfl⟩ := node?_eq_some_iff.1 hnode
    exact h (id, entry) (mem_placed.2 hentry) o (List.mem_of_getElem? hport)

/-- The edges are those from what the inputs name, as far as it exists, each once. -/
structure Mirrored (g : Graph) : Prop where
  nodup_edges : g.edges.Nodup
  mem_edges : ∀ edge, edge ∈ g.edges ↔ g.contains edge.source ∧
    (g.input? edge.target edge.port).map Output.node = some edge.source

/-- The inputs read nodes that exist. -/
def InputsLive (g : Graph) : Prop := ∀ id port o, g.input? id port = some o → g.contains o.node

/-- The edges mirror the inputs, and these read nodes that exist. -/
structure Wired (g : Graph) : Prop extends Mirrored g where
  inputs_live : ∀ id port o, g.input? id port = some o → g.contains o.node

/-- The edges mirror the inputs, and every reference of the graph leads to a node. -/
structure Linked (g : Graph) : Prop extends Wired g where
  seq_injective : ∀ i j seq, g.seq? i = some seq → g.seq? j = some seq → i = j
  parameters_live : ∀ id ∈ g.parameters, g.contains id
  results_live : ∀ id ∈ g.results, g.contains id
  parameters_read_nothing : ∀ id ∈ g.parameters, ∀ port, g.input? id port = none

/-- Whether the edges mirror the inputs can be seen from the edges and the inputs that there are. -/
theorem mirrored_iff : g.Mirrored ↔ g.edges.Nodup ∧
    (∀ edge ∈ g.edges, (g.input? edge.target edge.port).map Output.node = some edge.source) ∧
    ∀ place ∈ g.placed, ∀ read ∈ place.2.node.inputs.zipIdx, g.contains read.1.node →
      ⟨read.1.node, place.1, read.2⟩ ∈ g.edges := by
  constructor
  · intro h
    refine ⟨h.nodup_edges, fun edge hedge => ((h.mem_edges edge).1 hedge).2, ?_⟩
    rintro ⟨id, entry⟩ hplace ⟨o, port⟩ hread live
    have hnode : g.node? id = some entry.node :=
      node?_eq_some_iff.2 ⟨entry, mem_placed.1 hplace, rfl⟩
    refine (h.mem_edges _).2 ⟨live, ?_⟩
    rw [input?_eq hnode, List.mem_zipIdx_iff_getElem?.1 hread, Option.map_some]
  · rintro ⟨nodup, sound, complete⟩
    refine ⟨nodup, fun edge => ⟨fun hedge => ⟨(g.edges_live edge hedge).1, sound edge hedge⟩, ?_⟩⟩
    rintro ⟨live, hread⟩
    obtain ⟨o, ho, source⟩ := Option.map_eq_some_iff.1 hread
    obtain ⟨node, hnode, hport⟩ := input?_eq_some_iff.1 ho
    obtain ⟨entry, hentry, rfl⟩ := node?_eq_some_iff.1 hnode
    rw [← source] at live
    have hedge := complete (edge.target, entry) (mem_placed.2 hentry) (o, edge.port)
      (List.mem_zipIdx_iff_getElem?.2 hport) live
    simpa only [source] using hedge

instance : Decidable g.Mirrored := decidable_of_iff _ mirrored_iff.symm

theorem Mirrored.mem_successors (h : g.Mirrored) :
    i ∈ g.successors id ↔ g.contains id ∧ ∃ port o, g.input? i port = some o ∧ o.node = id := by
  simp only [Graph.mem_successors, h.mem_edges, Option.map_eq_some_iff, exists_and_left]

theorem Mirrored.mem_predecessors (h : g.Mirrored) :
    i ∈ g.predecessors id ↔ g.contains i ∧ ∃ port o, g.input? id port = some o ∧ o.node = i := by
  simp only [Graph.mem_predecessors, h.mem_edges, Option.map_eq_some_iff, exists_and_left]

/-- The consumers of an output that exists are the inputs that read it. -/
theorem Mirrored.mem_consumers (h : g.Mirrored) (live : g.contains o.node) :
    (id, port) ∈ g.consumers o ↔ g.input? id port = some o := by
  rw [Graph.mem_consumers, input?_eq_some_iff]
  constructor
  · rintro ⟨node, hnode, hinput, _⟩
    exact ⟨node, hnode, hinput⟩
  · rintro ⟨node, hnode, hinput⟩
    refine ⟨node, hnode, hinput, (h.mem_edges _).2 ⟨live, ?_⟩⟩
    simp [input?_eq hnode, hinput]

theorem linked_empty (name : String) : (empty name).Linked where
  nodup_edges := .nil
  mem_edges := by simp [empty, contains, get?]
  inputs_live := by simp [empty, input?, node?, get?]
  seq_injective := by simp [empty, seq?, get?]
  parameters_live := by simp [empty]
  results_live := by simp [empty]
  parameters_read_nothing := by simp [empty]

/-! ### Graphs with the same links -/

/-- The graphs have nodes of the same ages in the same places, which read the same. -/
structure SameLinks (g g' : Graph) : Prop where
  contains : ∀ id, g'.contains id = g.contains id
  input? : ∀ id port, g'.input? id port = g.input? id port
  seq? : ∀ id, g'.seq? id = g.seq? id
  edges : g'.edges = g.edges
  parameters : g'.parameters = g.parameters
  results : g'.results = g.results

theorem SameLinks.symm {g' : Graph} (h : SameLinks g g') : SameLinks g' g where
  contains id := (h.contains id).symm
  input? id port := (h.input? id port).symm
  seq? id := (h.seq? id).symm
  edges := h.edges.symm
  parameters := h.parameters.symm
  results := h.results.symm

theorem Mirrored.of_sameLinks {g' : Graph} (h : g.Mirrored) (same : SameLinks g g') :
    g'.Mirrored where
  nodup_edges := by simpa [same.edges] using h.nodup_edges
  mem_edges := by simpa [same.edges, same.contains, same.input?] using h.mem_edges

theorem Wired.of_sameLinks {g' : Graph} (h : g.Wired) (same : SameLinks g g') : g'.Wired where
  toMirrored := h.toMirrored.of_sameLinks same
  inputs_live := by simpa [same.contains, same.input?] using h.inputs_live

theorem Linked.of_sameLinks {g' : Graph} (h : g.Linked) (same : SameLinks g g') : g'.Linked where
  toWired := h.toWired.of_sameLinks same
  seq_injective := by simpa [same.seq?] using h.seq_injective
  parameters_live := by simpa [same.contains, same.parameters] using h.parameters_live
  results_live := by simpa [same.contains, same.results] using h.results_live
  parameters_read_nothing := by
    simpa [same.parameters, same.input?] using h.parameters_read_nothing

/-- The graphs differ in what is known of the outputs and in what is stale, and in nothing else that
can be seen. -/
structure SameSkeleton (g g' : Graph) : Prop where
  bare : ∀ id, (g'.node? id).map Node.bare = (g.node? id).map Node.bare
  seq? : ∀ id, g'.seq? id = g.seq? id
  edges : g'.edges = g.edges
  parameters : g'.parameters = g.parameters
  results : g'.results = g.results
  nextSeq : g'.nextSeq = g.nextSeq
  name : g'.name = g.name

namespace SameSkeleton

variable {g' g'' : Graph}

theorem refl (g : Graph) : SameSkeleton g g :=
  ⟨fun _ => rfl, fun _ => rfl, rfl, rfl, rfl, rfl, rfl⟩

theorem trans (h : SameSkeleton g g') (h' : SameSkeleton g' g'') : SameSkeleton g g'' where
  bare id := (h'.bare id).trans (h.bare id)
  seq? id := (h'.seq? id).trans (h.seq? id)
  edges := h'.edges.trans h.edges
  parameters := h'.parameters.trans h.parameters
  results := h'.results.trans h.results
  nextSeq := h'.nextSeq.trans h.nextSeq
  name := h'.name.trans h.name

theorem contains (h : SameSkeleton g g') (id : NodeId) : g'.contains id = g.contains id := by
  rw [← isSome_node?, ← isSome_node?, ← Option.isSome_map (f := Node.bare), h.bare,
    Option.isSome_map]

theorem input? (h : SameSkeleton g g') (id : NodeId) (port : Nat) :
    g'.input? id port = g.input? id port := by
  have through (g : Graph) :
      g.input? id port = ((g.node? id).map Node.bare).bind fun node => node.inputs[port]? := by
    rw [Graph.input?, Option.bind_map]
    rfl
  rw [through g', through g, h.bare]

theorem sameLinks (h : SameSkeleton g g') : SameLinks g g' :=
  ⟨h.contains, h.input?, h.seq?, h.edges, h.parameters, h.results⟩

theorem setStale (g : Graph) (ids : List NodeId) : SameSkeleton g (g.setStale ids) :=
  ⟨fun _ => by rw [node?_setStale], fun _ => seq?_mapStale .., rfl, rfl, rfl, rfl, rfl⟩

theorem markStale (g : Graph) (id : NodeId) : SameSkeleton g (g.markStale id) := by
  simp only [Graph.markStale]
  split
  · exact setStale ..
  · exact refl g

theorem modifyOutputs (g : Graph) (id : NodeId) (f : List Slot → List Slot) :
    SameSkeleton g (g.modifyNode id fun node => { node with outputs := f node.outputs }) := by
  refine ⟨?_, fun _ => seq?_modifyNode .., rfl, rfl, rfl, rfl, rfl⟩
  intro i
  rw [node?_modifyNode]
  split
  · rw [Option.map_map]
    rfl
  · rfl

theorem update (g : Graph) (id : NodeId) (slots : List Slot) : SameSkeleton g (g.update id slots) :=
  (modifyOutputs g id fun _ => slots).trans
    ⟨fun _ => by rw [Graph.update, node?_clearStale], fun _ => seq?_mapStale .., rfl, rfl, rfl, rfl,
      rfl⟩

theorem foldl_markStale {α : Type} (f : α → NodeId) (marks : List α) (g : Graph) :
    SameSkeleton g (marks.foldl (fun g mark => g.markStale (f mark)) g) := by
  induction marks generalizing g with
  | nil => exact refl g
  | cons mark rest ih => exact (markStale g (f mark)).trans (ih _)

theorem markReaders (g : Graph) (id : NodeId) : SameSkeleton g (g.markReaders id) :=
  foldl_markStale Prod.fst _ g

theorem markAll (ids : List NodeId) (g : Graph) :
    SameSkeleton g (ids.foldl Graph.markStale g) :=
  foldl_markStale (fun id => id) ids g

end SameSkeleton

/-- A node may be changed as long as it reads the same. -/
theorem SameLinks.modifyNode {f : Node → Node}
    (reads : ∀ node, g.node? id = some node → (f node).inputs = node.inputs) :
    SameLinks g (g.modifyNode id f) := by
  refine ⟨fun _ => contains_modifyNode .., ?_, fun _ => seq?_modifyNode .., rfl, rfl, rfl⟩
  intro i p
  simp only [Graph.input?]
  rw [node?_modifyNode]
  by_cases e : i = id
  · subst e
    cases hnode : g.node? i with
    | none => simp
    | some node => simp [reads node hnode]
  · rw [if_neg e]

/-! ### Changes of links -/

theorem input?_insert (g : Graph) (node : Node) (id : NodeId) (port : Nat) :
    (g.insert node).input? id port =
      if id = g.nextId then node.inputs[port]? else g.input? id port := by
  simp only [input?]
  rw [node?_insert]
  split <;> rfl

theorem nodup_edgesInto (g : Graph) (node : Node) : (g.edgesInto node).Nodup := by
  have ports : (g.edgesInto node).Pairwise fun a b => a.port < b.port := by
    refine List.Pairwise.filterMap (R := fun a b => a.2 < b.2) _ ?_ ?_
    · intro a b hab edge hedge edge' hedge'
      simp only [Option.ite_none_right_eq_some, Option.some.injEq] at hedge hedge'
      rw [← hedge.2, ← hedge'.2]
      exact hab
    · rw [← List.pairwise_map (f := Prod.snd) (R := (· < ·)), List.zipIdx_map_snd]
      exact List.pairwise_lt_range'
  exact ports.imp fun h e => Nat.ne_of_lt h (congrArg Edge.port e)

/-- A new node may read whatever there is or is not, if no input names its place yet. -/
theorem Mirrored.insert (h : g.Mirrored)
    (unclaimed : ∀ id port o, g.input? id port = some o → o.node ≠ g.nextId) (node : Node) :
    (g.insert node).Mirrored where
  nodup_edges := by
    apply List.Nodup.append h.nodup_edges (nodup_edgesInto g node)
    intro edge old new
    exact ne_nextId (g.edges_live edge old).2 (mem_edgesInto_iff.1 new).1
  mem_edges := by
    intro edge
    rw [show (g.insert node).edges = g.edges ++ g.edgesInto node from rfl, List.mem_append,
      h.mem_edges, mem_edgesInto_iff, contains_insert, input?_insert]
    have old : edge.source = g.nextId →
        ¬(g.input? edge.target edge.port).map Output.node = some edge.source := by
      intro next hread
      obtain ⟨o, ho, hsource⟩ := Option.map_eq_some_iff.1 hread
      exact unclaimed _ _ _ ho (hsource.trans next)
    have free : edge.target = g.nextId → g.input? edge.target edge.port = none := by
      intro next
      rw [input?, node?_eq_none_iff.2 (next ▸ contains_nextId g)]
      rfl
    by_cases target : edge.target = g.nextId <;> by_cases source : edge.source = g.nextId <;>
      simp_all [and_comm]

/-- A new node may read whatever exists. -/
theorem Wired.insert (h : g.Wired) (live : ∀ o ∈ node.inputs, g.contains o.node) :
    (g.insert node).Wired where
  toMirrored := h.toMirrored.insert (fun i p o ho => ne_nextId (h.inputs_live i p o ho)) node
  inputs_live := by
    intro id port o ho
    rw [input?_insert] at ho
    rw [contains_insert]
    split at ho
    · simp [live o (List.mem_of_getElem? ho)]
    · simp [h.inputs_live id port o ho]

theorem Linked.insert (h : g.Linked) (live : ∀ o ∈ node.inputs, g.contains o.node) :
    (g.insert node).Linked where
  toWired := h.toWired.insert live
  seq_injective := by
    intro i j seq hi hj
    rw [seq?_insert] at hi hj
    have below (k : NodeId) (hk : g.seq? k = some seq) : seq < g.nextSeq := by
      obtain ⟨entry, hentry, rfl⟩ := seq?_eq_some_iff.1 hk
      exact g.seq_lt k entry hentry
    split at hi <;> split at hj
    · simp_all
    · exact absurd (below j hj) (by simp_all)
    · exact absurd (below i hi) (by simp_all)
    · exact h.seq_injective i j seq hi hj
  parameters_live id hid := by simp [contains_insert, h.parameters_live id hid]
  results_live id hid := by simp [contains_insert, h.results_live id hid]
  parameters_read_nothing id hid port := by
    rw [input?_insert, if_neg (ne_nextId (h.parameters_live id hid))]
    exact h.parameters_read_nothing id hid port

theorem input?_rewire (h : (g.input? id port).isSome) (source : Output) (i : NodeId) (p : Nat) :
    (g.rewire id port source).input? i p =
      if i = id ∧ p = port then some source else g.input? i p := by
  obtain ⟨o, ho⟩ := Option.isSome_iff_exists.1 h
  obtain ⟨node, hnode, hport⟩ := input?_eq_some_iff.1 ho
  have bound := (List.getElem?_eq_some_iff.1 hport).1
  simp only [input?]
  rw [node?_rewire]
  by_cases e : i = id
  · subst e
    by_cases q : p = port
    · subst q
      simp [hnode, bound]
    · simp [hnode, q, Ne.symm q]
  · simp [e]

theorem mem_edges_rewire {edge : Edge} :
    edge ∈ (g.rewire id port o).edges ↔
      edge ∈ g.edges ∧ ¬(edge.target = id ∧ edge.port = port) ∨
        (g.contains o.node ∧ g.contains id) ∧ edge = ⟨o.node, id, port⟩ := by
  rw [edges_rewire, ← mem_edgesBeside, reconnect]
  split
  · next live => simp [live]
  · next missing => simp [missing]

theorem nodup_edges_rewire (h : g.edges.Nodup) (id : NodeId) (port : Nat) (o : Output) :
    (g.rewire id port o).edges.Nodup := by
  rw [edges_rewire, reconnect]
  split
  · refine List.Nodup.append (h.filter _) (List.nodup_singleton _) ?_
    intro edge old new
    obtain rfl := List.mem_singleton.1 new
    exact (mem_edgesBeside.1 old).2 ⟨rfl, rfl⟩
  · exact h.filter _

/-- An input may be made to read whatever there is or is not. -/
theorem Mirrored.rewire (h : g.Mirrored) (hport : (g.input? id port).isSome) (o : Output) :
    (g.rewire id port o).Mirrored where
  nodup_edges := nodup_edges_rewire h.nodup_edges id port o
  mem_edges := by
    obtain ⟨old, hold⟩ := Option.isSome_iff_exists.1 hport
    have hid := contains_of_input? hold
    rintro ⟨source, target, q⟩
    rw [mem_edges_rewire, h.mem_edges, contains_rewire, input?_rewire hport]
    by_cases e : target = id ∧ q = port
    · simp only [e, not_true_eq_false, and_false, false_or, hid, and_true, Edge.mk.injEq, if_true,
        Option.map_some, Option.some.injEq]
      constructor
      · rintro ⟨live, rfl⟩
        exact ⟨live, rfl⟩
      · rintro ⟨live, rfl⟩
        exact ⟨live, rfl⟩
    · simp only [e, not_false_eq_true, and_true, Edge.mk.injEq, and_false, or_false, if_false]

/-- An input may be made to read whatever exists. -/
theorem InputsLive.rewire (h : g.InputsLive) (hport : (g.input? id port).isSome)
    (live : g.contains o.node) : (g.rewire id port o).InputsLive := by
  intro i p read hread
  rw [input?_rewire hport] at hread
  rw [contains_rewire]
  split at hread
  · exact Option.some.inj hread ▸ live
  · exact h i p read hread

theorem Wired.rewire (h : g.Wired) (hport : (g.input? id port).isSome)
    (live : g.contains o.node) : (g.rewire id port o).Wired where
  toMirrored := h.toMirrored.rewire hport o
  inputs_live := InputsLive.rewire h.inputs_live hport live

theorem Linked.rewire (h : g.Linked) (hport : (g.input? id port).isSome)
    (live : g.contains o.node) : (g.rewire id port o).Linked where
  toWired := h.toWired.rewire hport live
  seq_injective := by simpa using h.seq_injective
  parameters_live := by simpa using h.parameters_live
  results_live := by simpa using h.results_live
  parameters_read_nothing := by
    intro i hi p
    rw [parameters_rewire] at hi
    rw [input?_rewire hport, if_neg]
    · exact h.parameters_read_nothing i hi p
    · rintro ⟨rfl, rfl⟩
      rw [h.parameters_read_nothing i hi p] at hport
      cases hport

theorem input?_foldl_vacate (g : Graph) (ids : List NodeId) (i : NodeId) (p : Nat) :
    (ids.foldl vacate g).input? i p = if i ∈ ids then none else g.input? i p := by
  simp only [input?]
  rw [node?_foldl_vacate]
  split <;> rfl

/-- Nodes may be removed, whoever reads them. -/
theorem Mirrored.foldl_vacate (h : g.Mirrored) (ids : List NodeId) :
    (ids.foldl vacate g).Mirrored where
  nodup_edges := nodup_edges_foldl_vacate h.nodup_edges ids
  mem_edges := by
    intro edge
    rw [mem_edges_foldl_vacate, h.mem_edges, contains_foldl_vacate, input?_foldl_vacate]
    by_cases source : edge.source ∈ ids <;> by_cases target : edge.target ∈ ids <;>
      simp [source, target]

/-- Nodes may be removed together with all that reads them. -/
theorem Wired.foldl_vacate (h : g.Wired) (ids : List NodeId)
    (unread : ∀ i p o, g.input? i p = some o → o.node ∈ ids → i ∈ ids) :
    (ids.foldl vacate g).Wired where
  toMirrored := h.toMirrored.foldl_vacate ids
  inputs_live := by
    intro i p o ho
    rw [input?_foldl_vacate] at ho
    split at ho
    · cases ho
    · next alive =>
      rw [contains_foldl_vacate, if_neg fun hmem => alive (unread i p o ho hmem)]
      exact h.inputs_live i p o ho

theorem Linked.foldl_vacate (h : g.Linked) (ids : List NodeId)
    (unread : ∀ i p o, g.input? i p = some o → o.node ∈ ids → i ∈ ids) :
    (ids.foldl vacate g).Linked := by
  obtain ⟨parameters, results⟩ := designated_foldl_vacate g ids
  refine ⟨h.toWired.foldl_vacate ids unread, ?_, ?_, ?_, ?_⟩
  · intro i j seq hi hj
    rw [seq?_foldl_vacate] at hi hj
    split at hi
    · cases hi
    · split at hj
      · cases hj
      · exact h.seq_injective i j seq hi hj
  · intro i hi
    rw [parameters, List.mem_filter] at hi
    rw [contains_foldl_vacate, if_neg (by simpa using hi.2)]
    exact h.parameters_live i hi.1
  · intro i hi
    rw [results, List.mem_filter] at hi
    rw [contains_foldl_vacate, if_neg (by simpa using hi.2)]
    exact h.results_live i hi.1
  · intro i hi p
    rw [parameters, List.mem_filter] at hi
    rw [input?_foldl_vacate, if_neg (by simpa using hi.2)]
    exact h.parameters_read_nothing i hi.1 p

theorem Wired.vacate (h : g.Wired)
    (unread : ∀ i p o, g.input? i p = some o → o.node = id → i = id) : (g.vacate id).Wired :=
  h.foldl_vacate [id] (by simpa using unread)

theorem Linked.vacate (h : g.Linked)
    (unread : ∀ i p o, g.input? i p = some o → o.node = id → i = id) : (g.vacate id).Linked :=
  h.foldl_vacate [id] (by simpa using unread)

theorem mem_dead : id ∈ g.dead ↔
    g.contains id ∧ id ∉ g.parameters ∧
      ¬∃ w ∈ g.results, Walk g.predecessors g.parameters w id := by
  rw [dead, List.mem_filter, mem_ids, Bool.not_eq_true', ← not_or, ← mem_dependencies,
    ← List.contains_iff_mem, Bool.not_eq_true]

/-- What a node reads is collected only together with it. -/
theorem Linked.mem_dead_of_reads (h : g.Linked) (hread : g.input? i p = some o)
    (hdead : o.node ∈ g.dead) : i ∈ g.dead := by
  obtain ⟨live, notParameter, unreached⟩ := mem_dead.1 hdead
  refine mem_dead.2 ⟨contains_of_input? hread, ?_, ?_⟩
  · intro hi
    rw [h.parameters_read_nothing i hi] at hread
    cases hread
  · rintro ⟨w, hw, walk⟩
    refine unreached ⟨w, hw, ?_⟩
    have edge : o.node ∈ g.predecessors i := h.mem_predecessors.2 ⟨live, p, o, hread, rfl⟩
    clear hw
    induction walk with
    | stay clear => exact .step clear edge (.stay notParameter)
    | step clear next _ ih => exact .step clear next (ih hread edge)

theorem Linked.collect (h : g.Linked) : g.collect.Linked :=
  h.foldl_vacate g.dead fun _ _ _ hread hdead => h.mem_dead_of_reads hread hdead

theorem Linked.addParameter (h : g.Linked) (live : g.contains id)
    (reads : ∀ port, g.input? id port = none) :
    { g with parameters := g.parameters ++ [id] }.Linked where
  toWired := ⟨⟨h.nodup_edges, h.mem_edges⟩, h.inputs_live⟩
  seq_injective := h.seq_injective
  parameters_live i hi := (List.mem_append.1 hi).elim (h.parameters_live i) fun e =>
    List.mem_singleton.1 e ▸ live
  results_live := h.results_live
  parameters_read_nothing i hi := (List.mem_append.1 hi).elim (h.parameters_read_nothing i) fun e =>
    List.mem_singleton.1 e ▸ reads

theorem Linked.setResults (h : g.Linked) {results : List NodeId}
    (live : ∀ id ∈ results, g.contains id) : { g with results }.Linked where
  toWired := ⟨⟨h.nodup_edges, h.mem_edges⟩, h.inputs_live⟩
  seq_injective := h.seq_injective
  parameters_live := h.parameters_live
  results_live := live
  parameters_read_nothing := h.parameters_read_nothing

end Graph

end TensorGraph
