import Mathlib.Data.Set.Function
import TensorGraph.Proofs.Graph.Validity

/-!
# Graphs under other labels

The places of the nodes mean nothing beyond who reads whom. `Graph.Relabelled` says that a map of
the places carries one graph over to another, where the nodes may be changed in other respects than
what they read and produce. What is said of a graph without naming places is carried over: that it
is valid (`Graph.Relabelled.valid`) and how many nodes there are of a type
(`Graph.Relabelled.countOp`).
-/

namespace TensorGraph

/-- The output under another label. -/
def Output.relabel (φ : NodeId → NodeId) (o : Output) : Output := ⟨φ o.node, o.slot⟩

/-- The node with what it reads under other labels. -/
def Node.relabel (φ : NodeId → NodeId) (node : Node) : Node :=
  { node with inputs := node.inputs.map (Output.relabel φ) }

variable {φ ψ : NodeId → NodeId}

theorem Node.relabel_relabel (φ ψ : NodeId → NodeId) (node : Node) :
    (node.relabel φ).relabel ψ = node.relabel (ψ ∘ φ) := by
  simp only [relabel, List.map_map]
  rfl

/-- Labels that are left where the node reads change nothing of it. -/
theorem Node.relabel_eq_self {node : Node} (h : ∀ o ∈ node.inputs, φ o.node = o.node) :
    node.relabel φ = node := by
  have same : node.inputs.map (Output.relabel φ) = node.inputs.map id :=
    List.map_congr_left fun o ho => congrArg (Output.mk · o.slot) (h o ho)
  rw [relabel, same, List.map_id]

/-- A change of nodes that does not concern what they read and produce. -/
structure Node.Internal (f : NodeId → Node → Node) : Prop where
  inputs : ∀ id node, (f id node).inputs = node.inputs
  outputs : ∀ id node, (f id node).outputs = node.outputs
  relabel : ∀ φ id node, f id (node.relabel φ) = (f id node).relabel φ

namespace Graph

variable {g g' g'' : Graph} {f k : NodeId → Node → Node} {id : NodeId} {node : Node} {o : Output}

/-- The map carries the nodes of the first graph over to those of the second, each with a change. -/
structure Relabelled (φ : NodeId → NodeId) (f : NodeId → Node → Node) (g g' : Graph) : Prop where
  bijOn : Set.BijOn φ {id | g.contains id} {id | g'.contains id}
  node? : ∀ id node, g.node? id = some node → g'.node? (φ id) = some ((f id node).relabel φ)
  parameters : g'.parameters = g.parameters.map φ
  results : g'.results = g.results.map φ

namespace Relabelled

theorem refl (g : Graph) : g.Relabelled (fun id => id) (fun _ node => node) g where
  bijOn := Set.bijOn_id _
  node? _ node h := by rw [Node.relabel_eq_self fun _ _ => rfl, h]
  parameters := (List.map_id _).symm
  results := (List.map_id _).symm

theorem congr (h : g.Relabelled φ f g')
    (same : ∀ id node, g.node? id = some node → k id node = f id node) : g.Relabelled φ k g' where
  bijOn := h.bijOn
  node? id node hnode := by rw [same id node hnode, h.node? id node hnode]
  parameters := h.parameters
  results := h.results

theorem trans (h : g.Relabelled φ f g') (h' : g'.Relabelled ψ k g'') (internal : Node.Internal k) :
    g.Relabelled (ψ ∘ φ) (fun id node => k (φ id) (f id node)) g'' where
  bijOn := h'.bijOn.comp h.bijOn
  node? id node hnode := by
    rw [Function.comp, h'.node? _ _ (h.node? id node hnode), internal.relabel, Node.relabel_relabel]
  parameters := by rw [h'.parameters, h.parameters, List.map_map]
  results := by rw [h'.results, h.results, List.map_map]

theorem contains (h : g.Relabelled φ f g') (live : g.contains id) : g'.contains (φ id) :=
  h.bijOn.mapsTo live

/-- Every node of the second graph comes from one of the first. -/
theorem exists_node (h : g.Relabelled φ f g') {j : NodeId} {node' : Node}
    (hnode' : g'.node? j = some node') :
    ∃ id node, φ id = j ∧ g.node? id = some node ∧ node' = (f id node).relabel φ := by
  obtain ⟨id, live, rfl⟩ := h.bijOn.surjOn (contains_of_node? hnode')
  obtain ⟨node, hnode⟩ := contains_iff_exists_node?.1 live
  rw [h.node? id node hnode] at hnode'
  exact ⟨id, node, rfl, hnode, (Option.some.inj hnode').symm⟩

theorem slot (h : g.Relabelled φ f g') (internal : Node.Internal f) {slot : Slot}
    (hslot : g.slot o = .ok slot) : g'.slot (o.relabel φ) = .ok slot := by
  obtain ⟨producer, hproducer, hout⟩ := slot_eq_ok_iff.1 hslot
  refine slot_eq_ok_iff.2 ⟨_, h.node? _ _ hproducer, ?_⟩
  rw [← hout, ← internal.outputs o.node producer]
  rfl

/-- What a node of the second graph reads, some node of the first one reads. -/
theorem exists_input? (h : g.Relabelled φ f g') (internal : Node.Internal f) {j : NodeId}
    {port : Nat} {o' : Output} (hread : g'.input? j port = some o') :
    ∃ id o, φ id = j ∧ g.input? id port = some o ∧ o' = o.relabel φ := by
  obtain ⟨node', hnode', hport⟩ := input?_eq_some_iff.1 hread
  obtain ⟨id, node, rfl, hnode, rfl⟩ := h.exists_node hnode'
  simp only [Node.relabel, List.getElem?_map, Option.map_eq_some_iff, internal.inputs] at hport
  obtain ⟨o, ho, rfl⟩ := hport
  exact ⟨id, o, rfl, input?_eq_some_iff.2 ⟨node, hnode, ho⟩, rfl⟩

/-- Under other labels a valid graph is still valid. -/
theorem valid (h : g.Relabelled φ f g') (internal : Node.Internal f) (valid : g.Valid)
    (mirrored : g.Mirrored) (mirrored' : g'.Mirrored) : g'.Valid where
  inputs_exist j port o' hread := by
    obtain ⟨id, o, rfl, ho, rfl⟩ := h.exists_input? internal hread
    obtain ⟨slot, hslot⟩ := valid.inputs_exist id port o ho
    exact ⟨slot, h.slot internal hslot⟩
  parameters_live j hj := by
    rw [h.parameters, List.mem_map] at hj
    obtain ⟨id, hid, rfl⟩ := hj
    exact h.contains (valid.parameters_live id hid)
  results_live j hj := by
    rw [h.results, List.mem_map] at hj
    obtain ⟨id, hid, rfl⟩ := hj
    exact h.contains (valid.results_live id hid)
  acyclic := by
    obtain ⟨rank, up⟩ := isCyclic_eq_false_iff.1 valid.acyclic
    have back {id : NodeId} (live : g.contains id) :
        Function.invFunOn φ {id | g.contains id} (φ id) = id :=
      h.bijOn.injOn.leftInvOn_invFunOn live
    refine isCyclic_eq_false_iff.2
      ⟨fun j => rank (Function.invFunOn φ {id | g.contains id} j), fun edge hedge => ?_⟩
    obtain ⟨_, hread⟩ := (mirrored'.mem_edges edge).1 hedge
    obtain ⟨o', ho', source⟩ := Option.map_eq_some_iff.1 hread
    obtain ⟨id, o, target, ho, rfl⟩ := h.exists_input? internal ho'
    obtain ⟨slot, hslot⟩ := valid.inputs_exist id edge.port o ho
    obtain ⟨producer, hproducer, _⟩ := slot_eq_ok_iff.1 hslot
    have live := contains_of_node? hproducer
    have reads : (⟨o.node, id, edge.port⟩ : Edge) ∈ g.edges :=
      (mirrored.mem_edges _).2 ⟨live, by rw [ho, Option.map_some]⟩
    have below : rank o.node < rank id := up _ reads
    rw [← back live, ← back (contains_of_input? ho), target] at below
    exact source ▸ below

/-! ### Counting -/

theorem perm_ids (h : g.Relabelled φ f g') : g'.ids.Perm (g.ids.map φ) := by
  have nodup : (g.ids.map φ).Nodup := (List.nodup_map_iff_inj_on g.nodup_ids).2
    fun i hi j hj e => h.bijOn.injOn (mem_ids.1 hi) (mem_ids.1 hj) e
  apply (List.perm_ext_iff_of_nodup g'.nodup_ids nodup).2
  intro j
  rw [mem_ids, List.mem_map]
  constructor
  · intro live
    obtain ⟨id, hid, rfl⟩ := h.bijOn.surjOn live
    exact ⟨id, mem_ids.2 hid, rfl⟩
  · rintro ⟨id, hid, rfl⟩
    exact h.contains (mem_ids.1 hid)

end Relabelled

theorem countOp_eq_countP (g : Graph) (op : String) :
    g.countOp op = g.ids.countP fun id => (g.node? id).any fun node => node.op = op := by
  rw [countOp, ids, List.countP_map, ← List.countP_eq_length_filter]
  apply List.countP_congr
  intro place hplace
  obtain ⟨id, entry⟩ := place
  simp [node?_eq_some_iff.2 ⟨entry, mem_placed.1 hplace, rfl⟩]

/-- As many nodes are of a type under other labels as are to be of it after their change. -/
theorem Relabelled.countOp (h : g.Relabelled φ f g') (op : String) :
    g'.countOp op = g.ids.countP fun id => (g.node? id).any fun node => (f id node).op = op := by
  rw [countOp_eq_countP, h.perm_ids.countP_eq, List.countP_map]
  apply List.countP_congr
  intro id hid
  obtain ⟨node, hnode⟩ := contains_iff_exists_node?.1 (mem_ids.1 hid)
  simp [hnode, h.node? id node hnode, Node.relabel]

end Graph

end TensorGraph
