import TensorGraph.Proofs.Inference.Coherence
import TensorGraph.Proofs.Inference.Following
import TensorGraph.Proofs.Inference.Incremental
import TensorGraph.Proofs.Operators.Monotone

/-!
# Inference is monotone

`Graph.Sharpened g h` means that the graphs differ in the types that their parameters declare at
most, and that more is declared in `h`. Then inference finds out more about every node of `h`: every
type is known at least as well, and every value that is known stays the same
(`Graph.outputs_le_of_inferAll`). This takes tensors with as many elements as their extents span:
before a value is known its extents stand for it (`Graph.not_forall_outputs_le`).
-/

namespace TensorGraph

namespace Graph

variable {g g' h h' : Graph} {id : NodeId} {node node' : Node} {changed changed' : Bool}

/-- The graphs have the same nodes but for their outputs, and of the parameters more is declared in
the second one. -/
structure Sharpened (g h : Graph) : Prop where
  bare : ∀ id, (h.node? id).map Node.bare = (g.node? id).map Node.bare
  declared : ∀ id node, g.node? id = some node → node.op = "Parameter" → ∀ node',
    h.node? id = some node' → List.Forall₂ (· ≤ ·) (node.outputs.map Slot.toSlotType)
      (node'.outputs.map Slot.toSlotType)

/-- Whether more is declared can be seen from the nodes that there are. -/
theorem sharpened_iff : g.Sharpened h ↔
    (∀ id ∈ h.ids, g.contains id) ∧ ∀ place ∈ g.placed,
      (h.node? place.1).map Node.bare = some place.2.node.bare ∧
        (place.2.node.op = "Parameter" → ∀ node', h.node? place.1 = some node' →
          List.Forall₂ (· ≤ ·) (place.2.node.outputs.map Slot.toSlotType)
            (node'.outputs.map Slot.toSlotType)) := by
  rw [← forall_node_iff (P := fun id node => (h.node? id).map Node.bare = some node.bare ∧
    (node.op = "Parameter" → ∀ node', h.node? id = some node' → List.Forall₂ (· ≤ ·)
      (node.outputs.map Slot.toSlotType) (node'.outputs.map Slot.toSlotType)))]
  constructor
  · intro sharpened
    refine ⟨fun id hid => ?_, fun id node hnode => ⟨?_, sharpened.declared id node hnode⟩⟩
    · obtain ⟨node', hnode'⟩ := contains_iff_exists_node?.1 (mem_ids.1 hid)
      have bare := sharpened.bare id
      rw [hnode', Option.map_some] at bare
      obtain ⟨node, hnode, -⟩ := Option.map_eq_some_iff.1 bare.symm
      exact contains_of_node? hnode
    · rw [sharpened.bare, hnode, Option.map_some]
  · rintro ⟨live, nodes⟩
    refine ⟨fun id => ?_, fun id node hnode => (nodes id node hnode).2⟩
    cases hnode : g.node? id with
    | some node => exact (nodes id node hnode).1
    | none =>
      rw [Option.map_none, Option.map_eq_none_iff, node?_eq_none_iff, Bool.eq_false_iff]
      intro old
      exact absurd (live id (mem_ids.2 old)) (by rw [node?_eq_none_iff.1 hnode]; decide)

instance : Decidable (g.Sharpened h) := decidable_of_iff _ sharpened_iff.symm

/-- The target of every reshape is one list. -/
def ReshapesRead (g : Graph) : Prop :=
  ∀ id node, g.node? id = some node → node.op = "Reshape" → ∀ o, node.inputs[1]? = some o →
    ∀ producer, g.node? o.node = some producer → ∀ slot, producer.outputs[o.slot]? = some slot →
      slot.shape.rank? = some 1

instance : Decidable g.ReshapesRead := decidable_of_iff _ forall_node_iff.symm

/-- The tensors that the nodes hold have as many elements as their extents span. -/
def Whole (g : Graph) : Prop :=
  ∀ id node, g.node? id = some node → ∀ t, node.constant = some t → t.WellFormed

instance : Decidable g.Whole := decidable_of_iff _ forall_node_iff.symm

/-! ### Graphs in step -/

theorem slot_site_eq_ok_iff {i : Nat} {slot : Slot} :
    (g.site node).slot i = .ok slot ↔ ∃ o, node.inputs[i]? = some o ∧ g.slot o = .ok slot := by
  simp only [Site.slot, site, List.getElem?_map]
  cases node.inputs[i]? <;> simp

/-- What is read at a site is an output of a node with an edge to the reader. -/
theorem Mirrored.exists_producer (mirrored : g.Mirrored) (hnode : g.node? id = some node) {i : Nat}
    {slot : Slot} (h : (g.site node).slot i = .ok slot) :
    ∃ o producer, node.inputs[i]? = some o ∧ g.node? o.node = some producer ∧
      producer.outputs[o.slot]? = some slot ∧ ⟨o.node, id, i⟩ ∈ g.edges := by
  obtain ⟨o, hread, hslot⟩ := slot_site_eq_ok_iff.1 h
  obtain ⟨producer, hproducer, hout⟩ := slot_eq_ok_iff.1 hslot
  refine ⟨o, producer, hread, hproducer, hout, (mirrored.mem_edges _).2 ⟨?_, ?_⟩⟩
  · exact contains_of_node? hproducer
  · rw [input?_eq hnode, hread, Option.map_some]

/-- The slots of a graph in step are coherent if its tensors are whole. -/
theorem Current.coherent (current : g.Current .core) (mirrored : g.Mirrored)
    (acyclic : g.isCyclic = false)
    (whole : g.Whole) : g.Coherent := by
  obtain ⟨rank, up⟩ := isCyclic_eq_false_iff.1 acyclic
  intro id
  induction below : rank id using Nat.strong_induction_on generalizing id with
  | _ n ih =>
    intro node hnode
    refine ⟨?_, whole id node hnode⟩
    obtain ⟨node', hnode', inferred⟩ := current id (contains_of_node? hnode)
    obtain rfl := Option.some.inj (hnode'.symm.trans hnode)
    have site : (g.site node').Coherent := by
      refine ⟨fun i slot hslot => ?_, whole id _ hnode⟩
      obtain ⟨o, producer, -, hproducer, hout, edge⟩ := mirrored.exists_producer hnode hslot
      exact (ih _ (below ▸ up _ edge) o.node rfl producer hproducer).outputs slot
        (List.mem_of_getElem? hout)
    simp only [Graph.inferred] at inferred
    split at inferred
    · cases inferred
    · next operator found =>
      exact (Operator.coherent_of_mem_core (Registry.mem_core_of_find? found).1).slots site inferred

/-- A parameter in step has the types that it declares, and no values. -/
theorem outputs_parameter (op : node.op = "Parameter") {slots : List Slot}
    (inferred : g.inferred .core node = .ok slots) :
    slots = node.outputs.map fun slot => .ofType slot.toSlotType := by
  have found : Registry.core.find? node.op = some Operator.parameter := by
    rw [op]
    rfl
  simp only [Graph.inferred, found] at inferred
  rw [site, Operator.slots_parameter] at inferred
  split_ifs at inferred
  exact (Except.ok.inj inferred).symm

/-- More is known of every node if all nodes are in step. -/
theorem Sharpened.outputs_le (sharpened : g.Sharpened h) (mirrored : g.Mirrored)
    (acyclic : g.isCyclic = false) (current : g.Current .core) (current' : h.Current .core)
    (coherent : h.Coherent) (lists : h.ReshapesRead) :
    ∀ id node, g.node? id = some node →
      ∃ node', h.node? id = some node' ∧ List.Forall₂ (· ≤ ·) node.outputs node'.outputs := by
  obtain ⟨rank, up⟩ := isCyclic_eq_false_iff.1 acyclic
  intro id
  induction below : rank id using Nat.strong_induction_on generalizing id with
  | _ n ih =>
    intro node hnode
    obtain ⟨node', hnode', bare⟩ : ∃ node', h.node? id = some node' ∧ node'.bare = node.bare :=
      Option.map_eq_some_iff.1 ((sharpened.bare id).trans (by rw [hnode, Option.map_some]))
    refine ⟨node', hnode', ?_⟩
    obtain ⟨_, hcurrent, inferred⟩ := current id (contains_of_node? hnode)
    obtain rfl := Option.some.inj (hnode.symm.trans hcurrent)
    obtain ⟨_, hcurrent', inferred'⟩ := current' id (contains_of_node? hnode')
    obtain rfl := Option.some.inj (hnode'.symm.trans hcurrent')
    have op : node'.op = node.op := (congrArg Node.op bare : node'.bare.op = node.bare.op)
    have inputs : node'.inputs = node.inputs :=
      (congrArg Node.inputs bare : node'.bare.inputs = node.bare.inputs)
    by_cases parameter : node.op = "Parameter"
    · have better := sharpened.declared id node hnode parameter node' hnode'
      rw [outputs_parameter parameter inferred, outputs_parameter (op.trans parameter) inferred']
      rw [List.forall₂_map_left_iff, List.forall₂_map_right_iff] at better ⊢
      exact better.imp fun _ _ le => ⟨le, by simp [Slot.ofType]⟩
    · simp only [Graph.inferred, op] at inferred inferred'
      split at inferred
      · cases inferred
      next operator found =>
        obtain ⟨known, name⟩ := Registry.mem_core_of_find? found
        simp only [found] at inferred'
        have site : (g.site node).Le (h.site node') := by
          refine ⟨bare, fun i slot hslot => ?_⟩
          obtain ⟨o, producer, hread, hproducer, hout, edge⟩ := mirrored.exists_producer hnode hslot
          obtain ⟨producer', hproducer', better⟩ :=
            ih _ (below ▸ up _ edge) o.node rfl producer hproducer
          obtain ⟨slot', hout', le⟩ := exists_getElem?_of_forall₂ better hout
          refine ⟨slot', slot_site_eq_ok_iff.2 ⟨o, inputs ▸ hread, ?_⟩, le⟩
          exact slot_eq_ok_iff.2 ⟨producer', hproducer', hout'⟩
        refine (Operator.monotone_of_mem_core known (by rwa [name])).slots site
          (coherent.site (coherent id node' hnode')) (fun reshape shape hshape => ?_)
          inferred inferred'
        obtain ⟨slot, hslot, hshape⟩ := bind_eq_ok_iff.1 hshape
        obtain ⟨o, hread, hslot⟩ := slot_site_eq_ok_iff.1 hslot
        obtain rfl := Except.ok.inj hshape
        obtain ⟨producer', hproducer', hout'⟩ := slot_eq_ok_iff.1 hslot
        exact lists id node' hnode' (op.trans (name.symm.trans reshape)) o hread producer'
          hproducer' slot hout'

/-! ### Inference -/

/-- The place holds a parameter that declares the given types. -/
def DeclaresAt (g : Graph) (id : NodeId) (types : List SlotType) : Prop :=
  ∃ node, g.node? id = some node ∧ node.op = "Parameter" ∧
    node.outputs.map Slot.toSlotType = types

/-- Inference leaves the types alone that parameters declare. -/
theorem DeclaresAt.inferInTurn {types : List SlotType} (declares : g.DeclaresAt id types)
    (ids : List NodeId) : ((GraphM.inferInTurn .core ids).runOn g).2.DeclaresAt id types := by
  refine GraphM.inferInTurn_keeps (P := (·.DeclaresAt id types)) declares ?_
  rintro turn _ g₁ turned ⟨node, hnode, op, rfl⟩
  cases turned with
  | skipped => exact ⟨node, hnode, op, rfl⟩
  | @computed computed slots _ hcomputed hslots =>
    rw [DeclaresAt, node?_refresh]
    by_cases here : id = turn.1
    · obtain rfl := Option.some.inj (hnode.symm.trans (here ▸ hcomputed))
      rw [if_pos here, hnode]
      refine ⟨_, rfl, op, ?_⟩
      rw [outputs_parameter op hslots, List.map_map]
      rfl
    · rw [if_neg here]
      exact ⟨node, hnode, op, rfl⟩

theorem DeclaresAt.inferAll {types : List SlotType} (declares : g.DeclaresAt id types)
    (inferred : (GraphM.inferAll .core).runOn g = (.ok changed, g')) : g'.DeclaresAt id types := by
  obtain ⟨n, inferred⟩ := GraphM.exists_inferStale_of_inferAll inferred
  have marked : (g.setStale g.ids).DeclaresAt id types := by
    rwa [DeclaresAt, node?_setStale]
  rw [GraphM.runOn_inferStale] at inferred
  obtain rfl : _ = g' := congrArg Prod.snd inferred
  exact marked.inferInTurn _

/-- The more is declared of the parameters, the more inference finds out: at every slot the element
type is the same, the shape is known at least as well, and a value that was known is the same. -/
theorem outputs_le_of_inferAll (sharpened : g.Sharpened h) (mirrored : g.Mirrored)
    (mirrored' : h.Mirrored) (acyclic : g.isCyclic = false) (acyclic' : h.isCyclic = false)
    (whole : h.Whole)
    (inferred : (GraphM.inferAll .core).runOn g = (.ok changed, g'))
    (inferred' : (GraphM.inferAll .core).runOn h = (.ok changed', h')) (lists : h'.ReshapesRead) :
    ∀ id node, g'.node? id = some node →
      ∃ node', h'.node? id = some node' ∧ List.Forall₂ (· ≤ ·) node.outputs node'.outputs := by
  have same := GraphM.sameSkeleton_of_inferAll inferred
  have same' := GraphM.sameSkeleton_of_inferAll inferred'
  have mirrored := mirrored.of_sameLinks same.sameLinks
  have mirrored' := mirrored'.of_sameLinks same'.sameLinks
  have acyclic := same.isCyclic.2 acyclic
  have acyclic' := same'.isCyclic.2 acyclic'
  have current := current_of_inferAll Registry.steady_core inferred acyclic mirrored
  have current' := current_of_inferAll Registry.steady_core inferred' acyclic' mirrored'
  have coherent : h'.Coherent := by
    refine current'.coherent mirrored' acyclic' fun id node hnode t ht => ?_
    obtain ⟨old, hold, bare⟩ := same'.exists_bare hnode
    exact whole id old hold t ((congrArg Node.constant bare : old.bare.constant = _).trans ht)
  have sharpened' : g'.Sharpened h' := by
    refine ⟨fun id => ?_, fun id node hnode op node' hnode' => ?_⟩
    · rw [same'.bare, sharpened.bare, same.bare]
    · obtain ⟨old, hold, bare⟩ := same.exists_bare hnode
      obtain ⟨old', hold', bare'⟩ := same'.exists_bare hnode'
      have op : old.op = "Parameter" := (congrArg Node.op bare : old.bare.op = _).trans op
      have op' : old'.op = "Parameter" := by
        have bare := sharpened.bare id
        rw [hold, hold'] at bare
        exact (congrArg Node.op (Option.some.inj bare) : old'.bare.op = old.bare.op).trans op
      obtain ⟨last, hlast, -, types⟩ :=
        DeclaresAt.inferAll ⟨old, hold, op, rfl⟩ inferred
      obtain ⟨last', hlast', -, types'⟩ :=
        DeclaresAt.inferAll ⟨old', hold', op', rfl⟩ inferred'
      obtain rfl := Option.some.inj (hnode.symm.trans hlast)
      obtain rfl := Option.some.inj (hnode'.symm.trans hlast')
      rw [types, types']
      exact sharpened.declared id old hold op old' hold'
  exact sharpened'.outputs_le mirrored acyclic current current' coherent lists

/-- A reshape of data with three columns to as many rows as the shape of the data says, each of the
given width. -/
def columns (width : Tensor) (rows : Dim) : Graph :=
  (Graph.empty "f").after .core
    [.addParameter "x" ⟨.f32, .ranked [rows, .fixed 3]⟩,
      .makeNode { op := "ShapeOf", inputs := [⟨0, 0⟩] }, .addConstant (.ofInts [0]),
      .makeNode { op := "Gather", inputs := [⟨1, 0⟩, ⟨2, 0⟩] }, .addConstant width,
      .makeNode { op := "Concat", inputs := [⟨3, 0⟩, ⟨4, 0⟩] },
      .makeNode { op := "Reshape", inputs := [⟨0, 0⟩, ⟨5, 0⟩] }]

/-- The graph after inference. -/
def inferredColumns (width : Tensor) (rows : Dim) : Graph :=
  ((GraphM.inferAll .core).runOn (columns width rows)).2

/-- Once the number of rows is known, so are the target of the reshape and its shape. -/
theorem outputs_le_inferredColumns :
    ∃ node node', (inferredColumns (.ofInts [3]) .dynamic).node? 6 = some node ∧
      (inferredColumns (.ofInts [3]) (.fixed 2)).node? 6 = some node' ∧
        List.Forall₂ (· ≤ ·) node.outputs node'.outputs ∧
        node.outputs = [.ofType ⟨.f32, .ofRank 2⟩] ∧
        node'.outputs = [.ofType ⟨.f32, .ofExtents [2, 3]⟩] := by
  have inferred : (GraphM.inferAll .core).runOn (columns (.ofInts [3]) .dynamic) =
      (.ok false, inferredColumns (.ofInts [3]) .dynamic) := by decide +kernel
  have inferred' : (GraphM.inferAll .core).runOn (columns (.ofInts [3]) (.fixed 2)) =
      (.ok false, inferredColumns (.ofInts [3]) (.fixed 2)) := by decide +kernel
  have first : ((inferredColumns (.ofInts [3]) .dynamic).node? 6).map Node.outputs =
      some [.ofType ⟨.f32, .ofRank 2⟩] := by decide +kernel
  have second : ((inferredColumns (.ofInts [3]) (.fixed 2)).node? 6).map Node.outputs =
      some [.ofType ⟨.f32, .ofExtents [2, 3]⟩] := by decide +kernel
  obtain ⟨node, hnode, outputs⟩ := Option.map_eq_some_iff.1 first
  obtain ⟨node', hnode', better⟩ := outputs_le_of_inferAll (by decide +kernel) (by decide +kernel)
    (by decide +kernel) (by decide +kernel) (by decide +kernel) (by decide +kernel) inferred
    inferred' (by decide +kernel) 6 node hnode
  rw [hnode', Option.map_some, Option.some.injEq] at second
  exact ⟨node, node', hnode, hnode', better, outputs, second⟩

/-- One element, with the extents of two. -/
def misfit : Tensor := ⟨.i64 [3], [2]⟩

/-- Inference is not monotone if a tensor is held whose extents span more elements than it has. They
tell the rank of the reshape as long as the number of rows is open, and after that the elements do:
three dimensions of which nothing is known become two. -/
theorem not_forall_outputs_le :
    ¬∀ (g h g' h' : Graph) (changed changed' : Bool), g.Sharpened h → g.Mirrored → h.Mirrored →
      g.isCyclic = false → h.isCyclic = false →
      (GraphM.inferAll .core).runOn g = (.ok changed, g') →
      (GraphM.inferAll .core).runOn h = (.ok changed', h') → h'.ReshapesRead →
      ∀ id node, g'.node? id = some node →
        ∃ node', h'.node? id = some node' ∧ List.Forall₂ (· ≤ ·) node.outputs node'.outputs := by
  intro always
  have inferred : (GraphM.inferAll .core).runOn (columns misfit .dynamic) =
      (.ok false, inferredColumns misfit .dynamic) := by decide +kernel
  have inferred' : (GraphM.inferAll .core).runOn (columns misfit (.fixed 2)) =
      (.ok false, inferredColumns misfit (.fixed 2)) := by decide +kernel
  have first : ((inferredColumns misfit .dynamic).node? 6).map Node.outputs =
      some [.ofType ⟨.f32, .ofRank 3⟩] := by decide +kernel
  have second : ((inferredColumns misfit (.fixed 2)).node? 6).map Node.outputs =
      some [.ofType ⟨.f32, .ofExtents [2, 3]⟩] := by decide +kernel
  obtain ⟨node, hnode, outputs⟩ := Option.map_eq_some_iff.1 first
  obtain ⟨node', hnode', better⟩ := always (columns misfit .dynamic) (columns misfit (.fixed 2)) _ _
    false false (by decide +kernel) (by decide +kernel) (by decide +kernel) (by decide +kernel)
    (by decide +kernel) inferred inferred' (by decide +kernel) 6 node hnode
  rw [hnode', Option.map_some, Option.some.injEq] at second
  rw [outputs, second, List.forall₂_cons] at better
  have rank := Shape.rank?_eq rfl better.1.1.2
  exact absurd rank (by decide)

end Graph

end TensorGraph
