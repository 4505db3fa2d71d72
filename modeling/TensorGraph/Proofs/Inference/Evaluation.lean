import TensorGraph.Proofs.Inference.Turns

/-!
# Evaluation

What a node produces is determined by its operator from what the nodes that it reads produce, and so
on down to the parameters, whose types are declared. `Graph.evaluate` follows that recursion. It
looks at no slot that the graph holds but the declared ones and knows nothing of what is stale
(`Graph.SameProgram.evaluate_eq`).
-/

namespace TensorGraph

namespace Graph

variable {registry : Registry} {g h k : Graph} {id : NodeId} {node node' : Node} {depth : Nat}

/-- The slot that a reference names, given what the nodes produce. -/
def pick (g : Graph) (outputs : NodeId → Except Error (List Slot)) (o : Output) :
    Except Error Slot :=
  match g.node? o.node with
  | none => .error (.structural (.nodeMissing o.node))
  | some producer =>
    match outputs o.node with
    | .error e => .error e
    | .ok slots =>
      match slots[o.slot]? with
      | some slot => .ok slot
      | none => .error (.structural (.slotMissing producer.name producer.op o.slot))

/-- What a node produces, computed from what the nodes that it reads produce, down to the given
depth. What is as deep as there are nodes goes round a cycle. -/
def evaluate (registry : Registry) (g : Graph) : Nat → NodeId → Except Error (List Slot)
  | 0, _ => .error (.structural (.cyclic g.name))
  | depth + 1, id =>
    match g.node? id with
    | none => .error (.structural (.nodeMissing id))
    | some node =>
      match registry.find? node.op with
      | none => .error (.inference (.unregistered node.op))
      | some operator =>
        operator.slots ⟨node, node.inputs.map (g.pick fun p => evaluate registry g depth p)⟩

/-- A reference to what is there already picks the slot that the graph holds. -/
theorem pick_eq_slot {outputs : NodeId → Except Error (List Slot)} {o : Output}
    (held : ∀ node, g.node? o.node = some node → outputs o.node = .ok node.outputs) :
    g.pick outputs o = g.slot o := by
  rw [pick, slot, Graph.node]
  cases hnode : g.node? o.node with
  | none => rfl
  | some node =>
    cases hslot : node.outputs[o.slot]? <;>
      simp only [held node hnode, hslot, bind, Except.bind]

/-- Where the graph holds what the nodes produce that a node reads, it is as good as evaluating
them. -/
theorem evaluate_succ_eq_inferred (hnode : g.node? id = some node)
    (held : ∀ o ∈ node.inputs, ∀ producer, g.node? o.node = some producer →
      g.evaluate registry depth o.node = .ok producer.outputs) :
    g.evaluate registry (depth + 1) id = g.inferred registry node := by
  have picks : (node.inputs.map (g.pick fun p => g.evaluate registry depth p)) =
      node.inputs.map g.slot :=
    List.map_congr_left fun o ho => pick_eq_slot (held o ho)
  cases found : registry.find? node.op <;>
    simp only [evaluate, hnode, inferred, picks, site, found]

/-! ### What evaluation depends on -/

/-- The graphs have the same nodes but for their outputs, and their parameters declare the same
types. -/
structure SameProgram (g h : Graph) : Prop where
  name : h.name = g.name
  bare : ∀ id, (h.node? id).map Node.bare = (g.node? id).map Node.bare
  declared : ∀ id node node', g.node? id = some node → h.node? id = some node' →
    node.op = "Parameter" → node'.outputs.map Slot.toSlotType = node.outputs.map Slot.toSlotType

theorem SameProgram.refl (g : Graph) : g.SameProgram g where
  name := rfl
  bare _ := rfl
  declared id node node' hnode hnode' _ := by
    obtain rfl := Option.some.inj (hnode.symm.trans hnode')
    rfl

theorem SameProgram.trans (same : g.SameProgram h) (same' : h.SameProgram k) : g.SameProgram k where
  name := same'.name.trans same.name
  bare id := (same'.bare id).trans (same.bare id)
  declared id node node' hnode hnode' op := by
    obtain ⟨between, hbetween, bare⟩ := Option.map_eq_some_iff.1
      ((same.bare id).trans (by rw [hnode, Option.map_some]))
    have op' : between.op = "Parameter" :=
      (congrArg Node.op bare : between.bare.op = node.bare.op).trans op
    exact (same'.declared id between node' hbetween hnode' op').trans
      (same.declared id node between hnode hbetween op)

theorem SameProgram.of_node?_eq (name : h.name = g.name) (same : ∀ id, h.node? id = g.node? id) :
    g.SameProgram h where
  name := name
  bare id := by rw [same]
  declared id node node' hnode hnode' _ := by
    obtain rfl := Option.some.inj (hnode.symm.trans ((same id).symm.trans hnode'))
    rfl

theorem SameProgram.exists_node? (same : g.SameProgram h) (hnode : g.node? id = some node) :
    ∃ node', h.node? id = some node' ∧ node'.bare = node.bare :=
  Option.map_eq_some_iff.1 ((same.bare id).trans (by rw [hnode, Option.map_some]))

theorem SameProgram.node?_eq_none (same : g.SameProgram h) (missing : g.node? id = none) :
    h.node? id = none := by
  have bare := same.bare id
  rwa [missing, Option.map_none, Option.map_eq_none_iff] at bare

theorem SameProgram.contains (same : g.SameProgram h) (id : NodeId) :
    h.contains id = g.contains id := by
  rw [← isSome_node?, ← isSome_node?, ← Option.isSome_map (f := Node.bare), same.bare,
    Option.isSome_map]

theorem SameProgram.size (same : g.SameProgram h) : h.size = g.size := by
  have ids : h.ids.Perm g.ids := by
    rw [List.perm_ext_iff_of_nodup h.nodup_ids g.nodup_ids]
    intro id
    rw [mem_ids, mem_ids, same.contains]
  simpa [Graph.size, Graph.ids] using ids.length_eq

/-- Of the outputs of its node an operator sees at most the types that a parameter declares. -/
theorem slots_eq_of_bare {operator : Operator} (found : Registry.core.find? node.op = some operator)
    (bare : node'.bare = node.bare)
    (declared : node.op = "Parameter" →
      node'.outputs.map Slot.toSlotType = node.outputs.map Slot.toSlotType)
    (slots : List (Except Error Slot)) :
    operator.slots ⟨node', slots⟩ = operator.slots ⟨node, slots⟩ := by
  obtain ⟨outputs, rfl⟩ : ∃ outputs, node' = { node with outputs } := by
    refine ⟨node'.outputs, ?_⟩
    cases node
    cases node'
    simpa [Node.bare] using bare
  obtain ⟨mem, name⟩ := Registry.mem_core_of_find? found
  rcases Operator.blind_of_mem_core mem with rfl | blind
  · have types := declared name.symm
    have empty : outputs = [] ↔ node.outputs = [] := by
      rw [← List.map_eq_nil_iff (f := Slot.toSlotType), types, List.map_eq_nil_iff]
    have values (outputs : List Slot) : (outputs.map fun slot => Slot.ofType slot.toSlotType) =
        (outputs.map Slot.toSlotType).map Slot.ofType := by
      rw [List.map_map]
      rfl
    rw [Operator.slots_parameter, Operator.slots_parameter]
    simp only [empty, values, types]
  · exact blind node slots outputs

/-- Graphs that differ in what is known of the outputs and in what is stale are evaluated alike. -/
theorem SameProgram.evaluate_eq (same : g.SameProgram h) (depth : Nat) (id : NodeId) :
    h.evaluate .core depth id = g.evaluate .core depth id := by
  induction depth generalizing id with
  | zero => rw [evaluate, evaluate, same.name]
  | succ depth ih =>
    have picks (o : Output) : h.pick (fun p => h.evaluate .core depth p) o =
        g.pick (fun p => g.evaluate .core depth p) o := by
      cases hnode : g.node? o.node with
      | none => simp only [pick, hnode, same.node?_eq_none hnode]
      | some node =>
        obtain ⟨node', hnode', bare⟩ := same.exists_node? hnode
        have name : node'.name = node.name := (congrArg Node.name bare : node'.bare.name = _)
        have op : node'.op = node.op := (congrArg Node.op bare : node'.bare.op = _)
        simp only [pick, hnode, hnode', ih, name, op]
    cases hnode : g.node? id with
    | none => simp only [evaluate, hnode, same.node?_eq_none hnode]
    | some node =>
      obtain ⟨node', hnode', bare⟩ := same.exists_node? hnode
      have inputs : node'.inputs = node.inputs :=
        (congrArg Node.inputs bare : node'.bare.inputs = _)
      have op : node'.op = node.op := (congrArg Node.op bare : node'.bare.op = _)
      simp only [evaluate, hnode, hnode', op, inputs, funext picks]
      cases found : Registry.core.find? node.op with
      | none => rfl
      | some operator =>
        exact slots_eq_of_bare found bare (same.declared id node node' hnode hnode') _

end Graph

end TensorGraph
