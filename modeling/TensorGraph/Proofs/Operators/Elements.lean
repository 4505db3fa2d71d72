import TensorGraph.Proofs.Inference.Turns
import TensorGraph.Proofs.Operators.Success

/-!
# Element types

The element type of what an operator computes depends on its node and on the element type of the
first input at most, not on the shapes and the values that the node reads
(`Operator.elements_eq_of_mem_core`). Nodes in step that differ in nothing else have outputs of the
same element types (`Graph.InStep.elements_eq`).
-/

namespace TensorGraph

/-- The sites are those of the same node apart from its inputs, and the first inputs have the same
element type. -/
structure Site.SameFirst (s s' : Site) : Prop where
  bare : ∃ inputs, s'.node.bare = { s.node.bare with inputs }
  element : ∀ e e', s.element 0 = .ok e → s'.element 0 = .ok e' → e' = e

namespace Site.SameFirst

variable {s s' : Site}

theorem op (h : s.SameFirst s') : s'.node.op = s.node.op := by
  obtain ⟨inputs, bare⟩ := h.bare
  have op := congrArg Node.op bare
  exact op

theorem name (h : s.SameFirst s') : s'.node.name = s.node.name := by
  obtain ⟨inputs, bare⟩ := h.bare
  have name := congrArg Node.name bare
  exact name

theorem constant (h : s.SameFirst s') : s'.node.constant = s.node.constant := by
  obtain ⟨inputs, bare⟩ := h.bare
  have constant := congrArg Node.constant bare
  exact constant

theorem attribute? (h : s.SameFirst s') (key : String) : s'.attribute? key = s.attribute? key := by
  obtain ⟨inputs, bare⟩ := h.bare
  have attributes := congrArg Node.attributes bare
  exact congrArg (·.find? key) attributes

theorem text (h : s.SameFirst s') (key : String) : s'.text key = s.text key := by
  rw [Site.text, Site.text, h.attribute?, h.op]

end Site.SameFirst

namespace Operator

variable {operator : Operator} {s s' : Site} {types types' : List SlotType}

/-- The operator gives one type, of the element type `elementOf`. -/
def Gives (operator : Operator) (elementOf : Site → Except Error ElementType) : Prop :=
  ∀ s types, operator.types s = .ok types →
    ∃ element shape, elementOf s = .ok element ∧ types = [⟨element, shape⟩]

/-! ### The element type of the first input -/

theorem exists_of_passType (h : passType s = .ok types) :
    ∃ element shape, s.element 0 = .ok element ∧ types = [⟨element, shape⟩] := by
  obtain ⟨_, element, shape, helement, _, rfl⟩ := passType_eq_ok_iff.1 h
  exact ⟨element, shape, helement, rfl⟩

theorem gives_memoryAccess (kind : MemoryAccess.Kind) :
    (memoryAccess kind).Gives (·.element 0) :=
  fun _ _ h => exists_of_passType (types_memoryAccess_eq_ok_iff.1 h).2

theorem gives_binary (name : String) (f : BinaryFold) : (binary name f).Gives (·.element 0) := by
  intro s types h
  obtain ⟨_, element, _, _, shape, helement, _, _, _, _, rfl⟩ := types_binary_eq_ok_iff.1 h
  exact ⟨element, shape, helement, rfl⟩

theorem gives_gather : gather.Gives (·.element 0) := by
  intro s types h
  obtain ⟨_, element, _, _, _, helement, _, _, _, h⟩ := types_gather_eq_ok_iff.1 h
  rcases h with ⟨_, rfl⟩ | ⟨_, _, _, _, _, _, _, _, rfl⟩
  · exact ⟨element, _, helement, rfl⟩
  · exact ⟨element, _, helement, rfl⟩

theorem gives_concat : concat.Gives (·.element 0) := by
  intro s types h
  obtain ⟨_, element, _, _, helement, _, _, h⟩ := types_concat_eq_ok_iff.1 h
  rcases h with ⟨_, rfl⟩ | ⟨_, _, shape, _, _, _, rfl⟩
  · exact ⟨element, _, helement, rfl⟩
  · exact ⟨element, shape, helement, rfl⟩

theorem gives_reshape : reshape.Gives (·.element 0) := by
  intro s types h
  obtain ⟨_, element, _, _, _, helement, _, _, _, h⟩ := types_reshape_eq_ok_iff.1 h
  rcases h with ⟨_, shape, _, _, rfl⟩ | ⟨_, _, _, rfl⟩
  · exact ⟨element, shape, helement, rfl⟩
  · exact ⟨element, _, helement, rfl⟩

/-! ### The element type that the node determines -/

theorem gives_constant : constant.Gives fun s => return (← payload s).elementType := by
  intro s types h
  obtain ⟨_, t, ht, rfl⟩ := types_constant_eq_ok_iff.1 h
  exact ⟨t.elementType, t.shape, bind_eq_ok_iff.2 ⟨t, ht, rfl⟩, rfl⟩

theorem gives_shapeOf : shapeOf.Gives ShapeOf.element := by
  intro s types h
  obtain ⟨_, _, element, _, helement, rfl⟩ := types_shapeOf_eq_ok_iff.1 h
  exact ⟨element, _, helement, rfl⟩

theorem gives_convert : convert.Gives Convert.destination := by
  intro s types h
  obtain ⟨_, element, shape, helement, _, rfl⟩ := types_convert_eq_ok_iff.1 h
  exact ⟨element, shape, helement, rfl⟩

/-! ### All operators -/

/-- At sites that differ in no more than the inputs of the node, but agree on the element type of
the first one, the types that the operator gives have the same element types. -/
def TypedByFirst (operator : Operator) : Prop :=
  ∀ s s' types types', s.SameFirst s' → operator.types s = .ok types →
    operator.types s' = .ok types' → types'.map SlotType.element = types.map SlotType.element

theorem Gives.typedByFirst {elementOf : Site → Except Error ElementType}
    (gives : operator.Gives elementOf)
    (same : ∀ s s' : Site, s.SameFirst s' → ∀ e e', elementOf s = .ok e → elementOf s' = .ok e' →
      e' = e) : operator.TypedByFirst := by
  intro s s' types types' h htypes htypes'
  obtain ⟨element, shape, helement, rfl⟩ := gives s types htypes
  obtain ⟨element', shape', helement', rfl⟩ := gives s' types' htypes'
  rw [same s s' h element element' helement helement']
  rfl

/-- A parameter apart, which has the types that it declares. -/
theorem typedByFirst_of_mem_core (h : operator ∈ core) (reads : operator.name ≠ "Parameter") :
    operator.TypedByFirst := by
  have first {operator : Operator} (gives : operator.Gives (·.element 0)) :
      operator.TypedByFirst := gives.typedByFirst fun _ _ h => h.element
  have node {operator : Operator} {elementOf : Site → Except Error ElementType}
      (gives : operator.Gives elementOf)
      (same : ∀ s s' : Site, s.SameFirst s' → elementOf s' = elementOf s) :
      operator.TypedByFirst :=
    gives.typedByFirst fun s s' h e e' he he' =>
      Except.ok.inj (he'.symm.trans ((same s s' h).trans he))
  cases family_of_mem_core h with
  | parameter => exact absurd rfl reads
  | result => exact first fun _ _ => exists_of_passType
  | constant =>
    refine node gives_constant fun s s' h => ?_
    rw [payload, payload, h.constant, h.name]
  | binary name f => exact first (gives_binary name f)
  | unary => exact first fun _ _ => exists_of_passType
  | reshape => exact first gives_reshape
  | shapeOf =>
    refine node gives_shapeOf fun s s' h => ?_
    rw [ShapeOf.element, ShapeOf.element, h.attribute?, h.text]
  | concat => exact first gives_concat
  | gather => exact first gives_gather
  | convert =>
    refine node gives_convert fun s s' h => ?_
    rw [Convert.destination, Convert.destination, h.text]
  | memoryAccess kind => exact first (gives_memoryAccess kind)

/-- So have the outputs themselves. -/
theorem TypedByFirst.elements_eq (typed : operator.TypedByFirst) (h : s.SameFirst s')
    {outputs outputs' : List Slot} (ok : operator.slots s = .ok outputs)
    (ok' : operator.slots s' = .ok outputs') :
    outputs'.map (·.element) = outputs.map (·.element) := by
  have elements {s : Site} {outputs : List Slot} (ok : operator.slots s = .ok outputs) :
      ∃ types, operator.types s = .ok types ∧
        outputs.map (·.element) = types.map SlotType.element := by
    obtain ⟨types, values, htypes, -, -, rfl⟩ := slots_eq_ok_iff.1 ok
    refine ⟨types, htypes, List.ext_getElem? fun i => ?_⟩
    simp only [List.getElem?_map, List.getElem?_mapIdx, Option.map_map]
    rfl
  obtain ⟨types, htypes, same⟩ := elements ok
  obtain ⟨types', htypes', same'⟩ := elements ok'
  rw [same, same', typed s s' types types' h htypes htypes']

end Operator

namespace Graph

variable {g g' : Graph} {id : NodeId} {node node' : Node}

/-- Nodes in step that differ in no more than their inputs, but agree on the element type of the
first one, have outputs of the same element types, unless these are declared. -/
theorem InStep.elements_eq (h : g.InStep .core id) (h' : g'.InStep .core id)
    (hnode : g.node? id = some node) (hnode' : g'.node? id = some node')
    (other : node.op ≠ "Parameter") (bare : ∃ inputs, node'.bare = { node.bare with inputs })
    (first : ∀ o o' slot slot', g.input? id 0 = some o → g'.input? id 0 = some o' →
      g.slot o = .ok slot → g'.slot o' = .ok slot' → slot'.element = slot.element) :
    node'.outputs.map (·.element) = node.outputs.map (·.element) := by
  obtain ⟨current, hcurrent, inferred⟩ := h
  obtain ⟨current', hcurrent', inferred'⟩ := h'
  obtain rfl := Option.some.inj (hnode.symm.trans hcurrent)
  obtain rfl := Option.some.inj (hnode'.symm.trans hcurrent')
  have read {g : Graph} {node : Node} {e : ElementType} (hnode : g.node? id = some node)
      (he : (g.site node).element 0 = .ok e) :
      ∃ o slot, g.input? id 0 = some o ∧ g.slot o = .ok slot ∧ slot.element = e := by
    obtain ⟨slot, hslot, he⟩ := bind_eq_ok_iff.1 he
    rw [Site.slot, site, List.getElem?_map, ← input?_eq hnode] at hslot
    cases hread : g.input? id 0 with
    | none => simp [hread] at hslot
    | some o =>
      rw [hread] at hslot
      exact ⟨o, slot, rfl, hslot, Except.ok.inj he⟩
  have same : (g.site node).SameFirst (g'.site node') := by
    refine ⟨bare, fun e e' he he' => ?_⟩
    obtain ⟨o, slot, hread, hslot, rfl⟩ := read hnode he
    obtain ⟨o', slot', hread', hslot', rfl⟩ := read hnode' he'
    exact first o o' slot slot' hread hread' hslot hslot'
  rw [Graph.inferred] at inferred inferred'
  have op : node'.op = node.op := same.op
  cases found : Registry.core.find? node.op with
  | none => simp [found] at inferred
  | some operator =>
    obtain ⟨mem, name⟩ := Registry.mem_core_of_find? found
    simp only [op, found] at inferred inferred'
    exact (Operator.typedByFirst_of_mem_core mem (name ▸ other)).elements_eq same inferred inferred'

end Graph

end TensorGraph
