import TensorGraph.Proofs.Operators.Coherence
import TensorGraph.Proofs.Operators.Evaluation

/-!
# What is known of what was read

Inversion of the operators of shape arithmetic. If one of them has computed a value, it has found
the values known that it computes with; the type of its output is determined by the types that it
reads, whether values are known or not.
-/

namespace TensorGraph

namespace Operator

variable {operator : Operator} {s : Site} {slots : List Slot} {types : List SlotType}
  {type : SlotType} {t : Tensor} {node : Node} {a b : Slot}

/-! ### Values -/

theorem exists_of_fold_shapeOf (h : shapeOf.fold s = .ok [some t]) :
    ∃ shape extents, s.shape 0 = .ok shape ∧ shape.extents? = some extents := by
  obtain ⟨shape, hshape, ⟨_, h⟩ | ⟨extents, _, _, fixed, _⟩⟩ := fold_shapeOf_eq_ok_iff.1 h
  · cases h
  · exact ⟨shape, extents, hshape, fixed⟩

theorem exists_of_fold_convert (h : convert.fold s = .ok [some t]) :
    ∃ t₀ element, s.value 0 = .ok (some t₀) ∧ Convert.destination s = .ok element ∧
      t₀.cast element = .ok t := by
  obtain ⟨_, h⟩ | ⟨t₀, element, _, hvalue, destination, cast, h⟩ := fold_convert_eq_ok_iff.1 h
  · cases h
  · cases h
    exact ⟨t₀, element, hvalue, destination, cast⟩

theorem exists_of_fold_unary {name : String} {f : UnaryFold}
    (h : (unary name f).fold s = .ok [some t]) : ∃ t₀, s.value 0 = .ok (some t₀) := by
  obtain ⟨value, hvalue, h⟩ := fold_unary_eq_ok_iff.1 h
  cases value with
  | none => cases h
  | some t₀ => exact ⟨t₀, hvalue⟩

theorem exists_of_fold_binary {name : String} {f : BinaryFold}
    (h : (binary name f).fold s = .ok [some t]) : ∃ t₀, s.value 0 = .ok (some t₀) := by
  obtain ⟨_, _, hleft, _, ⟨_, h⟩ | ⟨t₀, _, rfl, _⟩⟩ := fold_binary_eq_ok_iff.1 h
  · cases h
  · exact ⟨t₀, hleft⟩

/-- What a gather has picked: as many elements as there are indices, at positions that exist. -/
theorem exists_of_fold_gather (h : gather.fold s = .ok [some t]) :
    ∃ data indices is positions elements, s.value 0 = .ok (some data) ∧
      s.value 1 = .ok (some indices) ∧ indices.integers? = some is ∧
        is.mapM (Gather.position data.length) = .ok positions ∧
          elements.length = is.length ∧ t = ⟨elements, indices.extents⟩ := by
  obtain ⟨_, _, hdata, hindices, ⟨_, h⟩ | ⟨data, indices, rfl, rfl, axis, haxis, ⟨_, h⟩ |
    ⟨_, ⟨_, h⟩ | ⟨is, positions, integers, hpositions, h⟩⟩⟩⟩ := fold_gather_eq_ok_iff.1 h
  · cases h
  · cases h
  · cases h
  · obtain ⟨elements, helements, rfl⟩ := Option.map_eq_some_iff.1 (List.cons.inj h).1.symm
    have count : positions.length = is.length :=
      (forall₂_of_mapM_eq_ok hpositions).length_eq.symm
    exact ⟨data, indices, is, positions, elements, hdata, hindices, integers, hpositions,
      (elements?_gather (positions_lt hpositions) helements).1.trans count, rfl⟩

/-- Two lists have been joined. -/
theorem exists_of_fold_concat (two : node.inputs.length = 2)
    (h : concat.fold ⟨node, [.ok a, .ok b]⟩ = .ok [some t]) :
    ∃ left right joined, a.value = some left ∧ b.value = some right ∧
      Concat.elements? [left, right] = .ok (some joined) ∧ t = .ofData joined := by
  have count : List.range (Site.inputCount ⟨node, [.ok a, .ok b]⟩) = [0, 1] := by
    rw [Site.inputCount, two]
    rfl
  obtain ⟨_, h⟩ | ⟨ts, joined, hknown, hjoined, h⟩ := fold_concat_eq_ok_iff.1 h
  · cases h
  · rw [count] at hknown
    obtain _ | ⟨left, _ | ⟨right, _ | _⟩⟩ := forall₂_of_knownLists hknown
    obtain ⟨data, rfl, rfl⟩ := Option.map_eq_some_iff.1 (List.cons.inj h).1.symm
    exact ⟨_, _, data, Except.ok.inj left.1, Except.ok.inj right.1, hjoined, rfl⟩

/-! ### Types -/

theorem types_constant (h : node.constant = some t)
    (computed : constant.types ⟨node, []⟩ = .ok types) : types = [⟨t.elementType, t.shape⟩] := by
  obtain ⟨_, t', held, rfl⟩ := types_constant_eq_ok_iff.1 computed
  rw [payload, h] at held
  rw [Except.ok.inj held]

/-- The extents of a tensor are a list of integers, as many as it has dimensions. -/
theorem types_shapeOf
    (h : node.attributes = AttributeMap.empty.insert "output_type" (.text ElementType.i64.name))
    (computed : shapeOf.types ⟨node, [.ok a]⟩ = .ok types) :
    types = [⟨.i64, match a.shape.rank? with
      | some rank => .ofExtents [rank]
      | none => .ofRank 1⟩] := by
  obtain ⟨_, shape, element, hshape, helement, rfl⟩ := types_shapeOf_eq_ok_iff.1 computed
  obtain rfl : a.shape = shape := Except.ok.inj hshape
  obtain rfl := Except.ok.inj ((element_shapeOf h).symm.trans helement)
  rfl

theorem types_convert {element : ElementType}
    (h : node.attributes = AttributeMap.empty.insert "destination_type" (.text element.name))
    (computed : convert.types ⟨node, [.ok a]⟩ = .ok types) : types = [⟨element, a.shape⟩] := by
  obtain ⟨_, element', shape, helement, hshape, rfl⟩ := types_convert_eq_ok_iff.1 computed
  obtain rfl : a.shape = shape := Except.ok.inj hshape
  obtain rfl := Except.ok.inj ((destination_convert h).symm.trans helement)
  rfl

/-- Slices along the first dimension: the extent of a list of indices takes its place. -/
theorem types_gather_first {c : Slot} {axis : Tensor} {extent : Nat}
    (three : node.inputs.length = 3) (indices : b.shape = .ofExtents [extent])
    (known : c.value = some axis) (first : axis.integers? = some [0])
    (computed : gather.types ⟨node, [.ok a, .ok b, .ok c]⟩ = .ok types) :
    types = [⟨a.element, a.shape.withDim 0 (.fixed extent)⟩] := by
  have along : Gather.axis? ⟨node, [.ok a, .ok b, .ok c]⟩ = .ok (some 0) := by
    simp [Gather.axis?, Site.inputCount, three, Site.value, Site.slot, known, first, bind,
      Except.bind, pure, Except.pure]
  obtain ⟨_, element, data, list, axis', helement, hdata, hlist, haxis, computed⟩ :=
    types_gather_eq_ok_iff.1 computed
  obtain rfl : a.element = element := Except.ok.inj helement
  obtain rfl : a.shape = data := Except.ok.inj hdata
  obtain rfl : b.shape = list := Except.ok.inj hlist
  obtain rfl := Except.ok.inj (along.symm.trans haxis)
  rw [indices] at computed
  obtain ⟨unknown, rfl⟩ | ⟨dims, is, _, place, ranked, list, ⟨⟩, resolved, rfl⟩ := computed
  · have unranked : a.shape = .unranked := by simpa [Shape.ofExtents] using unknown
    rw [unranked]
    rfl
  · obtain rfl := Shape.ranked.inj list
    rw [ranked]
    cases dims with
    | nil => cases resolved
    | cons dim dims =>
      obtain rfl : 0 = place := Except.ok.inj resolved
      rfl

/-- A list and what is a list, if its rank is known, are joined to a list. -/
theorem types_concat_list {extent : Nat} (two : node.inputs.length = 2)
    (h : node.attributes = AttributeMap.empty.insert "axis" (.int 0))
    (list : a.shape = .ofExtents [extent])
    (computed : concat.types ⟨node, [.ok a, .ok b]⟩ = .ok types) :
    b.element = a.element ∧ (b.shape = .unranked ∧ types = [⟨a.element, .unranked⟩] ∨
      ∃ dim sum, b.shape = .ranked [dim] ∧ Concat.joinDim true (.fixed extent) dim = some sum ∧
        types = [⟨a.element, .ranked [sum]⟩]) := by
  have axis : Site.intOr ⟨node, [.ok a, .ok b]⟩ "axis" 0 = .ok 0 := by
    simp only [Site.intOr, Site.attribute?, h, AttributeMap.find?_insert, if_true]
    rfl
  have resolved : resolveAxis "Concat" 0 [Dim.fixed extent].length = .ok 0 := rfl
  have count : Site.inputCount ⟨node, [.ok a, .ok b]⟩ = 2 := two
  obtain ⟨_, element, axis', first, helement, haxis, hfirst, computed⟩ :=
    types_concat_eq_ok_iff.1 computed
  obtain rfl : a.element = element := Except.ok.inj helement
  obtain rfl := Except.ok.inj (axis.symm.trans haxis)
  obtain rfl : a.shape = first := Except.ok.inj hfirst
  rw [list] at computed
  obtain ⟨⟨⟩, -⟩ | ⟨dims, place, shape, ranked, hplace, joined, rfl⟩ := computed
  obtain rfl : [.fixed extent] = dims := Shape.ranked.inj ranked
  obtain rfl := Except.ok.inj (resolved.symm.trans hplace)
  rw [count] at joined
  simp only [List.range', Concat.joinShapes, bind_eq_ok_iff, check_eq_ok_iff, Site.element,
    Site.shape, Site.slot, List.getElem?_cons_zero, List.getElem?_cons_succ, pure_eq_ok_iff,
    Except.ok.injEq, exists_eq_left'] at joined
  obtain ⟨same, joined⟩ := joined
  refine ⟨not_not.1 same, ?_⟩
  cases known : b.shape with
  | unranked =>
    simp only [known] at joined
    obtain rfl := Except.ok.inj joined
    exact .inl ⟨rfl, rfl⟩
  | ranked dims =>
    simp only [known, bind_eq_ok_iff, check_eq_ok_iff] at joined
    obtain ⟨one, sums, hsums, joined⟩ := joined
    obtain rfl := Except.ok.inj joined
    obtain ⟨dim, rfl⟩ := List.length_eq_one_iff.1 (not_not.1 one)
    refine .inr ⟨dim, ?_⟩
    cases dim with
    | fixed extent' =>
      obtain rfl := Except.ok.inj hsums
      exact ⟨_, rfl, rfl, rfl⟩
    | dynamic =>
      obtain rfl := Except.ok.inj hsums
      exact ⟨_, rfl, rfl, rfl⟩

end Operator

/-! ### Nodes -/

namespace Graph

variable {g : Graph} {id : NodeId} {bare : Node} {operator : Operator} {type : SlotType}
  {o o' o'' : Output} {t : Tensor} {element element' : ElementType} {shape : Shape} {known : Prop}
  {extent : Nat} {slot data : Slot}

/-- Apart from its outputs the node in the place is the given one, and it is in step. -/
structure Executes (g : Graph) (id : NodeId) (bare : Node) : Prop where
  planted : (g.node? id).map Node.bare = some bare
  inStep : g.InStep .core id

/-- The output has the type, and its value is known only under the condition. -/
def Gives (g : Graph) (o : Output) (type : SlotType) (known : Prop) : Prop :=
  ∃ slot, g.slot o = .ok slot ∧ slot.toSlotType = type ∧ ∀ t, slot.value = some t → known

namespace Executes

theorem computes (h : g.Executes id bare) : g.Computes id bare := ⟨h.planted, h.inStep.follows⟩

/-- What the operator of the node has computed from the slots that the node reads. -/
theorem exists_slots (h : g.Executes id bare) (found : Registry.core.find? bare.op = some operator)
    {slots : List Slot} (reads : bare.inputs.map g.slot = slots.map .ok) :
    ∃ node, g.node? id = some node ∧ node.inputs = bare.inputs ∧
      node.attributes = bare.attributes ∧ node.constant = bare.constant ∧
        operator.slots ⟨node, slots.map .ok⟩ = .ok node.outputs := by
  obtain ⟨node, hnode, op, inputs, attributes, constant⟩ := h.computes.exists_node?
  obtain ⟨node', hnode', inferred⟩ := h.inStep
  obtain rfl := Option.some.inj (hnode.symm.trans hnode')
  rw [Graph.inferred, op, found, site, inputs, reads] at inferred
  exact ⟨node, hnode, inputs, attributes, constant, inferred⟩

/-- A node of an operator that gives one type has one output. -/
theorem exists_slot (h : g.Executes id bare) (found : Registry.core.find? bare.op = some operator)
    {slots : List Slot} (reads : bare.inputs.map g.slot = slots.map .ok)
    (typed : ∀ node types, node.inputs = bare.inputs → node.attributes = bare.attributes →
      operator.types ⟨node, slots.map .ok⟩ = .ok types → types = [type]) :
    ∃ node slot, node.inputs = bare.inputs ∧ node.attributes = bare.attributes ∧
      g.slot ⟨id, 0⟩ = .ok slot ∧ slot.toSlotType = type ∧
        ∀ t, slot.value = some t → operator.fold ⟨node, slots.map .ok⟩ = .ok [some t] := by
  obtain ⟨node, hnode, inputs, attributes, -, computed⟩ := h.exists_slots found reads
  obtain ⟨types, htypes, single⟩ := Operator.exists_types computed
  obtain ⟨slot, outputs, same, fold⟩ := single type (typed node types inputs attributes htypes)
  exact ⟨node, slot, inputs, attributes,
    slot_eq_ok_iff.2 ⟨node, hnode, by rw [outputs]; rfl⟩, same, fold⟩

theorem slot_constant (h : g.Executes id (GraphM.constantNode t).bare) :
    g.slot ⟨id, 0⟩ = .ok ⟨⟨t.elementType, t.shape⟩, some t⟩ := by
  have found : Registry.core.find? (GraphM.constantNode t).bare.op = some Operator.constant := rfl
  have reads : (GraphM.constantNode t).bare.inputs.map g.slot = ([] : List Slot).map .ok := rfl
  obtain ⟨node, hnode, -, -, constant, computed⟩ := h.exists_slots found reads
  obtain ⟨types, htypes, single⟩ := Operator.exists_types computed
  obtain ⟨slot, outputs, type, -⟩ := single _ (Operator.types_constant constant htypes)
  obtain ⟨slot', outputs', value⟩ :=
    Operator.exists_output computed (Operator.fold_constant constant)
  obtain ⟨rfl, -⟩ := List.cons.inj (outputs.symm.trans outputs')
  refine slot_eq_ok_iff.2 ⟨node, hnode, ?_⟩
  rw [outputs, ← type, ← value]
  rfl

/-- The extents of the data are known if its shape is static. -/
theorem exists_shapeOf (h : g.Executes id bare) (op : bare.op = "ShapeOf")
    (inputs : bare.inputs = [o]) (attributes : bare.attributes =
      AttributeMap.empty.insert "output_type" (.text ElementType.i64.name))
    (hslot : g.slot o = .ok slot) :
    ∃ slot' dim, g.slot ⟨id, 0⟩ = .ok slot' ∧ slot'.toSlotType = ⟨.i64, .ranked [dim]⟩ ∧
      ∀ t, slot'.value = some t → ∃ dims, slot.shape = .ofExtents dims := by
  have found : Registry.core.find? bare.op = some Operator.shapeOf := by
    rw [op]
    rfl
  have reads : bare.inputs.map g.slot = [slot].map .ok := by
    rw [inputs, List.map_singleton, hslot, List.map_singleton]
  obtain ⟨node, slot', -, -, hslot', type, fold⟩ := h.exists_slot found reads
    fun node types _ same => Operator.types_shapeOf (same.trans attributes)
  obtain ⟨dim, list⟩ : ∃ dim, slot'.toSlotType = ⟨.i64, .ranked [dim]⟩ := by
    rw [type]
    cases slot.shape.rank? with
    | some rank => exact ⟨_, rfl⟩
    | none => exact ⟨_, rfl⟩
  refine ⟨slot', dim, hslot', list, fun t value => ?_⟩
  obtain ⟨shape, extents, hshape, fixed⟩ := Operator.exists_of_fold_shapeOf (fold t value)
  obtain rfl : slot.shape = shape := Except.ok.inj hshape
  exact ⟨extents, Shape.extents?_eq_some_iff.1 fixed⟩

theorem gives_convert (h : g.Executes id bare) (op : bare.op = "Convert")
    (inputs : bare.inputs = [o]) (attributes : bare.attributes =
      AttributeMap.empty.insert "destination_type" (.text element.name))
    (read : g.Gives o ⟨element', shape⟩ known) : g.Gives ⟨id, 0⟩ ⟨element, shape⟩ known := by
  obtain ⟨slot, hslot, type, only⟩ := read
  have found : Registry.core.find? bare.op = some Operator.convert := by
    rw [op]
    rfl
  have reads : bare.inputs.map g.slot = [slot].map .ok := by
    rw [inputs, List.map_singleton, hslot, List.map_singleton]
  obtain ⟨node, slot', -, -, hslot', type', fold⟩ := h.exists_slot found reads
    fun node types _ same => Operator.types_convert (same.trans attributes)
  refine ⟨slot', hslot', type'.trans ?_, fun t value => ?_⟩
  · rw [show slot.shape = shape from congrArg SlotType.shape type]
  · obtain ⟨t₀, _, value₀, -⟩ := Operator.exists_of_fold_convert (fold t value)
    exact only t₀ (Except.ok.inj value₀)

/-- A value that has been converted has the type to which it was. -/
theorem elementType_of_convert (h : g.Executes id bare) (op : bare.op = "Convert")
    (inputs : bare.inputs = [o]) (attributes : bare.attributes =
      AttributeMap.empty.insert "destination_type" (.text element.name))
    (hread : g.slot o = .ok data) (hslot : g.slot ⟨id, 0⟩ = .ok slot)
    (value : slot.value = some t) : t.elementType = element := by
  have found : Registry.core.find? bare.op = some Operator.convert := by
    rw [op]
    rfl
  have reads : bare.inputs.map g.slot = [data].map .ok := by
    rw [inputs, List.map_singleton, hread, List.map_singleton]
  obtain ⟨node, slot', -, same, hslot', -, fold⟩ := h.exists_slot found reads
    fun node types _ same => Operator.types_convert (same.trans attributes)
  obtain rfl := Except.ok.inj (hslot.symm.trans hslot')
  obtain ⟨t₀, element', -, destination, cast⟩ := Operator.exists_of_fold_convert (fold t value)
  obtain rfl := Except.ok.inj
    ((Operator.destination_convert (same.trans attributes)).symm.trans destination)
  exact (Operator.cast_eq_ok cast).1

theorem gives_unary (h : g.Executes id bare) {name : String} {f : Operator.UnaryFold}
    (found : Registry.core.find? bare.op = some (.unary name f)) (inputs : bare.inputs = [o])
    (read : g.Gives o type known) : g.Gives ⟨id, 0⟩ type known := by
  obtain ⟨slot, hslot, rfl, only⟩ := read
  have reads : bare.inputs.map g.slot = [slot].map .ok := by
    rw [inputs, List.map_singleton, hslot, List.map_singleton]
  obtain ⟨node, slot', -, -, hslot', type', fold⟩ := h.exists_slot found reads
    fun node types _ _ => Operator.types_passType rfl rfl
  refine ⟨slot', hslot', type', fun t value => ?_⟩
  obtain ⟨t₀, value₀⟩ := Operator.exists_of_fold_unary (fold t value)
  exact only t₀ (Except.ok.inj value₀)

theorem gives_binary (h : g.Executes id bare) {name : String} {f : Operator.BinaryFold}
    (found : Registry.core.find? bare.op = some (.binary name f)) (inputs : bare.inputs = [o, o'])
    (left : g.Gives o ⟨element, .ofExtents [1]⟩ known) (right : g.slot o' = .ok slot)
    (single : slot.shape = .ofExtents [1]) : g.Gives ⟨id, 0⟩ ⟨element, .ofExtents [1]⟩ known := by
  obtain ⟨slotLeft, hslot, type, only⟩ := left
  have reads : bare.inputs.map g.slot = [slotLeft, slot].map .ok := by
    rw [inputs, List.map_cons, List.map_singleton, hslot, right]
    rfl
  obtain ⟨node, slot', -, -, hslot', type', fold⟩ := h.exists_slot found reads
    fun node types _ _ => Operator.types_binary rfl rfl rfl (by
      rw [show slotLeft.shape = .ofExtents [1] from congrArg SlotType.shape type, single]
      rfl)
  refine ⟨slot', hslot', type'.trans ?_, fun t value => ?_⟩
  · rw [show slotLeft.element = element from congrArg SlotType.element type]
    rfl
  · obtain ⟨t₀, value₀⟩ := Operator.exists_of_fold_binary (fold t value)
    exact only t₀ (Except.ok.inj value₀)

/-- A gather along the first dimension that takes a list of indices. -/
theorem exists_gather (h : g.Executes id bare) (op : bare.op = "Gather")
    (inputs : bare.inputs = [o, o', o'']) (hdata : g.slot o = .ok data) {indices : Tensor}
    {is : List Int} (hindices : g.slot o' = .ok ⟨⟨element, .ofExtents [extent]⟩, some indices⟩)
    (integers : indices.integers? = some is)
    (haxis : g.slot o'' = .ok ⟨⟨element', shape⟩, some (.ofInts [0])⟩) :
    ∃ slot, g.slot ⟨id, 0⟩ = .ok slot ∧
      slot.toSlotType = ⟨data.element, data.shape.withDim 0 (.fixed extent)⟩ ∧
        ∀ t, slot.value = some t → ∃ whole positions elements, data.value = some whole ∧
          is.mapM (Gather.position whole.length) = .ok positions ∧ elements.length = is.length ∧
            t = ⟨elements, indices.extents⟩ := by
  have found : Registry.core.find? bare.op = some Operator.gather := by
    rw [op]
    rfl
  have reads : bare.inputs.map g.slot =
      [data, ⟨⟨element, .ofExtents [extent]⟩, some indices⟩,
        ⟨⟨element', shape⟩, some (.ofInts [0])⟩].map .ok := by
    rw [inputs, List.map_cons, List.map_cons, List.map_singleton, hdata, hindices, haxis]
    rfl
  obtain ⟨node, slot, -, -, hslot, type, fold⟩ := h.exists_slot found reads
    fun node types same _ => Operator.types_gather_first (by rw [same, inputs]; rfl) rfl rfl rfl
  refine ⟨slot, hslot, type, fun t value => ?_⟩
  obtain ⟨whole, indices', is', positions, elements, value₀, value₁, integers', within, length,
    rfl⟩ := Operator.exists_of_fold_gather (fold t value)
  obtain rfl : indices = indices' := Option.some.inj (Except.ok.inj value₁)
  obtain rfl := Option.some.inj (integers.symm.trans integers')
  exact ⟨whole, positions, elements, Except.ok.inj value₀, within, length, rfl⟩

/-- A list in front of what is a list if its rank is known. -/
theorem exists_concat (h : g.Executes id bare) (op : bare.op = "Concat")
    (inputs : bare.inputs = [o, o'])
    (attributes : bare.attributes = AttributeMap.empty.insert "axis" (.int 0))
    {left right : Slot} (hleft : g.slot o = .ok left) (hright : g.slot o' = .ok right)
    (list : left.shape = .ofExtents [extent]) :
    right.element = left.element ∧ ∃ slot, g.slot ⟨id, 0⟩ = .ok slot ∧
      slot.element = left.element ∧ (right.shape = .unranked ∧ slot.shape = .unranked ∨
        ∃ dim sum, right.shape = .ranked [dim] ∧
          Concat.joinDim true (.fixed extent) dim = some sum ∧ slot.shape = .ranked [sum]) ∧
        ∀ t, slot.value = some t → ∃ first rest joined, left.value = some first ∧
          right.value = some rest ∧ Concat.elements? [first, rest] = .ok (some joined) ∧
            t = .ofData joined := by
  have found : Registry.core.find? bare.op = some Operator.concat := by
    rw [op]
    rfl
  have reads : bare.inputs.map g.slot = [left, right].map .ok := by
    rw [inputs, List.map_cons, List.map_singleton, hleft, hright]
    rfl
  have two {node : Node} (same : node.inputs = bare.inputs) : node.inputs.length = 2 := by
    rw [same, inputs]
    rfl
  obtain ⟨node, hnode, same, same', -, computed⟩ := h.exists_slots found reads
  obtain ⟨types, htypes, single⟩ := Operator.exists_types computed
  obtain ⟨element, joined⟩ :=
    Operator.types_concat_list (two same) (same'.trans attributes) list htypes
  have outcome {shape : Shape} (htypes : types = [⟨left.element, shape⟩]) :
      ∃ slot, g.slot ⟨id, 0⟩ = .ok slot ∧ slot.toSlotType = ⟨left.element, shape⟩ ∧
        ∀ t, slot.value = some t → ∃ first rest joined, left.value = some first ∧
          right.value = some rest ∧ Concat.elements? [first, rest] = .ok (some joined) ∧
            t = .ofData joined := by
    obtain ⟨slot, outputs, type, fold⟩ := single _ htypes
    exact ⟨slot, slot_eq_ok_iff.2 ⟨node, hnode, by rw [outputs]; rfl⟩, type, fun t value =>
      Operator.exists_of_fold_concat (two same) (fold t value)⟩
  refine ⟨element, ?_⟩
  rcases joined with ⟨unranked, htypes⟩ | ⟨dim, sum, ranked, hsum, htypes⟩
  · obtain ⟨slot, hslot, type, value⟩ := outcome htypes
    exact ⟨slot, hslot, by rw [type], .inl ⟨unranked, by rw [type]⟩, value⟩
  · obtain ⟨slot, hslot, type, value⟩ := outcome htypes
    exact ⟨slot, hslot, by rw [type], .inr ⟨dim, sum, ranked, hsum, by rw [type]⟩, value⟩

end Executes

end Graph

end TensorGraph
