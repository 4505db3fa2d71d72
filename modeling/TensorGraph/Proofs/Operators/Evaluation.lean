import TensorGraph.Proofs.Inference.Following
import TensorGraph.Proofs.Operators.Success

/-!
# Values that are known before the graph runs

`Graph.Shows` means that the value of an output is known, up to the signs of zeros. A node that
follows what it reads shows the value that its operator computes from the values that its inputs
show (`Graph.Follows.shows`). What the operators of shape arithmetic compute from known values is
said of each of them, in a form that holds also where a zero has the other sign.
-/

namespace TensorGraph

/-- The value of the slot is known to be the tensor, up to the signs of zeros. -/
def Slot.Shows (slot : Slot) (t : Tensor) : Prop := slot.value.map Tensor.plain = some t.plain

namespace Slot.Shows

variable {slot slot' : Slot} {t : Tensor} {xs : List Int} {extents : List Nat}

theorem of_value (h : slot.value = some t) : slot.Shows t := by
  rw [Slot.Shows, h, Option.map_some]

theorem of_plain (h : slot.Shows t) (plain : slot'.plain = slot.plain) : slot'.Shows t :=
  (Slot.plain_eq_plain_iff.1 plain).2.trans h

/-- A value of integers is known exactly. -/
theorem value_eq (h : slot.Shows t) (integers : t.integers? = some xs) : slot.value = some t := by
  obtain ⟨t', value, plain⟩ := Option.map_eq_some_iff.1 h
  rw [value, Tensor.eq_of_plain_eq plain integers]

/-- A value of one number is known up to the sign of a zero. -/
theorem exists_number {x : Binary64} (h : slot.Shows ⟨.f64 [x], extents⟩) :
    ∃ y : Binary64, slot.value = some ⟨.f64 [y], extents⟩ ∧ y.plain = x.plain := by
  obtain ⟨⟨data, extents'⟩, value, plain⟩ := Option.map_eq_some_iff.1 h
  simp only [Tensor.plain, Tensor.mk.injEq] at plain
  obtain ⟨ys, rfl, same⟩ := TensorData.exists_f64_of_plain_eq plain.1
  obtain ⟨y, rest, rfl, single, none⟩ := List.map_eq_cons_iff.1 same
  obtain rfl := List.map_eq_nil_iff.1 none
  exact ⟨y, by rw [value, plain.2], single⟩

end Slot.Shows

namespace Graph

variable {registry : Registry} {g : Graph} {id : NodeId} {node : Node} {operator : Operator}
  {o : Output} {t : Tensor}

/-- The value of the output is known to be the tensor, up to the signs of zeros. -/
def Shows (g : Graph) (o : Output) (t : Tensor) : Prop := ∃ slot, g.slot o = .ok slot ∧ slot.Shows t

end Graph

namespace Graph

variable {registry : Registry} {g : Graph} {id : NodeId} {node : Node} {operator : Operator}
  {o : Output} {t : Tensor}

/-- A node that follows what it reads shows what its operator computes from any slots of the same
plain forms. -/
theorem Follows.shows_of_slots (h : g.Follows registry id) (hnode : g.node? id = some node)
    (found : registry.find? node.op = some operator) {slots : List Slot}
    (reads : node.inputs.map g.slot = slots.map .ok)
    (fold : ∀ seen : List Slot, seen.map Slot.plain = slots.map Slot.plain →
      ∃ t', operator.fold ⟨node, seen.map .ok⟩ = .ok [some t'] ∧ t'.plain = t.plain) :
    g.Shows ⟨id, 0⟩ t := by
  obtain ⟨operator', seen, found', plain, computed⟩ := h node slots hnode reads
  obtain rfl := Option.some.inj (found.symm.trans found')
  obtain ⟨t', hfold, same⟩ := fold seen plain
  obtain ⟨slot, outputs, value⟩ := Operator.exists_output computed hfold
  refine ⟨slot, slot_eq_ok_iff.2 ⟨node, hnode, by rw [outputs]; rfl⟩, ?_⟩
  rw [Slot.Shows, value, Option.map_some, same]

/-- A node that follows what it reads shows what its operator computes from the values that its
inputs show. -/
theorem Follows.shows (h : g.Follows registry id) (hnode : g.node? id = some node)
    (found : registry.find? node.op = some operator) {ts : List Tensor}
    (reads : List.Forall₂ g.Shows node.inputs ts)
    (fold : ∀ seen : List Slot, List.Forall₂ Slot.Shows seen ts →
      ∃ t', operator.fold ⟨node, seen.map .ok⟩ = .ok [some t'] ∧ t'.plain = t.plain) :
    g.Shows ⟨id, 0⟩ t := by
  have slots {os : List Output} {ts : List Tensor} (reads : List.Forall₂ g.Shows os ts) :
      ∃ slots : List Slot, os.map g.slot = slots.map .ok ∧ List.Forall₂ Slot.Shows slots ts := by
    induction reads with
    | nil => exact ⟨[], rfl, .nil⟩
    | cons first _ ih =>
      obtain ⟨slot, hslot, shows⟩ := first
      obtain ⟨slots, hslots, later⟩ := ih
      exact ⟨slot :: slots, by rw [List.map_cons, List.map_cons, hslot, hslots],
        .cons shows later⟩
  have seen {seen slots : List Slot} {ts : List Tensor} (shows : List.Forall₂ Slot.Shows slots ts)
      (plain : seen.map Slot.plain = slots.map Slot.plain) : List.Forall₂ Slot.Shows seen ts := by
    induction shows generalizing seen with
    | nil =>
      obtain rfl := List.map_eq_nil_iff.1 plain
      exact .nil
    | cons first _ ih =>
      obtain ⟨slot, rest, rfl, same, later⟩ := List.map_eq_cons_iff.1 plain
      exact .cons (first.of_plain same) (ih later)
  obtain ⟨slots, hslots, shows⟩ := slots reads
  exact h.shows_of_slots hnode found hslots fun s plain => fold s (seen shows plain)

end Graph

/-! ### Operators -/

namespace Operator

variable {node : Node} {a b s : Slot} {x y : Binary64} {extents : List Nat}

/-- The type that a node names is the one its attribute was made of. -/
theorem text_typeAttribute {key : String} {element : ElementType} {slots : List (Except Error Slot)}
    (h : node.attributes = AttributeMap.empty.insert key (.text element.name)) :
    Site.text ⟨node, slots⟩ key = .ok element.name := by
  simp [Site.text, Site.attribute?, h, AttributeMap.find?_insert]

theorem ofName_name (element : ElementType) : ElementType.ofName element.name = .ok element := by
  cases element <;> rfl

theorem fold_constant {t : Tensor} (h : node.constant = some t) :
    constant.fold ⟨node, []⟩ = .ok [some t] :=
  fold_constant_eq_ok_iff.2 ⟨t, by rw [payload, h], rfl⟩

theorem element_shapeOf {slots : List (Except Error Slot)}
    (h : node.attributes = AttributeMap.empty.insert "output_type" (.text ElementType.i64.name)) :
    ShapeOf.element ⟨node, slots⟩ = .ok .i64 := by
  simp only [ShapeOf.element, Site.attribute?, h, AttributeMap.find?_insert, if_true]
  rw [text_typeAttribute h, bind_eq_ok_iff]
  exact ⟨_, rfl, rfl⟩

theorem fold_shapeOf {dims : List Nat} (shape : s.shape = .ofExtents dims)
    (h : node.attributes = AttributeMap.empty.insert "output_type" (.text ElementType.i64.name)) :
    shapeOf.fold ⟨node, [.ok s]⟩ = .ok [some (.ofInts (dims.map Int.ofNat))] := by
  have fixed : s.shape.extents? = some dims := by rw [shape, Shape.extents?_ofExtents]
  exact fold_shapeOf_eq_ok_iff.2
    ⟨s.shape, rfl, .inr ⟨dims, .i64, _, fixed, element_shapeOf h, rfl, rfl⟩⟩

theorem destination_convert {slots : List (Except Error Slot)} {element : ElementType}
    (h : node.attributes = AttributeMap.empty.insert "destination_type" (.text element.name)) :
    Convert.destination ⟨node, slots⟩ = .ok element := by
  rw [Convert.destination, text_typeAttribute h]
  exact ofName_name element

theorem fold_convert {t t' : Tensor} {element : ElementType} (value : s.value = some t)
    (h : node.attributes = AttributeMap.empty.insert "destination_type" (.text element.name))
    (cast : t.cast element = .ok t') : convert.fold ⟨node, [.ok s]⟩ = .ok [some t'] :=
  fold_convert_eq_ok_iff.2
    (.inr ⟨t, element, t', congrArg Except.ok value, destination_convert h, cast, rfl⟩)

theorem fold_binary {name : String} {f : BinaryFold}
    (left : a.value = some ⟨.f64 [x], [1]⟩) (right : b.value = some ⟨.f64 [y], [1]⟩) :
    (binary name f).fold ⟨node, [.ok a, .ok b]⟩ = .ok [some ⟨.f64 [f.onF64 x y], [1]⟩] := by
  have common : Shape.broadcastExtents [1] [1] = .ok [1] := rfl
  exact fold_binary_eq_ok_iff.2 ⟨_, _, congrArg Except.ok left, congrArg Except.ok right,
    .inr ⟨_, _, rfl, rfl, [1], common, rfl⟩⟩

theorem fold_unary {name : String} {f : UnaryFold} (value : s.value = some ⟨.f64 [x], extents⟩) :
    (unary name f).fold ⟨node, [.ok s]⟩ = .ok [some ⟨.f64 [f.onF64 x], extents⟩] :=
  fold_unary_eq_ok_iff.2 ⟨_, congrArg Except.ok value, rfl⟩

theorem fold_gather {data indices axis : Tensor} {is : List Int} {positions : List Nat}
    {elements : TensorData} (three : node.inputs.length = 3)
    (ha : a.value = some data) (hb : b.value = some indices) (hs : s.value = some axis)
    (rank : data.rank = 1) (first : axis.integers? = some [0])
    (known : indices.integers? = some is)
    (within : is.mapM (Gather.position data.length) = .ok positions)
    (taken : Gather.elements? positions data.data = some elements) :
    gather.fold ⟨node, [.ok a, .ok b, .ok s]⟩ = .ok [some ⟨elements, indices.extents⟩] := by
  have along : Gather.axis? ⟨node, [.ok a, .ok b, .ok s]⟩ = .ok (some 0) := by
    simp [Gather.axis?, Site.inputCount, three, Site.value, Site.slot, hs, first, bind, Except.bind,
      pure, Except.pure]
  refine fold_gather_eq_ok_iff.2 ⟨_, _, congrArg Except.ok ha, congrArg Except.ok hb,
    .inr ⟨data, indices, rfl, rfl, some 0, along,
      .inr ⟨⟨rank, .inl rfl⟩, .inr ⟨is, positions, known, within, ?_⟩⟩⟩⟩
  rw [taken]
  rfl

theorem fold_concat {xs ys : TensorData} {joined : TensorData} (two : node.inputs.length = 2)
    (ha : a.value = some (.ofData xs)) (hb : b.value = some (.ofData ys))
    (elements : Concat.elements? [.ofData xs, .ofData ys] = .ok (some joined)) :
    concat.fold ⟨node, [.ok a, .ok b]⟩ = .ok [some (.ofData joined)] := by
  have known : Concat.knownLists ⟨node, [.ok a, .ok b]⟩ [0, 1] =
      .ok (some [.ofData xs, .ofData ys]) := by
    simp [Concat.knownLists, Site.value, Site.slot, ha, hb, Tensor.rank, Tensor.ofData, bind,
      Except.bind, pure, Except.pure]
  have count : Site.inputCount ⟨node, [.ok a, .ok b]⟩ = 2 := two
  exact fold_concat_eq_ok_iff.2 (.inr ⟨_, some joined, by rw [count]; exact known, elements, rfl⟩)

/-- Of the inputs of its node a reshape sees their number only, apart from what they read. -/
theorem slots_reshape_of_length {inputs : List Output} {outputs : List Slot}
    {slots : List (Except Error Slot)} (length : inputs.length = node.inputs.length) :
    reshape.slots ⟨{ node with inputs, outputs }, slots⟩ = reshape.slots ⟨node, slots⟩ := by
  simp only [Operator.slots, reshape, Site.expectInputs, Site.element, Site.shape, Site.value,
    Site.slot, Site.inputCount, length, Reshape.specialZero, Site.boolOr, Site.attribute?]
  rfl

/-- A reshape computes from a target what it computes from another one of the same value. -/
theorem slots_reshape_congr {inputs : List Output} {data : Except Error Slot} {old new : Slot}
    {xs : List Int} (value : new.value = old.value)
    (integers : old.value.bind Tensor.integers? = some xs)
    (length : inputs.length = node.inputs.length) :
    reshape.slots ⟨{ node with inputs }, [data, .ok new]⟩ =
      reshape.slots ⟨node, [data, .ok old]⟩ := by
  have types : reshape.types ⟨{ node with inputs }, [data, .ok new]⟩ =
      reshape.types ⟨node, [data, .ok old]⟩ := by
    have pattern : (new.value).bind Tensor.integers? = some xs := value ▸ integers
    simp only [reshape, Site.expectInputs, Site.inputCount, length, Site.element, Site.shape,
      Site.value, Reshape.specialZero, Site.boolOr, Site.attribute?, Site.slot,
      List.getElem?_cons_zero, List.getElem?_cons_succ, bind, Except.bind, pure, Except.pure,
      pattern, integers]
    rfl
  have values : reshape.fold ⟨{ node with inputs }, [data, .ok new]⟩ =
      reshape.fold ⟨node, [data, .ok old]⟩ := by
    simp only [reshape, Site.value, Reshape.specialZero, Site.boolOr, Site.attribute?, Site.slot,
      List.getElem?_cons_zero, List.getElem?_cons_succ, bind, Except.bind, pure, Except.pure, value]
  simp only [slots, types, values]

end Operator

/-! ### Nodes -/

namespace Graph

variable {g : Graph} {id : NodeId} {bare : Node} {o o' o'' : Output} {t t' : Tensor} {xs : List Int}
  {x y : Binary64}

/-- Reshapes in step that read the same have the same outputs, whatever names they read it by. -/
theorem InStep.outputs_reshape_eq {g' : Graph} {node node' : Node} {inputs : List Output}
    (h : g.InStep .core id) (h' : g'.InStep .core id) (hnode : g.node? id = some node)
    (hnode' : g'.node? id = some node') (op : node.op = "Reshape")
    (bare : node'.bare = { node.bare with inputs })
    (reads : inputs.map g'.slot = node.inputs.map g.slot) : node'.outputs = node.outputs := by
  obtain ⟨current, hcurrent, inferred⟩ := h
  obtain ⟨current', hcurrent', inferred'⟩ := h'
  obtain rfl := Option.some.inj (hnode.symm.trans hcurrent)
  obtain rfl := Option.some.inj (hnode'.symm.trans hcurrent')
  obtain ⟨outputs, rfl⟩ : ∃ outputs, node' = { node with inputs, outputs } := by
    refine ⟨node'.outputs, ?_⟩
    cases node
    cases node'
    simpa [Node.bare] using bare
  have found : Registry.core.find? node.op = some Operator.reshape := by
    rw [op]
    rfl
  have length : inputs.length = node.inputs.length := by simpa using congrArg List.length reads
  simp only [Graph.inferred, found, site, reads] at inferred inferred'
  rw [Operator.slots_reshape_of_length length, inferred] at inferred'
  exact (Except.ok.inj inferred').symm

/-- Apart from its outputs the node in the place is the given one, and it follows what it reads. -/
structure Computes (g : Graph) (id : NodeId) (bare : Node) : Prop where
  planted : (g.node? id).map Node.bare = some bare
  follows : g.Follows .core id

namespace Computes

variable {operator : Operator}

theorem exists_node? (h : g.Computes id bare) :
    ∃ node, g.node? id = some node ∧ node.op = bare.op ∧ node.inputs = bare.inputs ∧
      node.attributes = bare.attributes ∧ node.constant = bare.constant := by
  obtain ⟨node, hnode, e⟩ := Option.map_eq_some_iff.1 h.planted
  exact ⟨node, hnode, (congrArg Node.op e : node.bare.op = _),
    (congrArg Node.inputs e : node.bare.inputs = _),
    (congrArg Node.attributes e : node.bare.attributes = _),
    (congrArg Node.constant e : node.bare.constant = _)⟩

/-- What the operator of the node computes from the values that its inputs show. -/
theorem shows (h : g.Computes id bare) (found : Registry.core.find? bare.op = some operator)
    {ts : List Tensor} (reads : List.Forall₂ g.Shows bare.inputs ts)
    (fold : ∀ node : Node, node.inputs = bare.inputs → node.attributes = bare.attributes →
      node.constant = bare.constant → ∀ seen : List Slot, List.Forall₂ Slot.Shows seen ts →
        ∃ t', operator.fold ⟨node, seen.map .ok⟩ = .ok [some t'] ∧ t'.plain = t.plain) :
    g.Shows ⟨id, 0⟩ t := by
  obtain ⟨node, hnode, op, inputs, attributes, constant⟩ := h.exists_node?
  exact h.follows.shows hnode (op ▸ found) (inputs ▸ reads) (fold node inputs attributes constant)

theorem shows_constant (h : g.Computes id (GraphM.constantNode t).bare) : g.Shows ⟨id, 0⟩ t := by
  have found : Registry.core.find? (GraphM.constantNode t).bare.op = some Operator.constant := rfl
  refine h.shows found .nil fun node _ _ constant seen shows => ?_
  cases shows
  exact ⟨t, Operator.fold_constant constant, rfl⟩

theorem shows_shapeOf (h : g.Computes id bare) (op : bare.op = "ShapeOf")
    (inputs : bare.inputs = [o]) (attributes : bare.attributes =
      AttributeMap.empty.insert "output_type" (.text ElementType.i64.name))
    {slot : Slot} (hslot : g.slot o = .ok slot) {dims : List Nat}
    (shape : slot.shape = .ofExtents dims) :
    g.Shows ⟨id, 0⟩ (.ofInts (dims.map Int.ofNat)) := by
  obtain ⟨node, hnode, op', inputs', attributes', -⟩ := h.exists_node?
  have found : Registry.core.find? node.op = some Operator.shapeOf := by
    rw [op', op]
    rfl
  have reads : node.inputs.map g.slot = [slot].map .ok := by
    rw [inputs', inputs, List.map_singleton, hslot, List.map_singleton]
  refine h.follows.shows_of_slots hnode found reads fun seen plain => ?_
  obtain ⟨s, none, rfl, same, e⟩ := List.map_eq_cons_iff.1 plain
  obtain rfl := List.map_eq_nil_iff.1 e
  have type := (Slot.plain_eq_plain_iff.1 same).1
  refine ⟨_, Operator.fold_shapeOf ?_ (attributes'.trans attributes), rfl⟩
  rw [← shape]
  exact congrArg SlotType.shape type

theorem shows_gather (h : g.Computes id bare) (op : bare.op = "Gather")
    (inputs : bare.inputs = [o, o', o'']) {data indices : Tensor} {is : List Int}
    {positions : List Nat} {elements : TensorData} (hdata : g.Shows o data)
    (hindices : g.Shows o' indices) (haxis : g.Shows o'' (.ofInts [0])) (rank : data.rank = 1)
    (integers : data.integers? = some xs) (known : indices.integers? = some is)
    (within : is.mapM (Gather.position data.length) = .ok positions)
    (taken : Gather.elements? positions data.data = some elements) :
    g.Shows ⟨id, 0⟩ ⟨elements, indices.extents⟩ := by
  have reads : List.Forall₂ g.Shows bare.inputs [data, indices, .ofInts [0]] := by
    rw [inputs]
    exact .cons hdata (.cons hindices (.cons haxis .nil))
  have found : Registry.core.find? bare.op = some Operator.gather := by
    rw [op]
    rfl
  refine h.shows found reads fun node inputs' _ _ seen shows => ?_
  obtain _ | ⟨ha, _ | ⟨hb, _ | ⟨hs, _ | _⟩⟩⟩ := shows
  have three : node.inputs.length = 3 := by rw [inputs', inputs]; rfl
  have zero : (Tensor.ofInts [0]).integers? = some [0] := rfl
  exact ⟨_, Operator.fold_gather three (ha.value_eq integers) (hb.value_eq known)
    (hs.value_eq zero) rank zero known within taken, rfl⟩

theorem shows_convert (h : g.Computes id bare) (op : bare.op = "Convert")
    (inputs : bare.inputs = [o]) {element : ElementType} (attributes : bare.attributes =
      AttributeMap.empty.insert "destination_type" (.text element.name))
    (read : g.Shows o t)
    (cast : ∀ slot : Slot, slot.Shows t → ∃ t₀ t₁, slot.value = some t₀ ∧ t₀.cast element = .ok t₁ ∧
      t₁.plain = t'.plain) : g.Shows ⟨id, 0⟩ t' := by
  have reads : List.Forall₂ g.Shows bare.inputs [t] := by
    rw [inputs]
    exact .cons read .nil
  have found : Registry.core.find? bare.op = some Operator.convert := by
    rw [op]
    rfl
  refine h.shows found reads fun node _ attributes' _ seen shows => ?_
  obtain _ | ⟨hs, _ | _⟩ := shows
  obtain ⟨t₀, t₁, value, cast, same⟩ := cast _ hs
  exact ⟨t₁, Operator.fold_convert value (attributes'.trans attributes) cast, same⟩

/-- An operator on two numbers that respects the plain forms of those that are read. -/
theorem shows_binary (h : g.Computes id bare) {name : String} {f : Operator.BinaryFold}
    (found : Registry.core.find? bare.op = some (.binary name f)) (inputs : bare.inputs = [o, o'])
    (left : g.Shows o ⟨.f64 [x], [1]⟩) (right : g.Shows o' ⟨.f64 [y], [1]⟩)
    (respects : ∀ x' y', x'.plain = x.plain → y'.plain = y.plain →
      (f.onF64 x' y').plain = (f.onF64 x y).plain) :
    g.Shows ⟨id, 0⟩ ⟨.f64 [f.onF64 x y], [1]⟩ := by
  have reads : List.Forall₂ g.Shows bare.inputs [⟨.f64 [x], [1]⟩, ⟨.f64 [y], [1]⟩] := by
    rw [inputs]
    exact .cons left (.cons right .nil)
  refine h.shows found reads fun node _ _ _ seen shows => ?_
  obtain _ | ⟨ha, _ | ⟨hb, _ | _⟩⟩ := shows
  obtain ⟨x', hx, samex⟩ := ha.exists_number
  obtain ⟨y', hy, samey⟩ := hb.exists_number
  refine ⟨_, Operator.fold_binary hx hy, ?_⟩
  simp only [Tensor.plain, TensorData.plain, List.map_cons, List.map_nil,
    respects x' y' samex samey]

theorem shows_unary (h : g.Computes id bare) {name : String} {f : Operator.UnaryFold}
    (found : Registry.core.find? bare.op = some (.unary name f)) (inputs : bare.inputs = [o])
    (read : g.Shows o ⟨.f64 [x], [1]⟩)
    (respects : ∀ x', x'.plain = x.plain → (f.onF64 x').plain = (f.onF64 x).plain) :
    g.Shows ⟨id, 0⟩ ⟨.f64 [f.onF64 x], [1]⟩ := by
  have reads : List.Forall₂ g.Shows bare.inputs [⟨.f64 [x], [1]⟩] := by
    rw [inputs]
    exact .cons read .nil
  refine h.shows found reads fun node _ _ _ seen shows => ?_
  obtain _ | ⟨hs, _ | _⟩ := shows
  obtain ⟨x', hx, same⟩ := hs.exists_number
  refine ⟨_, Operator.fold_unary hx, ?_⟩
  simp only [Tensor.plain, TensorData.plain, List.map_cons, List.map_nil, respects x' same]

theorem shows_concat (h : g.Computes id bare) (op : bare.op = "Concat")
    (inputs : bare.inputs = [o, o']) {as bs joined : TensorData} {ys : List Int}
    (left : g.Shows o (.ofData as)) (right : g.Shows o' (.ofData bs))
    (knownLeft : as.integers? = some xs) (knownRight : bs.integers? = some ys)
    (elements : Concat.elements? [.ofData as, .ofData bs] = .ok (some joined)) :
    g.Shows ⟨id, 0⟩ (.ofData joined) := by
  have reads : List.Forall₂ g.Shows bare.inputs [.ofData as, .ofData bs] := by
    rw [inputs]
    exact .cons left (.cons right .nil)
  have found : Registry.core.find? bare.op = some Operator.concat := by
    rw [op]
    rfl
  refine h.shows found reads fun node inputs' _ _ seen shows => ?_
  obtain _ | ⟨ha, _ | ⟨hb, _ | _⟩⟩ := shows
  have two : node.inputs.length = 2 := by rw [inputs', inputs]; rfl
  exact ⟨_, Operator.fold_concat two (ha.value_eq knownLeft) (hb.value_eq knownRight) elements,
    rfl⟩

end Computes

end Graph

end TensorGraph
