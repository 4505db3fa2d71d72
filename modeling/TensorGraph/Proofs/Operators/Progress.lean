import TensorGraph.Proofs.Inference.Coherence
import TensorGraph.Proofs.Operators.Evaluation
import TensorGraph.Proofs.Operators.Folding

/-!
# Operators that do not fail

The operators of shape arithmetic do not fail on slots of the right types, known or not: neither
the types nor the values of the output have anything in them that could be wrong
(`Operator.Yields`). What they yield is of a type that the types of the slots determine.
-/

namespace TensorGraph

/-- The slot has the type, and so has its value if it is known. -/
structure Slot.Bears (slot : Slot) (type : SlotType) : Prop where
  type_eq : slot.toSlotType = type
  coherent : slot.Coherent

variable {node : Node} {a b c : Slot} {seen : List Slot} {element : ElementType} {type : SlotType}
  {shape : Shape} {extents : List Nat} {m n : Nat} {t axis : Tensor} {is : List Int}

theorem Shape.ofExtents_inj {extents' : List Nat} :
    ofExtents extents = ofExtents extents' ↔ extents = extents' := by
  constructor
  · intro same
    have fixed := congrArg extents? same
    rwa [extents?_ofExtents, extents?_ofExtents, Option.some.injEq] at fixed
  · exact congrArg ofExtents

namespace Slot.Bears

theorem element_eq (h : a.Bears type) : a.element = type.element :=
  congrArg SlotType.element h.type_eq

theorem shape_eq (h : a.Bears type) : a.shape = type.shape := congrArg SlotType.shape h.type_eq

/-- A known value is a whole tensor of the type. -/
theorem of_value (h : a.Bears ⟨element, .ofExtents extents⟩) (known : a.value = some t) :
    t.elementType = element ∧ t.extents = extents ∧ t.data.length = Shape.count extents := by
  obtain ⟨type, wellFormed⟩ := h.coherent t known
  obtain ⟨rfl, shape⟩ := SlotType.mk.inj (h.type_eq.symm.trans type)
  obtain rfl := Shape.ofExtents_inj.1 shape
  exact ⟨rfl, rfl, wellFormed⟩

end Slot.Bears

theorem Tensor.bears_literal (h : t.WellFormed) : t.literal.Bears ⟨t.elementType, t.shape⟩ where
  type_eq := rfl
  coherent := t.coherent_literal h

namespace Operator

/-- For a node that reads the slots the operator computes one output, which is of the type. -/
def Yields (operator : Operator) (node : Node) (seen : List Slot) (type : SlotType) : Prop :=
  ∃ slot, operator.slots ⟨node, seen.map .ok⟩ = .ok [slot] ∧ slot.Bears type

/-- An operator that fails neither at the type nor at the value. -/
theorem Coherent.yields {operator : Operator} (h : operator.Coherent)
    (coherent : Site.Coherent ⟨node, seen.map .ok⟩)
    (types : operator.types ⟨node, seen.map .ok⟩ = .ok [type])
    (folds : operator.Folds ⟨node, seen.map .ok⟩ [type]) : operator.Yields node seen type := by
  obtain ⟨slots, computed⟩ := (exists_slots_iff types).2 folds
  obtain ⟨_, types', single⟩ := exists_types computed
  obtain ⟨slot, rfl, same, -⟩ := single type (Except.ok.inj (types'.symm.trans types))
  exact ⟨slot, computed, same, h.slots coherent computed _ List.mem_cons_self⟩

/-- The extents of data of a known rank. -/
theorem yields_shapeOf (one : node.inputs.length = 1) (plain : node.constant = none)
    (h : node.attributes = AttributeMap.empty.insert "output_type" (.text ElementType.i64.name))
    (ha : a.Coherent) (rank : a.shape.rank? = some n) :
    shapeOf.Yields node [a] ⟨.i64, .ofExtents [n]⟩ := by
  have coherent : Site.Coherent ⟨node, [a].map .ok⟩ :=
    Site.coherent_of_seen plain (by simpa using ha)
  have typed : shapeOf.types ⟨node, [a].map .ok⟩ = .ok [⟨.i64, .ofExtents [n]⟩] :=
    types_shapeOf_eq_ok_iff.2 ⟨one, a.shape, .i64, rfl, element_shapeOf h, by rw [rank]⟩
  exact coherent_shapeOf.yields coherent typed (folds_shapeOf typed)

theorem yields_convert (one : node.inputs.length = 1) (plain : node.constant = none)
    (h : node.attributes = AttributeMap.empty.insert "destination_type" (.text element.name))
    (other : element ≠ .f16) (ha : a.Bears type) :
    convert.Yields node [a] ⟨element, type.shape⟩ := by
  have coherent : Site.Coherent ⟨node, [a].map .ok⟩ :=
    Site.coherent_of_seen plain (by simpa using ha.coherent)
  have typed : convert.types ⟨node, [a].map .ok⟩ = .ok [⟨element, type.shape⟩] :=
    types_convert_eq_ok_iff.2
      ⟨one, element, _, destination_convert h, congrArg Except.ok ha.shape_eq, rfl⟩
  refine coherent_convert.yields coherent typed ((folds_convert typed).resolve_right ?_)
  rintro ⟨_, _, half⟩
  exact other (Except.ok.inj ((destination_convert h).symm.trans half))

theorem yields_unary {name : String} {f : UnaryFold} (one : node.inputs.length = 1)
    (plain : node.constant = none) (ha : a.Bears type) : (unary name f).Yields node [a] type := by
  have coherent : Site.Coherent ⟨node, [a].map .ok⟩ :=
    Site.coherent_of_seen plain (by simpa using ha.coherent)
  have typed : (unary name f).types ⟨node, [a].map .ok⟩ = .ok [type] :=
    passType_eq_ok_iff.2 ⟨one, a.element, a.shape, rfl, rfl, by rw [ha.element_eq, ha.shape_eq]⟩
  exact (coherent_unary name f).yields coherent typed (folds_unary typed)

/-- Two tensors of the same type. -/
theorem yields_binary {name : String} {f : BinaryFold} (two : node.inputs.length = 2)
    (plain : node.constant = none) (ha : a.Bears ⟨element, .ofExtents extents⟩)
    (hb : b.Bears ⟨element, .ofExtents extents⟩) :
    (binary name f).Yields node [a, b] ⟨element, .ofExtents extents⟩ := by
  have padded : Shape.padLeft (max extents.length extents.length) (extents.map .fixed) =
      extents.map Dim.fixed := by
    simp [Shape.padLeft]
  have common : (Shape.ofExtents extents).broadcast (.ofExtents extents) =
      .ok (.ofExtents extents) := by
    simp only [Shape.ofExtents, Shape.broadcast, List.length_map, padded,
      Shape.broadcastDims_self]
  have coherent : Site.Coherent ⟨node, [a, b].map .ok⟩ :=
    Site.coherent_of_seen plain (by simpa using ⟨ha.coherent, hb.coherent⟩)
  have typed : (binary name f).types ⟨node, [a, b].map .ok⟩ =
      .ok [⟨element, .ofExtents extents⟩] :=
    types_binary_eq_ok_iff.2 ⟨two, element, _, _, _, congrArg Except.ok ha.element_eq,
      congrArg Except.ok hb.element_eq, congrArg Except.ok ha.shape_eq,
      congrArg Except.ok hb.shape_eq, common, rfl⟩
  exact (coherent_binary name f).yields coherent typed (folds_binary coherent typed)

/-- A list of elements at positions that the list has. -/
theorem yields_gather {positions : List Nat} (three : node.inputs.length = 3)
    (plain : node.constant = none) (ha : a.Bears ⟨element, .ofExtents [n]⟩) (hb : b.Coherent)
    (hc : c.Coherent) (shape : b.shape = .ofExtents extents) (indices : b.value = some t)
    (known : t.integers? = some is) (within : is.mapM (Gather.position n) = .ok positions)
    (along : c.value = some axis) (first : axis.integers? = some [0]) :
    gather.Yields node [a, b, c] ⟨element, .ofExtents extents⟩ := by
  have resolved : resolveAxis "Gather" 0 1 = .ok 0 := rfl
  have axis? : Gather.axis? ⟨node, [a, b, c].map .ok⟩ = .ok (some 0) := by
    simp [Gather.axis?, Site.inputCount, three, Site.value, Site.slot, along, first, bind,
      Except.bind, pure, Except.pure]
  have coherent : Site.Coherent ⟨node, [a, b, c].map .ok⟩ :=
    Site.coherent_of_seen plain (by simpa using ⟨ha.coherent, hb, hc⟩)
  have count : ¬(Site.inputCount ⟨node, [a, b, c].map .ok⟩ < 2 ∨
      3 < Site.inputCount ⟨node, [a, b, c].map .ok⟩) := by
    simp [Site.inputCount, three]
  have typed : gather.types ⟨node, [a, b, c].map .ok⟩ = .ok [⟨element, .ofExtents extents⟩] :=
    types_gather_eq_ok_iff.2 ⟨count, element, _, _, _, congrArg Except.ok ha.element_eq,
      congrArg Except.ok ha.shape_eq, congrArg Except.ok shape, axis?,
      .inr ⟨[.fixed n], extents.map .fixed, 0, 0, rfl, rfl, rfl, resolved, by
        simp [Shape.ofExtents]⟩⟩
  refine coherent_gather.yields coherent typed ((folds_gather typed).resolve_right ?_)
  rintro ⟨data, indices', is', _, hdata, _, hindices, known', _, _, i, hi, outside⟩
  obtain rfl : t = indices' := Option.some.inj (indices.symm.trans (Except.ok.inj hindices))
  obtain rfl := Option.some.inj (known.symm.trans known')
  have length : data.length = n := by
    rw [Tensor.length, (ha.of_value (Except.ok.inj hdata)).2.2, Shape.count, Shape.count,
      Nat.mul_one]
  obtain ⟨position, _, found⟩ := exists_of_forall₂ (forall₂_of_mapM_eq_ok within) hi
  exact exists_position_iff.1 ⟨position, found⟩ (length ▸ outside)

/-- Two lists of elements of one type. -/
theorem yields_concat (two : node.inputs.length = 2) (plain : node.constant = none)
    (h : node.attributes = AttributeMap.empty.insert "axis" (.int 0))
    (ha : a.Bears ⟨element, .ofExtents [m]⟩) (hb : b.Bears ⟨element, .ofExtents [n]⟩) :
    concat.Yields node [a, b] ⟨element, .ofExtents [m + n]⟩ := by
  have axis : Site.intOr ⟨node, [.ok a, .ok b]⟩ "axis" 0 = .ok 0 := by
    simp only [Site.intOr, Site.attribute?, h, AttributeMap.find?_insert, if_true]
    rfl
  have resolved : resolveAxis "Concat" 0 1 = .ok 0 := rfl
  have coherent : Site.Coherent ⟨node, [a, b].map .ok⟩ :=
    Site.coherent_of_seen plain (by simpa using ⟨ha.coherent, hb.coherent⟩)
  have count : Site.inputCount ⟨node, [a, b].map .ok⟩ = 2 := two
  have joined : Concat.joinShapes ⟨node, [a, b].map .ok⟩ element 0 [1] [.fixed m] =
      .ok (.ofExtents [m + n]) := by
    simp [Concat.joinShapes, Concat.joinDims, Concat.joinDim, Site.element, Site.shape, Site.slot,
      hb.element_eq, hb.shape_eq, Shape.ofExtents, bind, Except.bind, pure, Except.pure]
  have typed : concat.types ⟨node, [a, b].map .ok⟩ = .ok [⟨element, .ofExtents [m + n]⟩] :=
    types_concat_eq_ok_iff.2 ⟨by rw [count]; exact two_ne_zero, element, 0, _,
      congrArg Except.ok ha.element_eq, axis, congrArg Except.ok ha.shape_eq,
      .inr ⟨[.fixed m], 0, _, rfl, resolved, by rw [count]; exact joined, rfl⟩⟩
  exact coherent_concat.yields coherent typed (folds_concat coherent typed)

end Operator

end TensorGraph
