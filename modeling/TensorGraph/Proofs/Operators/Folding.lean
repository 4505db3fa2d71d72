import TensorGraph.Proofs.Operators.Broadcast
import TensorGraph.Proofs.Operators.Elements
import TensorGraph.Proofs.Operators.Monotone

/-!
# Folding does not reject what the types accept

At a site with coherent slots for which an operator of the library computes types, it computes
values too: what cannot be folded is left open. There are two exceptions (`Operator.Unfoldable`),
an index out of range and a conversion to elements of 16 bits, of which there are none
(`Operator.fold_spec`). So a node that has been accepted is not rejected once more values are known,
unless by these or by types that are read off the values themselves.
-/

namespace TensorGraph

/-- Known data of one dimension are gathered along it, and one of the indices, which are known too,
is out of range. -/
def Gather.OutOfRange (s : Site) : Prop :=
  ∃ data indices is axis, s.value 0 = .ok (some data) ∧ data.rank = 1 ∧
    s.value 1 = .ok (some indices) ∧ indices.integers? = some is ∧
    Gather.axis? s = .ok (some axis) ∧ (axis = 0 ∨ axis = -1) ∧
    ∃ i ∈ is, i < -(data.length : Int) ∨ (data.length : Int) ≤ i

/-- A known value is converted to elements of 16 bits. -/
def Convert.Unheld (s : Site) : Prop :=
  ∃ t, s.value 0 = .ok (some t) ∧ Convert.destination s = .ok .f16

/-- The second site is that of the same node, of which it sees the same slots with more values. -/
structure Site.Learns (s s' : Site) : Prop where
  /-- The node is the same. -/
  node : s'.node = s.node
  /-- The element types are the same. -/
  element : ∀ i, s'.element i = s.element i
  /-- The shapes are the same. -/
  shape : ∀ i, s'.shape i = s.shape i
  /-- What is known stays known. -/
  value : ∀ i t, s.value i = .ok (some t) → s'.value i = .ok (some t)

variable {s s' : Site} {types : List SlotType} {i : Nat}

theorem Site.exists_value {shape : Shape} (h : s.shape i = .ok shape) :
    ∃ value, s.value i = .ok value := by
  obtain ⟨slot, found, -⟩ := bind_eq_ok_iff.1 h
  exact ⟨slot.value, bind_eq_ok_iff.2 ⟨slot, found, rfl⟩⟩

theorem Site.coherent_of_literals {node : Node} (ts : List Tensor) (plain : node.constant = none)
    (whole : ∀ t ∈ ts, t.WellFormed) : Site.Coherent ⟨node, (ts.map Tensor.literal).map .ok⟩ := by
  exact coherent_of_seen plain (List.forall_mem_map.2 fun t h => t.coherent_literal (whole t h))

namespace Operator

variable {operator : Operator}

/-- The operator has a value or none for each output, or does not evaluate its nodes at all. -/
def Folds (operator : Operator) (s : Site) (types : List SlotType) : Prop :=
  ∃ values, operator.fold s = .ok values ∧ (values = [] ∨ values.length = types.length)

/-- The value that the operator would have to compute cannot be had. -/
def Unfoldable (operator : Operator) (s : Site) : Prop :=
  operator.name = "Gather" ∧ Gather.OutOfRange s ∨ operator.name = "Convert" ∧ Convert.Unheld s

/-- The types of the outputs depend on the value that is read through the port: that of the target
of a reshape and that of the axis of a gather. -/
def TypedByValue (operator : Operator) (port : Nat) : Prop :=
  operator.name = "Reshape" ∧ port = 1 ∨ operator.name = "Gather" ∧ port = 2

/-! ### Operators that always fold -/

theorem folds_of_not_folded (h : operator.fold s = .ok []) : operator.Folds s types :=
  ⟨[], h, .inl rfl⟩

theorem folds_single {value : Option Tensor} {type : SlotType}
    (h : operator.fold s = .ok [value]) : operator.Folds s [type] :=
  ⟨[value], h, .inr rfl⟩

/-- An operator on two values leaves its output open if one of them is not known. -/
theorem folds_pair {P : Tensor → Tensor → List (Option Tensor) → Prop} {type : SlotType}
    (fold : ∀ {values}, operator.fold s = .ok values ↔
      ∃ left right, s.value 0 = .ok left ∧ s.value 1 = .ok right ∧
        ((left = none ∨ right = none) ∧ values = [none] ∨
          ∃ x y, left = some x ∧ right = some y ∧ P x y values))
    (left : ∃ value, s.value 0 = .ok value) (right : ∃ value, s.value 1 = .ok value)
    (both : ∀ x y, s.value 0 = .ok (some x) → s.value 1 = .ok (some y) → ∃ value, P x y [value]) :
    operator.Folds s [type] := by
  obtain ⟨left, hleft⟩ := left
  obtain ⟨right, hright⟩ := right
  cases left with
  | none => exact folds_single (fold.2 ⟨_, _, hleft, hright, .inl ⟨.inl rfl, rfl⟩⟩)
  | some x =>
    cases right with
    | none => exact folds_single (fold.2 ⟨_, _, hleft, hright, .inl ⟨.inr rfl, rfl⟩⟩)
    | some y =>
      obtain ⟨value, known⟩ := both x y hleft hright
      exact folds_single (fold.2 ⟨_, _, hleft, hright, .inr ⟨x, y, rfl, rfl, known⟩⟩)

theorem folds_constant (typed : constant.types s = .ok types) : constant.Folds s types := by
  obtain ⟨_, t, held, rfl⟩ := types_constant_eq_ok_iff.1 typed
  exact folds_single (fold_constant_eq_ok_iff.2 ⟨t, held, rfl⟩)

theorem folds_binary {name : String} {f : BinaryFold} (coherent : s.Coherent)
    (typed : (binary name f).types s = .ok types) : (binary name f).Folds s types := by
  obtain ⟨_, _, a, b, shape, _, _, ha, hb, common, rfl⟩ := types_binary_eq_ok_iff.1 typed
  refine folds_pair fold_binary_eq_ok_iff (Site.exists_value ha) (Site.exists_value hb)
    fun x y hx hy => ?_
  obtain rfl := Except.ok.inj (ha.symm.trans (coherent.of_value hx).2.1)
  obtain rfl := Except.ok.inj (hb.symm.trans (coherent.of_value hy).2.1)
  obtain ⟨extents, rfl, -⟩ := Shape.broadcast_ofExtents common
  exact ⟨_, extents, Shape.broadcastExtents_of_broadcast common, rfl⟩

theorem folds_unary {name : String} {f : UnaryFold} (typed : (unary name f).types s = .ok types) :
    (unary name f).Folds s types := by
  obtain ⟨_, _, _, _, hshape, rfl⟩ := passType_eq_ok_iff.1 typed
  obtain ⟨value, hvalue⟩ := Site.exists_value hshape
  exact folds_single (fold_unary_eq_ok_iff.2 ⟨value, hvalue, rfl⟩)

/-- The value is reshaped as its shape has been. -/
theorem folds_reshape (coherent : s.Coherent) (typed : reshape.types s = .ok types) :
    reshape.Folds s types := by
  obtain ⟨_, _, _, rfl⟩ := gives_reshape s types typed
  obtain ⟨_, _, shape, zero, target, _, hshape, hzero, htarget, typed⟩ :=
    types_reshape_eq_ok_iff.1 typed
  refine folds_pair fold_reshape_eq_ok_iff (Site.exists_value hshape) ⟨target, htarget⟩
    fun x y hx hy => ?_
  obtain rfl := Except.ok.inj (hshape.symm.trans (coherent.of_value hx).2.1)
  obtain rfl := Except.ok.inj (htarget.symm.trans hy)
  rw [Option.bind_some] at typed
  rcases typed with ⟨pattern, shape, entries, hshape, _⟩ | ⟨_, entries, _⟩
  · exact ⟨_, .inr ⟨pattern, zero, shape, entries, hzero, hshape, rfl⟩⟩
  · exact ⟨none, .inl ⟨entries, rfl⟩⟩

theorem element_shapeOf_ne_f16 {element : ElementType} (h : ShapeOf.element s = .ok element) :
    element ≠ .f16 := by
  rintro rfl
  simp only [ShapeOf.element] at h
  split at h
  · cases h
  · obtain ⟨text, _, h⟩ := bind_eq_ok_iff.1 h
    obtain ⟨named, _, h⟩ := bind_eq_ok_iff.1 h
    cases named <;> cases h

theorem folds_shapeOf (typed : shapeOf.types s = .ok types) : shapeOf.Folds s types := by
  obtain ⟨_, shape, element, hshape, helement, rfl⟩ := types_shapeOf_eq_ok_iff.1 typed
  cases fixed : shape.extents? with
  | none => exact folds_single (fold_shapeOf_eq_ok_iff.2 ⟨shape, hshape, .inl ⟨fixed, rfl⟩⟩)
  | some extents =>
    obtain ⟨t, cast⟩ :=
      exists_cast (Tensor.ofInts (extents.map Int.ofNat)) (element_shapeOf_ne_f16 helement)
    exact folds_single (fold_shapeOf_eq_ok_iff.2
      ⟨shape, hshape, .inr ⟨extents, element, t, fixed, helement, cast, rfl⟩⟩)

/-! ### Concatenation -/

/-- The known lists among the inputs can be found out, and all have elements of the type. -/
def KnownAlike (s : Site) (element : ElementType) (inputs : List Nat) : Prop :=
  ∃ known, Concat.knownLists s inputs = .ok known ∧
    ∀ ts, known = some ts → ∀ t ∈ ts, t.elementType = element

/-- One more input in front; the others matter only if its value is known. -/
theorem KnownAlike.cons {element : ElementType} {input : Nat} {rest : List Nat} {shape : Shape}
    (coherent : s.Coherent) (helement : s.element input = .ok element)
    (hshape : s.shape input = .ok shape)
    (later : ∀ t, s.value input = .ok (some t) → KnownAlike s element rest) :
    KnownAlike s element (input :: rest) := by
  obtain ⟨value, hvalue⟩ := Site.exists_value hshape
  cases value with
  | none => exact ⟨none, bind_eq_ok_iff.2 ⟨_, hvalue, rfl⟩, nofun⟩
  | some t =>
    obtain ⟨known, hknown, same⟩ := later t hvalue
    have type := (coherent.of_value hvalue).1
    by_cases rank : t.rank = 1
    · refine ⟨known.map (t :: ·), bind_eq_ok_iff.2 ⟨_, hvalue, ?_⟩, ?_⟩
      · simp only [rank, if_true, hknown]
        rfl
      · intro ts hts t' ht'
        obtain ⟨ts, rfl, rfl⟩ := Option.map_eq_some_iff.1 hts
        rcases List.mem_cons.1 ht' with rfl | ht'
        · exact Except.ok.inj (type.symm.trans helement)
        · exact same ts rfl t' ht'
    · exact ⟨none, bind_eq_ok_iff.2 ⟨_, hvalue, by simp only [rank, if_false]; rfl⟩, nofun⟩

/-- A shape of unknown rank ends the joining, but the values that belong to such shapes are not
known. -/
theorem knownAlike_of_joinShapes {element : ElementType} {axis : Nat} {inputs : List Nat}
    {dims : List Dim} {shape : Shape} (coherent : s.Coherent)
    (joined : Concat.joinShapes s element axis inputs dims = .ok shape) :
    KnownAlike s element inputs := by
  induction inputs generalizing dims with
  | nil =>
    refine ⟨some [], rfl, ?_⟩
    rintro _ ⟨⟩ t h
    cases h
  | cons input rest ih =>
    simp only [Concat.joinShapes, bind_eq_ok_iff, check_eq_ok_iff, ne_eq, not_not] at joined
    obtain ⟨_, helement, rfl, shape, hshape, joined⟩ := joined
    refine KnownAlike.cons coherent helement hshape fun t hvalue => ?_
    obtain rfl := Except.ok.inj (hshape.symm.trans (coherent.of_value hvalue).2.1)
    simp only [Tensor.shape, Shape.ofExtents, check_eq_ok_iff, bind_eq_ok_iff] at joined
    obtain ⟨_, dims, _, joined⟩ := joined
    exact ih joined

theorem folds_concat (coherent : s.Coherent) (typed : concat.types s = .ok types) :
    concat.Folds s types := by
  obtain ⟨_, _, _, rfl⟩ := gives_concat s types typed
  obtain ⟨nonempty, element, axis, shape, helement, _, hshape, typed⟩ :=
    types_concat_eq_ok_iff.1 typed
  have alike : KnownAlike s element (List.range s.inputCount) := by
    obtain ⟨count, hcount⟩ := Nat.exists_eq_succ_of_ne_zero nonempty
    rw [hcount, List.range_eq_range', List.range'_succ]
    refine KnownAlike.cons coherent helement hshape fun t hvalue => ?_
    obtain rfl := Except.ok.inj (hshape.symm.trans (coherent.of_value hvalue).2.1)
    rcases typed with ⟨unranked, -⟩ | ⟨dims, place, shape, _, _, joined, _⟩
    · cases unranked
    · rw [hcount, Nat.succ_sub_one] at joined
      exact knownAlike_of_joinShapes coherent joined
  obtain ⟨known, hknown, same⟩ := alike
  cases known with
  | none => exact folds_single (fold_concat_eq_ok_iff.2 (.inl ⟨hknown, rfl⟩))
  | some ts =>
    obtain ⟨joined, hjoined⟩ := exists_elements?_concat (same ts rfl)
    exact folds_single (fold_concat_eq_ok_iff.2 (.inr ⟨ts, joined, hknown, hjoined, rfl⟩))

/-! ### Conversion -/

theorem folds_convert (typed : convert.types s = .ok types) :
    convert.Folds s types ∨ Convert.Unheld s := by
  obtain ⟨_, element, shape, helement, hshape, rfl⟩ := types_convert_eq_ok_iff.1 typed
  obtain ⟨value, hvalue⟩ := Site.exists_value hshape
  cases value with
  | none => exact .inl (folds_single (fold_convert_eq_ok_iff.2 (.inl ⟨hvalue, rfl⟩)))
  | some t =>
    by_cases half : element = .f16
    · exact .inr ⟨t, hvalue, half ▸ helement⟩
    · obtain ⟨t', cast⟩ := exists_cast t half
      exact .inl (folds_single (fold_convert_eq_ok_iff.2
        (.inr ⟨t, element, t', hvalue, helement, cast, rfl⟩)))

theorem cast_f16 (t : Tensor) :
    t.cast .f16 = .error (.folding (.castUnsupported t.elementType .f16)) := by
  have other : t.elementType ≠ .f16 := by
    obtain ⟨data, extents⟩ := t
    cases data <;> exact nofun
  simp [Tensor.cast, other, TensorData.ofBinary64?]

theorem exists_error_of_unheld (h : Convert.Unheld s) : ∃ e, convert.fold s = .error e := by
  obtain ⟨t, hvalue, helement⟩ := h
  cases folded : convert.fold s with
  | error e => exact ⟨e, rfl⟩
  | ok values =>
    simp [fold_convert_eq_ok_iff, hvalue, helement, cast_f16] at folded

/-! ### Gather -/

theorem exists_position_iff {extent : Nat} {index : Int} :
    (∃ position, Gather.position extent index = .ok position) ↔
      ¬(index < -(extent : Int) ∨ (extent : Int) ≤ index) := by
  simp only [Gather.position]
  by_cases negative : index < 0
  · simp only [negative, if_true]
    split <;> simp <;> omega
  · simp only [negative, if_false, false_or]
    split <;> simp <;> omega

theorem folds_gather (typed : gather.types s = .ok types) :
    gather.Folds s types ∨ Gather.OutOfRange s := by
  obtain ⟨_, _, _, rfl⟩ := gives_gather s types typed
  obtain ⟨_, _, _, _, axis, _, hshape, hshape', haxis, _⟩ := types_gather_eq_ok_iff.1 typed
  refine or_iff_not_imp_right.2 fun within => ?_
  refine folds_pair fold_gather_eq_ok_iff (Site.exists_value hshape) (Site.exists_value hshape')
    fun data indices hdata hindices => ?_
  by_cases foldable : data.rank = 1 ∧ (axis = some 0 ∨ axis = some (-1))
  · cases integers : indices.integers? with
    | none => exact ⟨none, axis, haxis, .inr ⟨foldable, .inl ⟨rfl, rfl⟩⟩⟩
    | some is =>
      rcases mapM_cases (Gather.position data.length) is with
        ⟨positions, found⟩ | ⟨i, hi, _, failed, _⟩
      · exact ⟨_, axis, haxis, .inr ⟨foldable, .inr ⟨is, positions, rfl, found, rfl⟩⟩⟩
      · obtain ⟨_, along, _, rfl, first⟩ := exists_along foldable
        refine absurd ⟨data, indices, is, along, hdata, foldable.1, hindices, integers, haxis,
          first, i, hi, ?_⟩ within
        by_contra inside
        obtain ⟨position, found⟩ := exists_position_iff.2 inside
        cases found.symm.trans failed
  · exact ⟨none, axis, haxis, .inl ⟨foldable, rfl⟩⟩

theorem exists_error_of_outOfRange (h : Gather.OutOfRange s) : ∃ e, gather.fold s = .error e := by
  obtain ⟨data, indices, is, axis, hdata, rank, hindices, integers, haxis, along, i, hi, out⟩ := h
  cases folded : gather.fold s with
  | error e => exact ⟨e, rfl⟩
  | ok values =>
    obtain ⟨positions, found⟩ : ∃ positions, is.mapM (Gather.position data.length) =
        .ok positions := by
      rcases along with rfl | rfl <;>
        simp [fold_gather_eq_ok_iff, hdata, hindices, haxis, integers, rank] at folded <;>
        exact folded.imp fun _ => And.left
    obtain ⟨position, _, computed⟩ := exists_of_forall₂ (forall₂_of_mapM_eq_ok found) hi
    exact absurd out (exists_position_iff.1 ⟨position, computed⟩)

/-! ### All operators -/

theorem eq_of_name {operator' : Operator} (mem : operator ∈ core) (mem' : operator' ∈ core)
    (same : operator.name = operator'.name) : operator = operator' := by
  have nodup : (core.map Operator.name).Nodup := by decide
  exact List.inj_on_of_nodup_map nodup mem mem' same

theorem folds_or_unfoldable (mem : operator ∈ core) (coherent : s.Coherent)
    (typed : operator.types s = .ok types) : operator.Folds s types ∨ operator.Unfoldable s := by
  cases family_of_mem_core mem with
  | parameter => exact .inl (folds_of_not_folded rfl)
  | result => exact .inl (folds_of_not_folded rfl)
  | constant => exact .inl (folds_constant typed)
  | binary => exact .inl (folds_binary coherent typed)
  | unary => exact .inl (folds_unary typed)
  | reshape => exact .inl (folds_reshape coherent typed)
  | shapeOf => exact .inl (folds_shapeOf typed)
  | concat => exact .inl (folds_concat coherent typed)
  | gather => exact (folds_gather typed).imp_right fun out => .inl ⟨rfl, out⟩
  | convert => exact (folds_convert typed).imp_right fun unheld => .inr ⟨rfl, unheld⟩
  | memoryAccess => exact .inl (folds_of_not_folded rfl)

theorem exists_error_of_unfoldable (mem : operator ∈ core) (h : operator.Unfoldable s) :
    ∃ e, operator.fold s = .error e := by
  rcases h with ⟨name, out⟩ | ⟨name, unheld⟩
  · obtain rfl : operator = gather := eq_of_name mem (by simp [core]) name
    exact exists_error_of_outOfRange out
  · obtain rfl : operator = convert := eq_of_name mem (by simp [core]) name
    exact exists_error_of_unheld unheld

theorem folds_iff (mem : operator ∈ core) (coherent : s.Coherent)
    (typed : operator.types s = .ok types) :
    operator.Folds s types ↔ ¬operator.Unfoldable s := by
  constructor
  · rintro ⟨values, fold, -⟩ unfoldable
    obtain ⟨e, failed⟩ := exists_error_of_unfoldable mem unfoldable
    cases fold.symm.trans failed
  · exact (folds_or_unfoldable mem coherent typed).resolve_right

theorem exists_slots_iff (typed : operator.types s = .ok types) :
    (∃ slots, operator.slots s = .ok slots) ↔ operator.Folds s types := by
  constructor
  · rintro ⟨_, computed⟩
    obtain ⟨_, values, typed', fold, counts, -⟩ := slots_eq_ok_iff.1 computed
    obtain rfl := Except.ok.inj (typed.symm.trans typed')
    exact ⟨values, fold, counts⟩
  · rintro ⟨values, fold, counts⟩
    exact ⟨_, slots_eq_ok_iff.2 ⟨types, values, typed, fold, counts, rfl⟩⟩

end Operator

/-! ### More values -/

namespace Site.Learns

theorem le (h : s.Learns s') : s.Le s' where
  bare := congrArg Node.bare h.node
  slots i slot hslot := by
    obtain ⟨slot', hslot', element⟩ := bind_eq_ok_iff.1
      ((h.element i).trans (bind_eq_ok_iff.2 ⟨slot, hslot, rfl⟩))
    obtain ⟨slot'', hslot'', shape⟩ := bind_eq_ok_iff.1
      ((h.shape i).trans (bind_eq_ok_iff.2 ⟨slot, hslot, rfl⟩))
    obtain rfl := Except.ok.inj (hslot'.symm.trans hslot'')
    refine ⟨slot', hslot', ⟨(Except.ok.inj element).symm, ?_⟩, fun t known => ?_⟩
    · rw [Except.ok.inj shape]
      exact Shape.le_refl _
    · obtain ⟨slot'', hslot'', known⟩ := bind_eq_ok_iff.1
        (h.value i t (bind_eq_ok_iff.2 ⟨slot, hslot, congrArg _ known⟩))
      obtain rfl := Except.ok.inj (hslot'.symm.trans hslot'')
      exact Except.ok.inj known

theorem expectInputs (h : s.Learns s') (expected : Nat) :
    s'.expectInputs expected = s.expectInputs expected := by
  rw [Site.expectInputs, Site.expectInputs, Site.inputCount, Site.inputCount, h.node]

end Site.Learns

namespace Operator

variable {operator : Operator}

theorem passType_eq (h : s.Learns s') : passType s' = passType s := by
  simp only [passType, h.expectInputs, h.element, h.shape]

theorem joinShapes_learns (h : s.Learns s') (element : ElementType) (axis : Nat) (inputs : List Nat)
    (dims : List Dim) :
    Concat.joinShapes s' element axis inputs dims = Concat.joinShapes s element axis inputs dims := by
  induction inputs generalizing dims with
  | nil => rfl
  | cons input rest ih => simp only [Concat.joinShapes, h.element, h.shape, ih]

/-- The types are the same unless they depend on a value that has been learned. -/
theorem types_eq_of_learns (mem : operator ∈ core) (h : s.Learns s')
    (same : ∀ port, operator.TypedByValue port → s'.value port = s.value port) :
    operator.types s' = operator.types s := by
  cases family_of_mem_core mem with
  | parameter => simp only [parameter, h.expectInputs, h.node]
  | result => exact passType_eq h
  | constant => simp only [constant, h.expectInputs, payload, h.node]
  | binary => simp only [binary, h.expectInputs, h.element, h.shape]
  | unary => exact passType_eq h
  | reshape =>
    simp only [reshape, h.expectInputs, h.element, h.shape, Reshape.specialZero, h.le.boolOr,
      same 1 (.inl ⟨rfl, rfl⟩)]
  | shapeOf => simp only [shapeOf, h.expectInputs, h.shape, shapeOf_element_eq h.le]
  | concat =>
    simp only [concat, h.le.inputCount, h.element, h.shape, h.le.intOr, joinShapes_learns h]
  | gather =>
    simp only [gather, Gather.axis?, h.le.inputCount, h.element, h.shape, h.le.intOr,
      same 2 (.inr ⟨rfl, rfl⟩)]
  | convert => simp only [convert, h.expectInputs, h.shape, destination_eq h.le]
  | memoryAccess => simp only [memoryAccess, h.expectInputs, h.le.intOr, passType_eq h]

/-- From coherent slots for which it computes types, an operator computes values too, or it leaves
them open, unless an index is out of range or a value is converted to elements of 16 bits. Nor does
more knowledge of values let it fail otherwise, but at the types if these depend on what has been
learned. -/
theorem fold_spec (mem : operator ∈ core) (coherent : s.Coherent)
    (typed : operator.types s = .ok types) :
    ((∃ e, operator.fold s = .error e) ↔ operator.Unfoldable s) ∧
      ((∃ slots, operator.slots s = .ok slots) ↔ ¬operator.Unfoldable s) ∧
      ∀ s', s.Learns s' → s'.Coherent →
        (∃ slots, operator.slots s' = .ok slots) ∨ operator.Unfoldable s' ∨
          (∃ e, operator.types s' = .error e) ∧
            ∃ port, operator.TypedByValue port ∧ s'.value port ≠ s.value port := by
  refine ⟨⟨?_, exists_error_of_unfoldable mem⟩, ?_, fun s' learns coherent' => ?_⟩
  · rintro ⟨e, failed⟩
    refine (folds_or_unfoldable mem coherent typed).resolve_left ?_
    rintro ⟨values, fold, -⟩
    cases fold.symm.trans failed
  · rw [exists_slots_iff typed, folds_iff mem coherent typed]
  · cases typed' : operator.types s' with
    | ok types' =>
      rw [exists_slots_iff typed', ← or_assoc]
      exact .inl (folds_or_unfoldable mem coherent' typed')
    | error e =>
      refine .inr (.inr ⟨⟨e, rfl⟩, ?_⟩)
      by_contra none
      have same : ∀ port, operator.TypedByValue port → s'.value port = s.value port := by
        intro port typedBy
        by_contra other
        exact none ⟨port, typedBy, other⟩
      rw [types_eq_of_learns mem learns same, typed] at typed'
      cases typed'

/-- A gather of `[5, 7]` at a position. -/
def entryAt (position : Int) : Site where
  node := { op := "Gather", inputs := [⟨0, 0⟩, ⟨1, 0⟩] }
  slots := [.ok (Tensor.ofInts [5, 7]).literal, .ok (Tensor.ofInts [position]).literal]

theorem outOfRange_entryAt {i : Int} :
    Gather.OutOfRange (entryAt i) ↔ (Int64.ofInt i).toInt < -2 ∨ 2 ≤ (Int64.ofInt i).toInt := by
  constructor
  · rintro ⟨data, indices, is, axis, known, -, read, integers, -, -, j, hj, out⟩
    obtain rfl := Option.some.inj (Except.ok.inj known)
    obtain rfl := Option.some.inj (Except.ok.inj read)
    obtain rfl := Option.some.inj integers
    obtain rfl := List.mem_singleton.1 hj
    exact out
  · intro out
    exact ⟨.ofInts [5, 7], .ofInts [i], _, 0, rfl, rfl, rfl, rfl, rfl, .inl rfl, _,
      List.mem_singleton_self _, out⟩

/-- There is a second entry, but no third one. -/
theorem fold_entryAt :
    (∃ slots, gather.slots (entryAt 1) = .ok slots) ∧ ∃ e, gather.fold (entryAt 2) = .error e := by
  have typed (i : Int) : gather.types (entryAt i) = .ok [⟨.i64, .ofExtents [1]⟩] := rfl
  have coherent (i : Int) : (entryAt i).Coherent :=
    Site.coherent_of_literals [.ofInts [5, 7], .ofInts [i]] rfl
      (by simp [Tensor.wellFormed_ofData, Tensor.ofInts])
  constructor
  · refine (fold_spec (by simp [core]) (coherent 1) (typed 1)).2.1.2 ?_
    rintro (⟨-, out⟩ | ⟨name, -⟩)
    · exact absurd (outOfRange_entryAt.1 out) (by decide)
    · exact absurd name (by decide)
  · refine (fold_spec (by simp [core]) (coherent 2) (typed 2)).1.2 (.inl ⟨rfl, ?_⟩)
    exact outOfRange_entryAt.2 (.inr (by decide))

/-- A conversion of the integer 1 to elements of 16 bits. -/
def halfOfOne : Site where
  node := {
    op := "Convert", inputs := [⟨0, 0⟩]
    attributes := AttributeMap.empty.insert "destination_type" (.text "f16") }
  slots := [.ok (Tensor.ofInts [1]).literal]

/-- The value of a conversion to elements of 16 bits is not left open: the types are accepted, but
the evaluation fails. -/
theorem not_forall_exists_fold :
    ¬∀ (operator : Operator) (s : Site) (types : List SlotType), operator ∈ core → s.Coherent →
      operator.types s = .ok types → (∃ values, operator.fold s = .ok values) ∨
        operator.name = "Gather" ∧ Gather.OutOfRange s := by
  intro always
  have typed : convert.types halfOfOne = .ok [⟨.f16, .ofExtents [1]⟩] := by decide
  have coherent : halfOfOne.Coherent :=
    Site.coherent_of_literals [.ofInts [1]] rfl (by decide)
  obtain ⟨values, fold⟩ | ⟨name, -⟩ := always convert halfOfOne _ (by simp [core]) coherent typed
  · have failed : convert.fold halfOfOne =
        .error (.folding (.castUnsupported .i64 .f16)) := by decide
    cases fold.symm.trans failed
  · exact absurd name (by decide)

end Operator

end TensorGraph
