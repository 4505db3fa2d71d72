import TensorGraph.Inference
import TensorGraph.Operators.Core
import TensorGraph.Proofs.Except

/-!
# When operators succeed

For each operator of the library when it computes types and when it computes values, and which ones
these are; for every operator how outputs are made of them (`Operator.slots_eq_ok_iff`). What is
shown of the operators elsewhere is shown from these statements, by cases of `Operator.Family` if it
is shown of all, so that a change of an operator is met here.
-/

namespace TensorGraph

variable {s : Site} {types : List SlotType} {values : List (Option Tensor)} {slots : List Slot}

theorem Site.expectInputs_eq_ok_iff {expected : Nat} {u : Unit} :
    s.expectInputs expected = .ok u ↔ s.inputCount = expected := by
  simp only [Site.expectInputs]
  split <;> simp_all

namespace Operator

variable {operator : Operator}

/-! ### Families -/

/-- How the operators of the library are defined, alone or with others of the same form. -/
inductive Family : Operator → Prop where
  | parameter : Family parameter
  | result : Family result
  | constant : Family constant
  | binary (name : String) (f : BinaryFold) : Family (binary name f)
  | unary (name : String) (f : UnaryFold) : Family (unary name f)
  | reshape : Family reshape
  | shapeOf : Family shapeOf
  | concat : Family concat
  | gather : Family gather
  | convert : Family convert
  | memoryAccess (kind : MemoryAccess.Kind) : Family (memoryAccess kind)

theorem family_of_mem_core (h : operator ∈ core) : operator.Family := by
  rcases List.mem_append.1 h with h | h
  · simp only [List.mem_cons, List.not_mem_nil, or_false] at h
    rcases h with
      rfl | rfl | rfl | rfl | rfl | rfl | rfl | rfl | rfl | rfl | rfl | rfl | rfl | rfl | rfl
    all_goals constructor
  · obtain ⟨kind, _, rfl⟩ := List.mem_map.1 h
    exact .memoryAccess kind

/-! ### Outputs -/

/-- An output has the type that the operator computes for it, and the value if there is one. -/
theorem slots_eq_ok_iff :
    operator.slots s = .ok slots ↔
      ∃ types values, operator.types s = .ok types ∧ operator.fold s = .ok values ∧
        (values = [] ∨ values.length = types.length) ∧
          slots = types.mapIdx fun i type => { type with value := values[i]?.join } := by
  simp only [Operator.slots, bind_eq_ok_iff, check_eq_ok_iff, mapError_eq_ok_iff, pure_eq_ok_iff,
    not_and_or, not_not, ne_eq]
  constructor
  · rintro ⟨types, htypes, values, hvalues, counted, rfl⟩
    exact ⟨types, values, htypes, hvalues, counted, rfl⟩
  · rintro ⟨types, values, htypes, hvalues, counted, rfl⟩
    exact ⟨types, htypes, values, hvalues, counted, rfl⟩

/-- If an operator computes one value, that is the value of the one output. -/
theorem exists_output {value : Option Tensor} (computed : operator.slots s = .ok slots)
    (fold : operator.fold s = .ok [value]) :
    ∃ slot : Slot, slots = [slot] ∧ slot.value = value := by
  obtain ⟨types, values, _, hvalues, counted, rfl⟩ := slots_eq_ok_iff.1 computed
  obtain rfl := Except.ok.inj (fold.symm.trans hvalues)
  have one : types.length = 1 := by simpa [eq_comm] using counted
  obtain ⟨type, rfl⟩ := List.length_eq_one_iff.1 one
  exact ⟨_, rfl, rfl⟩

/-- If an operator gives one type, there is one output, whose value, if known, is the one that the
operator computes. -/
theorem exists_types (computed : operator.slots s = .ok slots) :
    ∃ types, operator.types s = .ok types ∧ ∀ type, types = [type] →
      ∃ slot : Slot, slots = [slot] ∧ slot.toSlotType = type ∧
        ∀ t, slot.value = some t → operator.fold s = .ok [some t] := by
  obtain ⟨types, values, htypes, hvalues, counted, rfl⟩ := slots_eq_ok_iff.1 computed
  refine ⟨types, htypes, ?_⟩
  rintro type rfl
  refine ⟨_, rfl, rfl, fun t known => ?_⟩
  replace known : values[0]? = some (some t) := Option.join_eq_some_iff.1 known
  cases values with
  | nil => simp at known
  | cons value rest =>
    obtain rfl : rest = [] := by simpa using counted
    rw [hvalues]
    simpa using known

/-! ### The boundary of a graph -/

theorem passType_eq_ok_iff :
    passType s = .ok types ↔
      s.inputCount = 1 ∧ ∃ element shape, s.element 0 = .ok element ∧ s.shape 0 = .ok shape ∧
        types = [⟨element, shape⟩] := by
  simp only [passType, bind_eq_ok_iff, pure_eq_ok_iff, Site.expectInputs_eq_ok_iff, exists_const]
  constructor
  · rintro ⟨one, element, helement, shape, hshape, rfl⟩
    exact ⟨one, element, shape, helement, hshape, rfl⟩
  · rintro ⟨one, element, shape, helement, hshape, rfl⟩
    exact ⟨one, element, helement, shape, hshape, rfl⟩

theorem types_constant_eq_ok_iff :
    constant.types s = .ok types ↔
      s.inputCount = 0 ∧ ∃ t, payload s = .ok t ∧ types = [⟨t.elementType, t.shape⟩] := by
  simp only [constant, bind_eq_ok_iff, pure_eq_ok_iff, Site.expectInputs_eq_ok_iff, exists_const,
    eq_comm (b := types)]

theorem fold_constant_eq_ok_iff :
    constant.fold s = .ok values ↔ ∃ t, payload s = .ok t ∧ values = [some t] := by
  simp only [constant, bind_eq_ok_iff, pure_eq_ok_iff, eq_comm (b := values)]

/-- An access passes on the type of its one input, if its width is allowed. -/
theorem types_memoryAccess_eq_ok_iff {kind : MemoryAccess.Kind} :
    (memoryAccess kind).types s = .ok types ↔
      (∃ width, s.intOr MemoryAccess.widthKey 1 = .ok width ∧ ¬width < 1 ∧
        ¬(kind.scalar ∧ width ≠ 1)) ∧ passType s = .ok types := by
  simp only [memoryAccess, bind_eq_ok_iff, check_eq_ok_iff, Site.expectInputs_eq_ok_iff,
    exists_const]
  constructor
  · rintro ⟨_, width, hwidth, wide, narrow, pass⟩
    exact ⟨⟨width, hwidth, wide, narrow⟩, pass⟩
  · rintro ⟨⟨width, hwidth, wide, narrow⟩, pass⟩
    exact ⟨(passType_eq_ok_iff.1 pass).1, width, hwidth, wide, narrow, pass⟩

/-! ### Operations on elements -/

/-- A computation with two values is put off if one of them is not known. -/
theorem pair_eq_ok_iff {f : Tensor → Tensor → Except Error (List (Option Tensor))} :
    (do
      match ← s.value 0, ← s.value 1 with
      | some a, some b => f a b
      | _, _ => pure [none]) = .ok values ↔
      ∃ left right, s.value 0 = .ok left ∧ s.value 1 = .ok right ∧
        ((left = none ∨ right = none) ∧ values = [none] ∨
          ∃ a b, left = some a ∧ right = some b ∧ f a b = .ok values) := by
  simp only [bind_eq_ok_iff]
  constructor
  · rintro ⟨left, hleft, right, hright, h⟩
    refine ⟨left, right, hleft, hright, ?_⟩
    cases left with
    | none => exact .inl ⟨.inl rfl, (Except.ok.inj h).symm⟩
    | some a =>
      cases right with
      | none => exact .inl ⟨.inr rfl, (Except.ok.inj h).symm⟩
      | some b => exact .inr ⟨a, b, rfl, rfl, h⟩
  · rintro ⟨left, right, hleft, hright, ⟨unknown, rfl⟩ | ⟨a, b, rfl, rfl, h⟩⟩
    · refine ⟨left, hleft, right, hright, ?_⟩
      rcases unknown with rfl | rfl
      · rfl
      · cases left <;> rfl
    · exact ⟨_, hleft, _, hright, h⟩

theorem types_binary_eq_ok_iff {name : String} {f : BinaryFold} :
    (binary name f).types s = .ok types ↔
      s.inputCount = 2 ∧ ∃ element a b shape, s.element 0 = .ok element ∧
        s.element 1 = .ok element ∧ s.shape 0 = .ok a ∧ s.shape 1 = .ok b ∧
          a.broadcast b = .ok shape ∧ types = [⟨element, shape⟩] := by
  simp only [binary, bind_eq_ok_iff, check_eq_ok_iff, pure_eq_ok_iff, Site.expectInputs_eq_ok_iff,
    exists_const, ne_eq, not_not]
  constructor
  · rintro ⟨two, left, hleft, right, hright, rfl, a, ha, b, hb, shape, hshape, rfl⟩
    exact ⟨two, left, a, b, shape, hleft, hright, ha, hb, hshape, rfl⟩
  · rintro ⟨two, element, a, b, shape, hleft, hright, ha, hb, hshape, rfl⟩
    exact ⟨two, element, hleft, element, hright, rfl, a, ha, b, hb, shape, hshape, rfl⟩

theorem fold_binary_eq_ok_iff {name : String} {f : BinaryFold} :
    (binary name f).fold s = .ok values ↔
      ∃ left right, s.value 0 = .ok left ∧ s.value 1 = .ok right ∧
        ((left = none ∨ right = none) ∧ values = [none] ∨
          ∃ a b, left = some a ∧ right = some b ∧
            ∃ common, Shape.broadcastExtents a.extents b.extents = .ok common ∧
              values = [(f.elements? a b common).map (⟨·, common⟩)]) := by
  refine pair_eq_ok_iff.trans ?_
  simp only [bind_eq_ok_iff, pure_eq_ok_iff, eq_comm (b := values)]

theorem fold_unary_eq_ok_iff {name : String} {f : UnaryFold} :
    (unary name f).fold s = .ok values ↔
      ∃ value, s.value 0 = .ok value ∧
        values = [value.bind fun t => (f.elements? t.data).map (⟨·, t.extents⟩)] := by
  simp only [unary, bind_eq_ok_iff]
  constructor <;> rintro ⟨_ | t, hvalue, h⟩
  · exact ⟨none, hvalue, (Except.ok.inj h).symm⟩
  · exact ⟨some t, hvalue, (Except.ok.inj h).symm⟩
  · exact ⟨none, hvalue, congrArg _ h.symm⟩
  · exact ⟨some t, hvalue, congrArg _ h.symm⟩

/-! ### Shapes -/

theorem types_convert_eq_ok_iff :
    convert.types s = .ok types ↔
      s.inputCount = 1 ∧ ∃ element shape, Convert.destination s = .ok element ∧
        s.shape 0 = .ok shape ∧ types = [⟨element, shape⟩] := by
  simp only [convert, bind_eq_ok_iff, pure_eq_ok_iff, Site.expectInputs_eq_ok_iff, exists_const]
  constructor
  · rintro ⟨one, element, helement, shape, hshape, rfl⟩
    exact ⟨one, element, shape, helement, hshape, rfl⟩
  · rintro ⟨one, element, shape, helement, hshape, rfl⟩
    exact ⟨one, element, helement, shape, hshape, rfl⟩

theorem fold_convert_eq_ok_iff :
    convert.fold s = .ok values ↔
      s.value 0 = .ok none ∧ values = [none] ∨
        ∃ t element t', s.value 0 = .ok (some t) ∧ Convert.destination s = .ok element ∧
          t.cast element = .ok t' ∧ values = [some t'] := by
  simp only [convert, bind_eq_ok_iff]
  constructor
  · rintro ⟨_ | t, hvalue, h⟩
    · exact .inl ⟨hvalue, (Except.ok.inj h).symm⟩
    · obtain ⟨element, helement, h⟩ := bind_eq_ok_iff.1 h
      obtain ⟨t', cast, h⟩ := bind_eq_ok_iff.1 h
      exact .inr ⟨t, element, t', hvalue, helement, cast, (Except.ok.inj h).symm⟩
  · rintro (⟨hvalue, rfl⟩ | ⟨t, element, t', hvalue, helement, cast, rfl⟩)
    · exact ⟨none, hvalue, rfl⟩
    · exact ⟨some t, hvalue, bind_eq_ok_iff.2 ⟨element, helement, bind_eq_ok_iff.2 ⟨t', cast, rfl⟩⟩⟩

theorem types_shapeOf_eq_ok_iff :
    shapeOf.types s = .ok types ↔
      s.inputCount = 1 ∧ ∃ shape element, s.shape 0 = .ok shape ∧ ShapeOf.element s = .ok element ∧
        types = [⟨element, match shape.rank? with
          | some rank => .ofExtents [rank]
          | none => .ofRank 1⟩] := by
  simp only [shapeOf, bind_eq_ok_iff, pure_eq_ok_iff, Site.expectInputs_eq_ok_iff, exists_const]
  constructor
  · rintro ⟨one, shape, hshape, element, helement, rfl⟩
    exact ⟨one, shape, element, hshape, helement, rfl⟩
  · rintro ⟨one, shape, element, hshape, helement, rfl⟩
    exact ⟨one, shape, hshape, element, helement, rfl⟩

theorem fold_shapeOf_eq_ok_iff :
    shapeOf.fold s = .ok values ↔
      ∃ shape, s.shape 0 = .ok shape ∧
        (shape.extents? = none ∧ values = [none] ∨
          ∃ extents element t, shape.extents? = some extents ∧ ShapeOf.element s = .ok element ∧
            (Tensor.ofInts (extents.map Int.ofNat)).cast element = .ok t ∧ values = [some t]) := by
  simp only [shapeOf, bind_eq_ok_iff]
  refine exists_congr fun shape => and_congr_right fun hshape => ?_
  cases fixed : shape.extents? with
  | none => simp [pure_eq_ok_iff, eq_comm (b := values)]
  | some extents =>
    simp only [bind_eq_ok_iff, pure_eq_ok_iff, eq_comm (b := values), reduceCtorEq, false_and,
      false_or, Option.some.injEq, exists_and_left, exists_eq_left']

theorem types_reshape_eq_ok_iff :
    reshape.types s = .ok types ↔
      s.inputCount = 2 ∧ ∃ element data specialZero target, s.element 0 = .ok element ∧
        s.shape 0 = .ok data ∧ Reshape.specialZero s = .ok specialZero ∧ s.value 1 = .ok target ∧
          ((∃ pattern shape, target.bind Tensor.integers? = some pattern ∧
            Reshape.outputShape data pattern specialZero = .ok shape ∧
              types = [⟨element, shape⟩]) ∨
          ∃ list, target.bind Tensor.integers? = none ∧ s.shape 1 = .ok list ∧
            types = [⟨element, Reshape.shapeOfRank list⟩]) := by
  simp only [reshape, bind_eq_ok_iff, Site.expectInputs_eq_ok_iff, exists_const]
  constructor
  · rintro ⟨two, element, helement, data, hdata, specialZero, hzero, target, htarget, h⟩
    refine ⟨two, element, data, specialZero, target, helement, hdata, hzero, htarget, ?_⟩
    cases integers : target.bind Tensor.integers? with
    | some pattern =>
      simp only [integers, bind_eq_ok_iff, pure_eq_ok_iff] at h
      obtain ⟨shape, hshape, rfl⟩ := h
      exact .inl ⟨pattern, shape, rfl, hshape, rfl⟩
    | none =>
      simp only [integers, bind_eq_ok_iff, pure_eq_ok_iff] at h
      obtain ⟨list, hlist, rfl⟩ := h
      exact .inr ⟨list, rfl, hlist, rfl⟩
  · rintro ⟨two, element, data, specialZero, target, helement, hdata, hzero, htarget, h⟩
    refine ⟨two, element, helement, data, hdata, specialZero, hzero, target, htarget, ?_⟩
    rcases h with ⟨pattern, shape, integers, hshape, rfl⟩ | ⟨list, integers, hlist, rfl⟩
    · simp only [integers, bind_eq_ok_iff, pure_eq_ok_iff]
      exact ⟨shape, hshape, rfl⟩
    · simp only [integers, bind_eq_ok_iff, pure_eq_ok_iff]
      exact ⟨list, hlist, rfl⟩

theorem fold_reshape_eq_ok_iff :
    reshape.fold s = .ok values ↔
      ∃ left right, s.value 0 = .ok left ∧ s.value 1 = .ok right ∧
        ((left = none ∨ right = none) ∧ values = [none] ∨
          ∃ data target, left = some data ∧ right = some target ∧
            (target.integers? = none ∧ values = [none] ∨
              ∃ pattern specialZero shape, target.integers? = some pattern ∧
                Reshape.specialZero s = .ok specialZero ∧
                  Reshape.outputShape data.shape pattern specialZero = .ok shape ∧
                    values = [shape.extents?.map (⟨data.data, ·⟩)])) := by
  refine pair_eq_ok_iff.trans ?_
  refine exists₂_congr fun left right => and_congr_right fun _ => and_congr_right fun _ =>
    or_congr_right (exists₂_congr fun data target => and_congr_right fun _ =>
      and_congr_right fun _ => ?_)
  cases integers : target.integers? with
  | none => simp [pure_eq_ok_iff, eq_comm (b := values)]
  | some pattern =>
    simp only [bind_eq_ok_iff, pure_eq_ok_iff, eq_comm (b := values), reduceCtorEq, false_and,
      false_or, Option.some.injEq, exists_and_left, exists_eq_left']

/-! ### Gather -/

theorem types_gather_eq_ok_iff :
    gather.types s = .ok types ↔
      ¬(s.inputCount < 2 ∨ 3 < s.inputCount) ∧ ∃ element data indices axis,
        s.element 0 = .ok element ∧ s.shape 0 = .ok data ∧ s.shape 1 = .ok indices ∧
          Gather.axis? s = .ok axis ∧
            ((data = .unranked ∨ indices = .unranked ∨ axis = none) ∧
                types = [⟨element, .unranked⟩] ∨
              ∃ ds is along place, data = .ranked ds ∧ indices = .ranked is ∧ axis = some along ∧
                resolveAxis "Gather" along ds.length = .ok place ∧
                  types = [⟨element, .ranked (ds.take place ++ is ++ ds.drop (place + 1))⟩]) := by
  simp only [gather, bind_eq_ok_iff, check_eq_ok_iff]
  refine and_congr_right fun _ => ?_
  constructor
  · rintro ⟨element, helement, data, hdata, indices, hindices, axis, haxis, h⟩
    refine ⟨element, data, indices, axis, helement, hdata, hindices, haxis, ?_⟩
    split at h
    · next ds is along =>
      obtain ⟨place, resolved, h⟩ := bind_eq_ok_iff.1 h
      exact .inr ⟨ds, is, along, place, rfl, rfl, rfl, resolved, (Except.ok.inj h).symm⟩
    · refine .inl ⟨?_, (Except.ok.inj h).symm⟩
      cases data <;> cases indices <;> cases axis <;> simp_all
  · rintro ⟨element, data, indices, axis, helement, hdata, hindices, haxis, h⟩
    refine ⟨element, helement, data, hdata, indices, hindices, axis, haxis, ?_⟩
    rcases h with ⟨unknown, rfl⟩ | ⟨ds, is, along, place, rfl, rfl, rfl, resolved, rfl⟩
    · split
      · simp at unknown
      · rfl
    · exact bind_eq_ok_iff.2 ⟨place, resolved, rfl⟩

/-- Slices are computed along the only dimension of the data. -/
theorem fold_gather_eq_ok_iff :
    gather.fold s = .ok values ↔
      ∃ left right, s.value 0 = .ok left ∧ s.value 1 = .ok right ∧
        ((left = none ∨ right = none) ∧ values = [none] ∨
          ∃ data indices, left = some data ∧ right = some indices ∧
            ∃ axis, Gather.axis? s = .ok axis ∧
              (¬(data.rank = 1 ∧ (axis = some 0 ∨ axis = some (-1))) ∧ values = [none] ∨
                (data.rank = 1 ∧ (axis = some 0 ∨ axis = some (-1))) ∧
                  (indices.integers? = none ∧ values = [none] ∨
                    ∃ is positions, indices.integers? = some is ∧
                      is.mapM (Gather.position data.length) = .ok positions ∧
                        values = [(Gather.elements? positions data.data).map
                          (⟨·, indices.extents⟩)]))) := by
  refine pair_eq_ok_iff.trans ?_
  refine exists₂_congr fun left right => and_congr_right fun _ => and_congr_right fun _ =>
    or_congr_right (exists₂_congr fun data indices => and_congr_right fun _ =>
      and_congr_right fun _ => ?_)
  refine bind_eq_ok_iff.trans (exists_congr fun axis => and_congr_right fun _ => ?_)
  have elsewhere : (data.rank ≠ 1 ∨ (axis ≠ some 0 ∧ axis ≠ some (-1))) ↔
      ¬(data.rank = 1 ∧ (axis = some 0 ∨ axis = some (-1))) := by
    rw [not_and_or, not_or]
  by_cases along : data.rank = 1 ∧ (axis = some 0 ∨ axis = some (-1))
  · rw [if_neg (fun h => elsewhere.1 h along)]
    cases integers : indices.integers? with
    | none => simp [along, pure_eq_ok_iff, eq_comm (b := values)]
    | some is =>
      simp only [along, not_true_eq_false, false_and, false_or, true_and, bind_eq_ok_iff,
        pure_eq_ok_iff, eq_comm (b := values), reduceCtorEq, Option.some.injEq, exists_and_left,
        exists_eq_left']
  · rw [if_pos (elsewhere.2 along)]
    simp [along, pure_eq_ok_iff, eq_comm (b := values)]

/-! ### Concatenation -/

theorem types_concat_eq_ok_iff :
    concat.types s = .ok types ↔
      s.inputCount ≠ 0 ∧ ∃ element axis first, s.element 0 = .ok element ∧
        s.intOr "axis" 0 = .ok axis ∧ s.shape 0 = .ok first ∧
          (first = .unranked ∧ types = [⟨element, .unranked⟩] ∨
            ∃ dims place shape, first = .ranked dims ∧
              resolveAxis "Concat" axis dims.length = .ok place ∧
                Concat.joinShapes s element place (List.range' 1 (s.inputCount - 1)) dims =
                  .ok shape ∧ types = [⟨element, shape⟩]) := by
  simp only [concat, bind_eq_ok_iff, check_eq_ok_iff]
  refine and_congr_right fun _ => ?_
  constructor
  · rintro ⟨element, helement, axis, haxis, first, hfirst, h⟩
    refine ⟨element, axis, first, helement, haxis, hfirst, ?_⟩
    cases first with
    | unranked => exact .inl ⟨rfl, (Except.ok.inj h).symm⟩
    | ranked dims =>
      obtain ⟨place, resolved, h⟩ := bind_eq_ok_iff.1 h
      obtain ⟨shape, joined, h⟩ := bind_eq_ok_iff.1 h
      exact .inr ⟨dims, place, shape, rfl, resolved, joined, (Except.ok.inj h).symm⟩
  · rintro ⟨element, axis, first, helement, haxis, hfirst, h⟩
    refine ⟨element, helement, axis, haxis, first, hfirst, ?_⟩
    rcases h with ⟨rfl, rfl⟩ | ⟨dims, place, shape, rfl, resolved, joined, rfl⟩
    · rfl
    · exact bind_eq_ok_iff.2 ⟨place, resolved, bind_eq_ok_iff.2 ⟨shape, joined, rfl⟩⟩

theorem fold_concat_eq_ok_iff :
    concat.fold s = .ok values ↔
      Concat.knownLists s (List.range s.inputCount) = .ok none ∧ values = [none] ∨
        ∃ ts joined, Concat.knownLists s (List.range s.inputCount) = .ok (some ts) ∧
          Concat.elements? ts = .ok joined ∧ values = [joined.map Tensor.ofData] := by
  simp only [concat, bind_eq_ok_iff]
  constructor
  · rintro ⟨_ | ts, known, h⟩
    · exact .inl ⟨known, (Except.ok.inj h).symm⟩
    · obtain ⟨joined, hjoined, h⟩ := bind_eq_ok_iff.1 h
      exact .inr ⟨ts, joined, known, hjoined, (Except.ok.inj h).symm⟩
  · rintro (⟨known, rfl⟩ | ⟨ts, joined, known, hjoined, rfl⟩)
    · exact ⟨none, known, rfl⟩
    · exact ⟨some ts, known, bind_eq_ok_iff.2 ⟨joined, hjoined, rfl⟩⟩

end Operator

end TensorGraph
