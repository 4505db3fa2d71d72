import Mathlib.Algebra.Ring.Nat
import TensorGraph.Proofs.Operators.Success
import TensorGraph.Proofs.Tensor.Elementwise

/-!
# Types and values that agree

An operator computes the types of its outputs and, apart from them, their values as far as they are
known. A slot is coherent if its value has the element type and the shape of the slot and as many
elements as its extents span (`Slot.Coherent`). From coherent slots every operator of the library
computes values that are whole tensors and, if the types can be computed too, have these types
(`Operator.coherent_of_mem_core`).
-/

namespace TensorGraph

/-- The tensor has the type and as many elements as its extents span. -/
def Tensor.Inhabits (t : Tensor) (type : SlotType) : Prop :=
  type = ⟨t.elementType, t.shape⟩ ∧ t.WellFormed

/-- The value of a slot, if it is known, has the type of the slot. -/
def Slot.Coherent (slot : Slot) : Prop := ∀ t, slot.value = some t → t.Inhabits slot.toSlotType

/-- Whatever an operator sees is coherent. -/
structure Site.Coherent (s : Site) : Prop where
  slots : ∀ i slot, s.slot i = .ok slot → slot.Coherent
  constant : ∀ t, s.node.constant = some t → t.WellFormed

/-- What the operator computes from coherent slots is coherent: its values are whole tensors of the
types that it computes, if it computes any. -/
def Operator.Coherent (operator : Operator) : Prop :=
  ∀ (s : Site) (values : List (Option Tensor)), s.Coherent → operator.fold s = .ok values →
    ∀ (i : Nat) (t : Tensor), values[i]? = some (some t) → t.WellFormed ∧
      ∀ types, operator.types s = .ok types → types[i]? = some ⟨t.elementType, t.shape⟩

variable {s : Site} {i : Nat} {t : Tensor} {values : List (Option Tensor)} {types : List SlotType}

/-- A known value has the element type and the shape that the site gives. -/
theorem Site.Coherent.of_value (h : s.Coherent) (known : s.value i = .ok (some t)) :
    s.element i = .ok t.elementType ∧ s.shape i = .ok t.shape ∧ t.WellFormed := by
  obtain ⟨slot, hslot, hvalue⟩ := bind_eq_ok_iff.1 known
  obtain ⟨type, wellFormed⟩ := h.slots i slot hslot t (Except.ok.inj hvalue)
  have element : slot.element = t.elementType := congrArg SlotType.element type
  have shape : slot.shape = t.shape := congrArg SlotType.shape type
  refine ⟨bind_eq_ok_iff.2 ⟨slot, hslot, ?_⟩, bind_eq_ok_iff.2 ⟨slot, hslot, ?_⟩, wellFormed⟩
  · rw [element]
    rfl
  · rw [shape]
    rfl

/-- The output of a constant. -/
def Tensor.literal (t : Tensor) : Slot := ⟨⟨t.elementType, t.shape⟩, some t⟩

theorem Tensor.coherent_literal (h : t.WellFormed) : t.literal.Coherent := by
  intro t' ht
  obtain rfl := Option.some.inj ht
  exact ⟨rfl, h⟩

/-- A node without payload that reads coherent slots. -/
theorem Site.coherent_of_seen {node : Node} {seen : List Slot} (plain : node.constant = none)
    (seen_coherent : ∀ slot ∈ seen, slot.Coherent) : Site.Coherent ⟨node, seen.map .ok⟩ where
  slots i slot hslot := by
    cases hi : seen[i]? with
    | none => simp [Site.slot, hi] at hslot
    | some read =>
      simp only [Site.slot, List.getElem?_map, hi, Option.map_some, Except.ok.injEq] at hslot
      exact hslot ▸ seen_coherent read (List.mem_of_getElem? hi)
  constant t held := nomatch plain.symm.trans held

namespace Operator

/-- An operator that is never evaluated is coherent. -/
theorem coherent_of_not_folded {operator : Operator} (h : ∀ s, operator.fold s = .ok []) :
    operator.Coherent := by
  intro s values _ hfold i t hvalue
  rw [h] at hfold
  obtain rfl := Except.ok.inj hfold
  simp at hvalue

/-- An operator with one output is coherent if its value, when there is one, has its type. -/
theorem coherent_of_single {operator : Operator}
    (h : ∀ s values, s.Coherent → operator.fold s = .ok values → values = [none] ∨
      ∃ t : Tensor, values = [some t] ∧ t.WellFormed ∧
        ∀ types, operator.types s = .ok types → types = [⟨t.elementType, t.shape⟩]) :
    operator.Coherent := by
  intro s values coherent hfold i t hvalue
  rcases h s values coherent hfold with rfl | ⟨value, rfl, wellFormed, typed⟩
  · cases i <;> simp at hvalue
  · cases i with
    | succ i => simp at hvalue
    | zero =>
      obtain rfl : value = t := by simpa using hvalue
      exact ⟨wellFormed, fun types htypes => by simp [typed types htypes]⟩

theorem coherent_constant : constant.Coherent := by
  apply coherent_of_single
  intro s values coherent hfold
  right
  obtain ⟨t, payload, rfl⟩ := fold_constant_eq_ok_iff.1 hfold
  refine ⟨t, rfl, ?_, ?_⟩
  · simp only [Operator.payload] at payload
    split at payload
    · next held hheld => exact Except.ok.inj payload ▸ coherent.constant held hheld
    · cases payload
  · intro types htypes
    obtain ⟨_, t', payload', rfl⟩ := types_constant_eq_ok_iff.1 htypes
    obtain rfl : t' = t := Except.ok.inj (payload'.symm.trans payload)
    rfl

/-! ### Operations on elements -/

theorem elements?_binary {f : BinaryFold} {a b : Tensor} {common : List Nat} {data : TensorData}
    (ha : a.WellFormed) (hb : b.WellFormed)
    (h : Shape.broadcastExtents a.extents b.extents = .ok common)
    (hdata : f.elements? a b common = some data) :
    data.length = Shape.count common ∧ data.elementType = a.elementType := by
  obtain ⟨dataA, extentsA⟩ := a
  obtain ⟨dataB, extentsB⟩ := b
  cases dataA <;> cases dataB <;> simp only [BinaryFold.elements?, Option.some.injEq, reduceCtorEq,
    Option.map_eq_some_iff] at hdata
  case f64.f64 =>
    subst hdata
    exact ⟨Broadcast.length_elementwise f.onF64 ha hb h, rfl⟩
  case f32.f32 =>
    subst hdata
    exact ⟨Broadcast.length_elementwise f.onF32 ha hb h, rfl⟩
  case i64.i64 =>
    obtain ⟨onI64, _, rfl⟩ := hdata
    exact ⟨Broadcast.length_elementwise onI64 ha hb h, rfl⟩

theorem types_binary {name : String} {f : BinaryFold} {left : ElementType} {a b shape : Shape}
    (element : s.element 0 = .ok left) (ha : s.shape 0 = .ok a) (hb : s.shape 1 = .ok b)
    (broadcast : a.broadcast b = .ok shape) (h : (binary name f).types s = .ok types) :
    types = [⟨left, shape⟩] := by
  simp only [types_binary_eq_ok_iff, element, ha, hb, broadcast, Except.ok.injEq, exists_and_left,
    exists_eq_left'] at h
  exact h.2.2

theorem coherent_binary (name : String) (f : BinaryFold) : (binary name f).Coherent := by
  apply coherent_of_single
  intro s values coherent hfold
  obtain ⟨_, _, hleft, hright, ⟨_, rfl⟩ | ⟨a, b, rfl, rfl, common, hcommon, rfl⟩⟩ :=
    fold_binary_eq_ok_iff.1 hfold
  · exact .inl rfl
  · obtain ⟨elementA, shapeA, wellFormedA⟩ := coherent.of_value hleft
    obtain ⟨_, shapeB, wellFormedB⟩ := coherent.of_value hright
    cases hdata : f.elements? a b common with
    | none => exact .inl rfl
    | some data =>
      obtain ⟨length, element⟩ := elements?_binary wellFormedA wellFormedB hcommon hdata
      refine .inr ⟨⟨data, common⟩, rfl, length, ?_⟩
      intro types htypes
      rw [types_binary elementA shapeA shapeB (Shape.broadcastExtents_eq_ok hcommon).1 htypes,
        ← element]
      rfl

theorem elements?_unary {f : UnaryFold} {data data' : TensorData}
    (h : f.elements? data = some data') :
    data'.length = data.length ∧ data'.elementType = data.elementType := by
  cases data <;>
    simp only [UnaryFold.elements?, Option.some.injEq, reduceCtorEq] at h <;> subst h <;>
    exact ⟨List.length_map .., rfl⟩

theorem types_passType {element : ElementType} {shape : Shape}
    (helement : s.element 0 = .ok element)
    (hshape : s.shape 0 = .ok shape) (h : passType s = .ok types) : types = [⟨element, shape⟩] := by
  simp only [passType_eq_ok_iff, helement, hshape, Except.ok.injEq, exists_and_left,
    exists_eq_left'] at h
  exact h.2

theorem coherent_unary (name : String) (f : UnaryFold) : (unary name f).Coherent := by
  apply coherent_of_single
  intro s values coherent hfold
  obtain ⟨value, hvalue, rfl⟩ := fold_unary_eq_ok_iff.1 hfold
  cases value with
  | none => exact .inl rfl
  | some t =>
    obtain ⟨element, shape, wellFormed⟩ := coherent.of_value hvalue
    rw [Option.bind_some]
    cases hdata : f.elements? t.data with
    | none => exact .inl rfl
    | some data =>
      obtain ⟨length, same⟩ := elements?_unary hdata
      refine .inr ⟨⟨data, t.extents⟩, rfl, length.trans wellFormed, ?_⟩
      intro types htypes
      rw [types_passType element shape htypes, Tensor.elementType, ← same]
      rfl

/-! ### Shapes -/

theorem checkCounts_of_outputShape {data shape : Shape} {pattern : List Int} {specialZero : Bool}
    (h : Reshape.outputShape data pattern specialZero = .ok shape) :
    Reshape.checkCounts data shape = .ok () := by
  obtain ⟨dims, _, h⟩ := bind_eq_ok_iff.1 h
  split at h
  all_goals
    obtain ⟨dims', _, h⟩ := bind_eq_ok_iff.1 h
    obtain ⟨_, counts, h⟩ := bind_eq_ok_iff.1 h
    exact Except.ok.inj h ▸ counts

/-- A reshape of fixed extents spans as many elements as before. -/
theorem count_of_outputShape {extents extents' : List Nat} {pattern : List Int} {specialZero : Bool}
    (h : Reshape.outputShape (.ofExtents extents) pattern specialZero = .ok (.ofExtents extents')) :
    Shape.count extents = Shape.count extents' := by
  have counts := checkCounts_of_outputShape h
  simp only [Reshape.checkCounts] at counts
  simp only [Shape.extents?_ofExtents] at counts
  split at counts
  · assumption
  · cases counts

theorem types_reshape {element : ElementType} {data shape : Shape} {target : Tensor}
    {pattern : List Int} {specialZero : Bool} (helement : s.element 0 = .ok element)
    (hdata : s.shape 0 = .ok data) (hzero : Reshape.specialZero s = .ok specialZero)
    (htarget : s.value 1 = .ok (some target)) (hpattern : target.integers? = some pattern)
    (hshape : Reshape.outputShape data pattern specialZero = .ok shape)
    (h : reshape.types s = .ok types) : types = [⟨element, shape⟩] := by
  simp only [types_reshape_eq_ok_iff, helement, hdata, hzero, htarget, hpattern, hshape,
    Except.ok.injEq, exists_and_left, exists_eq_left', Option.bind_some, Option.some.injEq,
    reduceCtorEq, false_and, or_false] at h
  exact h.2

theorem coherent_reshape : reshape.Coherent := by
  apply coherent_of_single
  intro s values coherent hfold
  obtain ⟨_, _, hdata, htarget, ⟨_, rfl⟩ | ⟨data, target, rfl, rfl, ⟨_, rfl⟩ |
    ⟨pattern, specialZero, shape, hpattern, hzero, hshape, rfl⟩⟩⟩ := fold_reshape_eq_ok_iff.1 hfold
  · exact .inl rfl
  · exact .inl rfl
  · obtain ⟨element, hdataShape, wellFormed⟩ := coherent.of_value hdata
    cases fixed : shape.extents? with
    | none => exact .inl rfl
    | some extents =>
      obtain rfl := Shape.extents?_eq_some_iff.1 fixed
      refine .inr ⟨⟨data.data, extents⟩, rfl, ?_, ?_⟩
      · exact Eq.trans wellFormed (count_of_outputShape hshape)
      · intro types htypes
        exact types_reshape element hdataShape hzero htarget hpattern hshape htypes

/-- A conversion changes the element type only. -/
theorem cast_eq_ok {t t' : Tensor} {target : ElementType} (h : t.cast target = .ok t') :
    t'.elementType = target ∧ t'.extents = t.extents ∧ t'.data.length = t.data.length := by
  simp only [Tensor.cast] at h
  split at h
  · next same =>
    obtain rfl := Except.ok.inj h
    exact ⟨same, rfl, rfl⟩
  · split at h
    · next data hdata =>
      obtain rfl := Except.ok.inj h
      have source : t.data.toBinary64.length = t.data.length := by
        cases t.data <;> simp [TensorData.toBinary64, TensorData.length]
      cases target <;>
        simp only [TensorData.ofBinary64?, Option.some.injEq, reduceCtorEq] at hdata <;>
        subst hdata <;> exact ⟨rfl, rfl, by simpa [TensorData.length] using source⟩
    · cases h

/-- There are no elements of 16 bits to convert to. -/
theorem exists_cast {element : ElementType} (t : Tensor) (other : element ≠ .f16) :
    ∃ t', t.cast element = .ok t' := by
  simp only [Tensor.cast]
  split
  · exact ⟨t, rfl⟩
  · cases element <;> simp [TensorData.ofBinary64?] at other ⊢

theorem coherent_convert : convert.Coherent := by
  apply coherent_of_single
  intro s values coherent hfold
  rcases fold_convert_eq_ok_iff.1 hfold with
    ⟨_, rfl⟩ | ⟨t, target, t', hvalue, htarget, hcast, rfl⟩
  · exact .inl rfl
  · obtain ⟨_, shape, wellFormed⟩ := coherent.of_value hvalue
    obtain ⟨element, extents, length⟩ := cast_eq_ok hcast
    refine .inr ⟨t', rfl, ?_, ?_⟩
    · rw [Tensor.WellFormed, length, extents]
      exact wellFormed
    · intro types htypes
      obtain ⟨_, target', shape', htarget', hshape', rfl⟩ := types_convert_eq_ok_iff.1 htypes
      obtain rfl := Except.ok.inj (htarget.symm.trans htarget')
      obtain rfl := Except.ok.inj (shape.symm.trans hshape')
      rw [element, Tensor.shape, Tensor.shape, extents]

theorem coherent_shapeOf : shapeOf.Coherent := by
  apply coherent_of_single
  intro s values coherent hfold
  obtain ⟨shape, hshape, ⟨_, rfl⟩ | ⟨extents, target, t, fixed, htarget, hcast, rfl⟩⟩ :=
    fold_shapeOf_eq_ok_iff.1 hfold
  · exact .inl rfl
  · obtain ⟨element, extents', length⟩ := cast_eq_ok hcast
    obtain rfl := Shape.extents?_eq_some_iff.1 fixed
    refine .inr ⟨t, rfl, ?_, ?_⟩
    · rw [Tensor.WellFormed, length, extents']
      exact Tensor.wellFormed_ofData _
    · intro types htypes
      obtain ⟨_, shape', target', hshape', htarget', rfl⟩ := types_shapeOf_eq_ok_iff.1 htypes
      obtain rfl := Except.ok.inj (hshape.symm.trans hshape')
      obtain rfl := Except.ok.inj (htarget.symm.trans htarget')
      rw [Shape.rank?_ofExtents, element, Tensor.shape, extents']
      simp [Tensor.ofInts, Tensor.ofData, TensorData.length]

/-! ### Gather -/

theorem position_lt {extent p : Nat} {index : Int} (h : Gather.position extent index = .ok p) :
    p < extent := by
  simp only [Gather.position] at h
  generalize (if index < 0 then (extent : Int) + index else index) = place at h
  split at h
  · cases h
  · have := Except.ok.inj h
    omega

theorem positions_lt {extent : Nat} {is : List Int} {positions : List Nat}
    (h : is.mapM (Gather.position extent) = .ok positions) : ∀ p ∈ positions, p < extent := by
  intro p hp
  obtain ⟨index, _, hindex⟩ := exists_of_forall₂_right (forall₂_of_mapM_eq_ok h) hp
  exact position_lt hindex

theorem length_integers? {t : Tensor} {is : List Int} (h : t.integers? = some is) :
    is.length = t.data.length := by
  obtain ⟨data, extents⟩ := t
  cases data <;> simp only [Tensor.integers?, TensorData.integers?, Option.some.injEq,
    reduceCtorEq] at h <;> subst h <;> simp [TensorData.length]

theorem elements?_gather {positions : List Nat} {data data' : TensorData}
    (bound : ∀ p ∈ positions, p < data.length) (h : Gather.elements? positions data = some data') :
    data'.length = positions.length ∧ data'.elementType = data.elementType := by
  cases data <;> simp only [Gather.elements?, Option.some.injEq, reduceCtorEq] at h <;> subst h <;>
    refine ⟨length_filterMap fun p hp => ?_, rfl⟩ <;>
    exact ⟨_, List.getElem?_eq_getElem (bound p hp)⟩

/-- Along its only dimension, slices of the data have the dimensions of the indices. -/
theorem types_gather {element : ElementType} {extent : Nat} {indices : List Dim} {axis : Int}
    (helement : s.element 0 = .ok element) (hdata : s.shape 0 = .ok (.ranked [.fixed extent]))
    (hindices : s.shape 1 = .ok (.ranked indices)) (haxis : Gather.axis? s = .ok (some axis))
    (first : axis = 0 ∨ axis = -1) (h : gather.types s = .ok types) :
    types = [⟨element, .ranked indices⟩] := by
  have resolved : resolveAxis "Gather" axis 1 = .ok 0 := by
    rcases first with rfl | rfl <;> rfl
  simp only [types_gather_eq_ok_iff, helement, hdata, hindices, haxis, Except.ok.injEq,
    exists_and_left, exists_eq_left'] at h
  simpa [resolved] using h.2

/-- Slices are computed along the only dimension. -/
theorem exists_along {data : Tensor} {axis : Option Int}
    (h : data.rank = 1 ∧ (axis = some 0 ∨ axis = some (-1))) :
    ∃ extent along, data.extents = [extent] ∧ axis = some along ∧ (along = 0 ∨ along = -1) := by
  obtain ⟨rank, only⟩ := h
  obtain ⟨extent, hextent⟩ := List.length_eq_one_iff.1 rank
  rcases only with zero | last
  · exact ⟨extent, 0, hextent, zero, .inl rfl⟩
  · exact ⟨extent, -1, hextent, last, .inr rfl⟩

theorem coherent_gather : gather.Coherent := by
  apply coherent_of_single
  intro s values coherent hfold
  obtain ⟨_, _, hdata, hindices, ⟨_, rfl⟩ | ⟨data, indices, rfl, rfl, axis, haxis, ⟨_, rfl⟩ |
    ⟨along, ⟨_, rfl⟩ | ⟨is, positions, his, hpositions, rfl⟩⟩⟩⟩ := fold_gather_eq_ok_iff.1 hfold
  · exact .inl rfl
  · exact .inl rfl
  · exact .inl rfl
  · obtain ⟨element, dataShape, _⟩ := coherent.of_value hdata
    obtain ⟨_, indicesShape, wellFormed⟩ := coherent.of_value hindices
    cases helements : Gather.elements? positions data.data with
    | none => exact .inl rfl
    | some elements =>
      obtain ⟨length, sameElement⟩ := elements?_gather (positions_lt hpositions) helements
      refine .inr ⟨⟨elements, indices.extents⟩, rfl, ?_, ?_⟩
      · exact length.trans ((forall₂_of_mapM_eq_ok hpositions).length_eq.symm.trans
          ((length_integers? his).trans wellFormed))
      · intro types htypes
        obtain ⟨extent, along, hextent, rfl, first⟩ := exists_along along
        have dataShape : s.shape 0 = .ok (.ranked [.fixed extent]) := by
          rw [dataShape, Tensor.shape, hextent]
          rfl
        rw [types_gather element dataShape indicesShape haxis first htypes, Tensor.elementType,
          ← sameElement]
        rfl

/-! ### Concatenation -/

theorem forall₂_of_knownLists {inputs : List Nat} {ts : List Tensor}
    (h : Concat.knownLists s inputs = .ok (some ts)) :
    List.Forall₂ (fun input t => s.value input = .ok (some t) ∧ t.rank = 1) inputs ts := by
  induction inputs generalizing ts with
  | nil =>
    obtain rfl := Option.some.inj (Except.ok.inj h)
    exact .nil
  | cons input rest ih =>
    obtain ⟨value, hvalue, h⟩ := bind_eq_ok_iff.1 h
    cases value with
    | none => exact nomatch Except.ok.inj h
    | some t =>
      by_cases rank : t.rank = 1
      · simp only [rank, if_true] at h
        obtain ⟨known, hknown, h⟩ := bind_eq_ok_iff.1 h
        obtain ⟨later, rfl, rfl⟩ := Option.map_eq_some_iff.1 (Except.ok.inj h)
        exact .cons ⟨hvalue, rank⟩ (ih hknown)
      · simp only [rank, if_false] at h
        exact nomatch Except.ok.inj h

theorem length_appendAll {α : Type} {elements? : TensorData → Option (List α)} {ts : List Tensor}
    {xs : List α} (length : ∀ data xs, elements? data = some xs → xs.length = data.length)
    (h : Concat.appendAll elements? ts = .ok xs) :
    xs.length = (ts.map fun t => t.data.length).sum := by
  induction ts generalizing xs with
  | nil =>
    obtain rfl := Except.ok.inj h
    rfl
  | cons t rest ih =>
    rw [Concat.appendAll] at h
    split at h
    · next first hfirst =>
      obtain ⟨later, hlater, h⟩ := bind_eq_ok_iff.1 h
      obtain rfl := Except.ok.inj h
      rw [List.length_append, length _ _ hfirst, ih hlater, List.map_cons, List.sum_cons]
    · cases h

/-- The joined elements are those of all tensors, of the type of the first. -/
theorem elements?_concat {t : Tensor} {ts : List Tensor} {data : TensorData}
    (h : Concat.elements? (t :: ts) = .ok (some data)) :
    data.length = t.data.length + (ts.map fun t => t.data.length).sum ∧
      data.elementType = t.elementType := by
  obtain ⟨first, extents⟩ := t
  cases first <;> simp only [Concat.elements?, List.head?_cons, Option.map_some] at h
  case u8 | boolean => exact nomatch Except.ok.inj h
  all_goals
    obtain ⟨joined, hjoined, h⟩ := bind_eq_ok_iff.1 h
    obtain rfl := Option.some.inj (Except.ok.inj h)
    refine ⟨length_appendAll (fun data xs hxs => ?_) hjoined, rfl⟩
    cases data <;> simp only [Option.some.injEq, reduceCtorEq] at hxs
    exact hxs ▸ rfl

theorem exists_appendAll {α : Type} {elements? : TensorData → Option (List α)} {ts : List Tensor}
    (h : ∀ t ∈ ts, ∃ xs, elements? t.data = some xs) :
    ∃ xs, Concat.appendAll elements? ts = .ok xs := by
  induction ts with
  | nil => exact ⟨[], rfl⟩
  | cons t ts ih =>
    obtain ⟨⟨xs, first⟩, later⟩ := List.forall_mem_cons.1 h
    obtain ⟨ys, rest⟩ := ih later
    exact ⟨xs ++ ys, by rw [Concat.appendAll, first, rest]; rfl⟩

/-- Tensors of one element type can be put in a row. -/
theorem exists_elements?_concat {element : ElementType} {ts : List Tensor}
    (same : ∀ t ∈ ts, t.elementType = element) : ∃ joined, Concat.elements? ts = .ok joined := by
  cases ts with
  | nil => exact ⟨none, rfl⟩
  | cons t ts =>
    obtain ⟨data, extents⟩ := t
    cases data
    case u8 | boolean => exact ⟨none, rfl⟩
    all_goals
      refine (exists_appendAll fun t ht => ?_).elim fun xs h => ⟨_, bind_eq_ok_iff.2 ⟨xs, h, rfl⟩⟩
      have type := (same t ht).trans (same _ List.mem_cons_self).symm
      obtain ⟨data, extents⟩ := t
      cases data <;> cases type
      exact ⟨_, rfl⟩

/-- Along its only dimension, joined shapes span the sum of the extents. -/
theorem joinShapes_eq {element : ElementType} {inputs : List Nat} {ts : List Tensor} {extent : Nat}
    {shape : Shape} (shapes : List.Forall₂ (fun input t => s.shape input = .ok t.shape ∧
      t.extents = [t.data.length]) inputs ts)
    (h : Concat.joinShapes s element 0 inputs [.fixed extent] = .ok shape) :
    shape = .ofExtents [extent + (ts.map fun t => t.data.length).sum] := by
  induction shapes generalizing extent with
  | nil => exact (Except.ok.inj h).symm
  | @cons input t inputs ts first _ ih =>
    obtain ⟨hshape, extents⟩ := first
    have next : t.shape = .ranked [.fixed t.data.length] := by
      rw [Tensor.shape, extents]
      rfl
    have joined : Concat.joinDims 0 input 0 [.fixed extent] [.fixed t.data.length] =
        .ok [.fixed (extent + t.data.length)] := rfl
    simp only [Concat.joinShapes, bind_eq_ok_iff, check_eq_ok_iff, hshape, next, Except.ok.injEq,
      exists_eq_left', joined] at h
    obtain ⟨_, _, _, _, h⟩ := h
    rw [ih h, List.map_cons, List.sum_cons, Nat.add_assoc]

theorem extents_of_rank_one (h : t.WellFormed) (rank : t.rank = 1) :
    t.extents = [t.data.length] := by
  obtain ⟨extent, hextent⟩ := List.length_eq_one_iff.1 rank
  rw [hextent, h, hextent, Shape.count, Shape.count, Nat.mul_one]

theorem eq_zero_of_resolveAxis {op : String} {axis : Int} {dim : Nat}
    (h : resolveAxis op axis 1 = .ok dim) : dim = 0 := by
  simp only [resolveAxis] at h
  generalize (if axis < 0 then ((1 : Nat) : Int) + axis else axis) = place at h
  split at h
  · cases h
  · have := Except.ok.inj h
    omega

theorem types_concat {t : Tensor} {ts : List Tensor} {count : Nat}
    (hcount : s.inputCount = count + 1)
    (element : s.element 0 = .ok t.elementType)
    (shapes : List.Forall₂ (fun input t => s.shape input = .ok t.shape ∧
      t.extents = [t.data.length]) (0 :: List.range' 1 count) (t :: ts))
    (h : concat.types s = .ok types) :
    types =
      [⟨t.elementType, .ofExtents [t.data.length + (ts.map fun t => t.data.length).sum]⟩] := by
  obtain ⟨⟨shape, extents⟩, later⟩ := List.forall₂_cons.1 shapes
  have first : t.shape = .ranked [.fixed t.data.length] := by
    rw [Tensor.shape, extents]
    rfl
  obtain ⟨_, _, axis, _, helement, _, hfirst, h⟩ := types_concat_eq_ok_iff.1 h
  obtain rfl := Except.ok.inj (element.symm.trans helement)
  obtain rfl := Except.ok.inj ((first ▸ shape).symm.trans hfirst)
  obtain ⟨unranked, -⟩ | ⟨dims, dim, shape, ranked, hdim, hshape, rfl⟩ := h
  · cases unranked
  · obtain rfl := Shape.ranked.inj ranked
    obtain rfl := eq_zero_of_resolveAxis hdim
    rw [hcount, Nat.add_sub_cancel] at hshape
    rw [joinShapes_eq later hshape]

theorem coherent_concat : concat.Coherent := by
  apply coherent_of_single
  intro s values coherent hfold
  rcases fold_concat_eq_ok_iff.1 hfold with ⟨_, rfl⟩ | ⟨ts, joined, hknown, hjoined, rfl⟩
  · exact .inl rfl
  · cases joined with
    | none => exact .inl rfl
    | some data =>
      refine .inr ⟨.ofData data, rfl, Tensor.wellFormed_ofData data, ?_⟩
      intro types htypes
      have inputs := forall₂_of_knownLists hknown
      cases ts with
      | nil => exact nomatch Except.ok.inj hjoined
      | cons t ts =>
        obtain ⟨length, sameElement⟩ := elements?_concat hjoined
        have count : s.inputCount = ts.length + 1 := by simpa using inputs.length_eq
        rw [count, List.range_eq_range', List.range'_succ] at inputs
        have element := (coherent.of_value (List.forall₂_cons.1 inputs).1.1).1
        have shapes : List.Forall₂ (fun input t => s.shape input = .ok t.shape ∧
            t.extents = [t.data.length]) (0 :: List.range' 1 ts.length) (t :: ts) := by
          apply inputs.imp
          intro input t known
          obtain ⟨_, shape, wellFormed⟩ := coherent.of_value known.1
          exact ⟨shape, extents_of_rank_one wellFormed known.2⟩
        rw [types_concat count element shapes htypes, ← length, ← sameElement]
        rfl

/-- Every operator of the library is coherent. -/
theorem coherent_of_mem_core {operator : Operator} (h : operator ∈ core) : operator.Coherent := by
  cases family_of_mem_core h with
  | parameter => exact coherent_of_not_folded fun _ => rfl
  | result => exact coherent_of_not_folded fun _ => rfl
  | constant => exact coherent_constant
  | binary name f => exact coherent_binary name f
  | unary name f => exact coherent_unary name f
  | reshape => exact coherent_reshape
  | shapeOf => exact coherent_shapeOf
  | concat => exact coherent_concat
  | gather => exact coherent_gather
  | convert => exact coherent_convert
  | memoryAccess kind => exact coherent_of_not_folded fun _ => rfl

end Operator

end TensorGraph
