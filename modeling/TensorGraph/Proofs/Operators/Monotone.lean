import TensorGraph.Proofs.Graph.Linked
import TensorGraph.Proofs.Operators.Coherence

/-!
# What is known, and operators that respect it

`d ≤ d'` says of dimensions, shapes, types and slots that all that is known of `d` is also known, and
the same, of `d'`. An operator is monotone if from inputs of which more is known it computes outputs
of which more is known (`Operator.Monotone`); every operator of the library but that of parameters,
which reads nothing, is (`Operator.monotone_of_mem_core`).

A reshape needs its target to be one list of entries: from the extent of such a list it takes the
rank before the entries are known.
-/

namespace TensorGraph

/-! ### Dimensions -/

instance : LE Dim := ⟨fun d d' => d = .dynamic ∨ d' = d⟩

instance (d d' : Dim) : Decidable (d ≤ d') := inferInstanceAs (Decidable (_ ∨ _))

namespace Dim

variable {d d' e e' c c' : Dim} {n : Nat}

theorem le_refl (d : Dim) : d ≤ d := .inr rfl

theorem dynamic_le (d : Dim) : .dynamic ≤ d := .inl rfl

@[simp] theorem fixed_le_iff : .fixed n ≤ d ↔ d = .fixed n := by
  simp [LE.le]

theorem forall₂_le_refl (ds : List Dim) : List.Forall₂ (· ≤ ·) ds ds :=
  List.forall₂_same.2 fun d _ => d.le_refl

/-- Dimensions that are fixed are known already. -/
theorem eq_of_forall₂_le {ns : List Nat} {ds : List Dim}
    (h : List.Forall₂ (· ≤ ·) (ns.map .fixed) ds) : ds = ns.map .fixed := by
  induction ns generalizing ds with
  | nil => exact List.forall₂_nil_left_iff.1 h
  | cons n ns ih =>
    obtain ⟨d, ds, hd, hds, rfl⟩ := List.forall₂_cons_left_iff.1 h
    rw [fixed_le_iff.1 hd, ih hds, List.map_cons]

/-- An extent other than 1 is the common one, whatever it meets. -/
theorem eq_fixed_of_broadcast (other : n ≠ 1) :
    (d.broadcast (.fixed n) = .ok c → c = .fixed n) ∧
      ((.fixed n : Dim).broadcast d = .ok c → c = .fixed n) := by
  cases d with
  | dynamic => simp [broadcast, other, eq_comm]
  | fixed m =>
    constructor
    · intro h
      obtain ⟨k, rfl, -, eq⟩ := Shape.broadcast_fixed h
      rw [eq.resolve_left other]
    · intro h
      obtain ⟨k, rfl, eq, -⟩ := Shape.broadcast_fixed h
      rw [eq.resolve_left other]

theorem broadcast_le (hd : d ≤ d') (he : e ≤ e') (h : d.broadcast e = .ok c)
    (h' : d'.broadcast e' = .ok c') : c ≤ c' := by
  cases d with
  | dynamic =>
    cases e with
    | dynamic =>
      obtain rfl := Except.ok.inj h
      exact dynamic_le c'
    | fixed n =>
      obtain rfl := fixed_le_iff.1 he
      obtain rfl := Except.ok.inj h
      split
      · exact dynamic_le c'
      · next other => exact fixed_le_iff.2 ((eq_fixed_of_broadcast other).1 h')
  | fixed m =>
    obtain rfl := fixed_le_iff.1 hd
    cases e with
    | fixed n =>
      obtain rfl := fixed_le_iff.1 he
      obtain rfl := Except.ok.inj (h.symm.trans h')
      exact le_refl c
    | dynamic =>
      obtain rfl := Except.ok.inj h
      split
      · exact dynamic_le c'
      · next other => exact fixed_le_iff.2 ((eq_fixed_of_broadcast other).2 h')

end Dim

/-! ### Shapes -/

/-- All that is known of the first shape is known of the second one. -/
def Shape.Le : Shape → Shape → Prop
  | .unranked, _ => True
  | .ranked ds, .ranked ds' => List.Forall₂ (· ≤ ·) ds ds'
  | .ranked _, .unranked => False

instance : LE Shape := ⟨Shape.Le⟩

instance : (s s' : Shape) → Decidable (s ≤ s')
  | .unranked, _ => .isTrue trivial
  | .ranked ds, .ranked ds' => inferInstanceAs (Decidable (List.Forall₂ (· ≤ ·) ds ds'))
  | .ranked _, .unranked => .isFalse id

namespace Shape

variable {s s' a a' b b' c c' : Shape} {ds es : List Dim} {i n : Nat} {d : Dim}

theorem unranked_le (s : Shape) : .unranked ≤ s := trivial

theorem ranked_le_ranked_iff : ranked ds ≤ ranked es ↔ List.Forall₂ (· ≤ ·) ds es := .rfl

theorem exists_of_ranked_le (h : ranked ds ≤ s) :
    ∃ ds', s = ranked ds' ∧ List.Forall₂ (· ≤ ·) ds ds' := by
  cases s with
  | unranked => exact h.elim
  | ranked ds' => exact ⟨ds', rfl, h⟩

theorem le_refl (s : Shape) : s ≤ s := by
  cases s with
  | unranked => exact unranked_le _
  | ranked ds => exact ranked_le_ranked_iff.2 (Dim.forall₂_le_refl ds)

/-- A shape that is fixed is known already. -/
theorem eq_of_extents? {extents : List Nat} (fixed : s.extents? = some extents) (h : s ≤ s') :
    s' = s := by
  obtain rfl := extents?_eq_some_iff.1 fixed
  obtain ⟨ds', rfl, h⟩ := exists_of_ranked_le h
  rw [Dim.eq_of_forall₂_le h, ofExtents]

theorem rank?_eq (hrank : s.rank? = some n) (h : s ≤ s') : s'.rank? = some n := by
  cases s with
  | unranked => cases hrank
  | ranked ds =>
    obtain ⟨ds', rfl, h⟩ := exists_of_ranked_le h
    rw [← hrank, rank?, rank?, dims?, dims?, Option.map_some, Option.map_some, h.length_eq]

theorem exists_dim?_le (hd : s.dim? i = some d) (h : s ≤ s') : ∃ d', s'.dim? i = some d' ∧ d ≤ d' := by
  cases s with
  | unranked => cases hd
  | ranked ds =>
    obtain ⟨ds', rfl, h⟩ := exists_of_ranked_le h
    exact exists_getElem?_of_forall₂ h hd

theorem padLeft_le (rank : Nat) {ds ds' : List Dim} (h : List.Forall₂ (· ≤ ·) ds ds') :
    List.Forall₂ (· ≤ ·) (padLeft rank ds) (padLeft rank ds') := by
  rw [padLeft, padLeft, h.length_eq]
  exact List.rel_append (Dim.forall₂_le_refl _) h

theorem broadcastDims_le {position : Nat} {ds ds' es es' cs cs' : List Dim}
    (hd : List.Forall₂ (· ≤ ·) ds ds') (he : List.Forall₂ (· ≤ ·) es es')
    (h : broadcastDims position ds es = .ok cs) (h' : broadcastDims position ds' es' = .ok cs') :
    List.Forall₂ (· ≤ ·) cs cs' := by
  induction hd generalizing position es es' cs cs' with
  | nil =>
    obtain rfl := Except.ok.inj h
    obtain rfl := Except.ok.inj h'
    exact .nil
  | cons first _ ih =>
    cases he with
    | nil =>
      obtain rfl := Except.ok.inj h
      obtain rfl := Except.ok.inj h'
      exact .nil
    | cons second rest =>
      simp only [broadcastDims] at h h'
      split at h
      · cases h
      next dim hdim =>
        split at h
        · cases h
        next dims hdims =>
          split at h'
          · cases h'
          next dim' hdim' =>
            split at h'
            · cases h'
            next dims' hdims' =>
              obtain rfl := Except.ok.inj h
              obtain rfl := Except.ok.inj h'
              exact .cons (Dim.broadcast_le first second hdim hdim') (ih rest hdims hdims')

theorem broadcast_le (ha : a ≤ a') (hb : b ≤ b') (h : a.broadcast b = .ok c)
    (h' : a'.broadcast b' = .ok c') : c ≤ c' := by
  cases a with
  | unranked =>
    obtain rfl := Except.ok.inj h
    exact unranked_le c'
  | ranked ds =>
    cases b with
    | unranked =>
      obtain rfl := Except.ok.inj h
      exact unranked_le c'
    | ranked es =>
      obtain ⟨ds', rfl, hd⟩ := exists_of_ranked_le ha
      obtain ⟨es', rfl, he⟩ := exists_of_ranked_le hb
      simp only [broadcast, ← hd.length_eq, ← he.length_eq] at h h'
      split at h
      next cs hcs =>
        split at h'
        next cs' hcs' =>
          obtain rfl := Except.ok.inj h
          obtain rfl := Except.ok.inj h'
          exact broadcastDims_le (padLeft_le _ hd) (padLeft_le _ he) hcs hcs'
        · cases h'
      · cases h

end Shape

/-! ### Slots and sites -/

instance : LE SlotType := ⟨fun type type' => type.element = type'.element ∧ type.shape ≤ type'.shape⟩

instance (type type' : SlotType) : Decidable (type ≤ type') := inferInstanceAs (Decidable (_ ∧ _))

/-- The type of the second slot is known at least as well, and so is its value. -/
instance : LE Slot := ⟨fun slot slot' => slot.toSlotType ≤ slot'.toSlotType ∧
  ∀ t, slot.value = some t → slot'.value = some t⟩

theorem SlotType.le_refl (type : SlotType) : type ≤ type := ⟨rfl, Shape.le_refl _⟩

/-- The sites are those of the same node, and of each slot that the first one sees more is known at
the second one. -/
structure Site.Le (s s' : Site) : Prop where
  bare : s'.node.bare = s.node.bare
  slots : ∀ i slot, s.slot i = .ok slot → ∃ slot', s'.slot i = .ok slot' ∧ slot ≤ slot'

namespace Site.Le

variable {s s' : Site} {i : Nat}

theorem inputs (h : s.Le s') : s'.node.inputs = s.node.inputs :=
  (congrArg Node.inputs h.bare : s'.node.bare.inputs = s.node.bare.inputs)

theorem inputCount (h : s.Le s') : s'.inputCount = s.inputCount := congrArg List.length h.inputs

theorem constant (h : s.Le s') : s'.node.constant = s.node.constant :=
  (congrArg Node.constant h.bare : s'.node.bare.constant = s.node.bare.constant)

/-- The operator reads the same attributes. -/
theorem attribute? (h : s.Le s') (key : String) : s'.attribute? key = s.attribute? key :=
  congrArg (·.find? key)
    (congrArg Node.attributes h.bare : s'.node.bare.attributes = s.node.bare.attributes)

theorem op (h : s.Le s') : s'.node.op = s.node.op :=
  (congrArg Node.op h.bare : s'.node.bare.op = s.node.bare.op)

theorem intOr (h : s.Le s') (key : String) (default : Int) :
    s'.intOr key default = s.intOr key default := by
  rw [Site.intOr, Site.intOr, h.attribute?, h.op]

theorem boolOr (h : s.Le s') (key : String) (default : Bool) :
    s'.boolOr key default = s.boolOr key default := by
  rw [Site.boolOr, Site.boolOr, h.attribute?, h.op]

theorem text (h : s.Le s') (key : String) : s'.text key = s.text key := by
  rw [Site.text, Site.text, h.attribute?, h.op]

theorem element {e : ElementType} (h : s.Le s') (he : s.element i = .ok e) :
    s'.element i = .ok e := by
  obtain ⟨slot, hslot, he⟩ := bind_eq_ok_iff.1 he
  obtain ⟨slot', hslot', ⟨same, _⟩, _⟩ := h.slots i slot hslot
  obtain rfl := Except.ok.inj he
  exact bind_eq_ok_iff.2 ⟨slot', hslot', congrArg _ same.symm⟩

theorem shape {a : Shape} (h : s.Le s') (ha : s.shape i = .ok a) :
    ∃ a', s'.shape i = .ok a' ∧ a ≤ a' := by
  obtain ⟨slot, hslot, ha⟩ := bind_eq_ok_iff.1 ha
  obtain ⟨slot', hslot', ⟨_, better⟩, _⟩ := h.slots i slot hslot
  obtain rfl := Except.ok.inj ha
  exact ⟨slot'.shape, bind_eq_ok_iff.2 ⟨slot', hslot', rfl⟩, better⟩

theorem value {t : Tensor} (h : s.Le s') (ht : s.value i = .ok (some t)) :
    s'.value i = .ok (some t) := by
  obtain ⟨slot, hslot, ht⟩ := bind_eq_ok_iff.1 ht
  obtain ⟨slot', hslot', _, known⟩ := h.slots i slot hslot
  exact bind_eq_ok_iff.2 ⟨slot', hslot', congrArg _ (known t (Except.ok.inj ht))⟩

end Site.Le

/-! ### Operators -/

namespace Operator

/-- The target of a reshape is one list. -/
def ReadsList (operator : Operator) (s : Site) : Prop :=
  operator.name = "Reshape" → ∀ shape, s.shape 1 = .ok shape → shape.rank? = some 1

/-- Of the outputs that the operator computes more is known if more is known of what it sees: the
types, and the values, which stay the same once they are known. -/
structure Monotone (operator : Operator) : Prop where
  types : ∀ s s' types types', s.Le s' → s'.Coherent → operator.ReadsList s' →
    operator.types s = .ok types → operator.types s' = .ok types' → List.Forall₂ (· ≤ ·) types types'
  fold : ∀ s s' values, s.Le s' → operator.fold s = .ok values →
    (∀ value ∈ values, value = none) ∨ operator.fold s' = .ok values

variable {s s' : Site} {types types' : List SlotType}

theorem passType_le (h : s.Le s') (htypes : passType s = .ok types)
    (htypes' : passType s' = .ok types') : List.Forall₂ (· ≤ ·) types types' := by
  obtain ⟨_, element, shape, helement, hshape, rfl⟩ := passType_eq_ok_iff.1 htypes
  obtain ⟨_, element', shape', helement', hshape', rfl⟩ := passType_eq_ok_iff.1 htypes'
  obtain rfl := Except.ok.inj (helement'.symm.trans (h.element helement))
  obtain ⟨_, known, better⟩ := h.shape hshape
  obtain rfl := Except.ok.inj (hshape'.symm.trans known)
  exact .cons ⟨rfl, better⟩ .nil

theorem monotone_result : result.Monotone where
  types _ _ _ _ h _ _ := passType_le h
  fold _ _ _ _ hfold := .inl (by simp [← Except.ok.inj hfold])

theorem monotone_memoryAccess (kind : MemoryAccess.Kind) : (memoryAccess kind).Monotone where
  types _ _ _ _ h _ _ htypes htypes' :=
    passType_le h (types_memoryAccess_eq_ok_iff.1 htypes).2
      (types_memoryAccess_eq_ok_iff.1 htypes').2
  fold _ _ _ _ hfold := .inl (by simp [← Except.ok.inj hfold])

theorem payload_eq (h : s.Le s') {t : Tensor} (ht : payload s = .ok t) : payload s' = .ok t := by
  rw [payload, h.constant]
  rw [payload] at ht
  split at ht
  · next held => simpa [held] using ht
  · cases ht

theorem monotone_constant : constant.Monotone where
  types s s' types types' h _ _ htypes htypes' := by
    obtain ⟨_, t, ht, rfl⟩ := types_constant_eq_ok_iff.1 htypes
    obtain ⟨_, t', ht', rfl⟩ := types_constant_eq_ok_iff.1 htypes'
    obtain rfl := Except.ok.inj (ht'.symm.trans (payload_eq h ht))
    exact .cons (SlotType.le_refl _) .nil
  fold s s' values h hfold := by
    obtain ⟨t, ht, rfl⟩ := fold_constant_eq_ok_iff.1 hfold
    exact .inr (fold_constant_eq_ok_iff.2 ⟨t, payload_eq h ht, rfl⟩)

theorem monotone_binary (name : String) (f : BinaryFold) : (binary name f).Monotone where
  types s s' types types' h _ _ htypes htypes' := by
    obtain ⟨_, left, a, b, c, hleft, _, ha, hb, hc, rfl⟩ := types_binary_eq_ok_iff.1 htypes
    obtain ⟨_, left', a', b', c', hleft', _, ha', hb', hc', rfl⟩ := types_binary_eq_ok_iff.1 htypes'
    obtain rfl := Except.ok.inj (hleft'.symm.trans (h.element hleft))
    obtain ⟨_, knownA, betterA⟩ := h.shape ha
    obtain rfl := Except.ok.inj (ha'.symm.trans knownA)
    obtain ⟨_, knownB, betterB⟩ := h.shape hb
    obtain rfl := Except.ok.inj (hb'.symm.trans knownB)
    exact .cons ⟨rfl, Shape.broadcast_le betterA betterB hc hc'⟩ .nil
  fold s s' values h hfold := by
    obtain ⟨_, _, hleft, hright, ⟨_, rfl⟩ | ⟨a, b, rfl, rfl, folded⟩⟩ :=
      fold_binary_eq_ok_iff.1 hfold
    · exact .inl (by simp)
    · exact .inr (fold_binary_eq_ok_iff.2
        ⟨_, _, h.value hleft, h.value hright, .inr ⟨a, b, rfl, rfl, folded⟩⟩)

theorem monotone_unary (name : String) (f : UnaryFold) : (unary name f).Monotone where
  types _ _ _ _ h _ _ := passType_le h
  fold s s' values h hfold := by
    obtain ⟨value, hvalue, rfl⟩ := fold_unary_eq_ok_iff.1 hfold
    cases value with
    | none => exact .inl (by simp)
    | some t => exact .inr (fold_unary_eq_ok_iff.2 ⟨_, h.value hvalue, rfl⟩)

theorem destination_eq (h : s.Le s') : Convert.destination s' = Convert.destination s := by
  rw [Convert.destination, Convert.destination, h.text]

theorem monotone_convert : convert.Monotone where
  types s s' types types' h _ _ htypes htypes' := by
    obtain ⟨_, element, a, helement, ha, rfl⟩ := types_convert_eq_ok_iff.1 htypes
    obtain ⟨_, element', a', helement', ha', rfl⟩ := types_convert_eq_ok_iff.1 htypes'
    rw [destination_eq h] at helement'
    obtain rfl := Except.ok.inj (helement'.symm.trans helement)
    obtain ⟨_, knownShape, better⟩ := h.shape ha
    obtain rfl := Except.ok.inj (ha'.symm.trans knownShape)
    exact .cons ⟨rfl, better⟩ .nil
  fold s s' values h hfold := by
    obtain ⟨_, rfl⟩ | ⟨t, element, t', hvalue, helement, folded⟩ := fold_convert_eq_ok_iff.1 hfold
    · exact .inl (by simp)
    · rw [← destination_eq h] at helement
      exact .inr (fold_convert_eq_ok_iff.2
        (.inr ⟨t, element, t', h.value hvalue, helement, folded⟩))

theorem shapeOf_element_eq (h : s.Le s') : ShapeOf.element s' = ShapeOf.element s := by
  rw [ShapeOf.element, ShapeOf.element, h.attribute?, h.text]

theorem monotone_shapeOf : shapeOf.Monotone where
  types s s' types types' h _ _ htypes htypes' := by
    obtain ⟨_, a, element, ha, helement, rfl⟩ := types_shapeOf_eq_ok_iff.1 htypes
    obtain ⟨_, a', element', ha', helement', rfl⟩ := types_shapeOf_eq_ok_iff.1 htypes'
    rw [shapeOf_element_eq h] at helement'
    obtain rfl := Except.ok.inj (helement'.symm.trans helement)
    obtain ⟨_, known, better⟩ := h.shape ha
    obtain rfl := Except.ok.inj (ha'.symm.trans known)
    refine .cons ⟨rfl, ?_⟩ .nil
    cases hrank : a.rank? with
    | some rank =>
      rw [Shape.rank?_eq hrank better]
      exact Shape.le_refl _
    | none =>
      -- a list of which the length is not known yet
      cases a'.rank? with
      | some rank => exact .cons (Dim.dynamic_le _) .nil
      | none => exact Shape.le_refl _
  fold s s' values h hfold := by
    obtain ⟨a, ha, ⟨_, rfl⟩ | ⟨extents, element, t, fixed, helement, folded⟩⟩ :=
      fold_shapeOf_eq_ok_iff.1 hfold
    · exact .inl (by simp)
    · obtain ⟨a', known, better⟩ := h.shape ha
      obtain rfl := Shape.eq_of_extents? fixed better
      rw [← shapeOf_element_eq h] at helement
      exact .inr (fold_shapeOf_eq_ok_iff.2
        ⟨a', known, .inr ⟨extents, element, t, fixed, helement, folded⟩⟩)

/-! ### Gather -/

theorem axis?_eq (h : s.Le s') {axis : Int} (haxis : Gather.axis? s = .ok (some axis)) :
    Gather.axis? s' = .ok (some axis) := by
  simp only [Gather.axis?, h.inputCount, h.intOr] at haxis ⊢
  split at haxis
  · next few => simpa only [few, if_true] using haxis
  · next many =>
    obtain ⟨value, hvalue, haxis⟩ := bind_eq_ok_iff.1 haxis
    simp only [many, if_false]
    cases value with
    | none => cases haxis
    | some t => exact bind_eq_ok_iff.2 ⟨_, h.value hvalue, haxis⟩

theorem monotone_gather : gather.Monotone where
  types s s' types types' h _ _ htypes htypes' := by
    obtain ⟨_, element, data, indices, axis, helement, hdata, hindices, haxis, htypes⟩ :=
      types_gather_eq_ok_iff.1 htypes
    obtain ⟨_, element', data', indices', axis', helement', hdata', hindices', haxis', htypes'⟩ :=
      types_gather_eq_ok_iff.1 htypes'
    obtain rfl := Except.ok.inj (helement'.symm.trans (h.element helement))
    obtain ⟨_, knownData, betterData⟩ := h.shape hdata
    obtain rfl := Except.ok.inj (hdata'.symm.trans knownData)
    obtain ⟨_, knownIndices, betterIndices⟩ := h.shape hindices
    obtain rfl := Except.ok.inj (hindices'.symm.trans knownIndices)
    rcases htypes with ⟨_, rfl⟩ | ⟨ds, is, along, dim, rfl, rfl, rfl, hdim, rfl⟩
    · have single : ∃ shape, types' = [⟨element', shape⟩] := by
        rcases htypes' with ⟨_, rfl⟩ | ⟨_, _, _, _, _, _, _, _, rfl⟩ <;> exact ⟨_, rfl⟩
      obtain ⟨shape, rfl⟩ := single
      exact .cons ⟨rfl, Shape.unranked_le _⟩ .nil
    · obtain ⟨ds', rfl, hds⟩ := Shape.exists_of_ranked_le betterData
      obtain ⟨is', rfl, his⟩ := Shape.exists_of_ranked_le betterIndices
      obtain rfl := Except.ok.inj (haxis'.symm.trans (axis?_eq h haxis))
      rcases htypes' with ⟨unknown, -⟩ | ⟨_, _, _, dim', ⟨⟩, ⟨⟩, ⟨⟩, hdim', rfl⟩
      · simp at unknown
      · rw [← hds.length_eq] at hdim'
        obtain rfl := Except.ok.inj (hdim'.symm.trans hdim)
        have joined : List.Forall₂ (· ≤ ·) (ds.take dim' ++ is ++ ds.drop (dim' + 1))
            (ds'.take dim' ++ is' ++ ds'.drop (dim' + 1)) :=
          List.rel_append (List.rel_append (List.forall₂_take dim' hds) his)
            (List.forall₂_drop (dim' + 1) hds)
        exact .cons ⟨rfl, joined⟩ .nil
  fold s s' values h hfold := by
    obtain ⟨_, _, hdata, hindices, ⟨_, rfl⟩ | ⟨data, indices, rfl, rfl, axis, haxis, ⟨_, rfl⟩ |
      ⟨along, folded⟩⟩⟩ := fold_gather_eq_ok_iff.1 hfold
    · exact .inl (by simp)
    · exact .inl (by simp)
    · obtain ⟨_, _, _, rfl, _⟩ := exists_along along
      exact .inr (fold_gather_eq_ok_iff.2 ⟨_, _, h.value hdata, h.value hindices,
        .inr ⟨data, indices, rfl, rfl, _, axis?_eq h haxis, .inr ⟨along, folded⟩⟩⟩)

/-! ### Concatenation -/

theorem joinDim_le {onAxis : Bool} {d d' e e' c c' : Dim} (hd : d ≤ d') (he : e ≤ e')
    (h : Concat.joinDim onAxis d e = some c) (h' : Concat.joinDim onAxis d' e' = some c') :
    c ≤ c' := by
  cases d with
  | fixed m =>
    obtain rfl := Dim.fixed_le_iff.1 hd
    cases e with
    | fixed n =>
      obtain rfl := Dim.fixed_le_iff.1 he
      obtain rfl := Option.some.inj (h.symm.trans h')
      exact Dim.le_refl c
    | dynamic =>
      cases onAxis with
      | true =>
        obtain rfl := Option.some.inj h
        exact Dim.dynamic_le c'
      | false =>
        obtain rfl := Option.some.inj h
        cases e' <;> simp_all [Concat.joinDim, eq_comm]
  | dynamic =>
    cases onAxis with
    | true =>
      obtain rfl : Dim.dynamic = c := by cases e <;> simpa [Concat.joinDim] using h
      exact Dim.dynamic_le c'
    | false =>
      obtain rfl : e = c := by cases e <;> simpa [Concat.joinDim] using h
      cases e with
      | dynamic => exact Dim.dynamic_le c'
      | fixed n =>
        obtain rfl := Dim.fixed_le_iff.1 he
        cases d' <;> simp_all [Concat.joinDim, eq_comm]

theorem joinDims_le {axis input position : Nat} {ds ds' es es' cs cs' : List Dim}
    (hd : List.Forall₂ (· ≤ ·) ds ds') (he : List.Forall₂ (· ≤ ·) es es')
    (h : Concat.joinDims axis input position ds es = .ok cs)
    (h' : Concat.joinDims axis input position ds' es' = .ok cs') :
    List.Forall₂ (· ≤ ·) cs cs' := by
  induction hd generalizing position es es' cs cs' with
  | nil =>
    obtain rfl := Except.ok.inj h
    obtain rfl := Except.ok.inj h'
    exact .nil
  | cons first _ ih =>
    cases he with
    | nil =>
      obtain rfl := Except.ok.inj h
      obtain rfl := Except.ok.inj h'
      exact .nil
    | cons second rest =>
      simp only [Concat.joinDims] at h h'
      split at h
      next dim hdim =>
        split at h'
        next dim' hdim' =>
          obtain ⟨dims, hdims, h⟩ := bind_eq_ok_iff.1 h
          obtain ⟨dims', hdims', h'⟩ := bind_eq_ok_iff.1 h'
          obtain rfl := Except.ok.inj h
          obtain rfl := Except.ok.inj h'
          exact .cons (joinDim_le first second hdim hdim') (ih rest hdims hdims')
        · cases h'
      · cases h

theorem joinShapes_le (h : s.Le s') {element : ElementType} {axis : Nat} {inputs : List Nat}
    {ds ds' : List Dim} {shape shape' : Shape} (hd : List.Forall₂ (· ≤ ·) ds ds')
    (hshape : Concat.joinShapes s element axis inputs ds = .ok shape)
    (hshape' : Concat.joinShapes s' element axis inputs ds' = .ok shape') : shape ≤ shape' := by
  induction inputs generalizing ds ds' with
  | nil =>
    obtain rfl := Except.ok.inj hshape
    obtain rfl := Except.ok.inj hshape'
    exact hd
  | cons input rest ih =>
    simp only [Concat.joinShapes, bind_eq_ok_iff, check_eq_ok_iff] at hshape hshape'
    obtain ⟨actual, _, _, next, hnext, hshape⟩ := hshape
    obtain ⟨actual', _, _, next', hnext', hshape'⟩ := hshape'
    obtain ⟨_, known, better⟩ := h.shape hnext
    obtain rfl := Except.ok.inj (hnext'.symm.trans known)
    cases next with
    | unranked =>
      obtain rfl := Except.ok.inj hshape
      exact Shape.unranked_le _
    | ranked es =>
      obtain ⟨es', rfl, he⟩ := Shape.exists_of_ranked_le better
      simp only [bind_eq_ok_iff, check_eq_ok_iff] at hshape hshape'
      obtain ⟨_, dims, hdims, hshape⟩ := hshape
      obtain ⟨_, dims', hdims', hshape'⟩ := hshape'
      exact ih (joinDims_le hd he hdims hdims') hshape hshape'

theorem knownLists_eq (h : s.Le s') {inputs : List Nat} {ts : List Tensor}
    (known : Concat.knownLists s inputs = .ok (some ts)) :
    Concat.knownLists s' inputs = .ok (some ts) := by
  induction inputs generalizing ts with
  | nil => exact known
  | cons input rest ih =>
    obtain ⟨value, hvalue, known⟩ := bind_eq_ok_iff.1 known
    cases value with
    | none => cases known
    | some t =>
      refine bind_eq_ok_iff.2 ⟨_, h.value hvalue, ?_⟩
      by_cases rank : t.rank = 1
      · simp only [rank, if_true] at known ⊢
        obtain ⟨later, hlater, known⟩ := bind_eq_ok_iff.1 known
        cases later with
        | none => cases known
        | some later => exact bind_eq_ok_iff.2 ⟨_, ih hlater, known⟩
      · simp only [rank, if_false] at known
        cases known

theorem monotone_concat : concat.Monotone where
  types s s' types types' h _ _ htypes htypes' := by
    obtain ⟨_, element, axis, a, helement, haxis, ha, htypes⟩ := types_concat_eq_ok_iff.1 htypes
    obtain ⟨_, element', axis', a', helement', haxis', ha', htypes'⟩ :=
      types_concat_eq_ok_iff.1 htypes'
    rw [h.intOr] at haxis'
    obtain rfl := Except.ok.inj (helement'.symm.trans (h.element helement))
    obtain rfl := Except.ok.inj (haxis'.symm.trans haxis)
    obtain ⟨_, known, better⟩ := h.shape ha
    obtain rfl := Except.ok.inj (ha'.symm.trans known)
    rcases htypes with ⟨rfl, rfl⟩ | ⟨ds, dim, shape, rfl, hdim, hshape, rfl⟩
    · have single : ∃ shape, types' = [⟨element', shape⟩] := by
        rcases htypes' with ⟨_, rfl⟩ | ⟨_, _, _, _, _, _, rfl⟩ <;> exact ⟨_, rfl⟩
      obtain ⟨shape, rfl⟩ := single
      exact .cons ⟨rfl, Shape.unranked_le _⟩ .nil
    · obtain ⟨ds', rfl, hds⟩ := Shape.exists_of_ranked_le better
      rcases htypes' with ⟨unranked, -⟩ | ⟨_, dim', shape', ⟨⟩, hdim', hshape', rfl⟩
      · cases unranked
      · rw [← hds.length_eq] at hdim'
        rw [h.inputCount] at hshape'
        obtain rfl := Except.ok.inj (hdim'.symm.trans hdim)
        exact .cons ⟨rfl, joinShapes_le h hds hshape hshape'⟩ .nil
  fold s s' values h hfold := by
    obtain ⟨_, rfl⟩ | ⟨ts, joined, hknown, folded⟩ := fold_concat_eq_ok_iff.1 hfold
    · exact .inl (by simp)
    · rw [← h.inputCount] at hknown
      exact .inr (fold_concat_eq_ok_iff.2 (.inr ⟨ts, joined, knownLists_eq h hknown, folded⟩))

/-! ### Reshape -/

theorem entryDim_le {data data' : Shape} {specialZero inferred : Bool} {position : Nat} {entry : Int}
    {d d' : Dim} (better : data ≤ data')
    (h : Reshape.entryDim data specialZero inferred position entry = .ok d)
    (h' : Reshape.entryDim data' specialZero inferred position entry = .ok d') : d ≤ d' := by
  simp only [Reshape.entryDim] at h h'
  split at h
  · split at h
    · cases h
    · obtain rfl := Except.ok.inj h
      exact Dim.dynamic_le d'
  next other =>
    rw [if_neg other] at h'
    split at h
    next copied =>
      rw [if_pos copied] at h'
      split at h
      next dim hdim =>
        obtain ⟨dim', hdim', le⟩ := Shape.exists_dim?_le hdim better
        rw [hdim'] at h'
        obtain rfl := Except.ok.inj h
        obtain rfl := Except.ok.inj h'
        exact le
      · cases h
    next own =>
      rw [if_neg own] at h'
      obtain rfl := Except.ok.inj (h.symm.trans h')
      exact Dim.le_refl d

theorem entryDims_le {data data' : Shape} {specialZero inferred : Bool} {position : Nat}
    {pattern : List Int} {ds ds' : List Dim} (better : data ≤ data')
    (h : Reshape.entryDims data specialZero inferred position pattern = .ok ds)
    (h' : Reshape.entryDims data' specialZero inferred position pattern = .ok ds') :
    List.Forall₂ (· ≤ ·) ds ds' := by
  induction pattern generalizing inferred position ds ds' with
  | nil =>
    obtain rfl := Except.ok.inj h
    obtain rfl := Except.ok.inj h'
    exact .nil
  | cons entry rest ih =>
    simp only [Reshape.entryDims, bind_eq_ok_iff, pure_eq_ok_iff] at h h'
    obtain ⟨d, hd, ds, hds, rfl⟩ := h
    obtain ⟨d', hd', ds', hds', rfl⟩ := h'
    exact .cons (entryDim_le better hd hd') (ih hds hds')

theorem length_entryDims {data : Shape} {specialZero inferred : Bool} {position : Nat}
    {pattern : List Int} {ds : List Dim}
    (h : Reshape.entryDims data specialZero inferred position pattern = .ok ds) :
    ds.length = pattern.length := by
  induction pattern generalizing inferred position ds with
  | nil =>
    obtain rfl := Except.ok.inj h
    rfl
  | cons entry rest ih =>
    simp only [Reshape.entryDims, bind_eq_ok_iff, pure_eq_ok_iff] at h
    obtain ⟨d, _, ds, hds, rfl⟩ := h
    rw [List.length_cons, List.length_cons, ih hds]

/-- An entry that is to be inferred is dynamic at first. -/
theorem getElem?_entryDims {data : Shape} {specialZero inferred : Bool} {position i : Nat}
    {pattern : List Int} {ds : List Dim}
    (h : Reshape.entryDims data specialZero inferred position pattern = .ok ds)
    (hi : pattern[i]? = some (-1)) : ds[i]? = some .dynamic := by
  induction pattern generalizing inferred position ds i with
  | nil => cases hi
  | cons entry rest ih =>
    simp only [Reshape.entryDims, bind_eq_ok_iff, pure_eq_ok_iff] at h
    obtain ⟨d, hd, rest, hrest, rfl⟩ := h
    cases i with
    | succ i =>
      rw [List.getElem?_cons_succ] at hi ⊢
      exact ih hrest hi
    | zero =>
      obtain rfl : entry = -1 := Option.some.inj hi
      simp only [Reshape.entryDim, if_true] at hd
      split at hd
      · cases hd
      · rw [← Except.ok.inj hd]
        rfl

theorem set_le_set {ds ds' : List Dim} (h : List.Forall₂ (· ≤ ·) ds ds') (i : Nat) (d : Dim) :
    List.Forall₂ (· ≤ ·) (ds.set i d) (ds'.set i d) := by
  induction h generalizing i with
  | nil => exact .nil
  | cons first rest ih =>
    cases i with
    | zero => exact .cons d.le_refl rest
    | succ i => exact .cons first (ih i)

theorem le_set {ds ds' : List Dim} (h : List.Forall₂ (· ≤ ·) ds ds') {i : Nat}
    (hi : ds[i]? = some .dynamic) (d : Dim) : List.Forall₂ (· ≤ ·) ds (ds'.set i d) := by
  induction h generalizing i with
  | nil => cases hi
  | cons first rest ih =>
    cases i with
    | zero =>
      obtain rfl := Option.some.inj hi
      exact .cons (Dim.dynamic_le d) rest
    | succ i => exact .cons first (ih hi)

theorem infer_le {data data' : Shape} {pattern : List Int} {i : Nat} {ds ds' es es' : List Dim}
    (better : data ≤ data') (hd : List.Forall₂ (· ≤ ·) ds ds') (hi : ds[i]? = some .dynamic)
    (h : Reshape.infer data pattern ds i = .ok es)
    (h' : Reshape.infer data' pattern ds' i = .ok es') : List.Forall₂ (· ≤ ·) es es' := by
  have others : Shape.ranked (ds.eraseIdx i) ≤ .ranked (ds'.eraseIdx i) := by
    rw [List.eraseIdx_eq_take_drop_succ, List.eraseIdx_eq_take_drop_succ]
    exact List.rel_append (List.forall₂_take i hd) (List.forall₂_drop (i + 1) hd)
  simp only [Reshape.infer] at h
  split at h
  next extents known hextents hknown =>
    -- nothing was left to be known but the entry itself
    obtain rfl := Shape.eq_of_extents? hextents better
    have same : ds'.eraseIdx i = ds.eraseIdx i :=
      Shape.ranked.inj (Shape.eq_of_extents? (s := .ranked (ds.eraseIdx i)) hknown others)
    simp only [Reshape.infer, same, hextents, hknown] at h'
    split at h
    · cases h
    next inferable =>
      rw [if_neg inferable] at h'
      obtain rfl := Except.ok.inj h
      obtain rfl := Except.ok.inj h'
      exact set_le_set hd i _
  · obtain rfl := Except.ok.inj h
    simp only [Reshape.infer] at h'
    split at h'
    · split at h'
      · cases h'
      · obtain rfl := Except.ok.inj h'
        exact le_set hd hi _
    · obtain rfl := Except.ok.inj h'
      exact hd

/-- Without an entry to be inferred the dimensions are those of the entries. -/
theorem exists_of_outputShape {data shape : Shape} {pattern : List Int} {specialZero : Bool}
    (h : Reshape.outputShape data pattern specialZero = .ok shape) :
    ∃ ds es, Reshape.entryDims data specialZero false 0 pattern = .ok ds ∧ shape = .ranked es ∧
      (pattern.idxOf? (-1) = none → es = ds) ∧
      ∀ i, pattern.idxOf? (-1) = some i → Reshape.infer data pattern ds i = .ok es := by
  obtain ⟨ds, hds, h⟩ := bind_eq_ok_iff.1 h
  cases found : pattern.idxOf? (-1) with
  | none =>
    simp only [found] at h
    obtain ⟨es, hes, h⟩ := bind_eq_ok_iff.1 h
    obtain ⟨_, _, h⟩ := bind_eq_ok_iff.1 h
    exact ⟨ds, es, hds, (Except.ok.inj h).symm, fun _ => (Except.ok.inj hes).symm, by simp⟩
  | some i =>
    simp only [found] at h
    obtain ⟨es, hes, h⟩ := bind_eq_ok_iff.1 h
    obtain ⟨_, _, h⟩ := bind_eq_ok_iff.1 h
    exact ⟨ds, es, hds, (Except.ok.inj h).symm, by simp, by simpa using hes⟩

theorem outputShape_le {data data' shape shape' : Shape} {pattern : List Int} {specialZero : Bool}
    (better : data ≤ data') (h : Reshape.outputShape data pattern specialZero = .ok shape)
    (h' : Reshape.outputShape data' pattern specialZero = .ok shape') : shape ≤ shape' := by
  obtain ⟨ds, es, hds, rfl, given, inferred⟩ := exists_of_outputShape h
  obtain ⟨ds', es', hds', rfl, given', inferred'⟩ := exists_of_outputShape h'
  have le := entryDims_le better hds hds'
  rw [Shape.ranked_le_ranked_iff]
  cases found : pattern.idxOf? (-1) with
  | none => rwa [given found, given' found]
  | some i =>
    obtain ⟨hi, entry, -⟩ := List.idxOf?_eq_some_iff.1 found
    have entry : pattern[i]? = some (-1) := List.getElem?_eq_some_iff.2 ⟨hi, entry⟩
    exact infer_le better le (getElem?_entryDims hds entry) (inferred i found) (inferred' i found)

theorem length_infer {data : Shape} {pattern : List Int} {ds es : List Dim} {i : Nat}
    (h : Reshape.infer data pattern ds i = .ok es) : es.length = ds.length := by
  simp only [Reshape.infer] at h
  split at h
  · split at h
    · cases h
    · rw [← Except.ok.inj h, List.length_set]
  · rw [Except.ok.inj h]

/-- The target has one entry for every dimension. -/
theorem ofRank_le_outputShape {data shape : Shape} {pattern : List Int} {specialZero : Bool}
    (h : Reshape.outputShape data pattern specialZero = .ok shape) :
    .ofRank pattern.length ≤ shape := by
  obtain ⟨ds, es, hds, rfl, given, inferred⟩ := exists_of_outputShape h
  have length : es.length = pattern.length := by
    rw [← length_entryDims hds]
    cases found : pattern.idxOf? (-1) with
    | none => rw [given found]
    | some i => exact length_infer (inferred i found)
  refine Shape.ranked_le_ranked_iff.2 (List.forall₂_iff_get.2 ⟨by simp [length], ?_⟩)
  intro i hi _
  simpa using Dim.dynamic_le _

/-- The rank that is taken from a list before its entries are known is the right one. -/
theorem shapeOfRank_le (h : s.Le s') (coherent : s'.Coherent)
    (lists : reshape.ReadsList s') {data shape shape' : Shape} {target : Tensor}
    {pattern : List Int} {specialZero : Bool} (hshape : s.shape 1 = .ok shape)
    (known : s'.value 1 = .ok (some target)) (integers : target.integers? = some pattern)
    (h' : Reshape.outputShape data pattern specialZero = .ok shape') :
    Reshape.shapeOfRank shape ≤ shape' := by
  simp only [Reshape.shapeOfRank]
  split
  next rank hrank =>
    obtain ⟨shape₁, hshape₁, better⟩ := h.shape hshape
    obtain ⟨_, targetShape, wellFormed⟩ := coherent.of_value known
    obtain rfl := Except.ok.inj (targetShape.symm.trans hshape₁)
    have single : target.rank = 1 :=
      Option.some.inj ((Shape.rank?_ofExtents _).symm.trans (lists rfl _ targetShape))
    have extents := extents_of_rank_one wellFormed single
    obtain ⟨d, hd, fixed⟩ := Shape.exists_dim?_le hrank better
    obtain rfl := Dim.fixed_le_iff.1 fixed
    have length : pattern.length = rank := by
      rw [Tensor.shape, extents] at hd
      rw [length_integers? integers]
      exact Dim.fixed.inj (Option.some.inj hd)
    exact length ▸ ofRank_le_outputShape h'
  · exact Shape.unranked_le _

theorem specialZero_eq (h : s.Le s') : Reshape.specialZero s' = Reshape.specialZero s :=
  h.boolOr ..

theorem monotone_reshape : reshape.Monotone where
  types s s' types types' h coherent lists htypes htypes' := by
    obtain ⟨_, element, data, zero, target, helement, hdata, hzero, htarget, htypes⟩ :=
      types_reshape_eq_ok_iff.1 htypes
    obtain ⟨_, element', data', zero', target', helement', hdata', hzero', htarget', htypes'⟩ :=
      types_reshape_eq_ok_iff.1 htypes'
    rw [specialZero_eq h] at hzero'
    obtain rfl := Except.ok.inj (helement'.symm.trans (h.element helement))
    obtain rfl := Except.ok.inj (hzero'.symm.trans hzero)
    obtain ⟨_, known, better⟩ := h.shape hdata
    obtain rfl := Except.ok.inj (hdata'.symm.trans known)
    rcases htypes with ⟨pattern, shape, integers, hshape, rfl⟩ | ⟨shape, integers, hshape, rfl⟩
    · obtain ⟨t, rfl, ht⟩ := Option.bind_eq_some_iff.1 integers
      obtain rfl := Except.ok.inj (htarget'.symm.trans (h.value htarget))
      rcases htypes' with ⟨pattern', shape', integers', hshape', rfl⟩ | ⟨_, unknown, -⟩
      · obtain rfl := Option.some.inj (integers'.symm.trans integers)
        exact .cons ⟨rfl, outputShape_le better hshape hshape'⟩ .nil
      · cases unknown.symm.trans integers
    · rcases htypes' with ⟨pattern, shape', integers', hshape', rfl⟩ | ⟨shape', _, hshape', rfl⟩
      · obtain ⟨t, rfl, ht⟩ := Option.bind_eq_some_iff.1 integers'
        exact .cons ⟨rfl, shapeOfRank_le h coherent lists hshape htarget' ht hshape'⟩ .nil
      · obtain ⟨_, knownShape, betterShape⟩ := h.shape hshape
        obtain rfl := Except.ok.inj (hshape'.symm.trans knownShape)
        refine .cons ⟨rfl, ?_⟩ .nil
        simp only [Reshape.shapeOfRank]
        split
        next rank hrank =>
          obtain ⟨d, hd, fixed⟩ := Shape.exists_dim?_le hrank betterShape
          obtain rfl := Dim.fixed_le_iff.1 fixed
          rw [hd]
          exact Shape.le_refl _
        · exact Shape.unranked_le _
  fold s s' values h hfold := by
    obtain ⟨_, _, hdata, htarget, ⟨_, rfl⟩ | ⟨data, target, rfl, rfl, folded⟩⟩ :=
      fold_reshape_eq_ok_iff.1 hfold
    · exact .inl (by simp)
    · rw [← specialZero_eq h] at folded
      exact .inr (fold_reshape_eq_ok_iff.2
        ⟨_, _, h.value hdata, h.value htarget, .inr ⟨data, target, rfl, rfl, folded⟩⟩)

/-- Every operator of the library that reads anything is monotone. -/
theorem monotone_of_mem_core {operator : Operator} (h : operator ∈ core)
    (reads : operator.name ≠ "Parameter") : operator.Monotone := by
  cases family_of_mem_core h with
  | parameter => exact absurd rfl reads
  | result => exact monotone_result
  | constant => exact monotone_constant
  | binary name f => exact monotone_binary name f
  | unary name f => exact monotone_unary name f
  | reshape => exact monotone_reshape
  | shapeOf => exact monotone_shapeOf
  | concat => exact monotone_concat
  | gather => exact monotone_gather
  | convert => exact monotone_convert
  | memoryAccess kind => exact monotone_memoryAccess kind

/-- Of the outputs themselves more is known. -/
theorem Monotone.slots {operator : Operator} (monotone : operator.Monotone) (h : s.Le s')
    (coherent : s'.Coherent) (lists : operator.ReadsList s') {outputs outputs' : List Slot}
    (ok : operator.slots s = .ok outputs) (ok' : operator.slots s' = .ok outputs') :
    List.Forall₂ (· ≤ ·) outputs outputs' := by
  obtain ⟨types, values, htypes, hvalues, _, rfl⟩ := slots_eq_ok_iff.1 ok
  obtain ⟨types', values', htypes', hvalues', _, rfl⟩ := slots_eq_ok_iff.1 ok'
  obtain ⟨length, better⟩ := List.forall₂_iff_get.1
    (monotone.types s s' types types' h coherent lists htypes htypes')
  refine List.forall₂_iff_get.2 ⟨by simp [length], fun i hi hi' => ?_⟩
  simp only [List.length_mapIdx] at hi hi'
  simp only [List.get_eq_getElem, List.getElem_mapIdx] at better ⊢
  refine ⟨better i hi hi', fun t known => ?_⟩
  rcases monotone.fold s s' values h hvalues with unknown | same
  · have := unknown (some t) (List.mem_of_getElem? (Option.join_eq_some_iff.1 known))
    cases this
  · obtain rfl := Except.ok.inj (hvalues'.symm.trans same)
    exact known

end Operator

end TensorGraph
