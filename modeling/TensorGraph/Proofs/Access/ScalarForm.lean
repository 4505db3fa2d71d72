import TensorGraph.Access.Lowering
import TensorGraph.Proofs.Graph.Relabelling
import TensorGraph.Proofs.Inference.Turns
import TensorGraph.Proofs.Operators.Success

/-!
# The scalar form of an access

`MemoryAccess.scalarOp?` says which nodes have a scalar form other than themselves, and
`MemoryAccess.lowered` what it is. An access passes on the type of what it reads whatever its width,
so that the outputs computed for it and for its scalar form are the same
(`MemoryAccess.inferred_scalarForm`).
-/

namespace TensorGraph

namespace MemoryAccess

variable {g : Graph} {id : NodeId} {node : Node} {op : String} {kind : Kind} {slots : List Slot}

/-- Does the node move more than one element at once? -/
def isWide (node : Node) : Bool := (node.attributes.int? widthKey).any (1 < ·)

/-- The operator type of the scalar form of a node that is to be lowered. -/
def scalarOp? (node : Node) : Option String :=
  if isWide node then
    if node.op = load then some scalarLoad
    else if node.op = store then some scalarStore
    else none
  else none

/-- The node in scalar form, with its outputs. -/
def lowered (node : Node) : Node :=
  match scalarOp? node with
  | none => node
  | some op => { scalarForm op node with outputs := node.outputs }

theorem lowered_of_scalarOp?_eq_none (h : scalarOp? node = none) : lowered node = node := by
  rw [lowered, h]

theorem lowered_of_scalarOp?_eq_some (h : scalarOp? node = some op) :
    lowered node = { scalarForm op node with outputs := node.outputs } := by
  rw [lowered, h]

theorem scalarOp?_relabel (φ : NodeId → NodeId) (node : Node) :
    scalarOp? (node.relabel φ) = scalarOp? node := rfl

theorem scalarOp?_eq_some_iff : scalarOp? node = some op ↔
    isWide node ∧ (node.op = load ∧ op = scalarLoad ∨ node.op = store ∧ op = scalarStore) := by
  have apart : load ≠ store := by decide
  simp only [scalarOp?]
  by_cases wide : isWide node
  · by_cases loads : node.op = load
    · simp [wide, loads, apart, eq_comm]
    · by_cases stores : node.op = store <;> simp [wide, loads, stores, apart.symm, eq_comm]
  · simp [wide]

theorem scalarOp?_eq_none_iff :
    scalarOp? node = none ↔ ¬(node.op = load ∧ isWide node) ∧ ¬(node.op = store ∧ isWide node) := by
  rw [Option.eq_none_iff_forall_ne_some]
  simp only [ne_eq, scalarOp?_eq_some_iff]
  constructor
  · intro none
    constructor
    · rintro ⟨loads, wide⟩
      exact none scalarLoad ⟨wide, .inl ⟨loads, rfl⟩⟩
    · rintro ⟨stores, wide⟩
      exact none scalarStore ⟨wide, .inr ⟨stores, rfl⟩⟩
  · rintro ⟨notLoad, notStore⟩ op ⟨wide, ⟨e, _⟩ | ⟨e, _⟩⟩
    · exact notLoad ⟨e, wide⟩
    · exact notStore ⟨e, wide⟩

/-- An access is to be lowered if it moves more than one element at once. -/
theorem isSome_scalarOp? (access : isAccess node) (wide : isWide node) :
    (scalarOp? node).isSome := by
  have e : node.op = load ∨ node.op = store := by simpa [isAccess] using access
  rcases e with e | e
  · exact Option.isSome_of_eq_some (scalarOp?_eq_some_iff.2 ⟨wide, .inl ⟨e, rfl⟩⟩)
  · exact Option.isSome_of_eq_some (scalarOp?_eq_some_iff.2 ⟨wide, .inr ⟨e, rfl⟩⟩)

/-- The scalar form is not lowered again. -/
theorem scalarOp?_lowered (node : Node) : scalarOp? (lowered node) = none := by
  cases h : scalarOp? node with
  | none => rwa [lowered_of_scalarOp?_eq_none h]
  | some op =>
    have narrow : isWide (lowered node) = false := by
      simp [lowered_of_scalarOp?_eq_some h, isWide, scalarForm, AttributeMap.int?,
        AttributeMap.find?_insert]
    rw [scalarOp?, narrow]
    rfl

/-- Lowering does not concern what a node reads and produces. -/
theorem internal_lowered : Node.Internal fun _ node => lowered node where
  inputs _ node := by
    simp only [lowered]
    split <;> rfl
  outputs _ node := by
    simp only [lowered]
    split <;> rfl
  relabel φ _ node := by
    simp only [lowered]
    rw [scalarOp?_relabel]
    split <;> rfl

/-! ### Patterns -/

theorem isVector_eq (h : g.node? id = some node) : isVector g id = isWide node := by
  rw [isVector, h]
  rfl

theorem match?_vectorPattern (h : g.node? id = some node) :
    (vectorPattern op).match? g id =
      if node.op = op ∧ isWide node then some ⟨id, []⟩ else none := by
  have accepts : (vectorPattern op).head.accepts g id node =
      decide (node.op = op ∧ isWide node) := by
    simp [vectorPattern, Pattern.satisfying, Pattern.op, Pattern.withHead, Pattern.head,
      Pattern.Head.accepts, isVector_eq h]
  have laid : (vectorPattern op).bind g id [] =
      if (vectorPattern op).head.accepts g id node then some [] else none := by
    rw [vectorPattern, Pattern.satisfying, Pattern.op, Pattern.withHead, Pattern.bind, h]
    rfl
  rw [Pattern.match?, laid, accepts]
  by_cases fits : node.op = op ∧ isWide node <;> simp [fits]

/-- No rule fits a node that is not to be lowered. -/
theorem match?_eq_none (h : g.node? id = some node) (kept : scalarOp? node = none) :
    ∀ rule ∈ RuleGroup.lowerAccesses.rules, rule.pattern.match? g id = none := by
  obtain ⟨notLoad, notStore⟩ := scalarOp?_eq_none_iff.1 kept
  intro rule hrule
  rcases List.mem_cons.1 hrule with rfl | hrule
  · exact (match?_vectorPattern h).trans (if_neg notLoad)
  · obtain rfl := List.mem_singleton.1 hrule
    exact (match?_vectorPattern h).trans (if_neg notStore)

/-! ### Outputs -/

variable {s : Site} {types : List SlotType}

theorem slot_site {o : Output} (h : node.inputs = [o]) : (g.site node).slot 0 = g.slot o := by
  rw [Graph.site, h]
  rfl

/-- A node with one input may pass on the type of what it reads. -/
theorem passType_eq_ok_iff : Operator.passType (g.site node) = .ok types ↔
    ∃ o slot, node.inputs = [o] ∧ g.slot o = .ok slot ∧ types = [slot.toSlotType] := by
  rw [Operator.passType_eq_ok_iff]
  simp only [Site.element, Site.shape, bind_eq_ok_iff, pure_eq_ok_iff]
  constructor
  · rintro ⟨one, _, _, ⟨slot, hslot, rfl⟩, ⟨slot', hslot', rfl⟩, rfl⟩
    obtain rfl := Except.ok.inj (hslot.symm.trans hslot')
    obtain ⟨o, inputs⟩ := List.length_eq_one_iff.1 one
    exact ⟨o, slot, inputs, slot_site inputs ▸ hslot, rfl⟩
  · rintro ⟨o, slot, inputs, hslot, rfl⟩
    have read : (g.site node).slot 0 = .ok slot := (slot_site inputs).trans hslot
    refine ⟨?_, _, _, ⟨slot, read, rfl⟩, ⟨slot, read, rfl⟩, rfl⟩
    simp [Site.inputCount, Graph.site, inputs]

/-- The widths that an access of the kind may have. -/
def Kind.Allows (kind : Kind) (width : Int) : Prop := ¬width < 1 ∧ ¬(kind.scalar ∧ width ≠ 1)

/-- An access passes on the type of its one input, if its width is allowed. -/
theorem types_memoryAccess : (Operator.memoryAccess kind).types s = .ok types ↔
    (∃ width, s.intOr widthKey 1 = .ok width ∧ kind.Allows width) ∧
      Operator.passType s = .ok types :=
  Operator.types_memoryAccess_eq_ok_iff

theorem slots_memoryAccess : (Operator.memoryAccess kind).slots s = .ok slots ↔
    (∃ width, s.intOr widthKey 1 = .ok width ∧ kind.Allows width) ∧
      ∃ types, Operator.passType s = .ok types ∧ slots = types.map .ofType := by
  have fold : (Operator.memoryAccess kind).fold s = .ok [] := rfl
  have unknown (types : List SlotType) :
      types.mapIdx (fun i type =>
        ({ toSlotType := type, value := ([] : List (Option Tensor))[i]?.join } : Slot)) =
          types.map Slot.ofType := by
    apply List.ext_getElem?
    intro i
    rw [List.getElem?_mapIdx, List.getElem?_map]
    rfl
  rw [Operator.slots_eq_ok_iff]
  simp only [types_memoryAccess, fold, Except.ok.injEq]
  constructor
  · rintro ⟨types, _, ⟨allowed, pass⟩, rfl, _, rfl⟩
    exact ⟨allowed, types, pass, unknown types⟩
  · rintro ⟨allowed, types, pass, rfl⟩
    exact ⟨types, [], ⟨allowed, pass⟩, rfl, .inl rfl, (unknown types).symm⟩

/-- The core operators know every kind of access under its operator type. -/
theorem find?_core (h : kind ∈ kinds) :
    Registry.core.find? kind.op = some (Operator.memoryAccess kind) := by
  simp only [kinds, List.mem_cons, List.not_mem_nil, or_false] at h
  rcases h with rfl | rfl | rfl | rfl <;> rfl

/-- The outputs that are computed for an access. -/
theorem inferred_eq_ok_iff (h : kind ∈ kinds) (op : node.op = kind.op) :
    g.inferred .core node = .ok slots ↔
      (∃ width, (g.site node).intOr widthKey 1 = .ok width ∧ kind.Allows width) ∧
        ∃ o slot, node.inputs = [o] ∧ g.slot o = .ok slot ∧ slots = [.ofType slot.toSlotType] := by
  have known : g.inferred .core node = (Operator.memoryAccess kind).slots (g.site node) := by
    rw [Graph.inferred, op, find?_core h]
  rw [known, slots_memoryAccess]
  apply and_congr_right
  intro _
  simp only [passType_eq_ok_iff]
  constructor
  · rintro ⟨_, ⟨o, slot, inputs, hslot, rfl⟩, rfl⟩
    exact ⟨o, slot, inputs, hslot, rfl⟩
  · rintro ⟨o, slot, inputs, hslot, rfl⟩
    exact ⟨_, ⟨o, slot, inputs, hslot, rfl⟩, rfl⟩

/-- A node that is to be lowered and its scalar form are accesses. -/
theorem exists_kinds (h : scalarOp? node = some op) :
    (∃ kind ∈ kinds, node.op = kind.op) ∧ ⟨op, true⟩ ∈ kinds := by
  obtain ⟨_, ⟨e, rfl⟩ | ⟨e, rfl⟩⟩ := scalarOp?_eq_some_iff.1 h
  · exact ⟨⟨⟨load, false⟩, by simp [kinds], e⟩, by simp [kinds]⟩
  · exact ⟨⟨⟨store, false⟩, by simp [kinds], e⟩, by simp [kinds]⟩

/-- What is computed for a node that is to be lowered is computed for its scalar form. -/
theorem inferred_scalarForm (h : scalarOp? node = some op)
    (inferred : g.inferred .core node = .ok slots) :
    g.inferred .core (scalarForm op node) = .ok slots := by
  obtain ⟨⟨kind, hkind, e⟩, scalar⟩ := exists_kinds h
  obtain ⟨_, reads⟩ := (inferred_eq_ok_iff hkind e).1 inferred
  have width : (g.site (scalarForm op node)).intOr widthKey 1 = .ok 1 := by
    simp [Site.intOr, Site.attribute?, Graph.site, scalarForm, AttributeMap.find?_insert]
  exact (inferred_eq_ok_iff scalar rfl).2 ⟨⟨1, width, by decide, by simp⟩, reads⟩

end MemoryAccess

end TensorGraph
