import TensorGraph.Proofs.Calls
import TensorGraph.Proofs.Operators.Coherence

/-!
# Coherent graphs

Whatever calls build a graph, the value of an output is known only together with its type: as long
as callers declare outputs without values and hand in whole tensors, every slot is coherent after
every call (`Graph.coherent_after`).
-/

namespace TensorGraph

/-- The slots and the tensor of a node are coherent. -/
structure Node.Coherent (node : Node) : Prop where
  outputs : ∀ slot ∈ node.outputs, slot.Coherent
  constant : ∀ t, node.constant = some t → t.WellFormed

/-- Every node is coherent. -/
def Graph.Coherent (g : Graph) : Prop := ∀ id node, g.node? id = some node → node.Coherent

/-- What a caller hands in: no value of an output, and no tensor but whole ones. -/
def Call.Declaring : Call → Graph → Prop
  | addNode node, _ => (∀ slot ∈ node.outputs, slot.value = none) ∧
      ∀ t, node.constant = some t → t.WellFormed
  | makeNode node, _ => (∀ slot ∈ node.outputs, slot.value = none) ∧
      ∀ t, node.constant = some t → t.WellFormed
  | addConstant t, _ => t.WellFormed
  | editNode id f, g => ∀ node, g.node? id = some node →
      (∀ slot ∈ (f node).outputs, slot ∈ node.outputs ∨ slot.value = none) ∧
        ∀ t, (f node).constant = some t → node.constant = some t ∨ t.WellFormed
  | _, _ => True

theorem Slot.coherent_of_value_eq_none {slot : Slot} (h : slot.value = none) : slot.Coherent := by
  intro t ht
  rw [h] at ht
  cases ht

/-- The outputs that a coherent operator computes from coherent slots are coherent. -/
theorem Operator.Coherent.slots {operator : Operator} (h : operator.Coherent) {s : Site}
    (coherent : s.Coherent) {outputs : List Slot} (ok : operator.slots s = .ok outputs) :
    ∀ slot ∈ outputs, slot.Coherent := by
  obtain ⟨types, values, htypes, hvalues, _, rfl⟩ := slots_eq_ok_iff.1 ok
  intro slot hslot t ht
  obtain ⟨i, hi, rfl⟩ := List.mem_mapIdx.1 hslot
  obtain ⟨wellFormed, typed⟩ := h s values coherent hvalues i t (Option.join_eq_some_iff.1 ht)
  have type := typed types htypes
  rw [List.getElem?_eq_getElem hi] at type
  exact ⟨Option.some.inj type, wellFormed⟩

namespace Graph

variable {registry : Registry} {g : Graph} {id : NodeId} {node : Node} {slots : List Slot}

theorem Coherent.of_slot (h : g.Coherent) {o : Output} {slot : Slot} (hslot : g.slot o = .ok slot) :
    slot.Coherent := by
  obtain ⟨producer, hproducer, hout⟩ := slot_eq_ok_iff.1 hslot
  exact (h _ _ hproducer).outputs slot (List.mem_of_getElem? hout)

theorem Coherent.site (h : g.Coherent) (hnode : node.Coherent) : (g.site node).Coherent where
  slots i slot hslot := by
    simp only [Site.slot] at hslot
    split at hslot
    · next read hread =>
      obtain ⟨o, _, rfl⟩ := List.mem_map.1 (List.mem_of_getElem? hread)
      exact h.of_slot hslot
    · cases hslot
  constant := hnode.constant

theorem Coherent.inferred (h : g.Coherent) (hnode : node.Coherent)
    (ok : g.inferred .core node = .ok slots) : ∀ slot ∈ slots, slot.Coherent := by
  simp only [Graph.inferred] at ok
  split at ok
  · cases ok
  · next operator found =>
    exact (Operator.coherent_of_mem_core (Registry.mem_core_of_find? found).1).slots
      (h.site hnode) ok

/-! ### Changes -/

theorem coherent_empty (name : String) : (empty name).Coherent := by
  intro id node hnode
  simp [empty, node?, get?] at hnode

/-- A graph all of whose nodes come from a coherent graph or are coherent is coherent. -/
theorem Coherent.of_nodes {g' : Graph} (h : g.Coherent)
    (nodes : ∀ id node, g'.node? id = some node → g.node? id = some node ∨ node.Coherent) :
    g'.Coherent := fun id node hnode =>
  (nodes id node hnode).elim (h id node) fun coherent => coherent

theorem Coherent.insert (h : g.Coherent) (hnode : node.Coherent) : (g.insert node).Coherent := by
  apply h.of_nodes
  intro i node' hnode'
  rw [node?_insert] at hnode'
  split at hnode'
  · exact .inr (Option.some.inj hnode' ▸ hnode)
  · exact .inl hnode'

theorem Coherent.modifyNode (h : g.Coherent) {f : Node → Node}
    (hf : ∀ node, g.node? id = some node → node.Coherent → (f node).Coherent) :
    (g.modifyNode id f).Coherent := by
  apply h.of_nodes
  intro i node' hnode'
  rw [node?_modifyNode] at hnode'
  split at hnode'
  · next e =>
    obtain ⟨node, hnode, rfl⟩ := Option.map_eq_some_iff.1 hnode'
    exact .inr (hf node (e ▸ hnode) (h i node hnode))
  · exact .inl hnode'

theorem Coherent.markStale (h : g.Coherent) (id : NodeId) : (g.markStale id).Coherent :=
  h.of_nodes fun _ _ hnode => .inl ((node?_markStale ..).symm.trans hnode)

theorem Coherent.rewire (h : g.Coherent) (id : NodeId) (port : Nat) (source : Output) :
    (g.rewire id port source).Coherent := by
  apply h.of_nodes
  intro i node' hnode'
  rw [node?_rewire] at hnode'
  split at hnode'
  · obtain ⟨node, hnode, rfl⟩ := Option.map_eq_some_iff.1 hnode'
    exact .inr ⟨(h i node hnode).outputs, (h i node hnode).constant⟩
  · exact .inl hnode'

theorem Coherent.foldl_vacate (h : g.Coherent) (ids : List NodeId) :
    (ids.foldl vacate g).Coherent := by
  apply h.of_nodes
  intro i node hnode
  rw [node?_foldl_vacate] at hnode
  split at hnode
  · cases hnode
  · exact .inl hnode

theorem Coherent.update (h : g.Coherent) (hslots : ∀ slot ∈ slots, slot.Coherent) :
    (g.update id slots).Coherent := by
  apply h.of_nodes
  intro i node' hnode'
  rw [node?_update] at hnode'
  split at hnode'
  · obtain ⟨node, hnode, rfl⟩ := Option.map_eq_some_iff.1 hnode'
    exact .inr ⟨hslots, (h i node hnode).constant⟩
  · exact .inl hnode'

theorem Coherent.refresh (h : g.Coherent) {old : List Slot}
    (hslots : ∀ slot ∈ slots, slot.Coherent) :
    (g.refresh id slots old).Coherent := by
  have updated : (g.update id slots).Coherent := h.update hslots
  simp only [Graph.refresh]
  split
  · exact updated
  · exact updated.of_nodes fun i node hnode => .inl (by rwa [node?_markReaders] at hnode)

theorem Coherent.replaced (h : g.Coherent) (old new : NodeId) (name : String)
    (changes : List ((NodeId × Nat) × Output)) :
    (GraphM.replaced g old new name changes).Coherent := by
  have rewired : (GraphM.rewireAll g changes).Coherent := by
    induction changes generalizing g with
    | nil => exact h
    | cons change rest ih => exact ih (h.rewire _ _ _)
  have redesignated : (GraphM.redesignate (GraphM.rewireAll g changes) old new).Coherent := rewired
  exact (redesignated.markStale new).modifyNode fun _ _ coherent =>
    ⟨coherent.outputs, coherent.constant⟩

theorem Coherent.foldl_markStale (h : g.Coherent) (ids : List NodeId) :
    (ids.foldl Graph.markStale g).Coherent := by
  induction ids generalizing g with
  | nil => exact h
  | cons id rest ih => exact ih (h.markStale id)

theorem coherent_ofType (type : SlotType) : (Slot.ofType type).Coherent :=
  Slot.coherent_of_value_eq_none rfl

/-- A call that declares and hands in nothing else keeps a graph coherent. -/
theorem Coherent.leave (h : g.Coherent) {call : Call} (declaring : call.Declaring g) :
    (call.leave .core g).Coherent := by
  have left : call.Leaves .core g (call.leave .core g) := call.leaves .core g
  generalize call.leave .core g = g' at left ⊢
  cases left with
  | refused => exact h
  | addNode node =>
    exact h.insert ⟨fun slot hslot => Slot.coherent_of_value_eq_none (declaring.1 slot hslot),
      declaring.2⟩
  | addParameter name type =>
    have inserted : (g.insert { op := "Parameter", name, outputs := [.ofType type] }).Coherent :=
      h.insert ⟨by simpa using coherent_ofType type, by simp⟩
    exact inserted
  | addConstant t =>
    apply h.insert
    constructor
    · intro slot hslot t' ht
      obtain rfl := List.mem_singleton.1 hslot
      obtain rfl := Option.some.inj ht
      exact ⟨rfl, declaring⟩
    · intro t' ht
      exact Option.some.inj ht ▸ declaring
  | @addResult source slot =>
    have inserted : (g.insert (GraphM.resultNode source slot)).Coherent :=
      h.insert ⟨by simpa [GraphM.resultNode] using coherent_ofType _, by simp [GraphM.resultNode]⟩
    exact inserted
  | notInferred node =>
    exact h.insert ⟨fun slot hslot => Slot.coherent_of_value_eq_none (declaring.1 slot hslot),
      declaring.2⟩
  | @makeNode node slots hslots =>
    have coherent : node.Coherent :=
      ⟨fun slot hslot => Slot.coherent_of_value_eq_none (declaring.1 slot hslot), declaring.2⟩
    have inserted := h.insert coherent
    exact inserted.update (inserted.inferred coherent hslots)
  | inferNode hnode hslots => exact h.update (h.inferred (h _ _ hnode) hslots)
  | setInput => exact h.rewire _ _ _
  | replaceNode => exact h.replaced _ _ _ _
  | notDeclared o type => exact h.markStale o.node
  | @setOutputType o type =>
    apply (h.markStale o.node).modifyNode
    intro node _ coherent
    refine ⟨?_, coherent.constant⟩
    intro slot hslot
    rcases List.mem_or_eq_of_mem_set hslot with hslot | rfl
    · exact coherent.outputs slot hslot
    · exact coherent_ofType type
  | @editNode id f =>
    apply (h.markStale id).modifyNode
    intro node hnode coherent
    rw [node?_markStale] at hnode
    obtain ⟨outputs, constant⟩ := declaring node hnode
    constructor
    · intro slot hslot
      exact (outputs slot hslot).elim (coherent.outputs slot) Slot.coherent_of_value_eq_none
    · intro t ht
      exact (constant t ht).elim (coherent.constant t) fun wellFormed => wellFormed
  | markStale id => exact h.markStale id
  | removeNode id => exact (h.foldl_markStale _).foldl_vacate [id]
  | removeUnreachable => exact h.foldl_vacate g.dead
  | inferStale =>
    apply GraphM.inferInTurn_keeps h
    intro turn _ g₁ turned h
    cases turned with
    | skipped => exact h
    | computed _ hnode hslots => exact h.refresh (h.inferred (h _ _ hnode) hslots)

/-- Types and values never drift apart: after every call of a run whose calls declare and hand in
whole tensors only every slot is coherent, and so is whatever an operator of the library computes
from coherent slots. -/
theorem coherent_after :
    (∀ (name : String) (calls : List Call), AllAlong .core Call.Declaring (empty name) calls →
      ∀ k, ((empty name).after .core (calls.take k)).Coherent) ∧
    ∀ operator ∈ Operator.core, operator.Coherent := by
  refine ⟨?_, fun operator h => Operator.coherent_of_mem_core h⟩
  intro name calls declaring k
  rw [← List.take_append_drop k calls] at declaring
  exact after_keeps (allAlong_append.1 declaring).1 (fun _ _ declaring h => h.leave declaring)
    (coherent_empty name)

/-- A sum whose value is known as soon as it is made. -/
def sumOfConstants : List Call :=
  [.addConstant (.ofInts [2]), .addConstant (.ofInts [3]),
    .makeNode { op := "Add", inputs := [⟨0, 0⟩, ⟨1, 0⟩] }]

theorem coherent_after_sumOfConstants :
    AllAlong .core Call.Declaring (empty "f") sumOfConstants ∧
      (∀ k, ((empty "f").after .core (sumOfConstants.take k)).Coherent) ∧
      (((empty "f").after .core sumOfConstants).slot ⟨2, 0⟩).toOption.bind Slot.value =
        some (.ofInts [5]) := by
  have declaring : AllAlong .core Call.Declaring (empty "f") sumOfConstants :=
    ⟨Tensor.wellFormed_ofData _, Tensor.wellFormed_ofData _, ⟨by simp, by simp⟩, trivial⟩
  exact ⟨declaring, coherent_after.1 "f" sumOfConstants declaring, by decide +kernel⟩

end Graph

end TensorGraph
