import TensorGraph.Graph.Validate
import TensorGraph.Proofs.Graph.Linked
import TensorGraph.Proofs.Graph.Order

/-!
# Valid graphs

`Graph.Valid` says what a valid graph is without the search for the first fault.
`Graph.validate_eq_ok_iff`: that search finds no fault exactly in a valid graph.
-/

namespace TensorGraph.Graph

variable {g : Graph} {id : NodeId} {node : Node} {port : Nat} {o : Output}

/-- Every reference of the graph leads somewhere, and the edges close no cycle. -/
structure Valid (g : Graph) : Prop where
  inputs_exist : ∀ id port o, g.input? id port = some o → ∃ slot, g.slot o = .ok slot
  parameters_live : ∀ id ∈ g.parameters, g.contains id
  results_live : ∀ id ∈ g.results, g.contains id
  acyclic : g.isCyclic = false

theorem inputFault?_eq_none_iff (inputs : List Output) :
    g.inputFault? id node port inputs = none ↔ ∀ o ∈ inputs, ∃ slot, g.slot o = .ok slot := by
  induction inputs generalizing port with
  | nil => simp [inputFault?]
  | cons o rest ih =>
    rw [inputFault?, List.forall_mem_cons]
    cases hnode : g.node? o.node with
    | none =>
      refine iff_of_false (by simp) ?_
      rintro ⟨⟨slot, hslot⟩, _⟩
      obtain ⟨producer, h, _⟩ := slot_eq_ok_iff.1 hslot
      simp [hnode] at h
    | some producer =>
      have first : (∃ slot, g.slot o = .ok slot) ↔ o.slot < producer.outputs.length := by
        simp [slot_eq_ok_iff, hnode, List.getElem?_eq_some_iff]
      rw [first]
      by_cases bound : o.slot < producer.outputs.length
      · simp [bound, ih]
      · simp [bound]

theorem inputFaults_eq_none_iff :
    (g.placed.findSome? fun (id, entry) => g.inputFault? id entry.node 0 entry.node.inputs) = none ↔
      ∀ id port o, g.input? id port = some o → ∃ slot, g.slot o = .ok slot := by
  simp only [List.findSome?_eq_none_iff, inputFault?_eq_none_iff]
  exact (forall_input_iff (P := fun _ o => ∃ slot, g.slot o = .ok slot)).symm

theorem fault?_eq_none_iff : g.fault? = none ↔ g.Valid := by
  have designated : (g.parameters ++ g.results).find? (fun id => !g.contains id) = none ↔
      (∀ id ∈ g.parameters, g.contains id) ∧ ∀ id ∈ g.results, g.contains id := by
    simp only [List.find?_eq_none, List.mem_append, or_imp, forall_and, Bool.not_eq_true',
      Bool.not_eq_false]
  unfold fault?
  simp only [Option.orElse_eq_orElse, Option.orElse_eq_or, Option.or_eq_none_iff,
    Option.map_eq_none_iff, inputFaults_eq_none_iff, designated, ite_eq_right_iff, reduceCtorEq,
    imp_false, Bool.not_eq_true]
  constructor
  · rintro ⟨inputs, ⟨parameters, results⟩, acyclic⟩
    exact ⟨inputs, parameters, results, acyclic⟩
  · intro h
    exact ⟨h.inputs_exist, ⟨h.parameters_live, h.results_live⟩, h.acyclic⟩

/-- A graph is found valid exactly if it is. -/
theorem validate_eq_ok_iff : g.validate = .ok () ↔ g.Valid := by
  rw [← fault?_eq_none_iff, validate]
  cases g.fault? <;> simp

theorem Valid.mem_order (h : g.Valid) (live : g.contains id) : id ∈ g.order :=
  isCyclic_eq_false_iff_forall_mem.1 h.acyclic id live

/-- No node of a valid graph reads itself. -/
theorem Valid.input_ne (h : g.Valid) (mirrored : g.Mirrored) (hread : g.input? id port = some o) :
    o.node ≠ id := by
  rintro rfl
  obtain ⟨rank, up⟩ := isCyclic_eq_false_iff.1 h.acyclic
  have loop : (⟨o.node, o.node, port⟩ : Edge) ∈ g.edges :=
    (mirrored.mem_edges _).2 ⟨contains_of_input? hread, by rw [hread, Option.map_some]⟩
  exact Nat.lt_irrefl _ (up _ loop)

/-- What is read has an output in the slot that is read. -/
theorem Valid.slot_lt (h : g.Valid) (hread : g.input? id port = some o)
    (hnode : g.node? o.node = some node) : o.slot < node.outputs.length := by
  obtain ⟨slot, hslot⟩ := h.inputs_exist id port o hread
  obtain ⟨producer, hproducer, hout⟩ := slot_eq_ok_iff.1 hslot
  obtain rfl := Option.some.inj (hproducer.symm.trans hnode)
  exact (List.getElem?_eq_some_iff.1 hout).1

theorem Valid.inputsLive (h : g.Valid) : g.InputsLive := by
  intro id port o hread
  obtain ⟨slot, hslot⟩ := h.inputs_exist id port o hread
  obtain ⟨producer, hproducer, _⟩ := slot_eq_ok_iff.1 hslot
  exact contains_of_node? hproducer

theorem Valid.wired (h : g.Valid) (mirrored : g.Mirrored) : g.Wired where
  toMirrored := mirrored
  inputs_live := h.inputsLive

end TensorGraph.Graph
