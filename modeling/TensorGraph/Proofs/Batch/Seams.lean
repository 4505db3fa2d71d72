import TensorGraph.Proofs.Batch.CurrentShapes
import TensorGraph.Proofs.Inference.Seams

/-!
# Seams that relaxing leaves

The nodes in front of a relaxed target are made while their constants are stale, and what the first
of them reads may have become stale through an earlier relaxation. The node that reads the data sees
their type only, the constants are numbers other than zero or integers, and so is the old target:
inference misses nothing there (`Relaxation.Relaxations.seamed`).
-/

namespace TensorGraph

namespace Graph

variable {g : Graph} {id : NodeId} {o : Output} {slot : Slot} {t : Tensor}

/-- The output of a constant that is in step is its payload. -/
theorem InStep.value_of_constant (h : g.InStep .core id)
    (planted : (g.node? id).map Node.bare = some (GraphM.constantNode t).bare)
    (source : o.node = id) (hslot : g.slot o = .ok slot) : slot.value = some t := by
  obtain ⟨node, hnode, inferred⟩ := h
  rw [hnode, Option.map_some, Option.some.injEq] at planted
  have op : node.op = "Constant" := (congrArg Node.op planted : node.bare.op = _)
  have inputs : node.inputs = [] := (congrArg Node.inputs planted : node.bare.inputs = _)
  have constant : node.constant = some t :=
    (congrArg Node.constant planted : node.bare.constant = _)
  have found : Registry.core.find? node.op = some Operator.constant := by
    rw [op]
    rfl
  simp only [Graph.inferred, found, site, inputs, List.map_nil] at inferred
  obtain ⟨output, outputs, value⟩ :=
    Operator.exists_output inferred (Operator.fold_constant constant)
  obtain ⟨node', hnode', hout⟩ := slot_eq_ok_iff.1 hslot
  rw [source, hnode, Option.some.injEq] at hnode'
  rw [← hnode', outputs] at hout
  obtain rfl := List.mem_singleton.1 (List.mem_of_getElem? hout)
  exact value

end Graph

namespace Relaxation

variable {c : Candidate} {cs : List Candidate} {stem : String} {chain : Chain} {g g' : Graph}
  {planned : NodeId × Node} {o : Output}

/-- The constants of a plan. -/
theorem Candidate.constants_of_plan : ∀ planned ∈ c.plan stem chain, planned.2.op = "Constant" →
    ∃ t ∈ [.ofInts [0], oneNumber c.outBatch, oneNumber c.inBatch, c.indices],
      planned.2 = (GraphM.constantNode t).bare := by
  simp [Candidate.plan, GraphM.constantNode, Node.bare]

/-- They can be told from their plain forms. -/
theorem Candidate.Fits.exists_firm_of_mem_plan (fits : c.Fits g)
    (hplanned : planned ∈ c.plan stem chain) (constant : planned.2.op = "Constant") :
    ∃ t : Tensor, planned.2 = (GraphM.constantNode t).bare ∧ t.Firm := by
  have integers (xs : List Int) : (Tensor.ofInts xs).Firm := Tensor.firm_of_integers? rfl
  have number {x : Int} (h : x ≠ 0) : (oneNumber x).Firm :=
    Tensor.firm_of_not_isZero (Binary.isZero_ofInt h)
  have inBatch : (c.inBatch : Int) ≠ 0 := Int.natCast_ne_zero.2 fits.inBatch_pos.ne'
  obtain ⟨t, ht, e⟩ := c.constants_of_plan planned hplanned constant
  refine ⟨t, e, ?_⟩
  simp only [List.mem_cons, List.not_mem_nil, or_false] at ht
  rcases ht with rfl | rfl | rfl | rfl
  · exact integers _
  · exact number fits.outBatch_pos.ne'
  · exact number inBatch
  · exact integers _

/-- Besides nodes of the plan its nodes read the data, of which they see the type only, and the old
target. -/
theorem Candidate.reads_of_plan : ∀ planned ∈ c.plan stem chain, ∀ o ∈ planned.2.inputs,
    o.node ∈ (c.plan stem chain).map Prod.fst ∨ o = c.data ∧ planned.2.op = "ShapeOf" ∨
      o = c.target := by
  simp [Candidate.plan, GraphM.constantNode, Node.bare, output]

/-- Relaxing a candidate leaves no seams at which inference could miss anything. -/
theorem Relaxed.seamed (step : Relaxed c stem chain g g') (seamed : g.Seamed) (wired : g.Wired)
    (fits : c.Fits g) : g'.Seamed := by
  have inputsLive := wired.inputs_live
  have kept {i : NodeId} {node : Node} (live : g.contains i) (hnode : g'.node? i = some node)
      (fresh : g'.isStale i = false) : g.node? i = some node ∧ g.isStale i = false := by
    refine ⟨?_, Graph.isStale_eq_false_of_imp (step.isStale_old i live) fresh⟩
    rw [← step.node?_old i live, hnode]
    rintro rfl
    simp [step.isStale_reshape] at fresh
  refine ⟨seamed.settled.of_spared fun i => ?_, ?_⟩
  · cases live : g.contains i with
    | true =>
      left
      intro node hnode fresh
      obtain ⟨hold, freshBefore⟩ := kept live hnode fresh
      refine ⟨hold, freshBefore, fun o ho _ slot hslot => ?_⟩
      obtain ⟨port, hread⟩ := Graph.exists_port_of_mem hold ho
      rwa [step.slot_old o (inputsLive i port o hread)] at hslot
    | false =>
      right
      intro node hnode _
      have new := ((step.contains i).1 (Graph.contains_of_node? hnode)).resolve_left (by simp [live])
      obtain ⟨planned, hplanned, rfl⟩ := List.mem_map.1 new
      obtain ⟨node', hnode', inferred⟩ := step.inStep planned hplanned
      obtain rfl := Option.some.inj (hnode'.symm.trans hnode)
      exact inferred
  · intro reader port o node slot hnode fresh hread stale hslot
    have edge : reader ∈ g'.successors o.node := (step.wired wired).toMirrored.mem_successors.2
      ⟨Graph.contains_of_isStale stale, port, o, hread, rfl⟩
    rcases step.spread o.node reader stale edge with
      alerted | ⟨live, staleBefore⟩ | ⟨bare, planted, constant⟩
    · simp [alerted] at fresh
    · rw [step.slot_old o live] at hslot
      rcases (step.contains reader).1 (Graph.contains_of_node? hnode) with old | new
      · obtain ⟨hold, freshBefore⟩ := kept old hnode fresh
        refine seamed.bears reader port o node slot hold freshBefore ?_ staleBefore hslot
        rwa [Graph.input?_eq hnode, ← Graph.input?_eq hold] at hread
      · obtain ⟨planned, hplanned, rfl⟩ := List.mem_map.1 new
        have bare := step.planted planned hplanned
        rw [hnode, Option.map_some, Option.some.injEq] at bare
        have op : node.op = planned.2.op := (congrArg Node.op bare : node.bare.op = _)
        have inputs : node.inputs = planned.2.inputs :=
          (congrArg Node.inputs bare : node.bare.inputs = _)
        rw [Graph.input?_eq hnode, inputs] at hread
        rcases c.reads_of_plan planned hplanned o (List.mem_of_getElem? hread) with
          inside | ⟨-, shapeOf⟩ | rfl
        · simp [step.apart o.node inside] at live
        · exact .inl (op.trans shapeOf)
        · obtain ⟨slot', t, rest, hslot', value, integers, -⟩ := fits.target
          obtain rfl := Except.ok.inj (hslot.symm.trans hslot')
          exact .inr (Slot.Shows.firm (.of_value value) (Tensor.firm_of_integers? integers))
    · obtain ⟨t, rfl, firm⟩ := fits.exists_firm_of_mem_plan planted constant
      have value := (step.inStep _ planted).value_of_constant (step.planted _ planted) rfl hslot
      exact .inr (Slot.Shows.firm (.of_value value) firm)

/-- Neither does relaxing several of them. -/
theorem Relaxations.seamed (h : Relaxations cs g g') (seamed : g.Seamed) (wired : g.Wired)
    (nodup : (cs.map Candidate.reshape).Nodup) (fits : ∀ c ∈ cs, c.Fits g) : g'.Seamed := by
  induction h with
  | nil => exact seamed
  | @cons c cs stem chain g g₁ g' inputsLive reads step rest ih =>
    obtain ⟨here, later⟩ := List.forall_mem_cons.1 fits
    obtain ⟨fresh, nodup⟩ := List.nodup_cons.1 nodup
    refine ih (step.seamed seamed wired here) (step.wired wired) nodup fun c' hc' => ?_
    exact (later c' hc').relaxed inputsLive step fun e => fresh (e ▸ List.mem_map_of_mem hc')

end Relaxation

end TensorGraph
