import TensorGraph.Batch.Resize
import TensorGraph.Proofs.Batch.Seams
import TensorGraph.Proofs.Inference.Monotone

/-!
# The graph after a change of the batch size

`Graph.Rebatched` says what a change of the batch size makes of a graph: the parameters have the new
batch, nothing else that is declared has changed, and every node is in step. It is what a change
that succeeds leaves if inference of all nodes has just succeeded and every input reads a node
(`Graph.rebatched_of_setBatchSize`). An input that reads no node may come to read one that relaxing
puts in its place; no edge leads there, so that it is not noticed when that node changes
(`Graph.not_forall_rebatched`).
-/

namespace TensorGraph

/-- The slot with the batch as its first extent, if it is known to have a dimension. -/
def Slot.rebatched (batch : Nat) (slot : Slot) : Slot :=
  if slot.shape.rank?.any (0 < ·) then
    .ofType ⟨slot.element, slot.shape.withDim 0 (.fixed batch)⟩
  else slot

/-- The node with the batch in its first output. -/
def Node.rebatched (batch : Nat) (node : Node) : Node :=
  { node with outputs := node.outputs.modify 0 (Slot.rebatched batch) }

/-- What counts is the last batch. -/
@[simp] theorem Slot.rebatched_rebatched (batch batch' : Nat) (slot : Slot) :
    (slot.rebatched batch).rebatched batch' = slot.rebatched batch' := by
  obtain ⟨⟨element, shape⟩, value⟩ := slot
  cases shape with
  | unranked => simp [rebatched, Shape.rank?, Shape.dims?]
  | ranked dims =>
    cases dims with
    | nil => simp [rebatched, Shape.rank?, Shape.dims?]
    | cons dim dims => simp [rebatched, Shape.rank?, Shape.dims?, Shape.withDim, Slot.ofType]

@[simp] theorem Node.rebatched_rebatched (batch batch' : Nat) (node : Node) :
    (node.rebatched batch).rebatched batch' = node.rebatched batch' := by
  rw [rebatched, rebatched, rebatched]
  congr 1
  cases node.outputs with
  | nil => rfl
  | cons slot slots => simp

namespace Graph

variable {registry : Registry} {batch : Nat} {g g' : Graph} {id i : NodeId} {ids : List NodeId}

/-! ### Parameters -/

/-- The given nodes have got the batch, and a graph without seams has none afterwards. -/
structure Resized (registry : Registry) (batch : Nat) (ids : List NodeId) (g g' : Graph) : Prop where
  same : g.SameSkeleton g'
  node?_eq : ∀ i, g'.node? i =
    if i ∈ ids then (g.node? i).map (Node.rebatched batch) else g.node? i
  settled : g.Mirrored → g.Alert → g.Settled registry → g'.Alert ∧ g'.Settled registry

theorem resized_of_resizeParameter (registry : Registry)
    (run : (GraphM.resizeParameter batch id).runOn g = (.ok (), g')) :
    Resized registry batch [id] g g' := by
  simp only [GraphM.resizeParameter, GraphM.runOn_bind_eq_ok_iff, GraphM.runOn_ask_eq_ok_iff] at run
  obtain ⟨slot, _, ⟨hslot, rfl⟩, run⟩ := run
  obtain ⟨node, hnode, hout⟩ := slot_eq_ok_iff.1 hslot
  obtain ⟨slots, outputs⟩ : ∃ slots, node.outputs = slot :: slots := by
    cases outputs : node.outputs with
    | nil => simp [outputs] at hout
    | cons first slots => exact ⟨slots, by simpa [outputs] using hout⟩
  split at run
  · next ranked =>
    have declared : ((GraphM.setOutputType ⟨id, 0⟩
        ⟨slot.element, slot.shape.withDim 0 (.fixed batch)⟩).runOn g).2 = g' := congrArg Prod.snd run
    refine ⟨declared ▸ sameSkeleton_setOutputType .., fun i => ?_, fun mirrored alert settled =>
      declared ▸ alert.setOutputType mirrored settled _ _⟩
    rw [GraphM.runOn_setOutputType, hnode] at declared
    simp only [outputs, List.length_cons, Nat.zero_lt_succ, if_true] at declared
    rw [← declared, node?_modifyNode, node?_markStale]
    by_cases e : i = id
    · subst e
      simp [hnode, Node.rebatched, outputs, GraphM.declare, Slot.rebatched, ranked]
    · simp [e]
  · next unranked =>
    obtain ⟨-, rfl⟩ := GraphM.runOn_pure_eq_ok_iff.1 run
    refine ⟨.refl g, fun i => ?_, fun _ alert settled => ⟨alert, settled⟩⟩
    by_cases e : i = id
    · subst e
      have kept : node.rebatched batch = node := by
        have same : slot.rebatched batch = slot := if_neg unranked
        rw [Node.rebatched, outputs, List.modify_zero_cons, same, ← outputs]
      simp [hnode, kept]
    · simp [e]

theorem resized_of_forM (registry : Registry)
    (run : (ids.forM (GraphM.resizeParameter batch)).runOn g = (.ok (), g')) :
    Resized registry batch ids g g' := by
  induction ids generalizing g with
  | nil =>
    obtain ⟨-, rfl⟩ := GraphM.runOn_pure_eq_ok_iff.1 run
    exact ⟨.refl g, by simp, fun _ alert settled => ⟨alert, settled⟩⟩
  | cons id ids ih =>
    obtain ⟨_, g₁, first, later⟩ := GraphM.runOn_bind_eq_ok_iff.1 run
    have here := resized_of_resizeParameter registry first
    have rest := ih later
    refine ⟨here.same.trans rest.same, fun i => ?_, fun mirrored alert settled => ?_⟩
    · rw [rest.node?_eq, here.node?_eq]
      by_cases e : i = id
      · subst e
        by_cases more : i ∈ ids <;> simp [more, Function.comp_def]
      · simp [e]
    · obtain ⟨alert, settled⟩ := here.settled mirrored alert settled
      exact rest.settled (mirrored.of_sameLinks here.same.sameLinks) alert settled

/-! ### Declarations -/

end Graph

/-- The node is a parameter that has no values, as inference leaves it. -/
def Node.Declares (node : Node) : Prop :=
  node.op = "Parameter" ∧ ∀ slot ∈ node.outputs, slot.value = none

theorem Node.Declares.rebatched {node : Node} (h : node.Declares) (batch : Nat) :
    (node.rebatched batch).Declares := by
  refine ⟨h.1, fun slot hslot => ?_⟩
  have values := h.2
  simp only [Node.rebatched] at hslot
  cases outputs : node.outputs with
  | nil => simp [outputs] at hslot
  | cons first rest =>
    rw [outputs] at hslot values
    obtain ⟨here, later⟩ := List.forall_mem_cons.1 values
    rw [List.modify_zero_cons] at hslot
    rcases List.mem_cons.1 hslot with rfl | hslot
    · rw [Slot.rebatched]
      split
      · rfl
      · exact here
    · exact later slot hslot

namespace Graph

variable {batch : Nat} {g g' g'' : Graph} {id : NodeId} {node : Node} {cs : List Relaxation.Candidate}
  {changed : Bool}

/-- A parameter in step has no values. -/
theorem InStep.declares (h : g.InStep .core id) (hnode : g.node? id = some node)
    (op : node.op = "Parameter") : node.Declares := by
  obtain ⟨node', hnode', inferred⟩ := h
  obtain rfl := Option.some.inj (hnode.symm.trans hnode')
  refine ⟨op, ?_⟩
  rw [outputs_parameter op inferred]
  simp [Slot.ofType]

/-- A parameter in step reads nothing. -/
theorem InStep.inputs_parameter (h : g.InStep .core id) (hnode : g.node? id = some node)
    (op : node.op = "Parameter") : node.inputs = [] := by
  obtain ⟨node', hnode', inferred⟩ := h
  obtain rfl := Option.some.inj (hnode.symm.trans hnode')
  have found : Registry.core.find? node.op = some Operator.parameter := by
    rw [op]
    rfl
  simp only [Graph.inferred, found, site, Operator.slots_parameter] at inferred
  by_contra inputs
  simp [inputs] at inferred

/-- Inference leaves a parameter alone that has no values. -/
theorem node?_inferStale_of_declares (hnode : g.node? id = some node) (declares : node.Declares) :
    ((GraphM.inferStale .core).runOn g).2.node? id = some node := by
  rw [GraphM.runOn_inferStale]
  refine GraphM.inferInTurn_keeps (P := (·.node? id = some node)) hnode ?_
  rintro turn _ g₁ turned hnode
  cases turned with
  | skipped => exact hnode
  | @computed computed slots _ hcomputed hslots =>
    rw [node?_refresh]
    split
    · next here =>
      obtain rfl := Option.some.inj (hnode.symm.trans (here ▸ hcomputed))
      have same : slots = node.outputs := by
        rw [outputs_parameter declares.1 hslots]
        refine (List.map_congr_left fun slot hslot => ?_).trans (List.map_id _)
        rw [Slot.ofType, ← declares.2 slot hslot]
        rfl
      rw [hnode, same, Option.map_some]
    · exact hnode

/-- What the graph declares stays: its designated nodes and its parameters. -/
structure Keeps (g g' : Graph) : Prop where
  parameters : g'.parameters = g.parameters
  results : g'.results = g.results
  designated : ∀ id ∈ g.parameters, ∀ node, g.node? id = some node → node.op = "Parameter" →
    ∃ node', g'.node? id = some node' ∧ node'.op = "Parameter"
  declared : ∀ id node', g'.node? id = some node' → node'.op = "Parameter" →
    ∃ node, g.node? id = some node ∧ node.bare = node'.bare ∧ (node.Declares → node' = node)

namespace Keeps

theorem refl (g : Graph) : g.Keeps g where
  parameters := rfl
  results := rfl
  designated _ _ node hnode op := ⟨node, hnode, op⟩
  declared _ node hnode _ := ⟨node, hnode, rfl, fun _ => rfl⟩

theorem trans (h : g.Keeps g') (h' : g'.Keeps g'') : g.Keeps g'' where
  parameters := h'.parameters.trans h.parameters
  results := h'.results.trans h.results
  designated id hid node hnode op := by
    obtain ⟨node', hnode', op'⟩ := h.designated id hid node hnode op
    exact h'.designated id (h.parameters ▸ hid) node' hnode' op'
  declared id node'' hnode'' op := by
    obtain ⟨node', hnode', bare', same'⟩ := h'.declared id node'' hnode'' op
    have op' : node'.op = "Parameter" := (congrArg Node.op bare' : node'.bare.op = _).trans op
    obtain ⟨node, hnode, bare, same⟩ := h.declared id node' hnode' op'
    refine ⟨node, hnode, bare.trans bare', fun declares => ?_⟩
    obtain rfl := same declares
    exact same' declares

theorem inferStale (g : Graph) : g.Keeps ((GraphM.inferStale .core).runOn g).2 := by
  have same : g.SameSkeleton ((GraphM.inferStale .core).runOn g).2 :=
    GraphM.sameSkeleton_of_inferStale rfl
  refine ⟨same.parameters, same.results, fun id _ node hnode op => ?_, fun id node' hnode' _ => ?_⟩
  · obtain ⟨node', hnode', bare⟩ : ∃ node',
        ((GraphM.inferStale .core).runOn g).2.node? id = some node' ∧ node'.bare = node.bare :=
      Option.map_eq_some_iff.1 ((same.bare id).trans (by rw [hnode, Option.map_some]))
    exact ⟨node', hnode', (congrArg Node.op bare : node'.bare.op = _).trans op⟩
  · obtain ⟨node, hnode, bare⟩ := same.exists_bare hnode'
    refine ⟨node, hnode, bare, fun declares => ?_⟩
    exact Option.some.inj (hnode'.symm.trans (node?_inferStale_of_declares hnode declares))

/-- No designated node is collected. -/
theorem collect (g : Graph) : g.Keeps g.collect := by
  have parameters (id : NodeId) (hid : id ∈ g.parameters) : id ∉ g.dead := fun dead =>
    (mem_dead.1 dead).2.1 hid
  have results (id : NodeId) (hid : id ∈ g.results) : id ∉ g.dead := by
    intro dead
    obtain ⟨_, notParameter, unreached⟩ := mem_dead.1 dead
    exact unreached ⟨id, hid, .stay notParameter⟩
  refine ⟨?_, ?_, fun id hid node hnode op => ⟨node, ?_, op⟩,
    fun id node hnode _ => ⟨node, node?_of_node?_collect hnode, rfl, fun _ => rfl⟩⟩
  · rw [Graph.collect, (designated_foldl_vacate g g.dead).1, List.filter_eq_self]
    simpa using parameters
  · rw [Graph.collect, (designated_foldl_vacate g g.dead).2, List.filter_eq_self]
    simpa using results
  · rw [Graph.collect, node?_foldl_vacate, if_neg (parameters id hid), hnode]

end Keeps

/-! ### Relaxation -/

end Graph

namespace Relaxation

open TensorGraph.Graph

variable {c : Candidate} {cs : List Candidate} {stem : String} {chain : Chain} {g g' : Graph}
  {changed : Bool}

theorem Relaxed.keeps (step : Relaxed c stem chain g g') (reads : c.Reads g c.target) :
    g.Keeps g' := by
  have apart {id : NodeId} {node : Node} {target : Output} {g : Graph} (reads : c.Reads g target)
      (hnode : g.node? id = some node) (op : node.op = "Parameter") : id ≠ c.reshape := by
    rintro rfl
    obtain ⟨reshape, hreshape, opReshape, -⟩ := reads
    obtain rfl := Option.some.inj (hnode.symm.trans hreshape)
    simp [op] at opReshape
  refine ⟨step.parameters, step.results, fun id _ node hnode op => ⟨node, ?_, op⟩,
    fun id node hnode op => ⟨node, ?_, rfl, fun _ => rfl⟩⟩
  · rw [step.node?_old id (contains_of_node? hnode) (apart reads hnode op), hnode]
  · have old : g.contains id := by
      refine ((step.contains id).1 (contains_of_node? hnode)).resolve_right fun new => ?_
      obtain ⟨planned, hplanned, rfl⟩ := List.mem_map.1 new
      obtain ⟨node', hnode', op'⟩ := step.installed.exists_node? hplanned
      obtain rfl := Option.some.inj (hnode.symm.trans hnode')
      exact (Candidate.op_of_mem_plan hplanned).1 (op' ▸ op)
    rw [← step.node?_old id old (apart step.reads hnode op), hnode]

theorem Relaxations.keeps (h : Relaxations cs g g') : g.Keeps g' := by
  induction h with
  | nil => exact .refl _
  | cons _ reads step _ ih => exact (step.keeps reads).trans ih

/-- A run that relaxes batches leaves no seams at which inference could miss anything, and nothing
is stale then but on a cycle and behind it. -/
theorem seamed_of_run (seamed : g.Seamed) (wired : g.Wired)
    (run : (relaxation.run ⟨.core, true⟩).runOn g = (.ok changed, g')) :
    g.Keeps g' ∧ g'.Mirrored ∧ g'.Seamed ∧
      (g'.isCyclic = false → ∀ id, g'.isStale id = false) := by
  have inferred {g g' : Graph} {n : Nat} (seamed : g.Seamed) (mirrored : g.Mirrored)
      (inferred : (GraphM.inferStale .core).runOn g = (.ok n, g')) :
      g.Keeps g' ∧ g'.Seamed ∧ (g'.isCyclic = false → ∀ id, g'.isStale id = false) := by
    have same := GraphM.sameSkeleton_of_inferStale inferred
    have fresh (acyclic : g'.isCyclic = false) : ∀ id, g'.isStale id = false :=
      isStale_eq_false_of_inferStale (same.isCyclic.1 acyclic) inferred
    obtain rfl : _ = g' := congrArg Prod.snd inferred
    exact ⟨.inferStale g, seamed.inferStale mirrored, fresh⟩
  obtain ⟨n, g₀, g₂, first, passed, tidied⟩ := Pipeline.runOn_of_pass run
  obtain ⟨m, g₁, cs, again, found, relaxed, answer⟩ := runOn_relaxBatches_eq_ok_iff.1 passed
  obtain ⟨keeps₀, seamed₀, -⟩ := inferred seamed wired.toMirrored first
  have wired₀ := wired.of_sameLinks (GraphM.sameSkeleton_of_inferStale first).sameLinks
  obtain ⟨keeps₁, seamed₁, fresh₁⟩ := inferred seamed₀ wired₀.toMirrored again
  have wired₁ := wired₀.of_sameLinks (GraphM.sameSkeleton_of_inferStale again).sameLinks
  obtain ⟨fits, nodup⟩ := fits_of_candidates found
  have relaxations :=
    relaxations_of_forM wired₁.inputs_live (fun c hc => (fits c hc).reshape) nodup relaxed
  have seamed₂ := relaxations.seamed seamed₁ wired₁ nodup fits
  have wired₂ := relaxations.wired wired₁
  have keeps₂ := (keeps₀.trans keeps₁).trans relaxations.keeps
  split at tidied
  · obtain ⟨valid, k, last⟩ := Pipeline.runOn_tidy_eq_ok_iff.1 tidied
    have collected : g₂.collect.Mirrored := wired₂.toMirrored.foldl_vacate g₂.dead
    obtain ⟨keeps, seamed, fresh⟩ := inferred seamed₂.collect collected last
    exact ⟨(keeps₂.trans (.collect g₂)).trans keeps,
      collected.of_sameLinks (GraphM.sameSkeleton_of_inferStale last).sameLinks, seamed, fresh⟩
  · next unchanged =>
    obtain rfl : cs = [] := by simpa [unchanged] using answer
    obtain rfl : g₁ = g₂ := congrArg Prod.snd relaxed
    obtain rfl := tidied
    exact ⟨keeps₂, wired₂.toMirrored, seamed₂, fresh₁⟩

end Relaxation

/-! ### The whole change -/

namespace Graph

variable {registry : Registry} {batch : Nat} {g g₀ g' : Graph} {id : NodeId} {node : Node}
  {changed relaxed : Bool}

theorem runOn_setBatchSize_eq_ok_iff :
    (GraphM.setBatchSize registry batch).runOn g = (.ok relaxed, g') ↔ batch ≠ 0 ∧
      ∃ g₁ g₂ n, (Relaxation.relaxation.run ⟨registry, true⟩).runOn g = (.ok relaxed, g₁) ∧
        (g₁.parameters.forM (GraphM.resizeParameter batch)).runOn g₁ = (.ok (), g₂) ∧
          (GraphM.inferStale registry).runOn g₂ = (.ok n, g') ∧ g'.validate = .ok () := by
  have steps : GraphM.setBatchSize registry batch =
      if batch = 0 then throw (.precondition .zeroBatch) else (do
        let relaxed ← Relaxation.relaxation.run { registry, batchUpdate := true }
        (← get).parameters.forM (GraphM.resizeParameter batch)
        let _ ← GraphM.inferStale registry
        GraphM.ask (·.validate)
        pure relaxed) := by
    rw [GraphM.setBatchSize]
    split <;> rfl
  rw [steps]
  split
  · next zero => simp [zero]
  · next positive =>
    simp only [GraphM.runOn_bind_eq_ok_iff, GraphM.runOn_ask_eq_ok_iff, GraphM.runOn_pure_eq_ok_iff,
      GraphM.runOn_get, Prod.mk.injEq, Except.ok.injEq]
    constructor
    · rintro ⟨_, g₁, prepared, _, _, ⟨rfl, rfl⟩, _, g₂, resized, n, _, inferred, _, _,
        ⟨valid, rfl⟩, rfl, rfl⟩
      exact ⟨positive, g₁, g₂, n, prepared, resized, inferred, valid⟩
    · rintro ⟨-, g₁, g₂, n, prepared, resized, inferred, valid⟩
      exact ⟨relaxed, g₁, prepared, g₁, g₁, ⟨rfl, rfl⟩, (), g₂, resized, n, g', inferred, (), g',
        ⟨valid, rfl⟩, rfl, rfl⟩

/-- What a change of the batch size makes of a graph. -/
structure Rebatched (batch : Nat) (g g' : Graph) : Prop where
  valid : g'.validate = .ok ()
  fresh : g'.hasStale = false
  parameters : g'.parameters = g.parameters
  results : g'.results = g.results
  resized : ∀ id ∈ g.parameters, ∀ node, g.node? id = some node → node.op = "Parameter" →
    g'.node? id = some (node.rebatched batch)
  kept : ∀ id node, id ∉ g.parameters → g'.node? id = some node → node.op = "Parameter" →
    g.node? id = some node
  current : g'.Current .core

/-- What is said of the change of the batch size, given that there is no seam at which inference
could miss anything and that parameters have no values. -/
theorem rebatched_of_seamed (seamed : g.Seamed) (wired : g.Wired)
    (declares : ∀ id node, g.node? id = some node → node.op = "Parameter" → node.inputs = [] →
      node.Declares)
    (run : (GraphM.setBatchSize .core batch).runOn g = (.ok relaxed, g')) :
    g.Rebatched batch g' := by
  obtain ⟨_, g₁, g₂, n, prepared, resized, inferred, valid⟩ := runOn_setBatchSize_eq_ok_iff.1 run
  obtain ⟨keeps, mirrored₁, seamed₁, fresh₁⟩ := Relaxation.seamed_of_run seamed wired prepared
  replace resized := resized_of_forM .core resized
  have links := GraphM.sameSkeleton_of_inferStale inferred
  have whole := validate_eq_ok_iff.1 valid
  have mirrored₂ := mirrored₁.of_sameLinks resized.same.sameLinks
  -- nothing is stale before the parameters change, and so there are no seams behind them
  have acyclic₂ := links.isCyclic.1 whole.acyclic
  obtain ⟨alert₂, settled₂⟩ := resized.settled mirrored₁
    (alert_of_fresh (fresh₁ (resized.same.isCyclic.1 acyclic₂))) seamed₁.settled
  have fresh := isStale_eq_false_of_inferStale acyclic₂ inferred
  have last {id : NodeId} {node : Node} (hnode : g₂.node? id = some node)
      (declared : node.Declares) : g'.node? id = some node := by
    rw [← node?_inferStale_of_declares hnode declared, inferred]
  have settled := ((alert₂.seamed mirrored₂ settled₂).inferStale mirrored₂).settled
  rw [inferred] at settled
  have current : g'.Current .core := settled.current (mirrored₂.of_sameLinks links.sameLinks) whole
    fun id _ => fresh id
  have parameter : ∀ id node', g'.node? id = some node' → node'.op = "Parameter" →
      ∃ node, g.node? id = some node ∧
        node' = if id ∈ g.parameters then node.rebatched batch else node := by
    intro id node' hnode' op
    have inputs := (current id (contains_of_node? hnode')).inputs_parameter hnode' op
    obtain ⟨node₁, hnode₁, bare₁⟩ := (resized.same.trans links).exists_bare hnode'
    have op₁ : node₁.op = "Parameter" := (congrArg Node.op bare₁ : node₁.bare.op = _).trans op
    obtain ⟨node, hnode, bare, same⟩ := keeps.declared id node₁ hnode₁ op₁
    have declared : node.Declares := by
      refine declares id node hnode ((congrArg Node.op bare : node.bare.op = _).trans op₁) ?_
      have read := congrArg Node.inputs (bare.trans bare₁)
      exact (read : node.inputs = node'.inputs).trans inputs
    obtain rfl := same declared
    refine ⟨node₁, hnode, ?_⟩
    have hnode₂ := resized.node?_eq id
    rw [keeps.parameters, hnode₁] at hnode₂
    split at hnode₂
    · next designated =>
      rw [if_pos designated]
      exact Option.some.inj (hnode'.symm.trans (last hnode₂ (declared.rebatched batch)))
    · next other =>
      rw [if_neg other]
      exact Option.some.inj (hnode'.symm.trans (last hnode₂ declared))
  refine ⟨valid, hasStale_eq_false_iff.2 fresh, ?_, ?_, ?_, ?_, current⟩
  · rw [links.parameters, resized.same.parameters, keeps.parameters]
  · rw [links.results, resized.same.results, keeps.results]
  · intro id hid node hnode op
    obtain ⟨node₁, hnode₁, op₁⟩ := keeps.designated id hid node hnode op
    obtain ⟨node', hnode', bare⟩ : ∃ node', g'.node? id = some node' ∧ node'.bare = node₁.bare :=
      Option.map_eq_some_iff.1
        (((resized.same.trans links).bare id).trans (by rw [hnode₁, Option.map_some]))
    obtain ⟨old, hold, same⟩ := parameter id node' hnode'
      ((congrArg Node.op bare : node'.bare.op = _).trans op₁)
    obtain rfl := Option.some.inj (hnode.symm.trans hold)
    rw [hnode', same, if_pos hid]
  · intro id node' other hnode' op
    obtain ⟨node, hnode, same⟩ := parameter id node' hnode' op
    rw [hnode, same, if_neg other]

/-- After inference of all nodes has succeeded, a change of the batch size that succeeds leaves a
valid graph in which nothing is stale and every node is in step; the designated parameters have the
new batch, the other parameters and the designation of nodes are as they were. -/
theorem rebatched_of_setBatchSize (mirrored : g.Mirrored) (inputsLive : g.InputsLive)
    (inferred : (GraphM.inferAll .core).runOn g₀ = (.ok changed, g))
    (run : (GraphM.setBatchSize .core batch).runOn g = (.ok relaxed, g')) :
    g.Rebatched batch g' := by
  refine rebatched_of_seamed (seamed_of_inferAll mirrored inferred) ⟨mirrored, inputsLive⟩ ?_ run
  intro id node hnode op inputs
  obtain ⟨order, -, reached, others⟩ :=
    exists_order_of_inferAll Registry.steady_core mirrored inferred
  -- what reads nothing is on no cycle and behind none
  have ordered : id ∈ order := by
    by_contra out
    obtain ⟨-, p, hp, -⟩ := others id (contains_of_node? hnode) out
    obtain ⟨_, port, o, hread, -⟩ := mirrored.mem_predecessors.1 hp
    rw [input?_eq hnode, inputs] at hread
    cases hread
  exact (reached id ordered).2.declares hnode op

/-- The graph with a fixed batch, with the batch 5. -/
def ofFiveRows : Graph := ((GraphM.setBatchSize .core 5).runOn Relaxation.fixedBatch).2

theorem rebatched_ofFiveRows : Relaxation.fixedBatch.Rebatched 5 ofFiveRows := by
  have inferred : (GraphM.inferAll .core).runOn Relaxation.fixedBatch =
      (.ok false, Relaxation.fixedBatch) := by decide +kernel
  have answer : ((GraphM.setBatchSize .core 5).runOn Relaxation.fixedBatch).1 = .ok true := by
    decide +kernel
  have wired : Relaxation.fixedBatch.Wired := (validate_eq_ok_iff.1 (by decide +kernel)).wired
    (by decide +kernel)
  exact rebatched_of_setBatchSize wired.toMirrored wired.inputs_live inferred
    (GraphM.eq_ok_of_fst_eq answer)

/-! ### An input that reads no node -/

/-- A graph with a reshape that fixes the batch and, beside it, a join whose second input reads a
node that has been taken out. The join needs that input only once the axis of a gather is known,
which depends on the batch. -/
def dangling : Graph :=
  (Graph.empty "f").after .core
    [.addParameter "p" ⟨.f32, .ofExtents [2, 3, 4]⟩, .addConstant (.ofInts [4, 6]),
      .makeNode { op := "Reshape", inputs := [⟨0, 0⟩, ⟨1, 0⟩] }, .addResult ⟨2, 0⟩,
      .addParameter "q" ⟨.f32, .ranked [.dynamic, .fixed 0]⟩,
      .makeNode { op := "ShapeOf", inputs := [⟨4, 0⟩] }, .addConstant (.ofInts [1]),
      .makeNode { op := "Gather", inputs := [⟨5, 0⟩, ⟨6, 0⟩] }, .addConstant (.ofInts [7]),
      .addConstant (.ofInts [0]),
      .makeNode { op := "Gather", inputs := [⟨8, 0⟩, ⟨9, 0⟩, ⟨7, 0⟩] },
      .makeNode { op := "Relu", inputs := [⟨0, 0⟩] },
      .makeNode { op := "Concat", inputs := [⟨10, 0⟩, ⟨11, 0⟩] }, .addResult ⟨12, 0⟩,
      .removeNode 11]

/-- The graph after inference of all nodes. -/
def danglingInferred : Graph := ((GraphM.inferAll .core).runOn dangling).2

/-- Edges that mirror the inputs are not enough. Here the extents of the data take the vacant place,
and the join has read them when the batch was 2 still. -/
theorem not_forall_rebatched :
    ¬∀ (g₀ g g' : Graph) (batch : Nat) (changed relaxed : Bool), g.Mirrored → 1 ≤ batch →
      (GraphM.inferAll .core).runOn g₀ = (.ok changed, g) →
      (GraphM.setBatchSize .core batch).runOn g = (.ok relaxed, g') → g.Rebatched batch g' := by
  intro always
  have inferred : ((GraphM.inferAll .core).runOn dangling).1 = .ok false := by decide +kernel
  have outcome : ((GraphM.setBatchSize .core 5).runOn danglingInferred).1 = .ok true ∧
      ¬((GraphM.setBatchSize .core 5).runOn danglingInferred).2.Current .core := by decide +kernel
  exact outcome.2 (always dangling danglingInferred _ 5 false true (by decide +kernel) (by decide)
    (GraphM.eq_ok_of_fst_eq inferred) (GraphM.eq_ok_of_fst_eq outcome.1)).current

end Graph

end TensorGraph
