import TensorGraph.Proofs.Batch.Chain
import TensorGraph.Proofs.Inference.Following

/-!
# The graph after a relaxation

`Relaxation.Relaxed` says what relaxing one candidate makes of a graph: the old nodes keep their
outputs, and but for the reshape they stay as they were; the new ones are in step. From it follows
what relaxing several candidates leaves of each of them (`Relaxation.Installed`).
-/

namespace TensorGraph.Relaxation

variable {c c' : Candidate} {cs : List Candidate} {stem stem' : String} {chain chain' : Chain}
  {g g₁ g' : Graph} {id : NodeId} {planned : NodeId × Node}

/-- The reshape of the candidate reads its data and the given target. -/
def Candidate.Reads (c : Candidate) (g : Graph) (target : Output) : Prop :=
  ∃ node, g.node? c.reshape = some node ∧ node.op = "Reshape" ∧ node.inputs = [c.data, target]

theorem Candidate.Reads.input? {target : Output} (h : c.Reads g target) :
    g.input? c.reshape 0 = some c.data ∧ g.input? c.reshape 1 = some target := by
  obtain ⟨node, hnode, -, inputs⟩ := h
  rw [Graph.input?_eq hnode, Graph.input?_eq hnode, inputs]
  exact ⟨rfl, rfl⟩

/-- One graph has become of another by relaxing the candidate. -/
structure Relaxed (c : Candidate) (stem : String) (chain : Chain) (g g' : Graph) : Prop where
  contains : ∀ id, g'.contains id ↔ g.contains id ∨ id ∈ (c.plan stem chain).map Prod.fst
  apart : ∀ id ∈ (c.plan stem chain).map Prod.fst, g.contains id = false
  node?_old : ∀ id, g.contains id → id ≠ c.reshape → g'.node? id = g.node? id
  node?_reshape : g'.node? c.reshape = (g.node? c.reshape).map fun node =>
    { node with inputs := node.inputs.set 1 (output chain.target) }
  slot_old : ∀ o, g.contains o.node → g'.slot o = g.slot o
  isStale_old : ∀ id, g.contains id → g.isStale id → g'.isStale id
  reads : c.Reads g' (output chain.target)
  planted : ∀ planned ∈ c.plan stem chain, (g'.node? planned.1).map Node.bare = some planned.2
  inStep : ∀ planned ∈ c.plan stem chain, g'.InStep .core planned.1
  isStale_reshape : g'.isStale c.reshape
  /-- What reads a stale node is stale, unless that node was stale before or is a new constant. -/
  spread : ∀ p i, g'.isStale p → i ∈ g'.successors p → g'.isStale i ∨
    (g.contains p ∧ g.isStale p) ∨ ∃ bare, (p, bare) ∈ c.plan stem chain ∧ bare.op = "Constant"
  /-- What has become stale is the reshape and what is computed from it. -/
  alerted : ∀ id, g.contains id → g'.isStale id →
    g.isStale id ∨ Walk g'.successors [] c.reshape id
  inputsLive : g'.InputsLive
  wired : g.Wired → g'.Wired
  acyclic : g.Wired → g.isCyclic = false → g'.isCyclic = false
  parameters : g'.parameters = g.parameters
  results : g'.results = g.results

/-- Once the nodes of the plan are there, the reshape is made to read the last of them. -/
theorem Relaxed.of_grown (inputsLive : g.InputsLive) (reads : c.Reads g c.target)
    (live : ∀ s ∈ [c.data.node, c.target.node], g.contains s)
    (grown : Graph.Grown .core [c.data.node, c.target.node] (c.plan stem chain) g g₁)
    (port : (g₁.input? c.reshape 1).isSome) :
    Relaxed c stem chain g (g₁.rewire c.reshape 1 (output chain.target)) := by
  obtain ⟨readsData, readsTarget⟩ := reads.input?
  obtain ⟨node, hnode, op, inputs⟩ := reads
  have old : g.contains c.reshape := Graph.contains_of_node? hnode
  have new : chain.target ∈ (c.plan stem chain).map Prod.fst := by simp [Candidate.plan]
  have there : g₁.contains chain.target := (grown.contains _).2 (.inr new)
  -- the reshape is an old node
  have other : ∀ planned ∈ c.plan stem chain, planned.1 ≠ c.reshape := by
    rintro planned hplanned e
    have apart := grown.apart _ (List.mem_map_of_mem hplanned)
    simp [e, old] at apart
  have kept_new : ∀ planned ∈ c.plan stem chain,
      (g₁.rewire c.reshape 1 (output chain.target)).node? planned.1 = g₁.node? planned.1 :=
    fun planned hplanned => by rw [Graph.node?_rewire, if_neg (other planned hplanned)]
  have changed : (g₁.rewire c.reshape 1 (output chain.target)).node? c.reshape =
      (g.node? c.reshape).map fun node =>
        { node with inputs := node.inputs.set 1 (output chain.target) } := by
    rw [Graph.node?_rewire, if_pos rfl, grown.node?_old _ old]
  constructor
  case contains =>
    intro id
    rw [Graph.contains_rewire, grown.contains]
  case apart => exact grown.apart
  case node?_old =>
    intro id hid apart
    rw [Graph.node?_rewire, if_neg apart, grown.node?_old id hid]
  case node?_reshape => exact changed
  case slot_old =>
    intro o ho
    rw [Graph.slot_rewire, Graph.slot_congr (grown.node?_old o.node ho)]
  case isStale_old =>
    intro id hid stale
    exact Graph.isStale_rewire_of_isStale ((grown.isStale_old id hid).trans stale) _ _ _
  case reads =>
    rw [hnode, Option.map_some] at changed
    exact ⟨_, changed, op, congrArg (·.set 1 (output chain.target)) inputs⟩
  case planted =>
    intro planned hplanned
    rw [kept_new planned hplanned, grown.planted planned hplanned]
  case inStep =>
    intro planned hplanned
    exact (Graph.InStep.congr (kept_new planned hplanned) fun _ _ _ => Graph.slot_rewire ..).2
      (grown.inStep planned hplanned)
  case isStale_reshape => exact Graph.isStale_rewire_self ((grown.contains _).2 (.inl old)) _ _
  case spread =>
    intro p i stale edge
    cases before : g₁.isStale p with
    | false => exact .inl (Graph.isStale_rewire_of_edge stale before edge)
    | true =>
      right
      rcases (grown.contains p).1 (Graph.contains_of_isStale before) with live | new
      · exact .inl ⟨live, (grown.isStale_old p live).symm.trans before⟩
      · obtain ⟨planned, hplanned, rfl⟩ := List.mem_map.1 new
        refine .inr ⟨planned.2, hplanned, ?_⟩
        by_contra computed
        simp [grown.fresh planned hplanned computed] at before
  case alerted =>
    intro id hid stale
    rw [← grown.isStale_old id hid]
    exact Graph.isStale_of_isStale_rewire stale
  case inputsLive => exact (grown.inputsLive live inputsLive).rewire port there
  case wired =>
    intro wired
    exact (grown.wired wired).rewire port there
  case acyclic =>
    intro wired acyclic
    refine grown.isCyclic_rewire wired acyclic live ?_ old new
    have source {port : Nat} {o : Output} (hread : g.input? c.reshape port = some o) :
        o.node ∈ g.predecessors c.reshape :=
      wired.toMirrored.mem_predecessors.2 ⟨inputsLive _ _ _ hread, port, o, hread, rfl⟩
    simp [source readsData, source readsTarget]
  case parameters => rw [Graph.parameters_rewire, grown.parameters]
  case results => rw [Graph.results_rewire, grown.results]

/-- Relaxing a candidate whose reshape reads its data and its target. Each new node has a place of
its own. -/
theorem exists_relaxed_nodup (inputsLive : g.InputsLive) (reads : c.Reads g c.target)
    (run : (relax .core c).runOn g = (.ok (), g')) :
    ∃ stem chain, Relaxed c stem chain g g' ∧ ((c.plan stem chain).map Prod.fst).Nodup := by
  obtain ⟨readsData, readsTarget⟩ := reads.input?
  have live : ∀ s ∈ [c.data.node, c.target.node], g.contains s := by
    simp [inputsLive _ _ _ readsData, inputsLive _ _ _ readsTarget]
  obtain ⟨stem, chain, g₁, grown, rewired⟩ := exists_grown_of_relax
    (live _ (by simp)) (live _ (by simp)) run
  have port : (g₁.input? c.reshape 1).isSome := by
    rw [Graph.input?, grown.node?_old _ (Graph.contains_of_input? readsTarget), ← Graph.input?,
      readsTarget]
    rfl
  rw [GraphM.runOn_setInput_of_input? port] at rewired
  obtain ⟨-, rfl⟩ := Prod.mk.inj rewired
  exact ⟨stem, chain, .of_grown inputsLive reads live grown port, grown.nodup⟩

theorem exists_relaxed (inputsLive : g.InputsLive) (reads : c.Reads g c.target)
    (run : (relax .core c).runOn g = (.ok (), g')) : ∃ stem chain, Relaxed c stem chain g g' := by
  obtain ⟨stem, chain, step, -⟩ := exists_relaxed_nodup inputsLive reads run
  exact ⟨stem, chain, step⟩

/-- The new nodes are neither parameters nor reshapes. -/
theorem Candidate.op_of_mem_plan (h : planned ∈ c.plan stem chain) :
    planned.2.op ≠ "Parameter" ∧ planned.2.op ≠ "Reshape" := by
  revert planned
  simp [Candidate.plan, GraphM.constantNode, Node.bare]

/-- The candidate has been relaxed: the nodes of its plan are in their places and follow what they
read while they are up to date, and the reshape reads the last of them. -/
structure Installed (c : Candidate) (stem : String) (chain : Chain) (g : Graph) : Prop where
  planted : ∀ planned ∈ c.plan stem chain, (g.node? planned.1).map Node.bare = some planned.2
  follows : ∀ planned ∈ c.plan stem chain, g.isStale planned.1 = false →
    g.Follows .core planned.1
  reads : c.Reads g (output chain.target)

theorem Relaxed.installed (h : Relaxed c stem chain g g') : Installed c stem chain g' where
  planted := h.planted
  follows planned hplanned _ := (h.inStep planned hplanned).follows
  reads := h.reads

theorem Installed.exists_node? (h : Installed c stem chain g)
    (hplanned : planned ∈ c.plan stem chain) :
    ∃ node, g.node? planned.1 = some node ∧ node.op = planned.2.op := by
  obtain ⟨node, hnode, bare⟩ := Option.map_eq_some_iff.1 (h.planted planned hplanned)
  exact ⟨node, hnode, (congrArg Node.op bare : node.bare.op = _)⟩

/-! ### One after the other -/

/-- What a reshape reads stays the same while another one is relaxed. -/
theorem Candidate.Reads.relaxed {target : Output} (h : c'.Reads g target)
    (step : Relaxed c stem chain g g') (other : c'.reshape ≠ c.reshape) : c'.Reads g' target := by
  obtain ⟨node, hnode, reads⟩ := h
  exact ⟨node, (step.node?_old _ (Graph.contains_of_node? hnode) other).trans hnode, reads⟩

/-- A relaxed candidate stays so while another one is relaxed. -/
theorem Installed.relaxed (h : Installed c' stem' chain' g) (inputsLive : g.InputsLive)
    (reads : c.Reads g c.target) (step : Relaxed c stem chain g g')
    (other : c'.reshape ≠ c.reshape) : Installed c' stem' chain' g' := by
  have kept : ∀ planned ∈ c'.plan stem' chain', g.contains planned.1 ∧
      g'.node? planned.1 = g.node? planned.1 := by
    intro planned hplanned
    obtain ⟨node, hnode, op⟩ := h.exists_node? hplanned
    have live := Graph.contains_of_node? hnode
    refine ⟨live, step.node?_old _ live ?_⟩
    intro e
    obtain ⟨reshape, hreshape, opReshape, -⟩ := reads
    obtain rfl := Option.some.inj (hreshape.symm.trans (e ▸ hnode))
    exact (Candidate.op_of_mem_plan hplanned).2 (op ▸ opReshape)
  refine ⟨?_, ?_, h.reads.relaxed step other⟩
  · intro planned hplanned
    rw [(kept planned hplanned).2, h.planted planned hplanned]
  · intro planned hplanned fresh
    obtain ⟨live, same⟩ := kept planned hplanned
    have before : g.isStale planned.1 = false :=
      Graph.isStale_eq_false_of_imp (step.isStale_old _ live) fresh
    refine (h.follows planned hplanned before).of_plain same fun port o slot hread hslot => ?_
    rw [Graph.input?, same] at hread
    exact ⟨slot, by rw [← step.slot_old o (inputsLive _ _ _ hread), hslot], rfl⟩

/-- One graph has become of another by relaxing the candidates one after the other. -/
inductive Relaxations : List Candidate → Graph → Graph → Prop where
  | nil {g : Graph} : Relaxations [] g g
  | cons {c : Candidate} {cs : List Candidate} {stem : String} {chain : Chain} {g g₁ g' : Graph}
      (inputsLive : g.InputsLive) (reads : c.Reads g c.target) (step : Relaxed c stem chain g g₁)
      (rest : Relaxations cs g₁ g') : Relaxations (c :: cs) g g'

/-- Relaxing candidates with reshapes of their own. -/
theorem relaxations_of_forM (inputsLive : g.InputsLive) (reads : ∀ c ∈ cs, c.Reads g c.target)
    (nodup : (cs.map Candidate.reshape).Nodup)
    (run : (cs.forM (relax .core)).runOn g = (.ok (), g')) : Relaxations cs g g' := by
  induction cs generalizing g with
  | nil =>
    obtain ⟨-, rfl⟩ := GraphM.runOn_pure_eq_ok_iff.1 run
    exact .nil
  | cons c cs ih =>
    obtain ⟨_, g₁, first, later⟩ := GraphM.runOn_bind_eq_ok_iff.1 run
    obtain ⟨here, others⟩ := List.forall_mem_cons.1 reads
    obtain ⟨fresh, nodup⟩ := List.nodup_cons.1 nodup
    obtain ⟨stem, chain, step⟩ := exists_relaxed inputsLive here first
    refine .cons inputsLive here step (ih step.inputsLive (fun c' hc' => ?_) nodup later)
    refine (others c' hc').relaxed step fun e => fresh ?_
    exact e ▸ List.mem_map_of_mem hc'

/-- The pass finds all candidates in the graph that is up to date before it relaxes the first. -/
theorem runOn_relaxBatches_eq_ok_iff {registry : Registry} {changed : Bool} :
    (Pass.relaxBatches.run ⟨registry, true⟩).runOn g = (.ok changed, g') ↔
      ∃ n g₀ cs, (GraphM.inferStale registry).runOn g = (.ok n, g₀) ∧ candidates g₀ = .ok cs ∧
        (cs.forM (relax registry)).runOn g₀ = (.ok (), g') ∧ changed = !cs.isEmpty := by
  have steps : Pass.relaxBatches.run ⟨registry, true⟩ = (do
      let _ ← GraphM.inferStale registry
      let found ← GraphM.ask candidates
      found.forM (relax registry)
      pure !found.isEmpty) := rfl
  simp only [steps, GraphM.runOn_bind_eq_ok_iff, GraphM.runOn_ask_eq_ok_iff,
    GraphM.runOn_pure_eq_ok_iff]
  constructor
  · rintro ⟨n, g₀, inferred, cs, _, ⟨found, rfl⟩, _, _, relaxed, answer, rfl⟩
    exact ⟨n, g₀, cs, inferred, found, relaxed, answer.symm⟩
  · rintro ⟨n, g₀, cs, inferred, found, relaxed, answer⟩
    exact ⟨n, g₀, inferred, cs, g₀, ⟨found, rfl⟩, (), g', relaxed, answer.symm, rfl⟩

namespace Relaxations

theorem wired (h : Relaxations cs g g') (wired : g.Wired) : g'.Wired := by
  induction h with
  | nil => exact wired
  | cons _ _ step _ ih => exact ih (step.wired wired)

theorem acyclic (h : Relaxations cs g g') (wired : g.Wired) (acyclic : g.isCyclic = false) :
    g'.isCyclic = false := by
  induction h with
  | nil => exact acyclic
  | cons _ _ step _ ih => exact ih (step.wired wired) (step.acyclic wired acyclic)

theorem installed_of_installed (h : Relaxations cs g g') (old : Installed c stem chain g)
    (other : c.reshape ∉ cs.map Candidate.reshape) : Installed c stem chain g' := by
  induction h with
  | nil => exact old
  | cons inputsLive reads step _ ih =>
    obtain ⟨apart, others⟩ := not_or.1 (List.mem_cons.not.1 other)
    exact ih (old.relaxed inputsLive reads step apart) others

/-- Every candidate has been relaxed in the end. -/
theorem exists_installed (h : Relaxations cs g g') (nodup : (cs.map Candidate.reshape).Nodup)
    (hc : c ∈ cs) : ∃ stem chain, Installed c stem chain g' := by
  induction h with
  | nil => cases hc
  | cons _ _ step rest ih =>
    obtain ⟨other, nodup⟩ := List.nodup_cons.1 nodup
    rcases List.mem_cons.1 hc with rfl | hc
    · exact ⟨_, _, rest.installed_of_installed step.installed other⟩
    · exact ih nodup hc

/-- A parameter does not become stale. -/
theorem isStale_declared (h : Relaxations cs g g') (wired : g.Wired)
    (fresh : ∀ q, g.Declared q → g.isStale q = false) :
    ∀ q, g'.Declared q → g'.isStale q = false := by
  induction h with
  | nil => exact fresh
  | @cons c cs stem chain g g₁ g' inputsLive reads step rest ih =>
    refine ih (step.wired wired) fun q declared => ?_
    obtain ⟨node, hnode, op, inputs⟩ := declared
    have old : g.contains q := by
      refine ((step.contains q).1 (Graph.contains_of_node? hnode)).resolve_right fun hq => ?_
      obtain ⟨planned, hplanned, rfl⟩ := List.mem_map.1 hq
      obtain ⟨node', hnode', op'⟩ := step.installed.exists_node? hplanned
      obtain rfl := Option.some.inj (hnode.symm.trans hnode')
      exact (Candidate.op_of_mem_plan hplanned).1 (op' ▸ op)
    have apart : q ≠ c.reshape := by
      rintro rfl
      obtain ⟨reshape, hreshape, opReshape, -⟩ := step.reads
      obtain rfl := Option.some.inj (hnode.symm.trans hreshape)
      simp [op] at opReshape
    have before : g.Declared q := ⟨node, (step.node?_old q old apart).symm.trans hnode, op, inputs⟩
    by_contra stale
    rcases step.alerted q old (by simpa using stale) with stale | walk
    · simp [fresh q before] at stale
    · have declared : g₁.Declared q := ⟨node, hnode, op, inputs⟩
      exact apart (declared.eq_of_walk (step.wired wired).toMirrored walk).symm

end Relaxations

end TensorGraph.Relaxation
