import TensorGraph.Proofs.Inference.Evaluation
import TensorGraph.Proofs.Inference.Monotone
import TensorGraph.Proofs.Inference.Seams

/-!
# Inference that can be resumed

`Graph.Resumable` is a graph in which inference can start: what is up to date is in step and reads
nothing stale. Inference changes nothing but slots and what is stale. If it succeeds, every node has
the outputs to which the graph evaluates, whatever was stale (`Graph.Resumable.node?_eq`). If it
fails, the graph can be corrected and inferred again, and the result does not show that it took two
attempts. `Graph.inferStale_resumable` is the main statement.
-/

namespace TensorGraph

namespace Graph

variable {g g' g₁ h : Graph} {id i p : NodeId} {node : Node} {slots : List Slot} {depth : Nat}

/-! ### What inference leaves alone -/

/-- The graph without slots, with nothing stale. -/
def skeleton (g : Graph) : Graph :=
  { g with
    arena := g.arena.mapIdx fun _ entry => { entry with node := entry.node.bare, stale := false }
    edges_live := by
      intro edge h
      simpa using g.edges_live edge h
    seq_lt := by
      intro id entry h
      rw [Arena.get?_mapIdx] at h
      obtain ⟨old, hold, rfl⟩ := Option.map_eq_some_iff.1 h
      exact g.seq_lt id old hold }

theorem skeleton_mapStale (g : Graph) (f : NodeId → Bool → Bool) :
    (g.mapStale f).skeleton = g.skeleton := by
  simp only [skeleton, mapStale, Arena.mapIdx_mapIdx]

theorem skeleton_modifyOutputs (g : Graph) (id : NodeId) (slots : List Slot) :
    (g.modifyNode id fun node => { node with outputs := slots }).skeleton = g.skeleton := by
  have same (i : NodeId) (entry : Entry) :
      (if i = id then { entry with node := { entry.node with outputs := slots } }
        else entry).node.bare = entry.node.bare := by
    split <;> rfl
  have seq (i : NodeId) (entry : Entry) :
      (if i = id then { entry with node := { entry.node with outputs := slots } }
        else entry).seq = entry.seq := by
    split <;> rfl
  simp only [skeleton, modifyNode, Arena.modify, Arena.mapIdx_mapIdx, same, seq]

theorem skeleton_foldl_markStale {α : Type} (f : α → NodeId) (marks : List α) (g : Graph) :
    (marks.foldl (fun g mark => g.markStale (f mark)) g).skeleton = g.skeleton := by
  induction marks generalizing g with
  | nil => rfl
  | cons mark rest ih =>
    rw [List.foldl_cons, ih, markStale]
    split
    · exact skeleton_mapStale ..
    · rfl

theorem skeleton_refresh (g : Graph) (id : NodeId) (slots old : List Slot) :
    (g.refresh id slots old).skeleton = g.skeleton := by
  have updated : (g.update id slots).skeleton = g.skeleton :=
    (skeleton_mapStale ..).trans (skeleton_modifyOutputs ..)
  simp only [Graph.refresh]
  split
  · exact updated
  · exact (skeleton_foldl_markStale Prod.fst _ _).trans updated

theorem skeleton_inferStale (registry : Registry) (g : Graph) :
    ((GraphM.inferStale registry).runOn g).2.skeleton = g.skeleton := by
  rw [GraphM.runOn_inferStale]
  refine GraphM.inferInTurn_keeps (P := fun g' => g'.skeleton = g.skeleton) rfl ?_
  intro _ _ _ turned same
  cases turned with
  | skipped => exact same
  | computed => exact (skeleton_refresh ..).trans same

/-- Inference changes neither the nodes but for their outputs nor the types that are declared. -/
theorem sameProgram_inferInTurn (ids : List NodeId) (g : Graph) :
    g.SameProgram ((GraphM.inferInTurn .core ids).runOn g).2 where
  name := (GraphM.sameSkeleton_inferInTurn .core ids g).name
  bare := (GraphM.sameSkeleton_inferInTurn .core ids g).bare
  declared id node node' hnode hnode' op := by
    have declares : g.DeclaresAt id (node.outputs.map Slot.toSlotType) := ⟨node, hnode, op, rfl⟩
    obtain ⟨last, hlast, -, types⟩ := declares.inferInTurn ids
    obtain rfl := Option.some.inj (hlast.symm.trans hnode')
    exact types

theorem sameProgram_inferStale (g : Graph) :
    g.SameProgram ((GraphM.inferStale .core).runOn g).2 := by
  rw [GraphM.runOn_inferStale]
  exact sameProgram_inferInTurn g.order g

/-! ### Graphs in which inference can start -/

/-- What is up to date is in step and reads nothing stale. -/
structure Underway (g : Graph) : Prop where
  alert : g.Alert
  inStep : ∀ id, g.contains id → g.isStale id = false → g.InStep .core id

/-- Besides, the edges mirror the inputs and close no cycle. -/
structure Resumable (g : Graph) : Prop extends Underway g where
  mirrored : g.Mirrored
  acyclic : g.isCyclic = false

/-- Along the edges everything behind a stale node is stale. -/
theorem Alert.isStale_of_walk (h : g.Alert) (walk : Walk g.successors [] p i)
    (stale : g.isStale p) : g.isStale i := by
  induction walk with
  | stay => exact stale
  | step _ edge _ ih => exact ih (h _ _ stale edge)

/-- A node keeps in step if it is left alone with the outputs that it reads. -/
theorem Underway.inStep_of_spared (h : g.Underway)
    (spared : ∀ i, g'.contains i → g'.isStale i = false → g.contains i ∧ g.isStale i = false ∧
      g'.node? i = g.node? i ∧ ∀ port o, g.input? i port = some o → g'.slot o = g.slot o) :
    ∀ i, g'.contains i → g'.isStale i = false → g'.InStep .core i := by
  intro i live fresh
  obtain ⟨live', fresh', same, reads⟩ := spared i live fresh
  exact (InStep.congr same reads).2 (h.inStep i live' fresh')

/-- What is up to date does not read a stale node. -/
theorem Underway.ne_of_input? (h : g.Underway) (mirrored : g.Mirrored) {port : Nat} {o : Output}
    (fresh : g.isStale i = false) (hread : g.input? i port = some o) (stale : g.isStale id) :
    o.node ≠ id := by
  intro source
  have edge := mirrored.mem_successors.2 ⟨contains_of_isStale stale, port, o, hread, source⟩
  simp [h.alert id i stale edge] at fresh

/-- A turn takes its node out of the stale ones and adds nothing to them. -/
theorem Underway.isStale_turned (h : g.Underway) {done todo : List NodeId}
    (order : g.Sequential (done ++ id :: todo)) (fresh : ∀ i ∈ done, g.isStale i = false)
    (turned : GraphM.Turned .core id g g₁) : g₁.isStale i ↔ g.isStale i ∧ i ≠ id := by
  have after := turned.isStale_eq_false order fresh id (by simp)
  refine ⟨fun stale => ⟨?_, fun e => by simp [e ▸ stale] at after⟩,
    fun ⟨stale, other⟩ => turned.isStale other stale⟩
  cases turned with
  | skipped => exact stale
  | computed staleId =>
    rcases exists_walk_of_isStale_refresh stale with ⟨before, -⟩ | ⟨reader, edge, walk⟩
    · exact before
    · exact h.alert.isStale_of_walk walk (h.alert id reader staleId edge)

theorem Underway.turned (h : g.Underway) (mirrored : g.Mirrored) {done todo : List NodeId}
    (order : g.Sequential (done ++ id :: todo)) (fresh : ∀ i ∈ done, g.isStale i = false)
    (turned : GraphM.Turned .core id g g₁) : g₁.Underway := by
  have same := turned.sameSkeleton
  have stale_iff (i : NodeId) : g₁.isStale i ↔ g.isStale i ∧ i ≠ id :=
    h.isStale_turned order fresh turned
  refine ⟨fun p i stale edge => ?_, fun i live freshAfter => ?_⟩
  · have edge' : i ∈ g.successors p := by
      rwa [successors, same.edges, ← successors] at edge
    obtain ⟨before, -⟩ := (stale_iff p).1 stale
    refine (stale_iff i).2 ⟨h.alert p i before edge', ?_⟩
    rintro rfl
    -- what a node reads has had its turn before
    have produced := order.before done i todo rfl p (mem_predecessors_iff_mem_successors.2 edge')
    simp [fresh p produced] at before
  · by_cases before : g.isStale i
    · obtain rfl : i = id := by
        by_contra other
        simp [(stale_iff i).2 ⟨before, other⟩] at freshAfter
      refine turned.inStep Registry.steady_core before fun port o hread => ?_
      intro source
      apply order.not_mem_predecessors
      exact mirrored.mem_predecessors.2 ⟨contains_of_isStale before, port, o, hread, source⟩
    · have freshBefore : g.isStale i = false := by simpa using before
      cases turned with
      | skipped => exact h.inStep i live freshBefore
      | @computed computedNode slots staleId hnode hslots =>
        have other (o : NodeId) (ne : o ≠ id) :
            (g.refresh id slots computedNode.outputs).node? o = g.node? o := by
          rw [node?_refresh, if_neg ne]
        have ne : i ≠ id := fun e => before (e ▸ staleId)
        refine (InStep.congr (other i ne) fun port o hread => slot_congr (other o.node ?_)).2
          (h.inStep i ((contains_congr (other i ne)).symm.trans live) freshBefore)
        exact h.ne_of_input? mirrored freshBefore hread staleId

/-- However inference ends, it can be resumed. -/
theorem Resumable.inferStale (h : g.Resumable) :
    ((GraphM.inferStale .core).runOn g).2.Resumable := by
  have same : g.SameSkeleton ((GraphM.inferStale .core).runOn g).2 :=
    GraphM.sameSkeleton_of_inferStale rfl
  refine ⟨?_, h.mirrored.of_sameLinks same.sameLinks, same.isCyclic.2 h.acyclic⟩
  exact GraphM.inferStale_keeps h.toUnderway h.mirrored
    fun _ _ _ _ _ mirrored order fresh turned h => h.turned mirrored order fresh turned

/-! ### Inference and evaluation -/

/-- What a node reads has a lower rank. -/
def Ranked (g : Graph) (rank : NodeId → Nat) : Prop :=
  ∀ id node, g.node? id = some node → ∀ o ∈ node.inputs, g.contains o.node →
    rank o.node < rank id

theorem Ranked.of_sameProgram {rank : NodeId → Nat} (h : g.Ranked rank)
    (same : g.SameProgram g') : g'.Ranked rank := by
  intro id node' hnode' o ho live
  obtain ⟨node, hnode, bare⟩ := Option.map_eq_some_iff.1
    ((same.bare id).symm.trans (by rw [hnode', Option.map_some]))
  have inputs : node.inputs = node'.inputs := (congrArg Node.inputs bare : node.bare.inputs = _)
  exact h id node hnode o (inputs ▸ ho) ((same.contains o.node).symm.trans live)

theorem Mirrored.mem_predecessors_of_mem_inputs (mirrored : g.Mirrored)
    (hnode : g.node? id = some node) {o : Output} (ho : o ∈ node.inputs)
    (live : g.contains o.node) : o.node ∈ g.predecessors id := by
  obtain ⟨port, hread⟩ := exists_port_of_mem hnode ho
  exact mirrored.mem_predecessors.2 ⟨live, port, o, hread, rfl⟩

theorem length_order_le (g : Graph) : g.order.length ≤ g.size := by
  have sub : g.order.Subperm g.ids :=
    List.subperm_of_subset g.nodup_order fun id h => mem_ids.2 (contains_of_mem_order h)
  simpa [size, ids] using sub.length_le

/-- Without cycles the positions in the order are ranks below the number of nodes. -/
theorem Resumable.ranked (h : g.Resumable) :
    g.Ranked g.order.idxOf ∧ ∀ id, g.contains id → g.order.idxOf id < g.size := by
  have listed {id : NodeId} (live : g.contains id) : id ∈ g.order :=
    isCyclic_eq_false_iff_forall_mem.1 h.acyclic id live
  refine ⟨fun id node hnode o ho live => ?_, fun id live => ?_⟩
  · exact idxOf_lt_idxOf (listed (contains_of_node? hnode))
      (h.mirrored.mem_predecessors_of_mem_inputs hnode ho live)
  · exact (List.idxOf_lt_length_of_mem (listed live)).trans_le g.length_order_le

/-- Nodes in step that read nodes in step hold what they evaluate to. -/
theorem evaluate_eq_outputs {rank : NodeId → Nat} {P : NodeId → Prop} (ranked : g.Ranked rank)
    (inStep : ∀ id, P id → g.InStep .core id)
    (closed : ∀ id node, P id → g.node? id = some node → ∀ o ∈ node.inputs,
      g.contains o.node → P o.node)
    (done : P id) (deep : rank id < depth) (hnode : g.node? id = some node) :
    g.evaluate .core depth id = .ok node.outputs := by
  induction depth generalizing id node with
  | zero => cases deep
  | succ depth ih =>
    rw [evaluate_succ_eq_inferred hnode fun o ho producer hproducer => ?_]
    · obtain ⟨node', hnode', inferred⟩ := inStep id done
      obtain rfl := Option.some.inj (hnode.symm.trans hnode')
      exact inferred
    · have live := contains_of_node? hproducer
      have lower := ranked id node hnode o ho live
      exact ih (closed id node done hnode o ho live) (by omega) hproducer

/-- In a graph in step every node holds what it evaluates to. -/
theorem Current.evaluate_eq (current : g.Current .core) {rank : NodeId → Nat}
    (ranked : g.Ranked rank) (deep : rank id < depth) (hnode : g.node? id = some node) :
    g.evaluate .core depth id = .ok node.outputs :=
  evaluate_eq_outputs (P := fun id => g.contains id) ranked current (fun _ _ _ _ _ _ live => live)
    (contains_of_node? hnode) deep hnode

theorem Underway.evaluate_eq_inferred (h : g.Underway) (mirrored : g.Mirrored)
    {rank : NodeId → Nat} (ranked : g.Ranked rank) (deep : rank id < depth)
    (hnode : g.node? id = some node) (fresh : ∀ p ∈ g.predecessors id, g.isStale p = false) :
    g.evaluate .core depth id = g.inferred .core node := by
  obtain ⟨depth, rfl⟩ : ∃ d, depth = d + 1 := ⟨depth - 1, by omega⟩
  refine evaluate_succ_eq_inferred hnode fun o ho producer hproducer => ?_
  have live := contains_of_node? hproducer
  have lower := ranked id node hnode o ho live
  refine evaluate_eq_outputs (P := fun id => g.contains id ∧ g.isStale id = false) ranked
    (fun id done => h.inStep id done.1 done.2) ?_
    ⟨live, fresh _ (mirrored.mem_predecessors_of_mem_inputs hnode ho live)⟩ (by omega) hproducer
  intro reader node done hreader o ho live
  obtain ⟨port, hread⟩ := exists_port_of_mem hreader ho
  refine ⟨live, ?_⟩
  rw [Bool.eq_false_iff]
  exact fun stale => h.ne_of_input? mirrored done.2 hread stale rfl

end Graph

/-! ### Success -/

namespace GraphM

variable {registry : Registry} {g g' : Graph} {id : NodeId} {e : Error}

/-- If a turn fails, the operator of its node did. -/
theorem exists_inferred_eq_error (failed : (inferInTurn registry [id]).runOn g = (.error e, g')) :
    ∃ node, g.node? id = some node ∧ g.inferred registry node = .error e := by
  rw [inferInTurn, runOn_bind, runOn_get] at failed
  cases stale : g.isStale id with
  | false => simp [stale, inferInTurn] at failed
  | true =>
    obtain ⟨node, hnode⟩ := Graph.contains_iff_exists_node?.1 (Graph.contains_of_isStale stale)
    simp only [stale, if_true, runOn_bind, runOn_inferNode, hnode] at failed
    cases hslots : g.inferred registry node with
    | error e' =>
      simp only [hslots, Prod.mk.injEq, Except.error.injEq] at failed
      exact ⟨node, hnode, failed.1 ▸ hslots⟩
    | ok slots =>
      cases same : Slot.numEqList slots node.outputs with
      | false =>
        simp only [hslots, same, Bool.not_false, if_true, runOn_bind, runOn_modify] at failed
        cases failed
      | true => simp [hslots, same, inferInTurn] at failed

end GraphM

namespace Graph

variable {g g' g₁ h : Graph} {id i p : NodeId} {node : Node} {n : Nat}

/-- If every node can be evaluated, inference succeeds. -/
theorem Resumable.exists_inferStale (h : g.Resumable) (rank : NodeId → Nat) (ranked : g.Ranked rank)
    (depth : Nat) (deep : ∀ id, g.contains id → rank id < depth)
    (evaluates : ∀ id, g.contains id → ∃ slots, g.evaluate .core depth id = .ok slots) :
    ∃ n g', (GraphM.inferStale .core).runOn g = (.ok n, g') := by
  have inTurn (todo : List NodeId) : ∀ (done : List NodeId) (g₁ : Graph), g.SameProgram g₁ →
      g₁.Underway → g₁.Mirrored → g₁.Sequential (done ++ todo) →
      (∀ i ∈ done, g₁.isStale i = false) →
      ∃ n g', (GraphM.inferInTurn .core todo).runOn g₁ = (.ok n, g') := by
    induction todo with
    | nil => exact fun _ g₁ _ _ _ _ _ => ⟨0, g₁, rfl⟩
    | cons id rest ih =>
      intro done g₁ same underway mirrored order fresh
      rcases GraphM.runOn_inferInTurn_cons .core id g₁ with ⟨e, failed⟩ | ⟨g₂, m, turned, run⟩
      · -- what the node reads is up to date, so that its operator computes what it evaluates to
        obtain ⟨node, hnode, error⟩ := GraphM.exists_inferred_eq_error (failed [])
        have live := (same.contains id).symm.trans (contains_of_node? hnode)
        obtain ⟨slots, hslots⟩ := evaluates id live
        rw [← same.evaluate_eq, underway.evaluate_eq_inferred mirrored
          (ranked.of_sameProgram same) (deep id live) hnode
          fun p hp => fresh p (order.before done id rest rfl p hp), error] at hslots
        cases hslots
      · have skeleton := turned.sameSkeleton
        have single : ((GraphM.inferInTurn .core [id]).runOn g₁).2 = g₂ := by
          rw [run []]
          rfl
        have program : g₁.SameProgram g₂ := single ▸ sameProgram_inferInTurn [id] g₁
        have order' : g₂.Sequential ((done ++ [id]) ++ rest) := by
          simpa using order.of_sameSkeleton skeleton
        obtain ⟨n, g', later⟩ := ih (done ++ [id]) g₂ (same.trans program)
          (underway.turned mirrored order fresh turned)
          (mirrored.of_sameLinks skeleton.sameLinks) order'
          (turned.isStale_eq_false order fresh)
        exact ⟨n + m, g', by rw [run, later]; rfl⟩
  rw [GraphM.runOn_inferStale]
  exact inTurn g.order [] g (.refl g) h.toUnderway h.mirrored g.sequential_order (by simp)

theorem Resumable.current (h : g.Resumable) (fresh : ∀ id, g.isStale id = false) :
    g.Current .core :=
  fun id live => h.inStep id live (fresh id)

/-- After inference every node is up to date and has the outputs that it evaluates to. -/
theorem Resumable.evaluate_eq (h : g.Resumable)
    (run : (GraphM.inferStale .core).runOn g = (.ok n, g')) (hnode : g'.node? id = some node) :
    g.evaluate .core g.size id = .ok node.outputs := by
  have resumable := h.inferStale
  have program := sameProgram_inferStale g
  have fresh := isStale_eq_false_of_inferStale h.acyclic run
  rw [run] at resumable program
  rw [← program.evaluate_eq]
  obtain ⟨ranked, deep⟩ := h.ranked
  exact (resumable.current fresh).evaluate_eq (ranked.of_sameProgram program)
    (deep id ((program.contains id).symm.trans (contains_of_node? hnode))) hnode

end Graph

end TensorGraph
