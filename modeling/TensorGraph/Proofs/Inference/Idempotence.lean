import TensorGraph.Pass
import TensorGraph.Proofs.Graph.Atomicity
import TensorGraph.Proofs.Inference.Following
import TensorGraph.Proofs.Inference.Incremental

/-!
# Inference again

Once inference of all nodes has succeeded on a graph without cycles, it changes nothing when it runs
again: every node is in step, so that each turn gives it the outputs that it has
(`GraphM.runOn_inferInTurn_of_current`). What it answers is another matter. It tells whether an
output has changed by comparing values as numbers, and a NaN is no number that equals itself, so
that the answer is that something has changed exactly if there is a NaN in the value of an output
(`Graph.inferAll_again`).
-/

namespace TensorGraph

/-! ### Values that do not equal themselves -/

theorem Binary.numEq_self {f : BinaryFormat} (x : Binary f) : x.numEq x = !x.isNan := by
  simp [numEq]

theorem Binary.numEqList_self {f : BinaryFormat} (xs : List (Binary f)) :
    numEqList xs xs = !xs.any isNan := by
  induction xs with
  | nil => rfl
  | cons x xs ih => rw [numEqList, numEq_self, ih, List.any_cons, Bool.not_or]

/-- Is one of the elements a NaN? -/
def TensorData.hasNan : TensorData → Bool
  | f64 xs => xs.any Binary.isNan
  | f32 xs => xs.any Binary.isNan
  | i64 _ | i32 _ | u8 _ | boolean _ => false

theorem TensorData.numEq_self (data : TensorData) : data.numEq data = !data.hasNan := by
  cases data with
  | f64 xs => exact Binary.numEqList_self xs
  | f32 xs => exact Binary.numEqList_self xs
  | i64 xs => simp [numEq, hasNan]
  | i32 xs => simp [numEq, hasNan]
  | u8 xs => simp [numEq, hasNan]
  | boolean xs => simp [numEq, hasNan]

namespace Slot

/-- Is there a NaN in the value? -/
def hasNan (slot : Slot) : Bool := slot.value.any fun t => t.data.hasNan

theorem numEq_self (slot : Slot) : slot.numEq slot = !slot.hasNan := by
  simp only [numEq, hasNan, decide_true, Bool.true_and]
  cases slot.value with
  | none => rfl
  | some t => simp [Tensor.numEq, TensorData.numEq_self]

/-- Inference takes outputs for changed that stay the same exactly if there is a NaN in them. -/
theorem numEqList_self (slots : List Slot) : numEqList slots slots = !slots.any hasNan := by
  induction slots with
  | nil => rfl
  | cons slot slots ih => rw [numEqList, numEq_self, ih, List.any_cons, Bool.not_or]

end Slot

namespace Graph

variable {g : Graph} {registry : Registry} {id : NodeId} {node : Node} {ids ids' : List NodeId}

/-- Is there a NaN in the value of an output of the node? -/
def hasNanAt (g : Graph) (id : NodeId) : Bool :=
  (g.node? id).any fun node => node.outputs.any Slot.hasNan

/-- Is there a NaN in the value of an output? -/
def hasNan (g : Graph) : Bool := g.ids.any g.hasNanAt

/-! ### Marks of staleness -/

theorem mapStale_mapStale (g : Graph) (f f' : NodeId → Bool → Bool) :
    (g.mapStale f).mapStale f' = g.mapStale fun i stale => f' i (f i stale) := by
  simp only [mapStale, Arena.mapIdx_mapIdx]

/-- What is marked is the same if it is so for every node. -/
theorem mapStale_congr {f f' : NodeId → Bool → Bool}
    (h : ∀ i, g.contains i → f i (g.isStale i) = f' i (g.isStale i)) :
    g.mapStale f = g.mapStale f' := by
  have same : (g.arena.mapIdx fun i entry => { entry with stale := f i entry.stale }) =
      g.arena.mapIdx fun i entry => { entry with stale := f' i entry.stale } := by
    refine Arena.mapIdx_congr fun i entry hentry => ?_
    have hentry : g.get? i = some entry := hentry
    have kept := h i (contains_iff.2 ⟨entry, hentry⟩)
    simp only [isStale, hentry, Option.any_some] at kept
    rw [kept]
  simp only [mapStale, same]

theorem setStale_congr (h : ∀ i, g.contains i → (i ∈ ids ↔ i ∈ ids')) :
    g.setStale ids = g.setStale ids' := by
  refine mapStale_congr fun i live => ?_
  rw [Bool.eq_iff_iff]
  simp [h i live]

/-- A node that is taken off the nodes to be computed is up to date again. -/
theorem clearStale_setStale (fresh : g.isStale id = false) (out : id ∉ ids) :
    (g.setStale (id :: ids)).clearStale id = g.setStale ids := by
  rw [setStale, clearStale, mapStale_mapStale]
  refine mapStale_congr fun i _ => ?_
  by_cases e : i = id
  · subst e
    simp [fresh, out]
  · simp [e]

/-- Nothing is marked if all that reads the node is stale already. -/
theorem markReaders_eq_self (h : ∀ reader ∈ g.successors id, g.isStale reader) :
    g.markReaders id = g := by
  have marked (readers : List (NodeId × Nat)) (stale : ∀ reader ∈ readers, g.isStale reader.1) :
      readers.foldl (fun g reader => g.markStale reader.1) g = g := by
    induction readers with
    | nil => rfl
    | cons reader rest ih =>
      obtain ⟨first, later⟩ := List.forall_mem_cons.1 stale
      rw [List.foldl_cons, markStale_eq_self_iff.2 fun _ => first, ih later]
  refine marked _ fun reader hreader => ?_
  obtain ⟨slot, _, hconsumer⟩ := List.mem_flatMap.1 hreader
  obtain ⟨_, _, _, edge⟩ := mem_consumers.1 hconsumer
  exact h reader.1 (mem_successors.2 ⟨reader.2, edge⟩)

/-- A node that is stale beside others and gets the outputs that it has is no longer stale. -/
theorem update_setStale (fresh : g.isStale id = false) (out : id ∉ ids)
    (hnode : g.node? id = some node) :
    (g.setStale (id :: ids)).update id node.outputs = g.setStale ids := by
  rw [update, modifyNode_eq_self, clearStale_setStale fresh out]
  intro node' hnode'
  rw [node?_setStale, hnode] at hnode'
  obtain rfl := Option.some.inj hnode'
  rfl

/-- Nothing is marked behind a node if all that reads it is stale already. -/
theorem markReaders_setStale (behind : ∀ reader ∈ g.successors id, reader ∈ ids) :
    (g.setStale ids).markReaders id = g.setStale ids := by
  refine markReaders_eq_self fun reader edge => ?_
  have edge : reader ∈ g.successors id := edge
  obtain ⟨port, hedge⟩ := mem_successors.1 edge
  have live : g.contains reader := (g.edges_live _ hedge).2
  simp [isStale_setStale, live, behind reader edge]

theorem inStep_setStale_iff (ids : List NodeId) :
    (g.setStale ids).InStep registry id ↔ g.InStep registry id :=
  InStep.congr (node?_setStale g ids id) fun _ o _ => slot_congr (node?_setStale g ids o.node)

end Graph

/-! ### Turns of nodes in step -/

namespace GraphM

open TensorGraph.Graph

variable {registry : Registry} {g : Graph} {id : NodeId} {done todo : List NodeId}

/-- If the stale nodes are those that are still to come, a node in step keeps its outputs at its
turn and counts as changed if there is a NaN in them. -/
theorem runOn_inferInTurn_setStale (inStep : g.InStep registry id) (fresh : g.isStale id = false)
    (out : id ∉ todo) (behind : ∀ reader ∈ g.successors id, reader ∈ todo) :
    (inferInTurn registry (id :: todo)).runOn (g.setStale (id :: todo)) =
      (((inferInTurn registry todo).runOn (g.setStale todo)).1.map
          (· + if g.hasNanAt id then 1 else 0),
        ((inferInTurn registry todo).runOn (g.setStale todo)).2) := by
  obtain ⟨node, hnode, hslots⟩ := (inStep_setStale_iff (id :: todo)).2 inStep
  rw [node?_setStale] at hnode
  have stale : (g.setStale (id :: todo)).isStale id := by
    simp [isStale_setStale, contains_of_node? hnode]
  have changed : Slot.numEqList node.outputs node.outputs = !g.hasNanAt id := by
    rw [Slot.numEqList_self, hasNanAt, hnode, Option.any_some]
  rw [inferInTurn, runOn_bind, runOn_get]
  simp only [stale, if_true, runOn_bind, runOn_inferNode, node?_setStale, hnode, hslots, changed,
    Bool.not_not, update_setStale fresh out hnode]
  cases g.hasNanAt id with
  | false =>
    simp only [Bool.false_eq_true, if_false]
    rcases (inferInTurn registry todo).runOn (g.setStale todo) with ⟨_ | count, left⟩ <;> rfl
  | true =>
    simp only [if_true, runOn_bind, runOn_modify, markReaders_setStale behind]
    rcases (inferInTurn registry todo).runOn (g.setStale todo) with ⟨_ | count, left⟩ <;> rfl

/-- If all nodes are in step, inference of the last ones in the order changes nothing and counts
those with a NaN in their outputs. -/
theorem runOn_inferInTurn_of_current (current : g.Current registry)
    (fresh : ∀ i, g.isStale i = false) (order : g.Sequential (done ++ todo))
    (all : ∀ i, i ∈ done ++ todo ↔ g.contains i) :
    (inferInTurn registry todo).runOn (g.setStale todo) = (.ok (todo.countP g.hasNanAt), g) := by
  induction todo generalizing done with
  | nil =>
    rw [setStale_eq_self (by simp)]
    rfl
  | cons id rest ih =>
    have order' : g.Sequential ((done ++ [id]) ++ rest) := by simpa using order
    have out : id ∉ rest := by
      have nodup := (List.nodup_append.1 order.nodup).2.1
      exact (List.nodup_cons.1 nodup).1
    have behind : ∀ reader ∈ g.successors id, reader ∈ rest := by
      intro reader edge
      obtain ⟨port, hedge⟩ := mem_successors.1 edge
      have placed : reader ∈ (done ++ [id]) ++ rest := by
        simpa using (all reader).2 (g.edges_live _ hedge).2
      refine (List.mem_append.1 placed).resolve_left fun before => ?_
      -- what comes before the node does not read it
      have read := mem_predecessors_iff_mem_successors.2 edge
      rcases List.mem_append.1 before with before | itself
      · exact order.not_mem_before (order.mem_of_predecessor before read)
      · exact order.not_mem_predecessors (List.mem_singleton.1 itself ▸ read)
    have inStep := current id ((all id).1 (by simp))
    rw [runOn_inferInTurn_setStale inStep (fresh id) out behind,
      ih order' fun i => by simpa using all i, List.countP_cons]
    rfl

/-- If all nodes are in step, inference of all nodes changes nothing and answers whether there is a
NaN in an output. -/
theorem runOn_inferAll_of_current (current : g.Current registry)
    (fresh : ∀ i, g.isStale i = false) (acyclic : g.isCyclic = false) :
    (inferAll registry).runOn g = (.ok g.hasNan, g) := by
  have marked := SameSkeleton.setStale g g.ids
  obtain ⟨ids, horder⟩ : ∃ ids, (g.setStale g.ids).order = ids := ⟨_, rfl⟩
  have order : g.Sequential ([] ++ ids) := by
    obtain ⟨nodup, before⟩ := sequential_order (g.setStale g.ids)
    rw [horder] at nodup before
    exact ⟨nodup, before⟩
  have all (i : NodeId) : i ∈ ids ↔ g.contains i := by
    rw [← horder, ← marked.contains]
    exact ⟨contains_of_mem_order, isCyclic_eq_false_iff_forall_mem.1 (marked.isCyclic.2 acyclic) i⟩
  have stale : g.setStale g.ids = g.setStale ids :=
    setStale_congr fun i _ => by rw [mem_ids, all]
  have run : (inferStale registry).runOn (g.setStale g.ids) = (.ok (ids.countP g.hasNanAt), g) := by
    rw [runOn_inferStale, horder, stale]
    exact runOn_inferInTurn_of_current current fresh order (by simpa using all)
  have answer : decide (ids.countP g.hasNanAt > 0) = g.hasNan := by
    rw [Bool.eq_iff_iff, decide_eq_true_iff, gt_iff_lt, List.countP_pos_iff, hasNan,
      List.any_eq_true]
    simp only [all, mem_ids]
  rw [inferAll, runOn_bind, runOn_modify]
  simp only [runOn_bind, run, runOn_pure, answer]

end GraphM

/-! ### The second run -/

namespace Graph

variable {g g' : Graph} {changed update : Bool}

/-- Inference of all nodes of a graph without cycles that is run again changes nothing. It answers
that there was a change exactly if there is a NaN in the value of an output. -/
theorem inferAll_again (mirrored : g.Mirrored) (acyclic : g.isCyclic = false)
    (inferred : (Pass.shapeInference.run ⟨.core, update⟩).runOn g = (.ok changed, g')) :
    (Pass.shapeInference.run ⟨.core, update⟩).runOn g' = (.ok g'.hasNan, g') := by
  have inferred : (GraphM.inferAll .core).runOn g = (.ok changed, g') := inferred
  have same := GraphM.sameSkeleton_of_inferAll inferred
  have acyclic' := same.isCyclic.2 acyclic
  have current := current_of_inferAll Registry.steady_core inferred acyclic'
    (mirrored.of_sameLinks same.sameLinks)
  obtain ⟨n, inferred⟩ := GraphM.exists_inferStale_of_inferAll inferred
  have fresh := isStale_eq_false_of_inferStale
    ((SameSkeleton.setStale g g.ids).isCyclic.2 acyclic) inferred
  exact GraphM.runOn_inferAll_of_current current fresh acyclic'

/-- A number divided by itself. -/
def quotient (x : Binary32) : Graph :=
  (empty "f").after .core
    [.addConstant (.ofData (.f32 [x])), .makeNode { op := "Divide", inputs := [⟨0, 0⟩, ⟨0, 0⟩] }]

/-- The graph after a first run of inference. -/
def inferredQuotient (x : Binary32) : Graph :=
  ((Pass.shapeInference.run ⟨.core, false⟩).runOn (quotient x)).2

theorem inferAll_quotient_zero :
    (Pass.shapeInference.run ⟨.core, false⟩).runOn (quotient (.zero false)) =
      (.ok true, inferredQuotient (.zero false)) := by
  decide +kernel

/-- The second run answers that nothing has changed for one divided by one, but not for zero divided
by zero. -/
theorem inferAll_again_quotient :
    (Pass.shapeInference.run ⟨.core, false⟩).runOn (inferredQuotient (.ofInt 1)) =
        (.ok false, inferredQuotient (.ofInt 1)) ∧
      (Pass.shapeInference.run ⟨.core, false⟩).runOn (inferredQuotient (.zero false)) =
        (.ok true, inferredQuotient (.zero false)) := by
  have number : (inferredQuotient (.ofInt 1)).hasNan = false := by decide +kernel
  have none : (inferredQuotient (.zero false)).hasNan = true := by decide +kernel
  have inferred : (Pass.shapeInference.run ⟨.core, false⟩).runOn (quotient (.ofInt 1)) =
      (.ok false, inferredQuotient (.ofInt 1)) := by decide +kernel
  constructor
  · rw [inferAll_again (by decide +kernel) (by decide +kernel) inferred, number]
  · rw [inferAll_again (by decide +kernel) (by decide +kernel) inferAll_quotient_zero, none]

/-- The second run may report a change that there was not. -/
theorem not_forall_inferAll_again :
    ¬∀ (g : Graph) (changed : Bool) (g' : Graph), g.Mirrored → g.isCyclic = false →
      (Pass.shapeInference.run ⟨.core, false⟩).runOn g = (.ok changed, g') →
      (Pass.shapeInference.run ⟨.core, false⟩).runOn g' = (.ok false, g') := by
  intro always
  have again := always (quotient (.zero false)) true (inferredQuotient (.zero false))
    (by decide +kernel) (by decide +kernel) inferAll_quotient_zero
  have reported : (Pass.shapeInference.run ⟨.core, false⟩).runOn
      (inferredQuotient (.zero false)) = (.ok true, inferredQuotient (.zero false)) := by
    decide +kernel
  rw [reported] at again
  cases again

end Graph

end TensorGraph
