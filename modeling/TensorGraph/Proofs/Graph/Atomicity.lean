import TensorGraph.Proofs.Graph.Grounded

/-!
# Actions that fail

`GraphM.Atomic` says that an action leaves the graph as it was if it fails. The main statement is
`Graph.atomic_of_reachable`: whatever calls have led to a graph, the changes of single nodes are
atomic, but for the declaration of an output that a node lacks, which marks the node and what is
computed from it. The removal of a node that is not there changes nothing only because such a node
is read along no edge and designated nowhere; the latter is what every call keeps
(`Graph.DesignationsLive.leave`).
-/

namespace TensorGraph

namespace GraphM

/-- If the action fails on the graph, it leaves it as it was. -/
def Atomic {α : Type} (action : GraphM α) (g : Graph) : Prop :=
  ∀ e g', action.runOn g = (.error e, g') → g' = g

end GraphM

namespace Graph

variable {g g' : Graph} {id : NodeId}

/-! ### Designated nodes -/

/-- The designated nodes exist. -/
structure DesignationsLive (g : Graph) : Prop where
  parameters : ∀ id ∈ g.parameters, g.contains id
  results : ∀ id ∈ g.results, g.contains id

namespace DesignationsLive

/-- Designations stay live where no node goes. -/
theorem of_contains (h : g.DesignationsLive) (live : ∀ id, g.contains id → g'.contains id)
    (parameters : g'.parameters = g.parameters) (results : g'.results = g.results) :
    g'.DesignationsLive where
  parameters id hid := live id (h.parameters id (parameters ▸ hid))
  results id hid := live id (h.results id (results ▸ hid))

theorem of_sameSkeleton (h : g.DesignationsLive) (same : SameSkeleton g g') :
    g'.DesignationsLive :=
  h.of_contains (fun id live => by rw [same.contains, live]) same.parameters same.results

theorem insert (h : g.DesignationsLive) (node : Node) : (g.insert node).DesignationsLive :=
  h.of_contains (fun id live => by simp [contains_insert, live]) rfl rfl

/-- A node that exists may be designated. -/
theorem designate (h : g.DesignationsLive) {parameters results : List NodeId}
    (hparameters : ∀ id ∈ parameters, id ∈ g.parameters ∨ g.contains id)
    (hresults : ∀ id ∈ results, id ∈ g.results ∨ g.contains id) :
    { g with parameters, results }.DesignationsLive where
  parameters id hid := (hparameters id hid).elim (h.parameters id) fun live => live
  results id hid := (hresults id hid).elim (h.results id) fun live => live

theorem foldl_vacate (h : g.DesignationsLive) (ids : List NodeId) :
    (ids.foldl vacate g).DesignationsLive := by
  have kept {id : NodeId} {designated : List NodeId} (live : ∀ id ∈ designated, g.contains id)
      (hid : id ∈ designated.filter (· ∉ ids)) : (ids.foldl vacate g).contains id := by
    obtain ⟨hid, outside⟩ := List.mem_filter.1 hid
    rw [contains_foldl_vacate, if_neg (by simpa using outside), live id hid]
  obtain ⟨parameters, results⟩ := designated_foldl_vacate g ids
  exact ⟨fun id hid => kept h.parameters (parameters ▸ hid),
    fun id hid => kept h.results (results ▸ hid)⟩

theorem replaced (h : g.DesignationsLive) {old new : NodeId} (live : g.contains new)
    (oldName : String) (changes : List ((NodeId × Nat) × Output)) :
    (GraphM.replaced g old new oldName changes).DesignationsLive := by
  have parameters : (GraphM.replaced g old new oldName changes).parameters = g.parameters :=
    (designated_replaced changes).1
  have results : (GraphM.replaced g old new oldName changes).results =
      g.results.map (GraphM.moved old new) := (designated_replaced changes).2
  constructor
  · intro id hid
    rw [contains_replaced]
    exact h.parameters id (parameters ▸ hid)
  · intro id hid
    obtain ⟨result, hresult, rfl⟩ := List.mem_map.1 (results ▸ hid)
    rw [contains_replaced, GraphM.moved]
    split
    · exact live
    · exact h.results result hresult

/-- Whatever a call names, it leaves no designation that leads nowhere. -/
theorem leave (h : g.DesignationsLive) (registry : Registry) (call : Call) :
    (call.leave registry g).DesignationsLive := by
  have left : call.Leaves registry g (call.leave registry g) := call.leaves registry g
  generalize call.leave registry g = g' at left ⊢
  cases left with
  | refused => exact h
  | addNode node => exact h.insert node
  | addParameter =>
    refine (h.insert _).designate (fun id hid => ?_) fun id hid => .inl hid
    rcases List.mem_append.1 hid with hid | hid
    · exact .inl hid
    · exact .inr (by simp [List.mem_singleton.1 hid, contains_insert])
  | addConstant t => exact h.insert _
  | addResult =>
    refine (h.insert _).designate (fun id hid => .inl hid) fun id hid => ?_
    rcases List.mem_append.1 hid with hid | hid
    · exact .inl hid
    · exact .inr (by simp [List.mem_singleton.1 hid, contains_insert])
  | notInferred node => exact h.insert node
  | makeNode => exact (h.insert _).of_sameSkeleton (.update ..)
  | inferNode => exact h.of_sameSkeleton (.update ..)
  | setInput =>
    exact h.of_contains (fun id live => by rw [contains_rewire, live]) (by simp) (by simp)
  | replaceNode _ live => exact h.replaced live _ _
  | notDeclared o type => exact h.of_sameSkeleton (.markStale g o.node)
  | @setOutputType o type =>
    exact (h.of_sameSkeleton (.markStale g o.node)).of_sameSkeleton (.modifyOutputs _ _ _)
  | @editNode id f =>
    refine (h.of_sameSkeleton (.markStale g id)).of_contains (fun i live => ?_) rfl rfl
    rw [contains_modifyNode, live]
  | markStale id => exact h.of_sameSkeleton (.markStale g id)
  | removeNode id => exact (h.of_sameSkeleton (.markAll _ g)).foldl_vacate [id]
  | removeUnreachable => exact h.foldl_vacate g.dead
  | inferStale => exact h.of_sameSkeleton (GraphM.sameSkeleton_inferInTurn registry g.order g)

end DesignationsLive

/-- A graph that calls lead to, whatever they name and whatever operators they know. -/
inductive Reachable : Graph → Prop where
  | empty (name : String) : Reachable (.empty name)
  | leave {g : Graph} (registry : Registry) (call : Call) :
    Reachable g → Reachable (call.leave registry g)

theorem Reachable.after (h : g.Reachable) (registry : Registry) (calls : List Call) :
    (g.after registry calls).Reachable := by
  induction calls generalizing g with
  | nil => exact h
  | cons call rest ih => exact ih (.leave registry call h)

theorem Reachable.designationsLive (h : g.Reachable) : g.DesignationsLive := by
  induction h with
  | empty name => exact ⟨(linked_empty name).parameters_live, (linked_empty name).results_live⟩
  | leave registry call _ ih => exact ih.leave registry call

/-! ### Changes that change nothing -/

/-- A node that is missing leaves no trace when it is removed. -/
theorem DesignationsLive.removed_eq_self (h : g.DesignationsLive)
    (missing : g.contains id = false) : GraphM.removed g id = g := by
  have elsewhere {i : NodeId} (live : g.contains i) : i ≠ id := by
    rintro rfl
    simp [missing] at live
  have unread : g.successors id = [] := by
    refine List.eq_nil_iff_forall_not_mem.2 fun i hi => ?_
    obtain ⟨port, hedge⟩ := mem_successors.1 hi
    exact elsewhere (g.edges_live _ hedge).1 rfl
  have arena : g.arena.remove id = g.arena := by
    rw [Arena.remove, dif_neg]
    simpa [contains, get?] using missing
  have edges : g.edges.filter (fun edge => !(edge.source = id || edge.target = id)) = g.edges := by
    refine List.filter_eq_self.2 fun edge hedge => ?_
    obtain ⟨source, target⟩ := g.edges_live edge hedge
    simp [elsewhere source, elsewhere target]
  have designated {ids : List NodeId} (live : ∀ i ∈ ids, g.contains i) :
      ids.filter (· ≠ id) = ids :=
    List.filter_eq_self.2 fun i hi => by simpa using elsewhere (live i hi)
  rw [GraphM.removed, unread, List.foldl_nil]
  simp only [vacate, arena, edges, designated h.parameters, designated h.results]

theorem setStale_eq_self {ids : List NodeId} (h : ∀ i ∈ ids, g.isStale i) :
    g.setStale ids = g := by
  have arena : (g.setStale ids).arena = g.arena := by
    refine Arena.mapIdx_eq_self fun i entry hentry => ?_
    have marked : (entry.stale || ids.contains i) = entry.stale := by
      rw [Bool.or_eq_left_iff_imp, List.contains_iff_mem]
      intro hi
      simpa [isStale, show g.get? i = some entry from hentry] using h i hi
    simp only [marked]
  cases g
  simp_all [setStale, mapStale]

/-- Marking changes nothing exactly if there is nothing to mark or the node is stale already. -/
theorem markStale_eq_self_iff : g.markStale id = g ↔ (g.contains id → g.isStale id) := by
  constructor
  · intro same live
    rw [← same]
    exact isStale_markStale_self live
  · intro h
    rw [markStale]
    split
    · next live =>
      refine setStale_eq_self fun i hi => mem_staleIds.1 ?_
      rcases mem_dependents.1 hi with stale | ⟨w, hw, walk⟩
      · exact stale
      · -- nothing is marked behind a node that is stale already
        obtain rfl := List.mem_singleton.1 hw
        cases walk <;> exact absurd (mem_staleIds.2 (h live)) ‹_›
    · rfl

end Graph

/-! ### Actions -/

namespace GraphM

variable {α : Type} {action : GraphM α} {g g' : Graph} {o : Output} {type : SlotType} {e : Error}

/-- An action is atomic that fails before it changes anything or succeeds. -/
theorem atomic_of_or (h : (∃ e, action.runOn g = (.error e, g)) ∨
    ∃ a g', action.runOn g = (.ok a, g')) : action.Atomic g := by
  intro e g' run
  rcases h with ⟨e', failed⟩ | ⟨a, g'', done⟩
  · exact (Prod.mk.inj (run.symm.trans failed)).2
  · simp [done] at run

theorem Atomic.runOn_eq (h : action.Atomic g) (failed : (action.runOn g).1 = .error e) :
    action.runOn g = (.error e, g) := by
  have run : action.runOn g = (.error e, (action.runOn g).2) := Prod.ext failed rfl
  rw [run, h e _ run]

theorem atomic_addResult (source : Output) (g : Graph) : (addResult source).Atomic g := by
  apply atomic_of_or
  rw [runOn_addResult]
  cases g.slot source with
  | error e => exact .inl ⟨e, rfl⟩
  | ok slot => exact .inr ⟨_, _, rfl⟩

theorem atomic_setInput (id : NodeId) (port : Nat) (source : Output) (g : Graph) :
    (setInput id port source).Atomic g := by
  apply atomic_of_or
  rw [runOn_setInput]
  cases g.node? id with
  | none => exact .inl ⟨_, rfl⟩
  | some node =>
    by_cases bound : port < node.inputs.length
    · exact .inr ⟨(), _, if_pos bound⟩
    · exact .inl ⟨_, if_neg bound⟩

theorem atomic_replaceNode (old new : NodeId) (g : Graph) : (replaceNode old new).Atomic g := by
  apply atomic_of_or
  rcases runOn_replaceNode old new g with ⟨e, failed⟩ | ⟨_, _, _, _, _, done⟩
  · exact .inl ⟨e, failed⟩
  · exact .inr ⟨(), _, done⟩

theorem atomic_inferNode (registry : Registry) (id : NodeId) (g : Graph) :
    (inferNode registry id).Atomic g := by
  apply atomic_of_or
  rw [runOn_inferNode]
  cases g.node? id with
  | none => exact .inl ⟨_, rfl⟩
  | some node =>
    cases hslots : g.inferred registry node with
    | error e => exact .inl ⟨e, by simp only [hslots]⟩
    | ok slots =>
      simp only [hslots]
      exact .inr ⟨_, _, rfl⟩

theorem atomic_removeNode (h : g.DesignationsLive) (id : NodeId) : (removeNode id).Atomic g := by
  apply atomic_of_or
  rw [runOn_removeNode]
  cases hentry : g.get? id with
  | none => exact .inl ⟨_, by rw [h.removed_eq_self (by simp [Graph.contains, hentry])]⟩
  | some entry => exact .inr ⟨entry, _, rfl⟩

/-- A declaration that fails has marked the node, if there is one. -/
theorem eq_markStale_of_setOutputType (failed : (setOutputType o type).runOn g = (.error e, g')) :
    g' = g.markStale o.node := by
  rw [runOn_setOutputType] at failed
  cases hnode : g.node? o.node with
  | none =>
    rw [hnode] at failed
    have missing := Graph.node?_eq_none_iff.1 hnode
    rw [← (Prod.mk.inj failed).2, Graph.markStale, if_neg (by simp [missing])]
  | some node =>
    simp only [hnode] at failed
    split at failed
    · cases failed
    · exact (Prod.mk.inj failed).2.symm

theorem exists_runOn_setOutputType_iff :
    (∃ e g', (setOutputType o type).runOn g = (.error e, g')) ↔ ¬∃ slot, g.slot o = .ok slot := by
  rw [Graph.exists_slot_eq_ok_iff, runOn_setOutputType]
  cases g.node? o.node with
  | none => simp
  | some node => by_cases bound : o.slot < node.outputs.length <;> simp [bound]

/-- A declaration is atomic unless it marks a node that lacks the output. -/
theorem atomic_setOutputType_iff :
    (setOutputType o type).Atomic g ↔
      (g.contains o.node → (∃ slot, g.slot o = .ok slot) ∨ g.isStale o.node) := by
  have fails : (∃ e g', (setOutputType o type).runOn g = (.error e, g')) ↔
    ¬∃ slot, g.slot o = .ok slot := exists_runOn_setOutputType_iff
  constructor
  · intro atomic live
    by_contra! ⟨missing, fresh⟩
    obtain ⟨e, g', failed⟩ := fails.2 (not_exists.2 missing)
    have same := (eq_markStale_of_setOutputType failed).symm.trans (atomic e g' failed)
    exact fresh (Graph.markStale_eq_self_iff.1 same live)
  · intro h e g' failed
    rw [eq_markStale_of_setOutputType failed, Graph.markStale_eq_self_iff]
    exact fun live => (h live).resolve_left (fails.1 ⟨e, g', failed⟩)

end GraphM

namespace Graph

variable {g : Graph}

/-- What fails leaves the graph as it was, whatever calls have led to it, but for the declaration of
an output that its node lacks: this one marks the node, if that is not stale already. -/
theorem atomic_of_reachable (reachable : g.Reachable) :
    (∀ source, (GraphM.addResult source).Atomic g) ∧
      (∀ id port source, (GraphM.setInput id port source).Atomic g) ∧
      (∀ old new, (GraphM.replaceNode old new).Atomic g) ∧
      (∀ id, (GraphM.removeNode id).Atomic g) ∧
      (∀ registry id, (GraphM.inferNode registry id).Atomic g) ∧
      ∀ o type,
        (∀ e g', (GraphM.setOutputType o type).runOn g = (.error e, g') →
          g' = g.markStale o.node) ∧
        ((GraphM.setOutputType o type).Atomic g ↔
          (g.contains o.node → (∃ slot, g.slot o = .ok slot) ∨ g.isStale o.node)) := by
  refine ⟨?_, ?_, ?_, ?_, ?_, ?_⟩
  · exact fun source => GraphM.atomic_addResult source g
  · exact fun id port source => GraphM.atomic_setInput id port source g
  · exact fun old new => GraphM.atomic_replaceNode old new g
  · exact fun id => GraphM.atomic_removeNode reachable.designationsLive id
  · exact fun registry id => GraphM.atomic_inferNode registry id g
  · exact fun o type => ⟨fun _ _ => GraphM.eq_markStale_of_setOutputType,
      GraphM.atomic_setOutputType_iff⟩

/-- A node that another one and an output of the graph read; the outputs of that other one are still
to be computed. -/
def halfComputed : List Call :=
  [.addParameter "x" ⟨.f32, .ofExtents [2]⟩, .makeNode { op := "Relu", inputs := [⟨0, 0⟩] },
    .addNode { op := "Ceiling", inputs := [⟨1, 0⟩] }, .addResult ⟨1, 0⟩]

theorem atomic_halfComputed :
    ((empty "f").after .core halfComputed).Reachable ∧
      (GraphM.replaceNode 1 2).runOn ((empty "f").after .core halfComputed) =
        (.error (.structural (.replacementTooNarrow 1 0 2 0)),
          (empty "f").after .core halfComputed) ∧
      (GraphM.removeNode 7).runOn ((empty "f").after .core halfComputed) =
        (.error (.structural (.nodeMissing 7)), (empty "f").after .core halfComputed) ∧
      (GraphM.setOutputType ⟨2, 0⟩ ⟨.f32, .ofExtents [2]⟩).runOn
          ((empty "f").after .core halfComputed) =
        (.error (.structural (.outputMissing 2 0)), (empty "f").after .core halfComputed) := by
  have reachable : ((empty "f").after .core halfComputed).Reachable :=
    (Reachable.empty "f").after .core halfComputed
  obtain ⟨_, _, replacing, removing, _, declaring⟩ := atomic_of_reachable reachable
  have stale : ((empty "f").after .core halfComputed).isStale 2 := by decide +kernel
  exact ⟨reachable, (replacing 1 2).runOn_eq (by decide +kernel),
    (removing 7).runOn_eq (by decide +kernel),
    ((declaring ⟨2, 0⟩ _).2.2 fun _ => .inr stale).runOn_eq (by decide +kernel)⟩

/-- Not every declaration that fails leaves the graph as it was: here it marks a parameter that was
up to date. -/
theorem not_forall_atomic :
    ¬∀ g : Graph, g.Reachable → ∀ o type, (GraphM.setOutputType o type).Atomic g := by
  intro h
  have reachable := (Reachable.empty "f").after .core
    [.addParameter "x" ⟨.f32, .ofExtents [2]⟩, .inferNode 0]
  have atomic := h _ reachable ⟨0, 1⟩ ⟨.f32, .ofExtents [2]⟩
  rcases GraphM.atomic_setOutputType_iff.1 atomic (by decide +kernel) with found | stale
  · exact absurd found (by decide +kernel)
  · exact absurd stale (by decide +kernel)

end Graph

end TensorGraph
