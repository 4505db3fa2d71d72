import TensorGraph.Proofs.Graph.Replacement
import TensorGraph.Proofs.Graph.Validity
import TensorGraph.Proofs.Inference.Turns

/-!
# Growth of a graph

A graph grows by nodes that are made one after the other, each reading the given sources or nodes
made before it. `Graph.Grown` says what has become of the graph then: the old nodes are as they
were, and the new ones are in step. An old node that reads the sources may be made to read a new
node instead; that closes no cycle (`Graph.Grown.isCyclic_rewire`).
-/

namespace TensorGraph.Graph

variable {registry : Registry} {sources : List NodeId} {plan : List (NodeId × Node)}
  {g g₁ g₂ : Graph} {id i : NodeId} {port : Nat} {node full : Node} {o : Output}

/-- The graph has grown from another one by the nodes of a plan, in its order. -/
structure Grown (registry : Registry) (sources : List NodeId) (plan : List (NodeId × Node))
    (g g₁ : Graph) : Prop where
  node?_old : ∀ id, g.contains id → g₁.node? id = g.node? id
  isStale_old : ∀ id, g.contains id → g₁.isStale id = g.isStale id
  contains : ∀ id, g₁.contains id ↔ g.contains id ∨ id ∈ plan.map Prod.fst
  apart : ∀ id ∈ plan.map Prod.fst, g.contains id = false
  nodup : (plan.map Prod.fst).Nodup
  planted : ∀ p ∈ plan, (g₁.node? p.1).map Node.bare = some p.2
  inStep : ∀ p ∈ plan, g₁.InStep registry p.1
  fresh : ∀ p ∈ plan, p.2.op ≠ "Constant" → g₁.isStale p.1 = false
  /-- A new node reads the sources and what was made before it. -/
  reads : ∀ before p after, plan = before ++ p :: after →
    ∀ o ∈ p.2.inputs, o.node ∈ sources ∨ o.node ∈ before.map Prod.fst
  wired : g.Wired → g₁.Wired
  parameters : g₁.parameters = g.parameters
  results : g₁.results = g.results

namespace Grown

theorem refl (registry : Registry) (sources : List NodeId) (g : Graph) :
    Grown registry sources [] g g where
  node?_old _ _ := rfl
  isStale_old _ _ := rfl
  contains := by simp
  apart := by simp
  nodup := .nil
  planted := by simp
  inStep := by simp
  fresh := by simp
  reads := by simp
  wired := id
  parameters := rfl
  results := rfl

theorem contains_of_reads (h : Grown registry sources plan g g₁)
    (live : ∀ s ∈ sources, g.contains s) {s : NodeId}
    (reads : s ∈ sources ∨ s ∈ plan.map Prod.fst) : g₁.contains s :=
  (h.contains s).2 (reads.imp_left (live s))

theorem exists_node? (h : Grown registry sources plan g g₁) {p : NodeId × Node} (hp : p ∈ plan) :
    ∃ node, g₁.node? p.1 = some node ∧ node.bare = p.2 :=
  Option.map_eq_some_iff.1 (h.planted p hp)

/-- What a new node reads exists. -/
theorem contains_of_input? (h : Grown registry sources plan g g₁)
    (live : ∀ s ∈ sources, g.contains s) {p : NodeId × Node} (hp : p ∈ plan)
    (hread : g₁.input? p.1 port = some o) : g₁.contains o.node := by
  obtain ⟨node, hnode, bare⟩ := h.exists_node? hp
  obtain ⟨before, after, split⟩ := List.append_of_mem hp
  rw [input?_eq hnode] at hread
  have mem : o ∈ p.2.inputs := bare ▸ (List.mem_of_getElem? hread : o ∈ node.inputs)
  apply h.contains_of_reads live
  refine (h.reads before p after split o mem).imp_right fun hmem => ?_
  rw [split, List.map_append]
  exact List.mem_append_left _ hmem

theorem inputsLive (h : Grown registry sources plan g g₁) (live : ∀ s ∈ sources, g.contains s)
    (reads : g.InputsLive) : g₁.InputsLive := by
  intro i port o hread
  rcases (h.contains i).1 (Graph.contains_of_input? hread) with old | new
  · rw [input?, h.node?_old i old] at hread
    exact (h.contains _).2 (.inl (reads i port o hread))
  · obtain ⟨p, hp, rfl⟩ := List.mem_map.1 new
    exact h.contains_of_input? live hp hread

theorem contains_nextId_eq_false (h : Grown registry sources plan g g₁) :
    g.contains g₁.nextId = false := by
  by_contra old
  simpa [contains_nextId] using (h.contains g₁.nextId).2 (.inl (by simpa using old))

theorem nextId_not_mem (h : Grown registry sources plan g g₁) :
    g₁.nextId ∉ plan.map Prod.fst := fun new => by
  simpa [contains_nextId] using (h.contains g₁.nextId).2 (.inr new)

/-- One more node, which is in step as soon as it is there. -/
theorem step (h : Grown registry sources plan g g₁) (live : ∀ s ∈ sources, g.contains s)
    (reads : ∀ o ∈ node.inputs, o.node ∈ sources ∨ o.node ∈ plan.map Prod.fst)
    (same : (g₁.insert node).SameSkeleton g₂) (new : g₂.node? g₁.nextId = some full)
    (inferred : (g₁.insert node).inferred registry full = .ok full.outputs)
    (fresh : node.op ≠ "Constant" → g₂.isStale g₁.nextId = false)
    (old : ∀ i, i ≠ g₁.nextId → g₂.node? i = g₁.node? i ∧ g₂.isStale i = g₁.isStale i) :
    Grown registry sources (plan ++ [(g₁.nextId, node.bare)]) g g₂ := by
  have kept (i : NodeId) (hi : g₁.contains i) := old i (ne_nextId hi)
  have kept_old (i : NodeId) (hi : g.contains i) := kept i ((h.contains i).2 (.inl hi))
  have kept_plan (p : NodeId × Node) (hp : p ∈ plan) :=
    kept p.1 ((h.contains p.1).2 (.inr (List.mem_map_of_mem hp)))
  have bare : full.bare = node.bare := by
    have skeleton := same.bare g₁.nextId
    rw [new, node?_insert, if_pos rfl] at skeleton
    exact Option.some.inj skeleton
  have live_reads : ∀ o ∈ node.inputs, g₁.contains o.node := fun o ho =>
    h.contains_of_reads live (reads o ho)
  constructor
  case node?_old =>
    intro i hi
    rw [(kept_old i hi).1, h.node?_old i hi]
  case isStale_old =>
    intro i hi
    rw [(kept_old i hi).2, h.isStale_old i hi]
  case contains =>
    intro i
    rw [same.contains, contains_insert, List.map_append, List.mem_append, ← or_assoc, ← h.contains]
    by_cases e : i = g₁.nextId <;> simp [e]
  case apart =>
    intro i hi
    rw [List.map_append] at hi
    rcases List.mem_append.1 hi with hi | hi
    · exact h.apart i hi
    · obtain rfl := List.mem_singleton.1 hi
      exact h.contains_nextId_eq_false
  case nodup =>
    rw [List.map_append]
    exact h.nodup.append (List.nodup_singleton _) (List.disjoint_singleton.2 h.nextId_not_mem)
  case planted =>
    intro p hp
    rcases List.mem_append.1 hp with hp | hp
    · rw [(kept_plan p hp).1, h.planted p hp]
    · obtain rfl := List.mem_singleton.1 hp
      rw [new, Option.map_some, bare]
  case inStep =>
    intro p hp
    rcases List.mem_append.1 hp with hp | hp
    · refine (InStep.congr (kept_plan p hp).1 fun port o hread => ?_).2 (h.inStep p hp)
      exact slot_congr (kept o.node (h.contains_of_input? live hp hread)).1
    · obtain rfl := List.mem_singleton.1 hp
      refine ⟨full, new, ?_⟩
      rw [← inferred]
      apply inferred_congr
      intro o ho
      have hi := live_reads o ((congrArg Node.inputs bare : full.bare.inputs = _) ▸ ho)
      rw [slot_congr (kept o.node hi).1, slot_congr (node?_insert_of_contains hi node)]
  case fresh =>
    intro p hp computed
    rcases List.mem_append.1 hp with hp | hp
    · rw [(kept_plan p hp).2, h.fresh p hp computed]
    · obtain rfl := List.mem_singleton.1 hp
      exact fresh computed
  case reads =>
    intro before p after split
    rcases List.eq_nil_or_concat' after with rfl | ⟨after, last, rfl⟩
    · obtain ⟨rfl, e⟩ := List.append_inj' split rfl
      obtain rfl := List.singleton_inj.1 e
      exact reads
    · rw [← List.cons_append, ← List.append_assoc] at split
      exact h.reads before p after (List.append_inj' split rfl).1
  case wired =>
    intro wired
    exact ((h.wired wired).insert live_reads).of_sameLinks same.sameLinks
  case parameters => exact same.parameters.trans h.parameters
  case results => exact same.results.trans h.results

/-- A node is made. -/
theorem make (h : Grown registry sources plan g g₁) (steady : registry.Steady)
    (live : ∀ s ∈ sources, g.contains s)
    (made : (GraphM.makeNode registry node).runOn g₁ = (.ok id, g₂))
    (reads : ∀ o ∈ node.inputs, o.node ∈ sources ∨ o.node ∈ plan.map Prod.fst) :
    Grown registry sources (plan ++ [(id, node.bare)]) g g₂ := by
  rw [GraphM.runOn_makeNode] at made
  cases hslots : (g₁.insert node).inferred registry node with
  | error e => simp [hslots] at made
  | ok slots =>
    simp only [hslots, Prod.mk.injEq, Except.ok.injEq] at made
    obtain ⟨rfl, rfl⟩ := made
    have new : ((g₁.insert node).update g₁.nextId slots).node? g₁.nextId =
        some { node with outputs := slots } := by
      rw [node?_update, if_pos rfl, node?_insert, if_pos rfl]
      rfl
    apply h.step live reads (SameSkeleton.update ..) new (inferred_eq_ok_of_steady steady hslots)
      fun _ => by simp [isStale_update]
    intro i other
    rw [node?_update, if_neg other, node?_insert, if_neg other, isStale_update, isStale_insert,
      if_neg other]
    simp [other]

/-- A constant is made. -/
theorem constant (h : Grown .core sources plan g g₁) (live : ∀ s ∈ sources, g.contains s)
    {t : Tensor} (made : (GraphM.addConstant t).runOn g₁ = (.ok id, g₂)) :
    Grown .core sources (plan ++ [(id, (GraphM.constantNode t).bare)]) g g₂ := by
  rw [GraphM.runOn_addConstant, Prod.mk.injEq, Except.ok.injEq] at made
  obtain ⟨rfl, rfl⟩ := made
  have new : (g₁.insert (GraphM.constantNode t)).node? g₁.nextId =
      some (GraphM.constantNode t) := by
    rw [node?_insert, if_pos rfl]
  apply h.step live (by simp [GraphM.constantNode]) (.refl _) new rfl
    fun computed => absurd rfl computed
  intro i other
  rw [node?_insert, if_neg other, isStale_insert, if_neg other]
  exact ⟨rfl, rfl⟩

/-! ### Cycles -/

/-- What a new node reads comes from the sources or was made before it. -/
theorem idxOf_lt_idxOf (h : Grown registry sources plan g g₁) (hid : id ∈ plan.map Prod.fst)
    (hread : g₁.input? id port = some o) :
    o.node ∈ sources ∨
      (plan.map Prod.fst).idxOf o.node < (plan.map Prod.fst).idxOf id := by
  obtain ⟨p, hp, rfl⟩ := List.mem_map.1 hid
  obtain ⟨node, hnode, bare⟩ := h.exists_node? hp
  obtain ⟨before, after, split⟩ := List.append_of_mem hp
  rw [input?_eq hnode] at hread
  have mem : o ∈ p.2.inputs := bare ▸ (List.mem_of_getElem? hread : o ∈ node.inputs)
  refine (h.reads before p after split o mem).imp_right fun earlier => ?_
  have ids : plan.map Prod.fst = before.map Prod.fst ++ p.1 :: after.map Prod.fst := by
    rw [split, List.map_append, List.map_cons]
  rw [ids]
  exact idxOf_lt_idxOf_of_mem (ids ▸ h.nodup) earlier

/-- A rank under which new nodes go right below an old one, in their order. -/
def rankBelow (g : Graph) (rank : NodeId → Nat) (id : NodeId) (ids : List NodeId) (i : NodeId) :
    Nat :=
  if g.contains i then (ids.length + 1) * (rank i + 1)
  else (ids.length + 1) * rank id + 1 + ids.idxOf i

section

variable {rank : NodeId → Nat} {ids : List NodeId} {j : NodeId}

theorem rankBelow_old (hi : g.contains i) :
    rankBelow g rank id ids i = (ids.length + 1) * (rank i + 1) := if_pos hi

theorem rankBelow_new (hi : g.contains i = false) :
    rankBelow g rank id ids i = (ids.length + 1) * rank id + 1 + ids.idxOf i :=
  if_neg (by simp [hi])

/-- The old nodes keep their order. -/
theorem rankBelow_lt_of_lt (hi : g.contains i) (hj : g.contains j) (lt : rank i < rank j) :
    rankBelow g rank id ids i < rankBelow g rank id ids j := by
  rw [rankBelow_old hi, rankBelow_old hj]
  exact Nat.mul_lt_mul_of_pos_left (Nat.succ_lt_succ lt) (Nat.succ_pos _)

/-- The new nodes go above what is below the old one. -/
theorem rankBelow_old_lt_new (hi : g.contains i) (hj : g.contains j = false)
    (lt : rank i < rank id) : rankBelow g rank id ids i < rankBelow g rank id ids j := by
  have le : (ids.length + 1) * (rank i + 1) ≤ (ids.length + 1) * rank id :=
    Nat.mul_le_mul_left _ lt
  rw [rankBelow_old hi, rankBelow_new hj]
  omega

/-- The new nodes go below the old one. -/
theorem rankBelow_new_lt_old (hi : g.contains i = false) (mem : i ∈ ids) (hid : g.contains id) :
    rankBelow g rank id ids i < rankBelow g rank id ids id := by
  have bound := List.idxOf_lt_length_of_mem mem
  rw [rankBelow_new hi, rankBelow_old hid, Nat.mul_succ]
  omega

end

/-- An old node that reads the sources may be made to read a new node. -/
theorem isCyclic_rewire (h : Grown registry sources plan g g₁) (wired : g.Wired)
    (acyclic : g.isCyclic = false) (live : ∀ s ∈ sources, g.contains s)
    (hid : ∀ s ∈ sources, s ∈ g.predecessors id) (old : g.contains id)
    (new : o.node ∈ plan.map Prod.fst) :
    (g₁.rewire id port o).isCyclic = false := by
  obtain ⟨rank, up⟩ := isCyclic_eq_false_iff.1 acyclic
  have wired₁ := h.wired wired
  -- the new nodes go between the sources and the node that reads them
  refine isCyclic_eq_false_iff.2
    ⟨rankBelow g rank id (plan.map Prod.fst), fun edge hedge => ?_⟩
  rcases mem_edges_rewire.1 hedge with ⟨hedge, -⟩ | ⟨-, rfl⟩
  · obtain ⟨-, hread⟩ := (wired₁.mem_edges edge).1 hedge
    obtain ⟨o', ho', source⟩ := Option.map_eq_some_iff.1 hread
    rw [← source]
    rcases (h.contains _).1 (g₁.edges_live edge hedge).2 with target | target
    · -- an edge between old nodes was there before
      have before : g.input? edge.target edge.port = some o' := by
        rw [← ho', input?, input?, h.node?_old _ target]
      have oldSource := wired.inputs_live _ _ _ before
      apply rankBelow_lt_of_lt oldSource target
      refine up ⟨o'.node, edge.target, edge.port⟩ ((wired.mem_edges _).2 ⟨oldSource, ?_⟩)
      rw [before, Option.map_some]
    · rcases h.idxOf_lt_idxOf target ho' with hsource | earlier
      · obtain ⟨p, hedge⟩ := mem_predecessors.1 (hid _ hsource)
        exact rankBelow_old_lt_new (live _ hsource) (h.apart _ target) (up _ hedge)
      · have hsource : o'.node ∈ plan.map Prod.fst := by
          have bound := List.idxOf_lt_length_of_mem target
          exact List.idxOf_lt_length_iff.1 (earlier.trans bound)
        rw [rankBelow_new (h.apart _ hsource), rankBelow_new (h.apart _ target)]
        exact Nat.add_lt_add_left earlier _
  · exact rankBelow_new_lt_old (h.apart _ new) new old

end Grown

end TensorGraph.Graph
