import TensorGraph.Inference
import TensorGraph.Proofs.Graph.Actions
import TensorGraph.Proofs.Graph.Order
import TensorGraph.Proofs.Operators.Steady

/-!
# Turns of the inference

Inference takes the nodes in turn. A node that is stale when its turn comes gets the outputs that
its operator computes; one that is not is passed over. `Graph.InStep` means that the outputs of a
node are the ones that its operator would compute now. In a list that names producers before
consumers a node that has had its turn keeps its outputs and what it reads, so that what holds at
its turn holds in the end.
-/

namespace TensorGraph

namespace Graph

variable {g g' : Graph} {registry : Registry} {id i : NodeId} {node : Node} {slots : List Slot}

/-- The outputs of the node in a place are those that its operator computes from what it reads. -/
def InStep (registry : Registry) (g : Graph) (id : NodeId) : Prop :=
  ∃ node, g.node? id = some node ∧ g.inferred registry node = .ok node.outputs

/-- Every node is in step. -/
def Current (registry : Registry) (g : Graph) : Prop :=
  ∀ id, g.contains id → g.InStep registry id

/-- What an operator computes depends on the slots that its node reads only. -/
theorem inferred_congr (registry : Registry) (node : Node)
    (h : ∀ o ∈ node.inputs, g'.slot o = g.slot o) :
    g'.inferred registry node = g.inferred registry node := by
  have site : g'.site node = g.site node := congrArg (Site.mk node) (List.map_congr_left h)
  rw [inferred, inferred, site]

/-- What is computed for a node that is not a parameter does not depend on its outputs. -/
theorem inferred_eq_of_bare {node' : Node} (other : node.op ≠ "Parameter")
    (same : node'.bare = node.bare) : g.inferred .core node' = g.inferred .core node := by
  obtain ⟨outputs, rfl⟩ : ∃ outputs, node' = { node with outputs } := by
    refine ⟨node'.outputs, ?_⟩
    cases node
    cases node'
    simpa [Node.bare] using same
  simp only [inferred]
  cases found : Registry.core.find? node.op with
  | none => rfl
  | some operator =>
    obtain ⟨mem, name⟩ := Registry.mem_core_of_find? found
    rcases Operator.blind_of_mem_core mem with rfl | blind
    · exact absurd name.symm other
    · exact blind node _ _

/-- A node that already has the outputs that are computed for it gets them again. -/
theorem inferred_eq_ok_of_steady (steady : registry.Steady)
    (h : g.inferred registry node = .ok slots) :
    g.inferred registry { node with outputs := slots } = .ok slots := by
  simp only [inferred] at h ⊢
  cases found : registry.find? node.op with
  | none => simp [found] at h
  | some operator =>
    rw [found] at h
    exact steady node.op operator found node _ slots h

theorem InStep.congr (hnode : g'.node? id = g.node? id)
    (reads : ∀ port o, g.input? id port = some o → g'.slot o = g.slot o) :
    g'.InStep registry id ↔ g.InStep registry id := by
  simp only [InStep]
  rw [hnode]
  apply exists_congr
  intro node
  apply and_congr_right
  intro h
  have same : g'.inferred registry node = g.inferred registry node := by
    apply inferred_congr registry node
    intro o ho
    obtain ⟨port, hport⟩ := exists_port_of_mem h ho
    exact reads port o hport
  rw [same]

/-- Nodes in step that read the same have the same outputs, unless these are declared. -/
theorem InStep.outputs_eq {node' : Node} (h : g.InStep .core id) (h' : g'.InStep .core id)
    (hnode : g.node? id = some node) (hnode' : g'.node? id = some node')
    (other : node.op ≠ "Parameter") (bare : node'.bare = node.bare)
    (reads : ∀ o ∈ node.inputs, g'.slot o = g.slot o) : node'.outputs = node.outputs := by
  obtain ⟨current, hcurrent, inferred⟩ := h
  obtain ⟨current', hcurrent', inferred'⟩ := h'
  obtain rfl := Option.some.inj (hnode.symm.trans hcurrent)
  obtain rfl := Option.some.inj (hnode'.symm.trans hcurrent')
  rw [inferred_eq_of_bare other bare, inferred_congr .core node reads, inferred] at inferred'
  exact (Except.ok.inj inferred').symm

theorem slot_congr {o : Output} (h : g'.node? o.node = g.node? o.node) : g'.slot o = g.slot o := by
  rw [slot, slot, Graph.node, Graph.node, h]

/-! ### Marking the readers of a node -/

section

variable {α : Type} {f : α → NodeId} {mark : α} {marks : List α}

theorem isStale_foldl_markStale_of_isStale (h : g.isStale i) (f : α → NodeId) (marks : List α) :
    (marks.foldl (fun g mark => g.markStale (f mark)) g).isStale i := by
  induction marks generalizing g with
  | nil => exact h
  | cons mark rest ih => exact ih (isStale_markStale_of_isStale h (f mark))

theorem isStale_foldl_markStale_of_mem (f : α → NodeId) (h : mark ∈ marks)
    (live : g.contains (f mark)) :
    (marks.foldl (fun g mark => g.markStale (f mark)) g).isStale (f mark) := by
  induction marks generalizing g with
  | nil => cases h
  | cons first rest ih =>
    rcases List.mem_cons.1 h with rfl | h
    · exact isStale_foldl_markStale_of_isStale (isStale_markStale_self live) f rest
    · exact ih h (by simpa using live)

theorem isStale_foldl_markStale_of_edge {p : NodeId}
    (h : (marks.foldl (fun g mark => g.markStale (f mark)) g).isStale p)
    (fresh : g.isStale p = false) (edge : i ∈ g.successors p) :
    (marks.foldl (fun g mark => g.markStale (f mark)) g).isStale i := by
  induction marks generalizing g with
  | nil => simp [fresh] at h
  | cons first rest ih =>
    cases marked : (g.markStale (f first)).isStale p with
    | true =>
      exact isStale_foldl_markStale_of_isStale (isStale_markStale_of_edge marked fresh edge) f rest
    | false =>
      refine ih h marked ?_
      rwa [successors, edges_markStale, ← successors]

theorem exists_walk_of_isStale_foldl_markStale
    (h : (marks.foldl (fun g mark => g.markStale (f mark)) g).isStale i) :
    g.isStale i ∨ ∃ mark ∈ marks, Walk g.successors [] (f mark) i := by
  induction marks generalizing g with
  | nil => exact .inl h
  | cons first rest ih =>
    rcases ih h with stale | ⟨mark, hmark, walk⟩
    · rcases isStale_of_isStale_markStale stale with stale | ⟨_, walk⟩
      · exact .inl stale
      · exact .inr ⟨first, List.mem_cons_self, walk⟩
    · have same : (g.markStale (f first)).successors = g.successors := by
        funext
        simp [successors]
      exact .inr ⟨mark, List.mem_cons_of_mem _ hmark, same ▸ walk⟩

end

theorem node?_markReaders (g : Graph) (id i : NodeId) :
    (g.markReaders id).node? i = g.node? i :=
  node?_foldl_markStale Prod.fst _ g i

theorem isStale_markReaders_of_isStale (h : g.isStale i) (id : NodeId) :
    (g.markReaders id).isStale i :=
  isStale_foldl_markStale_of_isStale h Prod.fst _

/-- What reads an output of the node that exists is marked. -/
theorem isStale_markReaders_of_input? (mirrored : g.Mirrored) (hnode : g.node? id = some node)
    {port : Nat} {o : Output} (hread : g.input? i port = some o) (source : o.node = id)
    (bound : o.slot < node.outputs.length) : (g.markReaders id).isStale i := by
  have live : g.contains o.node := source ▸ contains_of_node? hnode
  have consumer : (i, port) ∈ g.consumers ⟨id, o.slot⟩ := by
    obtain ⟨_, slot⟩ := o
    obtain rfl : _ = id := source
    exact (mirrored.mem_consumers live).2 hread
  simp only [markReaders]
  rw [hnode]
  have marked : (i, port) ∈ (List.range node.outputs.length).flatMap fun slot =>
      g.consumers ⟨id, slot⟩ :=
    List.mem_flatMap.2 ⟨o.slot, List.mem_range.2 bound, consumer⟩
  exact isStale_foldl_markStale_of_mem Prod.fst marked (contains_of_input? hread)

/-- What reads a node that is marked is marked as well. -/
theorem isStale_markReaders_of_edge {p : NodeId} (h : (g.markReaders id).isStale p)
    (fresh : g.isStale p = false) (edge : i ∈ g.successors p) : (g.markReaders id).isStale i :=
  isStale_foldl_markStale_of_edge h fresh edge

/-- Whatever is marked is computed from the node. -/
theorem exists_walk_of_isStale_markReaders (h : (g.markReaders id).isStale i) :
    g.isStale i ∨ ∃ reader ∈ g.successors id, Walk g.successors [] reader i := by
  refine (exists_walk_of_isStale_foldl_markStale h).imp_right ?_
  rintro ⟨⟨reader, port⟩, hreader, walk⟩
  obtain ⟨slot, _, hconsumer⟩ := List.mem_flatMap.1 hreader
  obtain ⟨_, _, _, edge⟩ := mem_consumers.1 hconsumer
  exact ⟨reader, mem_successors.2 ⟨port, edge⟩, walk⟩

/-- The graph after the turn of a stale node that gets the given outputs: its readers become stale
if they differ from the old ones. -/
def refresh (g : Graph) (id : NodeId) (slots old : List Slot) : Graph :=
  if Slot.numEqList slots old then g.update id slots else (g.update id slots).markReaders id

theorem node?_refresh (g : Graph) (id : NodeId) (slots old : List Slot) (i : NodeId) :
    (g.refresh id slots old).node? i =
      if i = id then (g.node? i).map fun node => { node with outputs := slots } else g.node? i := by
  simp only [refresh]
  split
  · exact node?_update ..
  · rw [node?_markReaders, node?_update]

theorem isStale_refresh_of_isStale (h : g.isStale i) (other : i ≠ id) {old : List Slot} :
    (g.refresh id slots old).isStale i := by
  have kept : (g.update id slots).isStale i := by
    rw [isStale_update, h]
    simpa using other
  simp only [refresh]
  split
  · exact kept
  · exact isStale_markReaders_of_isStale kept id

theorem exists_walk_of_isStale_refresh {old : List Slot} (h : (g.refresh id slots old).isStale i) :
    (g.isStale i ∧ i ≠ id) ∨ ∃ reader ∈ g.successors id, Walk g.successors [] reader i := by
  have kept (h : (g.update id slots).isStale i) : g.isStale i ∧ i ≠ id := by
    rw [isStale_update] at h
    simpa using h
  simp only [refresh] at h
  split at h
  · exact .inl (kept h)
  · exact (exists_walk_of_isStale_markReaders h).imp_left kept

/-- What reads a node that has become stale is stale as well. -/
theorem isStale_refresh_of_edge {p : NodeId} {old : List Slot}
    (h : (g.refresh id slots old).isStale p) (fresh : g.isStale p = false)
    (edge : i ∈ g.successors p) : (g.refresh id slots old).isStale i := by
  have kept : (g.update id slots).isStale p = false := by
    rw [isStale_update, fresh]
    rfl
  simp only [refresh] at h ⊢
  split at h
  · simp [kept] at h
  · next changed =>
    rw [if_neg changed]
    exact isStale_markReaders_of_edge h kept (by rwa [successors, edges_update, ← successors])

theorem SameSkeleton.refresh (g : Graph) (id : NodeId) (slots old : List Slot) :
    SameSkeleton g (g.refresh id slots old) := by
  simp only [Graph.refresh]
  split
  · exact .update ..
  · exact (SameSkeleton.update ..).trans (.markReaders ..)

end Graph

namespace GraphM

variable (registry : Registry)

theorem runOn_inferNode (id : NodeId) (g : Graph) :
    (inferNode registry id).runOn g =
      match g.node? id with
      | none => (.error (.structural (.nodeMissing id)), g)
      | some node =>
        match g.inferred registry node with
        | .error e => (.error e, g)
        | .ok slots => (.ok !Slot.numEqList slots node.outputs, g.update id slots) := by
  simp only [inferNode]
  rw [runOn_bind, runOn_ask, Graph.node]
  cases g.node? id with
  | none => rfl
  | some node =>
    simp only [runOn_bind, runOn_ask]
    cases g.inferred registry node <;> rfl

theorem runOn_makeNode (node : Node) (g : Graph) :
    (makeNode registry node).runOn g =
      match (g.insert node).inferred registry node with
      | .error e => (.error e, g.insert node)
      | .ok slots => (.ok g.nextId, (g.insert node).update g.nextId slots) := by
  have inserted : (g.insert node).node? g.nextId = some node := by
    rw [Graph.node?_insert, if_pos rfl]
  simp only [makeNode]
  rw [runOn_bind, runOn_addNode]
  simp only [runOn_bind, runOn_inferNode, inserted]
  cases (g.insert node).inferred registry node <;> rfl

/-- What a turn that does not fail makes of a graph. -/
inductive Turned (id : NodeId) (g : Graph) : Graph → Prop where
  /-- A node that is up to date is passed over. -/
  | skipped : g.isStale id = false → Turned id g g
  /-- A stale node gets the outputs that its operator computes. -/
  | computed {node : Node} {slots : List Slot} : g.isStale id → g.node? id = some node →
      g.inferred registry node = .ok slots → Turned id g (g.refresh id slots node.outputs)

/-- Inference takes the turn of the first node and then the others, unless that turn fails. -/
theorem runOn_inferInTurn_cons (id : NodeId) (g : Graph) :
    (∃ e, ∀ rest, (inferInTurn registry (id :: rest)).runOn g = (.error e, g)) ∨
      ∃ (g₁ : Graph) (changed : Nat), Turned registry id g g₁ ∧
        ∀ rest, (inferInTurn registry (id :: rest)).runOn g =
          (((inferInTurn registry rest).runOn g₁).1.map (· + changed),
            ((inferInTurn registry rest).runOn g₁).2) := by
  cases stale : g.isStale id with
  | false =>
    refine .inr ⟨g, 0, .skipped stale, ?_⟩
    intro rest
    rw [inferInTurn, runOn_bind, runOn_get]
    simp only [stale, Bool.false_eq_true, if_false]
    rcases (inferInTurn registry rest).runOn g with ⟨_ | count, left⟩ <;> rfl
  | true =>
    obtain ⟨node, hnode⟩ := Graph.contains_iff_exists_node?.1 (Graph.contains_of_isStale stale)
    cases hslots : g.inferred registry node with
    | error e =>
      refine .inl ⟨e, ?_⟩
      intro rest
      rw [inferInTurn, runOn_bind, runOn_get]
      simp only [stale, if_true, runOn_bind, runOn_inferNode, hnode, hslots]
    | ok slots =>
      refine .inr ⟨_, if Slot.numEqList slots node.outputs then 0 else 1,
        .computed stale hnode hslots, fun rest => ?_⟩
      rw [inferInTurn, runOn_bind, runOn_get, Graph.refresh]
      simp only [stale, if_true, runOn_bind, runOn_inferNode, hnode, hslots]
      cases Slot.numEqList slots node.outputs with
      | false =>
        simp only [Bool.not_false, if_true, runOn_bind, runOn_modify, Bool.false_eq_true, if_false]
        rcases (inferInTurn registry rest).runOn ((g.update id slots).markReaders id)
          with ⟨_ | count, left⟩ <;> rfl
      | true =>
        simp only [Bool.not_true, Bool.false_eq_true, if_false, if_true]
        rcases (inferInTurn registry rest).runOn (g.update id slots) with ⟨_ | count, left⟩ <;> rfl

/-- The turns that inference takes, each with the graph that it finds. -/
def turns : List NodeId → Graph → List (NodeId × Graph)
  | [], _ => []
  | id :: rest, g =>
    (id, g) ::
      match (inferInTurn registry [id]).runOn g with
      | (.ok _, g') => turns rest g'
      | (.error _, _) => []

variable {registry} {id i : NodeId} {done todo ids : List NodeId} {g g' g₁ : Graph} {n : Nat}

/-- The turn of the first node fails, or the inference goes on with the graph that it leaves. -/
theorem turn_cases (id : NodeId) (rest : List NodeId) (g : Graph) :
    (∃ e, (inferInTurn registry (id :: rest)).runOn g = (.error e, g)) ∨
      ∃ (g₁ : Graph) (changed : Nat), Turned registry id g g₁ ∧
        turns registry (id :: rest) g = (id, g) :: turns registry rest g₁ ∧
        (inferInTurn registry (id :: rest)).runOn g =
          (((inferInTurn registry rest).runOn g₁).1.map (· + changed),
            ((inferInTurn registry rest).runOn g₁).2) := by
  rcases runOn_inferInTurn_cons registry id g with ⟨e, failed⟩ | ⟨g₁, changed, turned, run⟩
  · exact .inl ⟨e, failed rest⟩
  · have single : (inferInTurn registry [id]).runOn g = (.ok (0 + changed), g₁) := run []
    exact .inr ⟨g₁, changed, turned, by rw [turns, single], run rest⟩

theorem exists_turned {rest : List NodeId}
    (h : (inferInTurn registry (id :: rest)).runOn g = (.ok n, g')) :
    ∃ g₁ m, Turned registry id g g₁ ∧ (inferInTurn registry rest).runOn g₁ = (.ok m, g') ∧
      turns registry (id :: rest) g = (id, g) :: turns registry rest g₁ := by
  rcases turn_cases id rest g with ⟨e, failed⟩ | ⟨g₁, changed, turned, split, run⟩
  · rw [failed] at h
    cases h
  · rw [run] at h
    obtain ⟨answer, left⟩ := Prod.mk.inj h
    rcases hrest : (inferInTurn registry rest).runOn g₁ with ⟨e | m, g₂⟩
    · simp [hrest, Except.map] at answer
    · refine ⟨g₁, m, turned, ?_, split⟩
      rw [← left, hrest]

theorem runOn_inferStale (registry : Registry) (g : Graph) :
    (inferStale registry).runOn g = (inferInTurn registry g.order).runOn g := by
  simp only [inferStale]
  rw [runOn_bind, runOn_get]
  cases stale : g.hasStale with
  | true => simp only [stale, if_true]
  | false =>
    have fresh (id : NodeId) : g.isStale id = false := by
      cases h : g.isStale id
      · rfl
      · rw [Graph.hasStale_iff.2 ⟨id, h⟩] at stale
        cases stale
    have passed (ids : List NodeId) : (inferInTurn registry ids).runOn g = (.ok 0, g) := by
      induction ids with
      | nil => rfl
      | cons id rest ih =>
        rw [inferInTurn, runOn_bind, runOn_get]
        simp only [fresh id, Bool.false_eq_true, if_false]
        exact ih
    rw [passed]
    simp only [stale]
    rfl

/-! ### What every turn keeps -/

/-- What every turn keeps is kept by the inference, also by one that fails. -/
theorem inferInTurn_keeps {P : Graph → Prop} (h : P g)
    (turn : ∀ t ∈ turns registry ids g, ∀ g₁, Turned registry t.1 t.2 g₁ → P t.2 → P g₁) :
    P ((inferInTurn registry ids).runOn g).2 := by
  induction ids generalizing g with
  | nil => exact h
  | cons id rest ih =>
    rcases turn_cases id rest g with ⟨e, failed⟩ | ⟨g₁, changed, turned, split, run⟩
    · rw [failed]
      exact h
    · rw [split] at turn
      rw [run]
      exact ih (turn _ List.mem_cons_self g₁ turned h) fun later hlater =>
        turn later (List.mem_cons_of_mem _ hlater)

theorem Turned.sameSkeleton (h : Turned registry id g g₁) : g.SameSkeleton g₁ := by
  cases h with
  | skipped => exact .refl g
  | computed => exact .refresh ..

theorem Turned.node?_eq (h : Turned registry id g g₁) (other : i ≠ id) :
    g₁.node? i = g.node? i := by
  cases h with
  | skipped => rfl
  | computed => rw [Graph.node?_refresh, if_neg other]

/-- Only the node whose turn it is becomes up to date. -/
theorem Turned.isStale (h : Turned registry id g g₁) (other : i ≠ id) (stale : g.isStale i) :
    g₁.isStale i := by
  cases h with
  | skipped => exact stale
  | computed => exact Graph.isStale_refresh_of_isStale stale other

/-- What reads a node that has become stale is stale as well. -/
theorem Turned.isStale_of_edge {p : NodeId} (h : Turned registry id g g₁) (stale : g₁.isStale p)
    (fresh : g.isStale p = false) (edge : i ∈ g.successors p) : g₁.isStale i := by
  cases h with
  | skipped => simp [fresh] at stale
  | computed => exact Graph.isStale_refresh_of_edge stale fresh edge

theorem sameSkeleton_inferInTurn (registry : Registry) (ids : List NodeId) (g : Graph) :
    g.SameSkeleton ((inferInTurn registry ids).runOn g).2 :=
  inferInTurn_keeps (.refl g) fun _ _ _ turned same => same.trans turned.sameSkeleton

theorem sameSkeleton_of_inferStale {answer : Except Error Nat}
    (h : (inferStale registry).runOn g = (answer, g')) : g.SameSkeleton g' := by
  have same := sameSkeleton_inferInTurn registry g.order g
  rwa [← runOn_inferStale, h] at same

/-- Inference of all nodes is that of a graph of which all nodes are stale. -/
theorem exists_inferStale_of_inferAll {changed : Bool}
    (h : (inferAll registry).runOn g = (.ok changed, g')) :
    ∃ n, (inferStale registry).runOn (g.setStale g.ids) = (.ok n, g') := by
  rw [inferAll, runOn_bind, runOn_modify] at h
  simp only [runOn_bind] at h
  rcases run : (inferStale registry).runOn (g.setStale g.ids) with ⟨e | n, g₁⟩
  · simp [run] at h
  · simp only [run, runOn_pure, Prod.mk.injEq] at h
    exact ⟨n, by rw [h.2]⟩

theorem sameSkeleton_of_inferAll {changed : Bool}
    (h : (inferAll registry).runOn g = (.ok changed, g')) : g.SameSkeleton g' := by
  obtain ⟨n, inferred⟩ := exists_inferStale_of_inferAll h
  exact (Graph.SameSkeleton.setStale ..).trans (sameSkeleton_of_inferStale inferred)

theorem mem_of_mem_turns {t : NodeId × Graph} (h : t ∈ turns registry ids g) : t.1 ∈ ids := by
  induction ids generalizing g with
  | nil => cases h
  | cons id rest ih =>
    rw [turns] at h
    rcases List.mem_cons.1 h with rfl | h
    · exact List.mem_cons_self
    · split at h
      · exact List.mem_cons_of_mem _ (ih h)
      · cases h

/-- A node that gets no turn keeps its outputs. -/
theorem node?_inferInTurn (out : i ∉ ids) :
    ((inferInTurn registry ids).runOn g).2.node? i = g.node? i :=
  inferInTurn_keeps (P := fun g' => g'.node? i = g.node? i) rfl fun _ ht _ turned same =>
    (turned.node?_eq (i := i) fun e => out (e ▸ mem_of_mem_turns ht)).trans same

/-- A node that is stale stays so until its turn. -/
theorem isStale_inferInTurn (out : i ∉ ids) (stale : g.isStale i) :
    ((inferInTurn registry ids).runOn g).2.isStale i :=
  inferInTurn_keeps (P := fun g' => g'.isStale i) stale fun _ ht _ turned stale =>
    turned.isStale (i := i) (fun e => out (e ▸ mem_of_mem_turns ht)) stale

/-- If all is stale at first, every node is at its turn. -/
theorem isStale_of_mem_turns (nodup : ids.Nodup) (all : ∀ i ∈ ids, g.isStale i)
    {t : NodeId × Graph} (h : t ∈ turns registry ids g) : t.2.isStale t.1 := by
  induction ids generalizing g with
  | nil => cases h
  | cons id rest ih =>
    obtain ⟨first, later⟩ := List.forall_mem_cons.1 all
    obtain ⟨fresh, nodup⟩ := List.nodup_cons.1 nodup
    rw [turns] at h
    rcases List.mem_cons.1 h with rfl | h
    · exact first
    · split at h
      · next n g' run =>
        apply ih nodup _ h
        intro i hi
        have stale : ((inferInTurn registry [id]).runOn g).2.isStale i :=
          isStale_inferInTurn (by rintro h; exact fresh (List.mem_singleton.1 h ▸ hi)) (later i hi)
        rwa [run] at stale
      · cases h

end GraphM

/-! ### Turns in the order of the graph -/

namespace Graph

variable {g g' : Graph} {id p : NodeId} {ids done todo : List NodeId}

/-- A list of nodes that names each once and after all that it reads. -/
structure Sequential (g : Graph) (ids : List NodeId) : Prop where
  nodup : ids.Nodup
  before : ∀ before id after, ids = before ++ id :: after → ∀ p ∈ g.predecessors id, p ∈ before

theorem sequential_order (g : Graph) : g.Sequential g.order where
  nodup := g.nodup_order
  before _ _ _ split _ hp := predecessor_before split hp

theorem Sequential.of_sameSkeleton (h : g.Sequential ids) (same : g.SameSkeleton g') :
    g'.Sequential ids where
  nodup := h.nodup
  before := by simpa [predecessors, same.edges] using h.before

/-- What comes first reads nothing of what comes later. -/
theorem Sequential.mem_of_predecessor (h : g.Sequential (done ++ todo)) (hid : id ∈ done)
    (hp : p ∈ g.predecessors id) : p ∈ done := by
  obtain ⟨before, after, rfl⟩ := List.append_of_mem hid
  have := h.before before id (after ++ todo) (by simp) p hp
  exact List.mem_append_left _ this

theorem Sequential.not_mem_before (h : g.Sequential (done ++ id :: todo)) : id ∉ done := by
  intro back
  exact (List.nodup_append.1 h.nodup).2.2 id back id List.mem_cons_self rfl

/-- No node reads itself. -/
theorem Sequential.not_mem_predecessors (h : g.Sequential (done ++ id :: todo)) :
    id ∉ g.predecessors id := by
  intro edge
  exact h.not_mem_before (h.before done id todo rfl id edge)

theorem mem_predecessors_iff_mem_successors : p ∈ g.predecessors id ↔ id ∈ g.successors p := by
  rw [mem_predecessors, mem_successors]

/-- Along the edges nothing leads back. -/
theorem Sequential.mem_of_walk (h : g.Sequential (done ++ todo))
    (walk : Walk g.successors [] p id) (hid : id ∈ done) : p ∈ done := by
  induction walk with
  | stay => exact hid
  | step _ edge _ ih =>
    exact h.mem_of_predecessor (ih hid) (mem_predecessors_iff_mem_successors.2 edge)

end Graph

namespace GraphM

variable {registry : Registry} {id i : NodeId} {done todo ids : List NodeId} {g g' g₁ : Graph}
  {n : Nat}

/-- The turn of a node makes nothing stale that had its turn before. -/
theorem Turned.isStale_eq_false (h : Turned registry id g g₁)
    (order : g.Sequential (done ++ id :: todo)) (fresh : ∀ i ∈ done, g.isStale i = false) :
    ∀ i ∈ done ++ [id], g₁.isStale i = false := by
  intro i hi
  cases h with
  | skipped hid =>
    rcases List.mem_append.1 hi with hi | hi
    · exact fresh i hi
    · rwa [List.mem_singleton.1 hi]
  | @computed node slots _ _ _ =>
    rw [Bool.eq_false_iff]
    intro stale
    have order' : g.Sequential ((done ++ [id]) ++ todo) := by simpa using order
    rcases Graph.exists_walk_of_isStale_refresh stale with ⟨old, other⟩ | ⟨reader, edge, walk⟩
    · rcases List.mem_append.1 hi with hi | hi
      · simp [fresh i hi] at old
      · exact other (List.mem_singleton.1 hi)
    · have hreader := order'.mem_of_walk walk hi
      rw [← Graph.mem_predecessors_iff_mem_successors] at edge
      rcases List.mem_append.1 hreader with hreader | hreader
      · exact order.not_mem_before (order.mem_of_predecessor hreader edge)
      · exact order.not_mem_predecessors (List.mem_singleton.1 hreader ▸ edge)

/-- What every turn keeps, given that what the node reads has had its turn, is kept by inference,
also by one that fails. -/
theorem inferStale_keeps {P : Graph → Prop} (h : P g) (mirrored : g.Mirrored)
    (turn : ∀ (done : List NodeId) (id : NodeId) (todo : List NodeId) (g g₁ : Graph), g.Mirrored →
      g.Sequential (done ++ id :: todo) → (∀ i ∈ done, g.isStale i = false) →
      Turned registry id g g₁ → P g → P g₁) :
    P ((inferStale registry).runOn g).2 := by
  have inTurn (todo : List NodeId) : ∀ (done : List NodeId) (g : Graph), P g → g.Mirrored →
      g.Sequential (done ++ todo) → (∀ i ∈ done, g.isStale i = false) →
      P ((inferInTurn registry todo).runOn g).2 := by
    induction todo with
    | nil => exact fun _ _ h _ _ _ => h
    | cons id rest ih =>
      intro done g h mirrored order fresh
      rcases @turn_cases registry id rest g with ⟨e, failed⟩ | ⟨g₁, changed, turned, -, run⟩
      · rw [failed]
        exact h
      · rw [run]
        have same := turned.sameSkeleton
        have order' : g₁.Sequential ((done ++ [id]) ++ rest) := by
          simpa using order.of_sameSkeleton same
        exact ih _ _ (turn done id rest g g₁ mirrored order fresh turned h)
          (mirrored.of_sameLinks same.sameLinks) order' (turned.isStale_eq_false order fresh)
  rw [runOn_inferStale]
  exact inTurn g.order [] g h mirrored g.sequential_order (by simp)

/-- After inference in order nothing that had its turn is stale. -/
theorem isStale_eq_false_of_inferInTurn (order : g.Sequential (done ++ todo))
    (fresh : ∀ i ∈ done, g.isStale i = false)
    (h : (inferInTurn registry todo).runOn g = (.ok n, g')) :
    ∀ i ∈ done ++ todo, g'.isStale i = false := by
  induction todo generalizing done g n with
  | nil =>
    obtain rfl : g = g' := congrArg Prod.snd h
    simpa using fresh
  | cons id rest ih =>
    obtain ⟨g₁, m, turned, later, _⟩ := exists_turned h
    have order' : g₁.Sequential ((done ++ [id]) ++ rest) := by
      simpa using order.of_sameSkeleton turned.sameSkeleton
    simpa using ih order' (turned.isStale_eq_false order fresh) later

/-- What a node reads has had its turn before the node: it is in step in the end if it is after its
turn. -/
theorem inStep_inferInTurn_iff (registry : Registry)
    (order : g.Sequential (done ++ id :: todo)) (mirrored : g.Mirrored) :
    ((inferInTurn registry todo).runOn g).2.InStep registry id ↔ g.InStep registry id := by
  have apart {i : NodeId} (h : i ∈ done ++ [id]) : i ∉ todo := by
    have nodup : ((done ++ [id]) ++ todo).Nodup := by simpa using order.nodup
    intro hi
    exact (List.nodup_append.1 nodup).2.2 i h i hi rfl
  apply Graph.InStep.congr (node?_inferInTurn (apart (by simp)))
  intro port o hread
  refine Graph.slot_congr ?_
  cases live : g.contains o.node with
  | true =>
    have edge : o.node ∈ g.predecessors id :=
      mirrored.mem_predecessors.2 ⟨live, port, o, hread, rfl⟩
    exact node?_inferInTurn (apart (List.mem_append_left _ (order.before done id todo rfl _ edge)))
  | false =>
    rw [Graph.node?_eq_none_iff.2 live, Graph.node?_eq_none_iff,
      (sameSkeleton_inferInTurn registry todo g).contains, live]

/-- A node that has just got its outputs is in step, provided that it does not read itself. -/
theorem Turned.inStep (h : Turned registry id g g₁) (steady : registry.Steady)
    (stale : g.isStale id) (apart : ∀ port o, g.input? id port = some o → o.node ≠ id) :
    g₁.InStep registry id := by
  cases h with
  | skipped fresh => simp [fresh] at stale
  | @computed node slots _ hnode hslots =>
    have updated : (g.refresh id slots node.outputs).node? id =
        some { node with outputs := slots } := by
      rw [Graph.node?_refresh, if_pos rfl, hnode]
      rfl
    refine ⟨_, updated, ?_⟩
    have reads : ∀ o ∈ node.inputs, (g.refresh id slots node.outputs).slot o = g.slot o := by
      intro o ho
      obtain ⟨port, hport⟩ := Graph.exists_port_of_mem hnode ho
      exact Graph.slot_congr (by rw [Graph.node?_refresh, if_neg (apart port o hport)])
    rw [Graph.inferred_congr registry { node with outputs := slots } reads]
    exact Graph.inferred_eq_ok_of_steady steady hslots

/-- After inference a node is in step unless it was passed over when it was not. -/
theorem inStep_iff_of_mem_turns (steady : registry.Steady) (mirrored : g.Mirrored)
    (order : g.Sequential (done ++ todo)) (h : (inferInTurn registry todo).runOn g = (.ok n, g'))
    {t : NodeId × Graph} (ht : t ∈ turns registry todo g) :
    g'.InStep registry t.1 ↔ t.2.isStale t.1 ∨ t.2.InStep registry t.1 := by
  induction todo generalizing done g n with
  | nil => cases ht
  | cons id rest ih =>
    obtain ⟨g₁, m, turned, later, split⟩ := exists_turned h
    have skeleton := turned.sameSkeleton
    rw [split] at ht
    rcases List.mem_cons.1 ht with rfl | ht
    · have kept := inStep_inferInTurn_iff registry (order.of_sameSkeleton skeleton)
        (mirrored.of_sameLinks skeleton.sameLinks)
      rw [later] at kept
      rw [kept]
      cases stale : g.isStale id with
      | true =>
        refine iff_of_true (turned.inStep steady stale fun port o hread source => ?_) (.inl rfl)
        apply order.not_mem_predecessors
        exact mirrored.mem_predecessors.2 ⟨Graph.contains_of_isStale stale, port, o, hread, source⟩
      | false =>
        cases turned with
        | skipped => simp
        | computed h => simp [stale] at h
    · have order' : g₁.Sequential ((done ++ [id]) ++ rest) := by
        simpa using order.of_sameSkeleton skeleton
      exact ih (mirrored.of_sameLinks skeleton.sameLinks) order' later ht

/-- In an inference that succeeds every node has its turn. -/
theorem exists_mem_turns (h : (inferInTurn registry ids).runOn g = (.ok n, g')) (hid : id ∈ ids) :
    ∃ t ∈ turns registry ids g, t.1 = id := by
  induction ids generalizing g n with
  | nil => cases hid
  | cons first rest ih =>
    obtain ⟨g₁, m, _, later, split⟩ := exists_turned h
    rw [split]
    rcases List.mem_cons.1 hid with rfl | hid
    · exact ⟨_, List.mem_cons_self, rfl⟩
    · obtain ⟨t, ht, e⟩ := ih later hid
      exact ⟨t, List.mem_cons_of_mem _ ht, e⟩

end GraphM

end TensorGraph
