import TensorGraph.Proofs.Calls
import TensorGraph.Proofs.Tensor.Plain

/-!
# Nodes that follow what they read

A node follows what it reads if its operator computes its outputs from slots with the same plain
forms. That is all that inference sees to: it tells no reader that a zero has changed its sign.

`Graph.Watched` is the invariant of a run that declares the types of parameters and computes what is
stale: the watched nodes follow what they read while they are up to date, and a parameter that is
stale has made its watched readers stale. A parameter that reads something has no such duty: once it
is stale it stays so, and no inference succeeds (`Graph.Stuck`). The main statement is
`Graph.follows_after_inferStale`.
-/

namespace TensorGraph

namespace Graph

variable {registry : Registry} {g g' : Graph} {id i q : NodeId} {node : Node} {o : Output}
  {T : NodeId → Prop}

/-- The outputs of the node are what its operator computes from slots with the plain forms of those
that it reads. -/
def Follows (registry : Registry) (g : Graph) (id : NodeId) : Prop :=
  ∀ (node : Node) (slots : List Slot), g.node? id = some node →
    node.inputs.map g.slot = slots.map .ok →
    ∃ (operator : Operator) (seen : List Slot), registry.find? node.op = some operator ∧
      seen.map Slot.plain = slots.map Slot.plain ∧
        operator.slots ⟨node, seen.map .ok⟩ = .ok node.outputs

/-- A node that is in step follows what it reads. -/
theorem InStep.follows (h : g.InStep registry id) : g.Follows registry id := by
  intro node slots hnode reads
  obtain ⟨node', hnode', inferred⟩ := h
  obtain rfl := Option.some.inj (hnode.symm.trans hnode')
  rw [Graph.inferred] at inferred
  cases found : registry.find? node.op with
  | none => simp [found] at inferred
  | some operator =>
    rw [found, site, reads] at inferred
    exact ⟨operator, slots, rfl, rfl, inferred⟩

/-- A node goes on following as long as the slots that it reads keep their plain forms. -/
theorem Follows.of_plain (h : g.Follows registry id) (hnode : g'.node? id = g.node? id)
    (reads : ∀ port o slot, g'.input? id port = some o → g'.slot o = .ok slot →
      ∃ old, g.slot o = .ok old ∧ old.plain = slot.plain) : g'.Follows registry id := by
  intro node slots hnode' hslots
  have before : ∀ os : List Output, ∀ slots : List Slot, (∀ o ∈ os, o ∈ node.inputs) →
      os.map g'.slot = slots.map .ok →
      ∃ olds : List Slot, os.map g.slot = olds.map .ok ∧
        olds.map Slot.plain = slots.map Slot.plain := by
    intro os
    induction os with
    | nil =>
      intro slots _ hslots
      obtain rfl := List.map_eq_nil_iff.1 hslots.symm
      exact ⟨[], rfl, rfl⟩
    | cons o os ih =>
      intro slots sub hslots
      obtain ⟨slot, rest, rfl, first, later⟩ := List.map_eq_cons_iff.1 hslots.symm
      obtain ⟨port, hport⟩ := exists_port_of_mem hnode' (sub o List.mem_cons_self)
      obtain ⟨old, hold, plain⟩ := reads port o slot hport first.symm
      obtain ⟨olds, holds, plains⟩ :=
        ih rest (fun o ho => sub o (List.mem_cons_of_mem _ ho)) later.symm
      exact ⟨old :: olds, by rw [List.map_cons, List.map_cons, hold, holds],
        by rw [List.map_cons, List.map_cons, plain, plains]⟩
  obtain ⟨olds, holds, plains⟩ := before node.inputs slots (fun _ ho => ho) hslots
  obtain ⟨operator, seen, found, plain, computed⟩ := h node olds (hnode ▸ hnode') holds
  exact ⟨operator, seen, found, plain.trans plains, computed⟩

/-! ### Parameters -/

/-- The node is a parameter that reads nothing. -/
def Declared (g : Graph) (id : NodeId) : Prop :=
  ∃ node, g.node? id = some node ∧ node.op = "Parameter" ∧ node.inputs = []

theorem SameSkeleton.exists_bare (same : g.SameSkeleton g') (hnode : g'.node? id = some node) :
    ∃ old, g.node? id = some old ∧ old.bare = node.bare := by
  have bare := same.bare id
  rw [hnode, Option.map_some] at bare
  exact Option.map_eq_some_iff.1 bare.symm

theorem SameSkeleton.exists_node? (same : g.SameSkeleton g') (hnode : g'.node? id = some node) :
    ∃ old, g.node? id = some old ∧ old.op = node.op ∧ old.inputs = node.inputs := by
  obtain ⟨old, hold, e⟩ := same.exists_bare hnode
  exact ⟨old, hold, (congrArg Node.op e : old.bare.op = node.bare.op),
    (congrArg Node.inputs e : old.bare.inputs = node.bare.inputs)⟩

theorem Declared.of_sameSkeleton (same : g.SameSkeleton g') (h : g'.Declared id) :
    g.Declared id := by
  obtain ⟨node, hnode, op, inputs⟩ := h
  obtain ⟨old, hold, sameOp, sameInputs⟩ := same.exists_node? hnode
  exact ⟨old, hold, sameOp.trans op, sameInputs.trans inputs⟩

theorem Declared.input?_eq_none (h : g.Declared id) (port : Nat) : g.input? id port = none := by
  obtain ⟨node, hnode, _, inputs⟩ := h
  rw [input?_eq hnode, inputs]
  rfl

/-- No edge leads to a node that reads nothing. -/
theorem Declared.not_mem_successors (h : g.Declared id) (mirrored : g.Mirrored) (p : NodeId) :
    id ∉ g.successors p := by
  intro edge
  obtain ⟨_, port, o, hread, _⟩ := mirrored.mem_successors.1 edge
  rw [h.input?_eq_none] at hread
  cases hread

/-- So that no walk along the edges ends there unless it starts there. -/
theorem Declared.eq_of_walk (h : g.Declared q) (mirrored : g.Mirrored) {seen : List NodeId}
    (walk : Walk g.successors seen id q) : id = q := by
  induction walk with
  | stay => rfl
  | step _ edge _ ih =>
    obtain rfl := ih h
    exact absurd edge (h.not_mem_successors mirrored _)

/-- The watched nodes follow what they read while they are up to date, and a parameter that is stale
has made its watched readers stale. -/
structure Watched (registry : Registry) (T : NodeId → Prop) (g : Graph) : Prop where
  follows : ∀ id, T id → g.isStale id = false → g.Follows registry id
  alerted : ∀ q, g.Declared q → g.isStale q → ∀ id, T id → id ∈ g.successors q → g.isStale id
  not_parameter : ∀ id node, T id → g.node? id = some node → node.op ≠ "Parameter"

theorem Watched.not_parameter_of_sameSkeleton (h : g.Watched registry T)
    (same : g.SameSkeleton g') :
    ∀ id node, T id → g'.node? id = some node → node.op ≠ "Parameter" := by
  intro id node watched hnode
  obtain ⟨old, hold, op, _⟩ := same.exists_node? hnode
  exact op ▸ h.not_parameter id old watched hold

/-- Marking alerts whoever reads a parameter that is marked. -/
theorem Watched.markStale (h : g.Watched registry T) (mirrored : g.Mirrored) (id : NodeId) :
    (g.markStale id).Watched registry T where
  follows i watched fresh := by
    have before : g.isStale i = false :=
      isStale_eq_false_of_imp (isStale_markStale_of_isStale · id) fresh
    refine (h.follows i watched before).of_plain (node?_markStale ..) ?_
    intro port o slot _ hslot
    exact ⟨slot, by rwa [slot_congr (node?_markStale g id o.node)] at hslot, rfl⟩
  alerted q declared stale i watched edge := by
    have before := declared.of_sameSkeleton (SameSkeleton.markStale g id)
    rw [successors, edges_markStale, ← successors] at edge
    cases hq : g.isStale q with
    | true => exact isStale_markStale_of_isStale (h.alerted q before hq i watched edge) id
    | false =>
      rcases isStale_of_isStale_markStale stale with old | ⟨live, walk⟩
      · simp [hq] at old
      · obtain rfl := before.eq_of_walk mirrored walk
        exact isStale_markStale_successor live hq edge
  not_parameter := h.not_parameter_of_sameSkeleton (SameSkeleton.markStale g id)

/-- The outputs of a stale parameter may change, since it has alerted its readers. -/
theorem Watched.declare (h : g.Watched registry T) (mirrored : g.Mirrored) (declared : g.Declared q)
    (stale : g.isStale q) (f : List Slot → List Slot) :
    (g.modifyNode q fun node => { node with outputs := f node.outputs }).Watched registry T := by
  have same := SameSkeleton.modifyOutputs g q f
  refine ⟨?_, ?_, h.not_parameter_of_sameSkeleton same⟩
  · intro i watched fresh
    rw [isStale_modifyNode] at fresh
    have other : i ≠ q := by
      rintro rfl
      simp [stale] at fresh
    refine (h.follows i watched fresh).of_plain (by rw [node?_modifyNode, if_neg other]) ?_
    intro port o slot hread hslot
    have elsewhere : o.node ≠ q := by
      intro source
      rw [same.input?] at hread
      have edge := mirrored.mem_successors.2 ⟨contains_of_isStale stale, port, o, hread, source⟩
      have alerted := h.alerted q declared stale i watched edge
      simp [fresh] at alerted
    refine ⟨slot, ?_, rfl⟩
    rw [← hslot]
    exact (slot_congr (by rw [node?_modifyNode, if_neg elsewhere])).symm
  · intro q' declared' stale' i watched edge
    rw [isStale_modifyNode] at stale' ⊢
    exact h.alerted q' (declared'.of_sameSkeleton same) stale' i watched edge

/-! ### Turns -/

/-- What a node reads that is up to date after the turn of another one has kept its plain form, and
more than that unless it was stale. -/
theorem exists_slot_of_turned {g₁ : Graph} {port : Nat} {slot : Slot} (mirrored : g.Mirrored)
    (turned : GraphM.Turned registry id g g₁) (fresh : g₁.isStale i = false)
    (hread : g.input? i port = some o) (hslot : g₁.slot o = .ok slot) :
    ∃ old, g.slot o = .ok old ∧ old.plain = slot.plain ∧ (g.isStale o.node ∨ old = slot) := by
  by_cases source : o.node = id
  · cases turned with
    | skipped => exact ⟨slot, hslot, rfl, .inr rfl⟩
    | @computed node slots stale hnode hslots =>
      obtain ⟨producer, hproducer, hout⟩ := slot_eq_ok_iff.1 hslot
      rw [node?_refresh, if_pos source, source, hnode] at hproducer
      obtain rfl := Option.some.inj hproducer
      have unchanged : Slot.numEqList slots node.outputs := by
        by_contra changed
        have updated : (g.update id slots).node? id = some { node with outputs := slots } := by
          rw [node?_update, if_pos rfl, hnode]
          rfl
        have skeleton := SameSkeleton.update g id slots
        have marked := isStale_markReaders_of_input? (mirrored.of_sameLinks skeleton.sameLinks)
          updated ((skeleton.input? i port).trans hread) source
          (List.getElem?_eq_some_iff.1 hout).1
        rw [refresh, if_neg changed, marked] at fresh
        cases fresh
      have plain := congrArg (·[o.slot]?) (Slot.map_plain_eq_of_numEqList unchanged)
      simp only [List.getElem?_map] at plain
      rw [hout, Option.map_some] at plain
      obtain ⟨old, hold, e⟩ := Option.map_eq_some_iff.1 plain.symm
      exact ⟨old, slot_eq_ok_iff.2 ⟨node, by rw [source, hnode], hold⟩, e,
        .inl (source ▸ stale)⟩
  · exact ⟨slot, by rwa [slot_congr (turned.node?_eq source)] at hslot, rfl, .inr rfl⟩

/-- A turn of the inference keeps the watched nodes following, provided that what the node reads has
had its turn. -/
theorem Watched.turned {done todo : List NodeId} {g₁ : Graph} (h : g.Watched registry T)
    (steady : registry.Steady) (mirrored : g.Mirrored)
    (order : g.Sequential (done ++ id :: todo)) (fresh : ∀ i ∈ done, g.isStale i = false)
    (turned : GraphM.Turned registry id g g₁) : g₁.Watched registry T := by
  have same := turned.sameSkeleton
  refine ⟨?_, ?_, h.not_parameter_of_sameSkeleton same⟩
  · intro i watched freshAfter
    by_cases e : i = id
    · subst e
      cases stale : g.isStale i with
      | true =>
        refine (turned.inStep steady stale fun port o hread source => ?_).follows
        apply order.not_mem_predecessors
        exact mirrored.mem_predecessors.2 ⟨contains_of_isStale stale, port, o, hread, source⟩
      | false =>
        cases turned with
        | skipped => exact h.follows i watched stale
        | computed h => simp [stale] at h
    · have before : g.isStale i = false := isStale_eq_false_of_imp (turned.isStale e) freshAfter
      refine (h.follows i watched before).of_plain (turned.node?_eq e) ?_
      intro port o slot hread hslot
      rw [same.input?] at hread
      obtain ⟨old, hold, plain, -⟩ := exists_slot_of_turned mirrored turned freshAfter hread hslot
      exact ⟨old, hold, plain⟩
  · intro q declared stale i watched edge
    have declaredBefore := declared.of_sameSkeleton same
    rw [successors, same.edges, ← successors] at edge
    have before : g.isStale q := by
      cases turned with
      | skipped => exact stale
      | computed =>
        rcases exists_walk_of_isStale_refresh stale with ⟨old, _⟩ | ⟨reader, hreader, walk⟩
        · exact old
        · obtain rfl := declaredBefore.eq_of_walk mirrored walk
          exact absurd hreader (declaredBefore.not_mem_successors mirrored id)
    have apart : i ≠ id := by
      rintro rfl
      have produced := order.before done i todo rfl q (mem_predecessors_iff_mem_successors.2 edge)
      simp [fresh q produced] at before
    exact turned.isStale apart (h.alerted q declaredBefore before i watched edge)

/-- So does the whole inference, also one that fails. -/
theorem Watched.inferStale (h : g.Watched registry T) (steady : registry.Steady)
    (mirrored : g.Mirrored) : ((GraphM.inferStale registry).runOn g).2.Watched registry T :=
  GraphM.inferStale_keeps h mirrored fun _ _ _ _ _ mirrored order fresh turned h =>
    h.turned steady mirrored order fresh turned

/-! ### Declared types -/

/-- A parameter that reads something is stale; its operator fails. -/
def Stuck (g : Graph) (q : NodeId) : Prop :=
  g.isStale q ∧ ∃ node, g.node? q = some node ∧ node.op = "Parameter" ∧ node.inputs ≠ []

theorem Stuck.of_sameSkeleton (same : g.SameSkeleton g') (stale : g'.isStale q) (h : g.Stuck q) :
    g'.Stuck q := by
  obtain ⟨_, node, hnode, op, inputs⟩ := h
  obtain ⟨node', hnode'⟩ := contains_iff_exists_node?.1 (contains_of_isStale stale)
  obtain ⟨old, hold, sameOp, sameInputs⟩ := same.exists_node? hnode'
  obtain rfl := Option.some.inj (hnode.symm.trans hold)
  exact ⟨stale, node', hnode', sameOp ▸ op, sameInputs ▸ inputs⟩

theorem Stuck.turned {t : NodeId} {g₁ : Graph} (h : g.Stuck q)
    (turned : GraphM.Turned .core t g g₁) : g₁.Stuck q := by
  refine h.of_sameSkeleton turned.sameSkeleton ?_
  cases turned with
  | skipped => exact h.1
  | @computed node slots stale hnode hslots =>
    refine isStale_refresh_of_isStale h.1 ?_
    rintro rfl
    obtain ⟨_, node', hnode', op, inputs⟩ := h
    obtain rfl := Option.some.inj (hnode.symm.trans hnode')
    have found : Registry.core.find? "Parameter" = some Operator.parameter := rfl
    rw [Graph.inferred, op, found, site] at hslots
    change Operator.parameter.slots _ = _ at hslots
    rw [Operator.slots_parameter, if_neg inputs] at hslots
    cases hslots

theorem Stuck.inferStale (h : g.Stuck q) : ((GraphM.inferStale .core).runOn g).2.Stuck q := by
  rw [GraphM.runOn_inferStale]
  exact GraphM.inferInTurn_keeps (P := (Stuck · q)) h fun _ _ _ turned h => h.turned turned

theorem sameSkeleton_setOutputType (g : Graph) (o : Output) (type : SlotType) :
    g.SameSkeleton ((GraphM.setOutputType o type).runOn g).2 := by
  have marked := SameSkeleton.markStale g o.node
  rw [GraphM.runOn_setOutputType]
  split
  · exact .refl g
  · split
    · exact marked.trans (.modifyOutputs ..)
    · exact marked

theorem isStale_setOutputType (o : Output) (type : SlotType) (h : g.isStale q) :
    ((GraphM.setOutputType o type).runOn g).2.isStale q := by
  have marked := isStale_markStale_of_isStale h o.node
  rw [GraphM.runOn_setOutputType]
  split
  · exact h
  · split
    · rwa [isStale_modifyNode]
    · exact marked

/-- Declaring the type of a parameter keeps the watched nodes following, unless the parameter is
stuck now. -/
theorem Watched.setOutputType (h : g.Watched registry T) (mirrored : g.Mirrored) (type : SlotType)
    (parameter : ∀ node, g.node? o.node = some node → node.op = "Parameter") :
    ((GraphM.setOutputType o type).runOn g).2.Watched registry T ∨
      ((GraphM.setOutputType o type).runOn g).2.Stuck o.node := by
  have same := SameSkeleton.markStale g o.node
  have marked := h.markStale mirrored o.node
  rw [GraphM.runOn_setOutputType]
  split
  · exact .inl h
  · next node hnode =>
    have stale := isStale_markStale_self (contains_of_node? hnode)
    have kept := (node?_markStale g o.node o.node).trans hnode
    split
    · by_cases inputs : node.inputs = []
      · have declared : (g.markStale o.node).Declared o.node :=
          ⟨node, kept, parameter node hnode, inputs⟩
        exact .inl (marked.declare (mirrored.of_sameLinks same.sameLinks) declared stale _)
      · have stuck : (g.markStale o.node).Stuck o.node :=
          ⟨stale, node, kept, parameter node hnode, inputs⟩
        exact .inr (stuck.of_sameSkeleton (SameSkeleton.modifyOutputs _ _ _) (by
          rwa [isStale_modifyNode]))
    · exact .inl marked

end Graph

/-! ### Runs -/

/-- The call declares the type of a parameter or computes what is stale. -/
def Call.Resizing : Call → Graph → Prop
  | setOutputType o _, g => ∀ node, g.node? o.node = some node → node.op = "Parameter"
  | inferStale, _ => True
  | _, _ => False

namespace Graph

variable {registry : Registry} {g g' : Graph} {T : NodeId → Prop} {calls : List Call} {n : Nat}

theorem SameSkeleton.resized (resizing : AllAlong .core Call.Resizing g calls) :
    g.SameSkeleton (g.after .core calls) := by
  refine after_keeps (I := g.SameSkeleton) resizing (fun call g₁ resizing same => ?_) (.refl g)
  cases call with
  | setOutputType o type => exact same.trans (sameSkeleton_setOutputType g₁ o type)
  | inferStale => exact same.trans (GraphM.sameSkeleton_of_inferStale rfl)
  | _ => exact resizing.elim

theorem Watched.resized (h : g.Watched .core T) (mirrored : g.Mirrored)
    (resizing : AllAlong .core Call.Resizing g calls) :
    (g.after .core calls).Watched .core T ∨ ∃ q, (g.after .core calls).Stuck q := by
  have steady := Registry.steady_core
  refine (after_keeps (I := fun g => g.Mirrored ∧ (g.Watched .core T ∨ ∃ q, g.Stuck q)) resizing ?_
    ⟨mirrored, .inl h⟩).2
  rintro call g resizing ⟨mirrored, h⟩
  cases call with
  | setOutputType o type =>
    have same := sameSkeleton_setOutputType g o type
    refine ⟨mirrored.of_sameLinks same.sameLinks, ?_⟩
    rcases h with watched | ⟨q, stuck⟩
    · exact (watched.setOutputType mirrored type resizing).imp_right fun stuck => ⟨_, stuck⟩
    · exact .inr ⟨q, stuck.of_sameSkeleton same (isStale_setOutputType o type stuck.1)⟩
  | inferStale =>
    have same : g.SameSkeleton ((GraphM.inferStale .core).runOn g).2 :=
      GraphM.sameSkeleton_of_inferStale rfl
    refine ⟨mirrored.of_sameLinks same.sameLinks, ?_⟩
    rcases h with watched | ⟨q, stuck⟩
    · exact .inl (watched.inferStale steady mirrored)
    · exact .inr ⟨q, stuck.inferStale⟩
  | _ => exact resizing.elim

/-- Nothing is stale after inference of a graph without a cycle. -/
theorem isStale_eq_false_of_inferStale (acyclic : g.isCyclic = false)
    (inferred : (GraphM.inferStale registry).runOn g = (.ok n, g')) (id : NodeId) :
    g'.isStale id = false := by
  have skeleton := GraphM.sameSkeleton_of_inferStale inferred
  cases live : g'.contains id with
  | false => exact isStale_eq_false_of_contains live
  | true =>
    rw [skeleton.contains] at live
    rw [GraphM.runOn_inferStale] at inferred
    have order : g.Sequential ([] ++ g.order) := g.sequential_order
    exact GraphM.isStale_eq_false_of_inferInTurn order (by simp) inferred id
      (isCyclic_eq_false_iff_forall_mem.1 acyclic id live)

theorem SameSkeleton.isCyclic (same : g.SameSkeleton g') : g'.isCyclic = false ↔
    g.isCyclic = false := by
  rw [isCyclic_eq_false_iff, isCyclic_eq_false_iff, same.edges]

/-- Whatever types parameters have been declared to have, once inference succeeds the watched nodes
follow what they read. -/
theorem follows_after_inferStale (h : g.Watched .core T) (mirrored : g.Mirrored)
    (acyclic : g.isCyclic = false) (resizing : AllAlong .core Call.Resizing g calls)
    (inferred : (GraphM.inferStale .core).runOn (g.after .core calls) = (.ok n, g')) :
    ∀ id, T id → g'.Follows .core id := by
  have same := SameSkeleton.resized resizing
  have left : ((GraphM.inferStale .core).runOn (g.after .core calls)).2 = g' :=
    congrArg Prod.snd inferred
  have fresh := isStale_eq_false_of_inferStale (same.isCyclic.2 acyclic) inferred
  rcases h.resized mirrored resizing with watched | ⟨q, stuck⟩
  · have after := watched.inferStale Registry.steady_core (mirrored.of_sameLinks same.sameLinks)
    rw [left] at after
    exact fun id hid => after.follows id hid (fresh id)
  · have after := stuck.inferStale
    rw [left] at after
    exact absurd after.1 (by simp [fresh q])

end Graph

end TensorGraph
