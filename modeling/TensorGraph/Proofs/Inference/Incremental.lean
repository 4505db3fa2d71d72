import TensorGraph.Proofs.Calls
import TensorGraph.Proofs.Except
import TensorGraph.Proofs.Graph.Validity

/-!
# Incremental inference

Inference computes the stale nodes only. It agrees with computing every node as long as a node that
is up to date is in step, which is the invariant `Graph.Settled`. A call breaks it when it changes
an output without marking what reads it: `Graph.Overlooks` says that of a change, `Call.Attentive`
that a call makes no such change.

Three calls can be inattentive. A declared type marks nothing behind a node that is stale already;
the inference of a single node marks nothing at all; and the inference of all stale nodes takes a
value for unchanged if it equals the old one as a number, though its bits differ, as those of the
two zeros do.
-/

namespace TensorGraph

namespace Graph

variable {registry : Registry} {g g' : Graph} {id i : NodeId} {node : Node} {slots : List Slot}

/-- A node that is up to date and reads outputs that exist, none of them its own, is in step. -/
def Settled (registry : Registry) (g : Graph) : Prop :=
  ∀ id node, g.node? id = some node → g.isStale id = false →
    (∀ o ∈ node.inputs, o.node ≠ id ∧ ∃ slot, g.slot o = .ok slot) →
    g.inferred registry node = .ok node.outputs

/-- Another node that is up to date reads an output of the node that is not the one given. -/
def Overlooks (g : Graph) (id : NodeId) (slots : List Slot) : Prop :=
  ∃ reader port o node, reader ≠ id ∧ g.isStale reader = false ∧
    g.input? reader port = some o ∧ o.node = id ∧ g.node? id = some node ∧
    node.outputs[o.slot]? ≠ slots[o.slot]?

/-- What is overlooked can be seen from the inputs that there are. -/
theorem not_overlooks_iff : ¬g.Overlooks id slots ↔
    ∀ place ∈ g.placed, ∀ o ∈ place.2.node.inputs, place.1 ≠ id → g.isStale place.1 = false →
      o.node = id → ∀ node ∈ g.node? id, node.outputs[o.slot]? = slots[o.slot]? := by
  rw [← forall_input_iff (P := fun reader o => reader ≠ id → g.isStale reader = false →
    o.node = id → ∀ node ∈ g.node? id, node.outputs[o.slot]? = slots[o.slot]?)]
  simp only [Overlooks, not_exists, not_and, not_not, Option.mem_def]
  exact ⟨fun h reader port o hread other fresh source node hnode =>
      h reader port o node other fresh hread source hnode,
    fun h reader port o node other fresh hread source hnode =>
      h reader port o hread other fresh source node hnode⟩

instance : Decidable (g.Overlooks id slots) :=
  decidable_of_iff _ (not_congr not_overlooks_iff.symm |>.trans not_not)

/-- The node has been left alone with what it reads, or it is stale now. -/
def Spared (g g' : Graph) (id : NodeId) : Prop :=
  ∀ node, g'.node? id = some node → g'.isStale id = false →
    g.node? id = some node ∧ g.isStale id = false ∧
      ∀ o ∈ node.inputs, o.node ≠ id → ∀ slot, g'.slot o = .ok slot → g.slot o = .ok slot

/-- A change keeps a graph settled if it leaves every node alone or in step. -/
theorem Settled.of_spared (h : g.Settled registry)
    (spared : ∀ id, Spared g g' id ∨ ∀ node, g'.node? id = some node →
      (∀ o ∈ node.inputs, o.node ≠ id ∧ ∃ slot, g'.slot o = .ok slot) →
      g'.inferred registry node = .ok node.outputs) :
    g'.Settled registry := by
  intro id node hnode fresh reads
  rcases spared id with kept | computed
  · obtain ⟨old, freshBefore, same⟩ := kept node hnode fresh
    have slots (o : Output) (ho : o ∈ node.inputs) : ∃ slot, g'.slot o = .ok slot ∧
        g.slot o = .ok slot := by
      obtain ⟨apart, slot, hslot⟩ := reads o ho
      exact ⟨slot, hslot, same o ho apart slot hslot⟩
    rw [inferred_congr registry node fun o ho => ?_]
    · refine h id node old freshBefore fun o ho => ⟨(reads o ho).1, ?_⟩
      obtain ⟨slot, _, hslot⟩ := slots o ho
      exact ⟨slot, hslot⟩
    · obtain ⟨slot, after, before⟩ := slots o ho
      rw [after, before]
  · exact computed node hnode reads

theorem settled_empty (registry : Registry) (name : String) : (empty name).Settled registry := by
  intro id node hnode
  simp [empty, node?, get?] at hnode

/-- In a valid graph without stale nodes that is settled every node is in step. -/
theorem Settled.current (h : g.Settled registry) (mirrored : g.Mirrored) (valid : g.Valid)
    (fresh : ∀ id, g.contains id → g.isStale id = false) : g.Current registry := by
  intro id live
  obtain ⟨node, hnode⟩ := contains_iff_exists_node?.1 live
  refine ⟨node, hnode, h id node hnode (fresh id live) fun o ho => ?_⟩
  obtain ⟨port, hread⟩ := exists_port_of_mem hnode ho
  exact ⟨valid.input_ne mirrored hread, valid.inputs_exist id port o hread⟩

/-! ### Changes -/

theorem slot_of_node?_eq {o : Output} {slot : Slot} (hslot : g'.slot o = .ok slot)
    (same : ∀ node, g'.node? o.node = some node →
      ∃ old, g.node? o.node = some old ∧ old.outputs = node.outputs) : g.slot o = .ok slot := by
  obtain ⟨node, hnode, hout⟩ := slot_eq_ok_iff.1 hslot
  obtain ⟨old, hold, outputs⟩ := same node hnode
  exact slot_eq_ok_iff.2 ⟨old, hold, by rw [outputs, hout]⟩

theorem Settled.markStale (h : g.Settled registry) (id : NodeId) :
    (g.markStale id).Settled registry := by
  apply h.of_spared
  intro i
  left
  intro node hnode fresh
  rw [node?_markStale] at hnode
  refine ⟨hnode, ?_, ?_⟩
  · exact isStale_eq_false_of_imp (isStale_markStale_of_isStale · id) fresh
  · intro o _ _ slot hslot
    rwa [slot_congr (node?_markStale g id o.node)] at hslot

theorem Settled.foldl_markStale (h : g.Settled registry) (ids : List NodeId) :
    (ids.foldl Graph.markStale g).Settled registry := by
  induction ids generalizing g with
  | nil => exact h
  | cons id rest ih => exact ih (h.markStale id)

theorem Settled.insert (h : g.Settled registry) (linked : g.Linked) (node : Node) :
    (g.insert node).Settled registry := by
  apply h.of_spared
  intro i
  left
  intro node' hnode fresh
  rw [isStale_insert] at fresh
  have old : i ≠ g.nextId := by
    rintro rfl
    simp at fresh
  rw [if_neg old] at fresh
  rw [node?_insert, if_neg old] at hnode
  refine ⟨hnode, fresh, ?_⟩
  intro o ho _ slot hslot
  obtain ⟨port, hread⟩ := exists_port_of_mem hnode ho
  rwa [slot_congr (node?_insert_of_contains (linked.inputs_live i port o hread) node)] at hslot

/-- Changing a stale node does no harm unless what reads it is overlooked. -/
theorem Settled.modifyNode (h : g.Settled registry) {f : Node → Node} (stale : g.isStale id)
    (unseen : ∀ node, g.node? id = some node → ¬g.Overlooks id (f node).outputs) :
    (g.modifyNode id f).Settled registry := by
  apply h.of_spared
  intro i
  left
  intro node hnode fresh
  rw [isStale_modifyNode] at fresh
  have other : i ≠ id := by
    rintro rfl
    simp [stale] at fresh
  rw [node?_modifyNode, if_neg other] at hnode
  refine ⟨hnode, fresh, ?_⟩
  intro o ho _ slot hslot
  obtain ⟨port, hread⟩ := exists_port_of_mem hnode ho
  obtain ⟨producer, hproducer, hout⟩ := slot_eq_ok_iff.1 hslot
  rw [node?_modifyNode] at hproducer
  split at hproducer
  · next source =>
    obtain ⟨old, hold, rfl⟩ := Option.map_eq_some_iff.1 hproducer
    rw [source] at hold
    refine slot_eq_ok_iff.2 ⟨old, source ▸ hold, ?_⟩
    rw [← hout]
    by_contra differ
    exact unseen old hold ⟨i, port, o, old, other, fresh, hread, source, hold, differ⟩
  · exact slot_eq_ok_iff.2 ⟨producer, hproducer, hout⟩

/-- A node is marked with what reads it; nothing is overlooked then but behind a stale node. -/
theorem Overlooks.of_markStale (h : (g.markStale id).Overlooks id slots) (mirrored : g.Mirrored) :
    g.isStale id ∧ g.Overlooks id slots := by
  obtain ⟨reader, port, o, node, other, fresh, hread, source, hnode, differ⟩ := h
  have same := (SameSkeleton.markStale g id).input?
  rw [same] at hread
  rw [node?_markStale] at hnode
  have freshBefore : g.isStale reader = false :=
    isStale_eq_false_of_imp (isStale_markStale_of_isStale · id) fresh
  refine ⟨?_, reader, port, o, node, other, freshBefore, hread, source, hnode, differ⟩
  cases stale : g.isStale id with
  | true => rfl
  | false =>
    have live := contains_of_node? hnode
    have marked := isStale_markStale_successor live stale
      (mirrored.mem_successors.2 ⟨live, port, o, hread, source⟩)
    simp [marked] at fresh

/-- Changing a node that is marked first does no harm, unless it was stale already and what reads it
is overlooked. -/
theorem Settled.edit (h : g.Settled registry) (mirrored : g.Mirrored) (live : g.contains id)
    {f : Node → Node} (unseen : g.isStale id → ∀ node, g.node? id = some node →
      ¬g.Overlooks id (f node).outputs) :
    ((g.markStale id).modifyNode id f).Settled registry := by
  apply (h.markStale id).modifyNode (isStale_markStale_self live)
  intro node hnode overlooks
  rw [node?_markStale] at hnode
  obtain ⟨stale, before⟩ := overlooks.of_markStale mirrored
  exact unseen stale node hnode before

/-- A change that keeps the outputs overlooks nothing. -/
theorem not_overlooks_outputs (h : g.node? id = some node) (same : slots = node.outputs) :
    ¬g.Overlooks id slots := by
  rintro ⟨_, _, _, _, _, _, _, _, hnode, differ⟩
  rw [h] at hnode
  obtain rfl := Option.some.inj hnode
  exact differ (by rw [same])

theorem Settled.rewire (h : g.Settled registry) (live : g.contains id) (port : Nat)
    (source : Output) : (g.rewire id port source).Settled registry := by
  apply h.of_spared
  intro i
  left
  intro node hnode fresh
  have other : i ≠ id := by
    rintro rfl
    simp [isStale_rewire_self live] at fresh
  rw [node?_rewire, if_neg other] at hnode
  refine ⟨hnode, ?_, ?_⟩
  · exact isStale_eq_false_of_imp (isStale_rewire_of_isStale · id port source) fresh
  · intro o _ _ slot hslot
    apply slot_of_node?_eq hslot
    intro producer hproducer
    rw [node?_rewire] at hproducer
    split at hproducer
    · obtain ⟨old, hold, rfl⟩ := Option.map_eq_some_iff.1 hproducer
      exact ⟨old, hold, rfl⟩
    · exact ⟨producer, hproducer, rfl⟩

/-- A node may get the outputs that its operator computes, unless a reader that is still up to date
then reads another slot than before. -/
theorem Settled.of_computed (h : g.Settled registry) (steady : registry.Steady)
    (hnode : g.node? id = some node) (hslots : g.inferred registry node = .ok slots)
    (nodes : ∀ i, g'.node? i = (g.update id slots).node? i)
    (fresh : ∀ i, i ≠ id → g'.isStale i = false → g.isStale i = false)
    (unseen : ∀ i port o, i ≠ id → g'.isStale i = false → g.input? i port = some o → o.node = id →
      o.slot < slots.length → node.outputs[o.slot]? = slots[o.slot]?) :
    g'.Settled registry := by
  apply h.of_spared
  intro i
  by_cases e : i = id
  · subst e
    right
    intro node' hnode' reads
    rw [nodes, node?_update, if_pos rfl, hnode] at hnode'
    obtain rfl := Option.some.inj hnode'
    rw [inferred_congr registry { node with outputs := slots } fun o ho => slot_congr ?_]
    · exact inferred_eq_ok_of_steady steady hslots
    · rw [nodes, node?_update, if_neg (reads o ho).1]
  · left
    intro node' hnode' freshAfter
    rw [nodes, node?_update, if_neg e] at hnode'
    refine ⟨hnode', fresh i e freshAfter, ?_⟩
    intro o ho _ slot hslot
    obtain ⟨port, hread⟩ := exists_port_of_mem hnode' ho
    obtain ⟨producer, hproducer, hout⟩ := slot_eq_ok_iff.1 hslot
    rw [nodes, node?_update] at hproducer
    split at hproducer
    · next source =>
      rw [source, hnode] at hproducer
      obtain rfl := Option.some.inj hproducer
      refine slot_eq_ok_iff.2 ⟨node, source ▸ hnode, ?_⟩
      have bound : o.slot < slots.length := (List.getElem?_eq_some_iff.1 hout).1
      exact (unseen i port o e freshAfter hread source bound).trans hout
    · exact slot_eq_ok_iff.2 ⟨producer, hproducer, hout⟩

theorem isStale_of_isStale_update (other : i ≠ id) (h : (g.update id slots).isStale i = false) :
    g.isStale i = false := by
  rw [isStale_update] at h
  simpa [other] using h

theorem Settled.update (h : g.Settled registry) (steady : registry.Steady)
    (hnode : g.node? id = some node) (hslots : g.inferred registry node = .ok slots)
    (unseen : ¬g.Overlooks id slots) : (g.update id slots).Settled registry := by
  refine h.of_computed steady hnode hslots (fun _ => rfl) (fun _ => isStale_of_isStale_update) ?_
  intro i port o other fresh hread source _
  by_contra differ
  exact unseen
    ⟨i, port, o, node, other, isStale_of_isStale_update other fresh, hread, source, hnode, differ⟩

/-- Outputs that differ as numbers are never overlooked when the readers are marked. -/
theorem Settled.refresh (h : g.Settled registry) (mirrored : g.Mirrored) (steady : registry.Steady)
    (hnode : g.node? id = some node) (hslots : g.inferred registry node = .ok slots)
    (unseen : Slot.numEqList slots node.outputs → ¬g.Overlooks id slots) :
    (g.refresh id slots node.outputs).Settled registry := by
  simp only [Graph.refresh]
  split
  · next same => exact h.update steady hnode hslots (unseen same)
  · have updated : (g.update id slots).node? id = some { node with outputs := slots } := by
      rw [node?_update, if_pos rfl, hnode]
      rfl
    refine h.of_computed steady hnode hslots (fun _ => node?_markReaders ..) ?_ ?_
    · intro i other fresh
      have kept : (g.update id slots).isStale i = false :=
        isStale_eq_false_of_imp (isStale_markReaders_of_isStale · id) fresh
      exact isStale_of_isStale_update other kept
    · intro i port o other fresh hread source bound
      have marked := isStale_markReaders_of_input?
        (mirrored.of_sameLinks (SameSkeleton.update g id slots).sameLinks) updated
        (((SameSkeleton.update g id slots).input? i port).trans hread) source bound
      simp [marked] at fresh

theorem Settled.foldl_vacate (h : g.Settled registry) (ids : List NodeId) :
    (ids.foldl vacate g).Settled registry := by
  apply h.of_spared
  intro i
  left
  intro node hnode fresh
  rw [node?_foldl_vacate] at hnode
  split at hnode
  · cases hnode
  · next kept =>
    rw [isStale_foldl_vacate, if_neg kept] at fresh
    refine ⟨hnode, fresh, ?_⟩
    intro o _ _ slot hslot
    apply slot_of_node?_eq hslot
    intro node hnode
    rw [node?_foldl_vacate] at hnode
    split at hnode
    · cases hnode
    · exact ⟨node, hnode, rfl⟩

theorem Settled.rewireAll (h : g.Settled registry) {changes : List ((NodeId × Nat) × Output)}
    (live : ∀ change ∈ changes, g.contains change.1.1) :
    (GraphM.rewireAll g changes).Settled registry := by
  induction changes generalizing g with
  | nil => exact h
  | cons change rest ih =>
    apply ih (h.rewire (live change List.mem_cons_self) _ _)
    intro later hlater
    rw [contains_rewire]
    exact live later (List.mem_cons_of_mem _ hlater)

theorem Settled.replaced (h : g.Settled registry) (linked : g.Linked) {old new : NodeId}
    (live : g.contains new) (name : String) (slots : List Nat) :
    (GraphM.replaced g old new name (GraphM.redirections g old new slots)).Settled registry := by
  have rewired : (GraphM.rewireAll g (GraphM.redirections g old new slots)).Settled registry := by
    apply h.rewireAll
    intro change hchange
    have read := GraphM.isSome_input?_of_mem_redirections change hchange
    exact contains_of_input? (Option.some_get read).symm
  have redirected : (GraphM.redesignate (GraphM.rewireAll g
      (GraphM.redirections g old new slots)) old new).Settled registry := rewired
  exact redirected.edit (linked.redirected live slots).toMirrored
    ((GraphM.contains_rewireAll _ new).trans live) fun _ node hnode =>
      not_overlooks_outputs hnode rfl

end Graph

/-! ### Calls -/

/-- The call marks whatever reads an output that it changes. -/
def Call.Attentive (registry : Registry) : Call → Graph → Prop
  | inferNode id, g => ∀ node slots, g.node? id = some node → g.inferred registry node = .ok slots →
      ¬g.Overlooks id slots
  | setOutputType o type, g => g.isStale o.node → ∀ node, g.node? o.node = some node →
      ¬g.Overlooks o.node (GraphM.declare o.slot type node.outputs)
  | editNode id f, g => g.isStale id → ∀ node, g.node? id = some node →
      ¬g.Overlooks id (f node).outputs
  | inferStale, g => ∀ turn ∈ GraphM.turns registry g.order g, turn.2.isStale turn.1 →
      ∀ node slots, turn.2.node? turn.1 = some node → turn.2.inferred registry node = .ok slots →
        Slot.numEqList slots node.outputs → ¬turn.2.Overlooks turn.1 slots
  | _, _ => True

instance decidableAttentive (registry : Registry) (call : Call) (g : Graph) :
    Decidable (call.Attentive registry g) :=
  match call with
  | .inferNode id =>
    decidable_of_iff (∀ node ∈ g.node? id, ∀ slots, g.inferred registry node = .ok slots →
        ¬g.Overlooks id slots)
      ⟨fun h node slots hnode => h node hnode slots, fun h node hnode slots => h node slots hnode⟩
  | .setOutputType o type =>
    inferInstanceAs (Decidable (g.isStale o.node → ∀ node ∈ g.node? o.node,
      ¬g.Overlooks o.node (GraphM.declare o.slot type node.outputs)))
  | .editNode id f =>
    inferInstanceAs (Decidable (g.isStale id → ∀ node ∈ g.node? id,
      ¬g.Overlooks id (f node).outputs))
  | .inferStale =>
    decidable_of_iff (∀ turn ∈ GraphM.turns registry g.order g, turn.2.isStale turn.1 →
        ∀ node ∈ turn.2.node? turn.1, ∀ slots, turn.2.inferred registry node = .ok slots →
          Slot.numEqList slots node.outputs → ¬turn.2.Overlooks turn.1 slots)
      ⟨fun h turn ht stale node slots hnode => h turn ht stale node hnode slots,
        fun h turn ht stale node hnode slots => h turn ht stale node slots hnode⟩
  | .addNode _ | .addParameter .. | .addConstant _ | .addResult _ | .makeNode _ | .setInput .. |
    .replaceNode .. | .markStale _ | .removeNode _ | .removeUnreachable => isTrue trivial

namespace Graph

variable {registry : Registry} {g g' : Graph} {id i : NodeId} {node : Node} {slots : List Slot}

theorem not_overlooks_nextId (linked : g.Linked) (node : Node) (slots : List Slot) :
    ¬(g.insert node).Overlooks g.nextId slots := by
  rintro ⟨reader, port, o, _, other, _, hread, source, _⟩
  rw [input?_insert, if_neg other] at hread
  exact ne_nextId (linked.inputs_live reader port o hread) source

/-- An attentive call keeps a graph settled. -/
theorem Settled.leave (h : g.Settled registry) (steady : registry.Steady) (linked : g.Linked)
    {call : Call} (attentive : call.Attentive registry g) :
    (call.leave registry g).Settled registry := by
  have left : call.Leaves registry g (call.leave registry g) := call.leaves registry g
  generalize call.leave registry g = g' at left ⊢
  cases left with
  | refused => exact h
  | addNode node => exact h.insert linked node
  | addParameter name type =>
    exact h.insert linked { op := "Parameter", name, outputs := [.ofType type] }
  | addConstant t => exact h.insert linked (GraphM.constantNode t)
  | @addResult source slot => exact h.insert linked (GraphM.resultNode source slot)
  | notInferred node => exact h.insert linked node
  | @makeNode node slots hslots =>
    have inserted : (g.insert node).node? g.nextId = some node := by
      rw [node?_insert, if_pos rfl]
    exact (h.insert linked node).update steady inserted hslots
      (not_overlooks_nextId linked node slots)
  | @inferNode id node slots hnode hslots =>
    exact h.update steady hnode hslots (attentive node slots hnode hslots)
  | setInput source read => exact h.rewire (contains_of_input? (Option.some_get read).symm) _ source
  | replaceNode _ live => exact h.replaced linked live _ _
  | notDeclared o type => exact h.markStale o.node
  | setOutputType type live => exact h.edit linked.toMirrored live attentive
  | editNode f live => exact h.edit linked.toMirrored live attentive
  | markStale id => exact h.markStale id
  | removeNode id =>
    have marked : ((g.successors id).foldl Graph.markStale g).Settled registry :=
      h.foldl_markStale _
    exact marked.foldl_vacate [id]
  | removeUnreachable => exact h.foldl_vacate g.dead
  | inferStale =>
    refine (GraphM.inferInTurn_keeps (P := fun g => g.Settled registry ∧ g.Linked) ⟨h, linked⟩ ?_).1
    rintro ⟨id, g⟩ ht g₁ turned ⟨h, linked⟩
    refine ⟨?_, linked.of_sameLinks turned.sameSkeleton.sameLinks⟩
    cases turned with
    | skipped => exact h
    | @computed node slots stale hnode hslots =>
      exact h.refresh linked.toMirrored steady hnode hslots
        (attentive (id, g) ht stale node slots hnode hslots)

/-- After a run of attentive calls the graph is settled. -/
theorem Settled.after {calls : List Call} (h : g.Settled registry) (steady : registry.Steady)
    (linked : g.Linked) (linking : AllAlong registry Call.Linking g calls)
    (attentive : AllAlong registry (Call.Attentive registry) g calls) :
    (g.after registry calls).Settled registry := by
  refine (after_keeps (I := fun g => g.Settled registry ∧ g.Linked) (linking.and attentive) ?_
    ⟨h, linked⟩).1
  rintro call g ⟨linking, attentive⟩ ⟨h, linked⟩
  exact ⟨h.leave steady linked attentive, linked.leave linking⟩

theorem SameSkeleton.mem_order (same : g.SameSkeleton g') (acyclic : g'.isCyclic = false)
    (live : g'.contains id) : id ∈ g.order := by
  obtain ⟨rank, hrank⟩ := isCyclic_eq_false_iff.1 acyclic
  rw [same.edges] at hrank
  rw [same.contains] at live
  exact isCyclic_eq_false_iff_forall_mem.1 (isCyclic_eq_false_iff.2 ⟨rank, hrank⟩) id live

theorem Valid.mem_order_of_sameSkeleton (valid : g'.Valid) (same : g.SameSkeleton g')
    (live : g'.contains id) : id ∈ g.order :=
  same.mem_order valid.acyclic live

/-- After inference of a graph without cycles every node is in step exactly if each node that was
passed over was in step at its turn. -/
theorem current_iff_of_acyclic (steady : registry.Steady) (mirrored : g.Mirrored) {n : Nat}
    (inferred : (GraphM.inferStale registry).runOn g = (.ok n, g'))
    (acyclic : g'.isCyclic = false) :
    g'.Current registry ↔ ∀ turn ∈ GraphM.turns registry g.order g,
      turn.2.isStale turn.1 = false → turn.2.InStep registry turn.1 := by
  have same := GraphM.sameSkeleton_of_inferStale inferred
  rw [GraphM.runOn_inferStale] at inferred
  have order : g.Sequential ([] ++ g.order) := g.sequential_order
  have inStep {turn : NodeId × Graph} (h : turn ∈ GraphM.turns registry g.order g) :=
    GraphM.inStep_iff_of_mem_turns steady mirrored order inferred h
  constructor
  · intro current turn hturn fresh
    have live : g'.contains turn.1 := by
      rw [same.contains]
      exact contains_of_mem_order (GraphM.mem_of_mem_turns hturn)
    simpa [fresh] using (inStep hturn).1 (current turn.1 live)
  · intro passed id live
    obtain ⟨turn, hturn, rfl⟩ :=
      GraphM.exists_mem_turns inferred (same.mem_order acyclic live)
    rw [inStep hturn]
    cases stale : turn.2.isStale turn.1 with
    | true => exact .inl rfl
    | false => exact .inr (passed turn hturn stale)

theorem current_iff_of_inferStale (steady : registry.Steady) (mirrored : g.Mirrored) {n : Nat}
    (inferred : (GraphM.inferStale registry).runOn g = (.ok n, g')) (valid : g'.Valid) :
    g'.Current registry ↔ ∀ turn ∈ GraphM.turns registry g.order g,
      turn.2.isStale turn.1 = false → turn.2.InStep registry turn.1 :=
  current_iff_of_acyclic steady mirrored inferred valid.acyclic

/-- After inference of all nodes of a graph without cycles every node is in step. -/
theorem current_of_inferAll (steady : registry.Steady) {changed : Bool}
    (inferred : (GraphM.inferAll registry).runOn g = (.ok changed, g'))
    (acyclic : g'.isCyclic = false) (mirrored : g'.Mirrored) : g'.Current registry := by
  obtain ⟨n, inferred⟩ := GraphM.exists_inferStale_of_inferAll inferred
  have same := (GraphM.sameSkeleton_of_inferStale inferred).sameLinks
  refine (current_iff_of_acyclic steady (mirrored.of_sameLinks same.symm) inferred acyclic).2 ?_
  intro turn hturn fresh
  have stale := GraphM.isStale_of_mem_turns (nodup_order _) (fun i hi => ?_) hturn
  · simp [stale] at fresh
  · have live := contains_of_mem_order hi
    rw [contains_congr (node?_setStale ..)] at live
    simp [isStale_setStale, live, mem_ids]

/-- Whatever calls have built a graph, once inference of it succeeds and the graph is valid, every
node is in step if the calls and the inference were attentive; and without that exactly if every
node that the inference passed over was in step at its turn. -/
theorem current_after_inferStale {name : String} {calls : List Call} {n : Nat}
    (linking : AllAlong .core Call.Linking (empty name) calls)
    (inferred : (GraphM.inferStale .core).runOn ((empty name).after .core calls) = (.ok n, g'))
    (valid : g'.validate = .ok ()) :
    (AllAlong .core (Call.Attentive .core) (empty name) (calls ++ [.inferStale]) →
      g'.Current .core) ∧
    (g'.Current .core ↔
      ∀ turn ∈ GraphM.turns .core ((empty name).after .core calls).order
        ((empty name).after .core calls),
        turn.2.isStale turn.1 = false → turn.2.InStep .core turn.1) := by
  have steady := Registry.steady_core
  have linked : ((empty name).after .core calls).Linked := (linked_empty name).after linking
  rw [validate_eq_ok_iff] at valid
  refine ⟨?_, current_iff_of_inferStale steady linked.toMirrored inferred valid⟩
  intro attentive
  obtain ⟨earlier, last, -⟩ := allAlong_append.1 attentive
  have settled : g'.Settled .core := by
    have before := (settled_empty .core name).after steady (linked_empty name) linking earlier
    have last : (Call.leave .core .inferStale ((empty name).after .core calls)).Settled .core :=
      before.leave steady linked last
    rwa [Call.leave, inferred] at last
  have skeleton := GraphM.sameSkeleton_of_inferStale inferred
  rw [GraphM.runOn_inferStale] at inferred
  apply settled.current (linked.toMirrored.of_sameLinks skeleton.sameLinks) valid
  intro id live
  have order : ((empty name).after .core calls).Sequential
      ([] ++ ((empty name).after .core calls).order) := sequential_order _
  exact GraphM.isStale_eq_false_of_inferInTurn order (by simp) inferred id
    (valid.mem_order_of_sameSkeleton skeleton live)

/-- A parameter that is up to date when a node is computed from it and its declared type changes. -/
def timelyRedeclaration : List Call :=
  [.addParameter "p" ⟨.f32, .ofExtents [2]⟩, .inferStale,
    .makeNode { op := "Relu", inputs := [⟨0, 0⟩] },
    .setOutputType ⟨0, 0⟩ ⟨.f32, .ofExtents [3]⟩]

/-- The node follows the parameter. -/
theorem current_after_timelyRedeclaration :
    AllAlong .core Call.Linking (empty "f") timelyRedeclaration ∧
      AllAlong .core (Call.Attentive .core) (empty "f") (timelyRedeclaration ++ [.inferStale]) ∧
      ∃ g', (GraphM.inferStale .core).runOn ((empty "f").after .core timelyRedeclaration) =
          (.ok 1, g') ∧
        g'.validate = .ok () ∧ g'.Current .core ∧
          g'.slot ⟨1, 0⟩ = .ok (.ofType ⟨.f32, .ofExtents [3]⟩) := by
  have linking : AllAlong .core Call.Linking (empty "f") timelyRedeclaration := by decide +kernel
  have attentive : AllAlong .core (Call.Attentive .core) (empty "f")
      (timelyRedeclaration ++ [.inferStale]) := by decide +kernel
  have answer : ((GraphM.inferStale .core).runOn
      ((empty "f").after .core timelyRedeclaration)).1 = .ok 1 := by decide +kernel
  have valid : ((GraphM.inferStale .core).runOn
      ((empty "f").after .core timelyRedeclaration)).2.validate = .ok () := by decide +kernel
  have inferred := GraphM.eq_ok_of_fst_eq answer
  exact ⟨linking, attentive, _, inferred, valid,
    (current_after_inferStale linking inferred valid).1 attentive, by decide +kernel⟩

/-- A parameter whose declared type changes while it is stale, though a node has been computed
from it. -/
def redeclaration : List Call :=
  [.addParameter "p" ⟨.f32, .ofExtents [2]⟩,
    .makeNode { op := "Relu", inputs := [⟨0, 0⟩] },
    .setOutputType ⟨0, 0⟩ ⟨.f32, .ofExtents [3]⟩]

theorem linking_redeclaration : AllAlong .core Call.Linking (empty "f") redeclaration := by
  refine ⟨trivial, ?_, trivial, trivial⟩
  intro o ho
  obtain rfl := List.mem_singleton.1 ho
  rfl

/-- The graph in which the inference after the redeclaration ends. -/
def redeclared : Graph :=
  ((GraphM.inferStale .core).runOn ((empty "f").after .core redeclaration)).2

theorem inferStale_redeclaration :
    (GraphM.inferStale .core).runOn ((empty "f").after .core redeclaration) =
      (.ok 0, redeclared) := by
  decide +kernel

theorem validate_redeclared : redeclared.validate = .ok () := by
  decide +kernel

theorem not_inStep_redeclared : ¬redeclared.InStep .core 1 := by
  rintro ⟨node, hnode, h⟩
  have outdated : (redeclared.node? 1).map (fun node =>
      decide ((redeclared.inferred .core node).toOption = some node.outputs)) = some false := by
    decide +kernel
  rw [hnode, Option.map_some, h] at outdated
  simp [Except.toOption] at outdated

/-- Calls that link are not enough for every node to be in step after inference. -/
theorem not_forall_current_after_inferStale :
    ¬∀ (name : String) (calls : List Call) (n : Nat) (g' : Graph),
      AllAlong .core Call.Linking (empty name) calls →
      (GraphM.inferStale .core).runOn ((empty name).after .core calls) = (.ok n, g') →
      g'.validate = .ok () → g'.Current .core := by
  intro always
  have current := always "f" redeclaration 0 redeclared linking_redeclaration
    inferStale_redeclaration validate_redeclared
  exact not_inStep_redeclared (current 1 rfl)

end Graph

end TensorGraph
