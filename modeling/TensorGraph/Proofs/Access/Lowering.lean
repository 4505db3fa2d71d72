import TensorGraph.Proofs.Access.ScalarForm
import TensorGraph.Proofs.Graph.Replacement
import TensorGraph.Proofs.Inference.Incremental
import TensorGraph.Proofs.RuleGroup

/-!
# Lowering is an isomorphism

A sweep takes the accesses in turn and exchanges each wide one for its scalar form. `Lowerable` is
what a graph has to fulfil for that, and what every exchange keeps; `LoweredAt` says what a sweep
over some of the places has made of a graph. In the end the graph is the one from before under other
labels, with every wide access in scalar form.
-/

namespace TensorGraph.MemoryAccess

variable {g g' g'' : Graph} {φ ψ : NodeId → NodeId} {f : NodeId → Node → Node} {id : NodeId}
  {ids : List NodeId} {node : Node} {op : String} {b : Bool} {turn : Turn} {turns : List Turn}

/-- A valid graph whose wide accesses have the outputs that are computed for them and are not among
its parameters. -/
structure Lowerable (g : Graph) : Prop where
  valid : g.Valid
  mirrored : g.Mirrored
  inferred : ∀ id node op, g.node? id = some node → scalarOp? node = some op →
    g.inferred .core node = .ok node.outputs
  undesignated : ∀ id node, g.node? id = some node → id ∈ g.parameters → scalarOp? node = none

/-- What is computed for a wide access is computed for it under other labels. -/
theorem inferred_relabel {slots : List Slot} (h : scalarOp? node = some op)
    (same : ∀ o slot, g.slot o = .ok slot → g'.slot (o.relabel φ) = .ok slot)
    (inferred : g.inferred .core node = .ok slots) :
    g'.inferred .core (node.relabel φ) = .ok slots := by
  obtain ⟨⟨kind, hkind, e⟩, _⟩ := exists_kinds h
  obtain ⟨width, o, slot, inputs, hslot, rfl⟩ := (inferred_eq_ok_iff hkind e).1 inferred
  have e' : (node.relabel φ).op = kind.op := e
  refine (inferred_eq_ok_iff hkind e').2 ⟨width, o.relabel φ, slot, ?_, same o slot hslot, rfl⟩
  rw [Node.relabel, inputs]
  rfl

/-- Lowering some of the nodes leaves the others lowerable. -/
theorem Lowerable.relabelled (h : Lowerable g) (relabelled : g.Relabelled φ f g')
    (internal : Node.Internal f) (partly : ∀ id node, f id node = node ∨ f id node = lowered node)
    (mirrored : g'.Mirrored) : Lowerable g' where
  valid := relabelled.valid internal h.valid h.mirrored mirrored
  mirrored := mirrored
  inferred j node' op hnode' hop := by
    obtain ⟨id, node, rfl, hnode, rfl⟩ := relabelled.exists_node hnode'
    rw [scalarOp?_relabel] at hop
    rcases partly id node with same | low
    · rw [same] at hop ⊢
      exact inferred_relabel hop (fun _ _ => relabelled.slot internal)
        (h.inferred id node op hnode hop)
    · rw [low, scalarOp?_lowered] at hop
      cases hop
  undesignated j node' hnode' hj := by
    rw [relabelled.parameters, List.mem_map] at hj
    obtain ⟨id, hid, rfl⟩ := hj
    obtain ⟨node, hnode⟩ := Graph.contains_iff_exists_node?.1 (h.valid.parameters_live id hid)
    have none := h.undesignated id node hnode hid
    rw [relabelled.node? id node hnode] at hnode'
    obtain rfl := Option.some.inj hnode'
    rw [scalarOp?_relabel]
    rcases partly id node with same | low
    · rw [same, none]
    · rw [low, scalarOp?_lowered]

/-! ### One exchange -/

/-- The graph in which a node has been exchanged for its scalar form. -/
def exchangedFor (op : String) (g : Graph) (id : NodeId) (node : Node) : Graph :=
  GraphM.exchanged g id node (scalarForm op node) node.outputs

/-- Lowering a wide access succeeds and exchanges it. -/
theorem Lowerable.runOn_lower (h : Lowerable g) (hnode : g.node? id = some node)
    (hop : scalarOp? node = some op) (bindings : Bindings) :
    (lower op ⟨.core, b⟩ ⟨id, bindings⟩).runOn g = (.ok .changed, exchangedFor op g id node) := by
  have inserted : (g.insert (scalarForm op node)).inferred .core (scalarForm op node) =
      .ok node.outputs := by
    rw [Graph.inferred_congr (g := g)]
    · exact inferred_scalarForm hop (h.inferred id node op hnode hop)
    · intro o ho
      obtain ⟨port, hport⟩ := Graph.exists_port_of_mem hnode ho
      exact Graph.slot_congr (Graph.node?_insert_of_contains
        ((h.valid.wired h.mirrored).inputs_live id port o hport) _)
  have made : (GraphM.makeNode .core (scalarForm op node)).runOn g =
      (.ok g.nextId, GraphM.made g (scalarForm op node) node.outputs) := by
    rw [GraphM.runOn_makeNode, inserted]
    rfl
  obtain ⟨entry, removed⟩ : ∃ entry,
      (GraphM.removeNode id).runOn (GraphM.superseded g id node (scalarForm op node) node.outputs) =
        (.ok entry, exchangedFor op g id node) :=
    GraphM.exists_runOn_removeNode_superseded hnode
  rw [lower, GraphM.runOn_bind, GraphM.runOn_ask, Graph.node, hnode]
  simp only [GraphM.runOn_bind, made, GraphM.runOn_replaceNode_made hnode rfl, removed,
    GraphM.runOn_pure]

/-! ### One sweep -/

theorem lowered_lowered (node : Node) : lowered (lowered node) = lowered node :=
  lowered_of_scalarOp?_eq_none (scalarOp?_lowered node)

/-- Lowering of the nodes in some of the places. -/
def loweredIn (ids : List NodeId) (id : NodeId) (node : Node) : Node :=
  if id ∈ ids then lowered node else node

theorem loweredIn_or (ids : List NodeId) (id : NodeId) (node : Node) :
    loweredIn ids id node = node ∨ loweredIn ids id node = lowered node := by
  simp only [loweredIn]
  split
  · exact .inr rfl
  · exact .inl rfl

theorem internal_loweredIn (ids : List NodeId) : Node.Internal (loweredIn ids) where
  inputs id node := by
    rcases loweredIn_or ids id node with h | h
    · rw [h]
    · rw [h, internal_lowered.inputs id]
  outputs id node := by
    rcases loweredIn_or ids id node with h | h
    · rw [h]
    · rw [h, internal_lowered.outputs id]
  relabel φ id node := by
    simp only [loweredIn]
    split
    · exact internal_lowered.relabel φ id node
    · rfl

/-- The second graph is the first one, under other labels, with the wide accesses in some places in
scalar form; all other nodes are where they were. -/
structure LoweredAt (ids : List NodeId) (g g' : Graph) (φ : NodeId → NodeId) : Prop where
  lowerable : Lowerable g'
  relabelled : g.Relabelled φ (loweredIn ids) g'
  fixed : ∀ id node, g.node? id = some node → id ∉ ids ∨ scalarOp? node = none → φ id = id

theorem Lowerable.loweredAt_nil (h : Lowerable g) : LoweredAt [] g g fun id => id where
  lowerable := h
  relabelled := (Graph.Relabelled.refl g).congr fun _ _ _ => rfl
  fixed _ _ _ _ := rfl

/-- A node that is not to be lowered is passed over. -/
theorem Lowerable.loweredAt_self (h : Lowerable g) (hnode : g.node? id = some node)
    (none : scalarOp? node = none) : LoweredAt [id] g g fun id => id where
  lowerable := h
  relabelled := (Graph.Relabelled.refl g).congr fun i n hn => by
    simp only [loweredIn]
    split
    · next hi =>
      obtain rfl := List.mem_singleton.1 hi
      obtain rfl := Option.some.inj (hn.symm.trans hnode)
      exact lowered_of_scalarOp?_eq_none none
    · rfl
  fixed _ _ _ _ := rfl

/-- A wide access can be exchanged for its scalar form. -/
theorem Lowerable.exchangeable (h : Lowerable g) (hnode : g.node? id = some node) (op : String) :
    GraphM.Exchangeable g id node (scalarForm op node) where
  valid := h.valid
  mirrored := h.mirrored
  old := hnode
  inputs := rfl
  name := rfl

theorem Lowerable.loweredAt_exchangedFor (h : Lowerable g) (hnode : g.node? id = some node)
    (hop : scalarOp? node = some op) :
    LoweredAt [id] g (exchangedFor op g id node) (GraphM.moved id g.nextId) := by
  have exchangeable := h.exchangeable hnode op
  have notParameter : id ∉ g.parameters := by
    intro hid
    rw [h.undesignated id node hnode hid] at hop
    cases hop
  have relabelled : g.Relabelled (GraphM.moved id g.nextId) (loweredIn [id])
      (exchangedFor op g id node) := by
    apply (exchangeable.relabelled node.outputs notParameter).congr
    intro i n hn
    simp only [loweredIn]
    by_cases e : i = id
    · subst e
      obtain rfl := Option.some.inj (hn.symm.trans hnode)
      rw [if_pos (List.mem_singleton_self _), if_pos rfl, lowered_of_scalarOp?_eq_some hop]
    · rw [if_neg (by simpa using e), if_neg e]
  refine ⟨?_, relabelled, ?_⟩
  · have wired := exchangeable.wired_exchanged node.outputs
    exact h.relabelled relabelled (internal_loweredIn _) (loweredIn_or _) wired.toMirrored
  · intro i n hn out
    apply if_neg
    rintro rfl
    obtain rfl := Option.some.inj (hn.symm.trans hnode)
    simp [hop] at out

/-- One place after the other. -/
theorem LoweredAt.cons (first : LoweredAt [id] g g' φ) (rest : LoweredAt ids g' g'' ψ) :
    LoweredAt (id :: ids) g g'' (ψ ∘ φ) where
  lowerable := rest.lowerable
  relabelled := by
    apply (first.relabelled.trans rest.relabelled (internal_loweredIn ids)).congr
    intro i n hn
    by_cases e : i = id
    · have stays : loweredIn ids (φ i) (lowered n) = lowered n := by
        rcases loweredIn_or ids (φ i) (lowered n) with h | h
        · exact h
        · rw [h, lowered_lowered]
      rw [loweredIn, if_pos (e ▸ List.mem_cons_self), loweredIn.eq_1 [id],
        if_pos (e ▸ List.mem_singleton_self _), stays]
    · have out : i ∉ [id] := by simpa using e
      rw [first.fixed i n hn (.inl out), loweredIn.eq_1 [id], if_neg out]
      simp [loweredIn, e]
  fixed i n hn out := by
    have stays : φ i = i := by
      refine first.fixed i n hn (out.imp_left fun h => ?_)
      intro hi
      exact h (List.mem_singleton.1 hi ▸ List.mem_cons_self)
    have hn' := first.relabelled.node? i n hn
    rw [stays] at hn'
    rw [Function.comp, stays]
    refine rest.fixed i _ hn' (out.imp (fun h hi => h (List.mem_cons_of_mem _ hi)) fun none => ?_)
    rw [scalarOp?_relabel]
    rcases loweredIn_or [id] i n with h | h
    · rw [h, none]
    · rw [h, scalarOp?_lowered]

/-- An offer lowers the node if it is a wide access, and else does nothing. -/
theorem Lowerable.offer (h : Lowerable g) (hnode : g.node? turn.id = some node) :
    ∃ o g' φ, RuleGroup.offer ⟨.core, b⟩ turn 0 RuleGroup.lowerAccesses.rules g = (o, g') ∧
      o.outcome = .ok (if (scalarOp? node).isSome then .changed else .unchanged) ∧
      LoweredAt [turn.id] g g' φ ∧
      ∀ i, g.contains i → i ≠ turn.id → g'.seq? i = g.seq? i := by
  have loads : Rule.lowerLoads.pattern.match? g turn.id = _ := match?_vectorPattern hnode
  have stores : Rule.lowerStores.pattern.match? g turn.id = _ := match?_vectorPattern hnode
  have seqs (op : String) (i : NodeId) (live : g.contains i) (other : i ≠ turn.id) :
      (exchangedFor op g turn.id node).seq? i = g.seq? i := GraphM.seq?_exchanged live other
  cases hop : scalarOp? node with
  | none =>
    exact ⟨_, g, fun id => id, RuleGroup.offer_of_match?_eq_none (match?_eq_none hnode hop), rfl,
      h.loweredAt_self hnode hop, fun _ _ _ => rfl⟩
  | some op =>
    have changed := h.runOn_lower (b := b) hnode hop []
    have exchanged := h.loweredAt_exchangedFor hnode hop
    obtain ⟨wide, ⟨e, rfl⟩ | ⟨e, rfl⟩⟩ := scalarOp?_eq_some_iff.1 hop
    · rw [if_pos ⟨e, wide⟩] at loads
      exact ⟨_, _, _, RuleGroup.offer_cons_of_changed loads changed, rfl, exchanged, seqs _⟩
    · have other : ¬(node.op = load ∧ isWide node) := fun loads =>
        absurd (loads.1.symm.trans e) (by decide)
      rw [if_neg other] at loads
      rw [if_pos ⟨e, wide⟩] at stores
      exact ⟨_, _, _, (RuleGroup.offer_cons_of_match?_eq_none loads).trans
        (RuleGroup.offer_cons_of_changed stores changed), rfl, exchanged, seqs _⟩

/-- Is the node in the place to be lowered? -/
def isLowered (g : Graph) (id : NodeId) : Bool :=
  (g.node? id).any fun node => (scalarOp? node).isSome

theorem isLowered_eq (h : g.node? id = some node) : isLowered g id = (scalarOp? node).isSome := by
  rw [isLowered, h]
  rfl

/-- In the other places there is still as much to lower. -/
theorem LoweredAt.isLowered_eq (h : LoweredAt ids g g' φ) (live : g.contains id) (out : id ∉ ids) :
    isLowered g' id = isLowered g id := by
  obtain ⟨node, hnode⟩ := Graph.contains_iff_exists_node?.1 live
  have hnode' := h.relabelled.node? id node hnode
  rw [h.fixed id node hnode (.inl out), loweredIn, if_neg out] at hnode'
  rw [MemoryAccess.isLowered_eq hnode', MemoryAccess.isLowered_eq hnode, scalarOp?_relabel]

/-- A sweep lowers the wide accesses whose turns it takes. -/
theorem Lowerable.offerAll (h : Lowerable g) (nodup : (turns.map Turn.id).Nodup)
    (here : ∀ turn ∈ turns, g.seq? turn.id = some turn.seq) :
    ∃ sweep g' φ,
      RuleGroup.offerAll ⟨.core, b⟩ RuleGroup.lowerAccesses.rules turns g = (sweep, g') ∧
        sweep.ending = .finished ∧ sweep.changed = (turns.map Turn.id).any (isLowered g) ∧
        LoweredAt (turns.map Turn.id) g g' φ := by
  induction turns generalizing g with
  | nil => exact ⟨_, g, fun id => id, rfl, rfl, rfl, h.loweredAt_nil⟩
  | cons turn rest ih =>
    obtain ⟨first, later⟩ := List.forall_mem_cons.1 here
    obtain ⟨fresh, nodup⟩ := List.nodup_cons.1 nodup
    obtain ⟨node, hnode⟩ := Graph.contains_iff_exists_node?.1
      (Graph.contains_iff_exists_seq?.2 ⟨_, first⟩)
    obtain ⟨o, g₁, φ, offered, outcome, lowered, seqs⟩ := h.offer (b := b) hnode
    have live (turn' : Turn) (hturn' : turn' ∈ rest) : g.contains turn'.id :=
      Graph.contains_iff_exists_seq?.2 ⟨_, later turn' hturn'⟩
    have other (turn' : Turn) (hturn' : turn' ∈ rest) : turn'.id ≠ turn.id := fun e =>
      fresh (e ▸ List.mem_map_of_mem hturn')
    obtain ⟨sweep, g', ψ, swept, ending, changed, done⟩ := ih lowered.lowerable nodup
      fun turn' hturn' => by
        rw [seqs _ (live turn' hturn') (other turn' hturn'), later turn' hturn']
    have same : (rest.map Turn.id).any (isLowered g₁) = (rest.map Turn.id).any (isLowered g) := by
      rw [Bool.eq_iff_iff, List.any_eq_true, List.any_eq_true]
      apply exists_congr
      intro id
      apply and_congr_right
      intro hid
      obtain ⟨turn', hturn', rfl⟩ := List.mem_map.1 hid
      rw [lowered.isLowered_eq (live turn' hturn') (by simpa using other turn' hturn')]
    refine ⟨_, g', ψ ∘ φ, RuleGroup.offerAll_cons first offered ?_ swept, ending, ?_,
      lowered.cons done⟩
    · rw [Offer.ending?, outcome]
      cases (scalarOp? node).isSome <;> rfl
    · have here : o.changed = isLowered g turn.id := by
        rw [Offer.changed, outcome, MemoryAccess.isLowered_eq hnode]
        cases (scalarOp? node).isSome <;> rfl
      have step : ({ sweep with offers := o :: sweep.offers } : Sweep).changed =
          (o.changed || sweep.changed) := rfl
      rw [step, here, changed, same]
      rfl

end TensorGraph.MemoryAccess
