import TensorGraph.Proofs.Inference.Incremental
import TensorGraph.Proofs.Operators.Evaluation

/-!
# Seams

A seam is where a node that is up to date reads one that is stale. A graph without seams is alert
(`Graph.Alert`), and inference and declared types keep a settled graph settled as long as it is.
Making nodes from what is stale leaves seams, and inference passes over the reader at a seam if the
slot that it reads comes out the same but for the sign of a zero. That does no harm if the reader
sees the type of the slot only, or if the slot can be told from its plain form (`Graph.Seamed`).
-/

namespace TensorGraph

/-- No other tensor has the same plain form. -/
def Tensor.Firm (t : Tensor) : Prop := ∀ t' : Tensor, t'.plain = t.plain → t' = t

/-- No other slot has the same plain form. -/
def Slot.Firm (slot : Slot) : Prop := ∀ slot' : Slot, slot'.plain = slot.plain → slot' = slot

theorem Tensor.firm_of_integers? {t : Tensor} {xs : List Int} (h : t.integers? = some xs) :
    t.Firm := fun _ plain => Tensor.eq_of_plain_eq plain h

theorem Tensor.firm_of_not_isZero {x : Binary64} (h : ¬x.isZero) :
    (Tensor.ofData (.f64 [x])).Firm := by
  rintro ⟨data, extents⟩ plain
  simp only [Tensor.plain, Tensor.ofData, Tensor.mk.injEq] at plain ⊢
  obtain ⟨ys, rfl, same⟩ := TensorData.exists_f64_of_plain_eq plain.1
  obtain ⟨y, rest, rfl, single, none⟩ := List.map_eq_cons_iff.1 same
  obtain rfl := List.map_eq_nil_iff.1 none
  rw [(Binary.plain_eq_of_not_isZero h).1 single]
  exact ⟨rfl, plain.2⟩

theorem Slot.Shows.firm {slot : Slot} {t : Tensor} (h : slot.Shows t) (firm : t.Firm) :
    slot.Firm := by
  intro slot' plain
  obtain ⟨u, value, same⟩ := Option.map_eq_some_iff.1 h
  obtain rfl := firm u same
  obtain ⟨types, values⟩ := Slot.plain_eq_plain_iff.1 plain
  rw [value, Option.map_some] at values
  obtain ⟨u', value', same'⟩ := Option.map_eq_some_iff.1 values
  obtain rfl := firm u' same'
  cases slot
  cases slot'
  simp_all

/-! ### Operators that see types only -/

theorem Site.shape_congr {node : Node} {slots slots' : List (Except Error Slot)}
    (types : slots'.map (·.map Slot.toSlotType) = slots.map (·.map Slot.toSlotType)) (i : Nat) :
    Site.shape ⟨node, slots'⟩ i = Site.shape ⟨node, slots⟩ i := by
  have entry := congrArg (·[i]?) types
  simp only [List.getElem?_map] at entry
  have shape (s : Site) : s.shape i = (s.slot i >>= fun slot => pure slot.shape) := rfl
  rw [shape, shape, Site.slot, Site.slot]
  cases h : slots[i]? with
  | none =>
    cases h' : slots'[i]? with
    | none => rfl
    | some _ => simp [h, h'] at entry
  | some slot =>
    cases h' : slots'[i]? with
    | none => simp [h, h'] at entry
    | some slot' =>
      rw [h, h', Option.map_some, Option.map_some, Option.some.injEq] at entry
      cases slot <;> cases slot' <;> simp_all [Except.map, bind, Except.bind]

/-- The shape of a tensor is computed from its type. -/
theorem Operator.slots_shapeOf_congr {node : Node} {slots slots' : List (Except Error Slot)}
    (types : slots'.map (·.map Slot.toSlotType) = slots.map (·.map Slot.toSlotType)) :
    shapeOf.slots ⟨node, slots'⟩ = shapeOf.slots ⟨node, slots⟩ := by
  simp only [Operator.slots, shapeOf, Site.shape_congr types]
  rfl

namespace Graph

variable {registry : Registry} {g g' g₁ : Graph} {id i : NodeId} {node : Node} {o : Output}

/-- Of what a node reads only the plain form matters, if the slot is determined by it or if the node
sees types only. -/
theorem inferred_congr_of_plain (node : Node)
    (h : ∀ o ∈ node.inputs, ∃ slot slot', g.slot o = .ok slot ∧ g'.slot o = .ok slot' ∧
      slot.plain = slot'.plain ∧ (node.op = "ShapeOf" ∨ slot = slot')) :
    g'.inferred .core node = g.inferred .core node := by
  by_cases op : node.op = "ShapeOf"
  · have found : Registry.core.find? node.op = some Operator.shapeOf := by
      rw [op]
      rfl
    simp only [inferred, found, site]
    apply Operator.slots_shapeOf_congr
    rw [List.map_map, List.map_map]
    apply List.map_congr_left
    intro o ho
    obtain ⟨slot, slot', hslot, hslot', plain, -⟩ := h o ho
    simp only [Function.comp_apply, hslot, hslot', Except.map]
    rw [(Slot.plain_eq_plain_iff.1 plain).1]
  · apply inferred_congr
    intro o ho
    obtain ⟨slot, slot', hslot, hslot', -, same⟩ := h o ho
    rw [hslot, hslot', same.resolve_left op]

/-! ### Graphs without seams -/

/-- What reads a stale node is stale. -/
def Alert (g : Graph) : Prop := ∀ p i, g.isStale p → i ∈ g.successors p → g.isStale i

theorem alert_of_fresh (fresh : ∀ id, g.isStale id = false) : g.Alert := by
  intro p _ stale
  simp [fresh p] at stale

theorem Alert.markStale (h : g.Alert) (id : NodeId) : (g.markStale id).Alert := by
  intro p i stale edge
  rw [successors, edges_markStale, ← successors] at edge
  cases before : g.isStale p with
  | true => exact isStale_markStale_of_isStale (h p i before edge) id
  | false => exact isStale_markStale_of_edge stale before edge

/-- In an alert graph nothing is overlooked behind a stale node. -/
theorem Alert.not_overlooks (h : g.Alert) (mirrored : g.Mirrored) (stale : g.isStale id)
    (slots : List Slot) : ¬g.Overlooks id slots := by
  rintro ⟨reader, port, o, _, _, fresh, hread, source, _⟩
  have edge := mirrored.mem_successors.2 ⟨contains_of_isStale stale, port, o, hread, source⟩
  simp [h id reader stale edge] at fresh

/-- Declaring a type keeps an alert graph alert, and settled if it is. -/
theorem Alert.setOutputType (h : g.Alert) (mirrored : g.Mirrored) (settled : g.Settled registry)
    (o : Output) (type : SlotType) :
    ((GraphM.setOutputType o type).runOn g).2.Alert ∧
      ((GraphM.setOutputType o type).runOn g).2.Settled registry := by
  have same := SameSkeleton.markStale g o.node
  have marked := h.markStale o.node
  rw [GraphM.runOn_setOutputType]
  split
  · exact ⟨h, settled⟩
  · next node hnode =>
    have stale := isStale_markStale_self (contains_of_node? hnode)
    split
    · refine ⟨?_, (settled.markStale o.node).modifyNode stale fun _ _ =>
        marked.not_overlooks (mirrored.of_sameLinks same.sameLinks) stale _⟩
      intro p i stale edge
      rw [isStale_modifyNode] at stale ⊢
      exact marked p i stale edge
    · exact ⟨marked, settled.markStale o.node⟩

/-! ### Graphs with seams -/

/-- The graph is settled, and a node that is up to date though it reads a stale one cannot miss what
inference makes of that one. -/
structure Seamed (g : Graph) : Prop where
  settled : g.Settled .core
  bears : ∀ reader port o node slot, g.node? reader = some node → g.isStale reader = false →
    g.input? reader port = some o → g.isStale o.node → g.slot o = .ok slot →
    node.op = "ShapeOf" ∨ slot.Firm

theorem Alert.seamed (h : g.Alert) (mirrored : g.Mirrored) (settled : g.Settled .core) :
    g.Seamed where
  settled := settled
  bears reader port o _ _ _ fresh hread stale _ := by
    have edge := mirrored.mem_successors.2 ⟨contains_of_isStale stale, port, o, hread, rfl⟩
    simp [h o.node reader stale edge] at fresh

theorem Seamed.collect (h : g.Seamed) : g.collect.Seamed where
  settled := h.settled.foldl_vacate g.dead
  bears reader port o node slot hnode fresh hread stale hslot := by
    have kept {i : NodeId} (live : g.collect.contains i) :
        g.collect.node? i = g.node? i ∧ g.collect.isStale i = g.isStale i := by
      rw [Graph.collect, contains_foldl_vacate] at live
      split at live
      · cases live
      · next out =>
        rw [Graph.collect, node?_foldl_vacate, isStale_foldl_vacate, if_neg out, if_neg out]
        exact ⟨rfl, rfl⟩
    obtain ⟨sameReader, freshReader⟩ := kept (contains_of_node? hnode)
    obtain ⟨sameSource, staleSource⟩ := kept (contains_of_isStale stale)
    refine h.bears reader port o node slot (sameReader.symm.trans hnode)
      (freshReader.symm.trans fresh) ?_ (staleSource.symm.trans stale) ?_
    · rwa [input?, sameReader] at hread
    · rwa [slot_congr sameSource] at hslot

/-- A node that is up to date before a turn and after it is still in step. What it reads has come
out the same, or at a seam the same but for the sign of a zero. -/
theorem Seamed.inferred_turned (h : g.Seamed) (mirrored : g.Mirrored)
    (turned : GraphM.Turned .core id g g₁) (passed : g.isStale i = false)
    (fresh : g₁.isStale i = false) (hnode : g₁.node? i = some node)
    (reads : ∀ o ∈ node.inputs, o.node ≠ i ∧ ∃ slot, g₁.slot o = .ok slot) :
    g₁.inferred .core node = .ok node.outputs := by
  have before : g.node? i = some node := by
    by_cases e : i = id
    · cases turned with
      | skipped => exact hnode
      | computed stale => simp [← e, passed] at stale
    · exact (turned.node?_eq e).symm.trans hnode
  have seen : ∀ o ∈ node.inputs, ∃ slot slot', g.slot o = .ok slot ∧ g₁.slot o = .ok slot' ∧
      slot.plain = slot'.plain ∧ (node.op = "ShapeOf" ∨ slot = slot') := by
    intro o ho
    obtain ⟨port, hread⟩ := exists_port_of_mem before ho
    obtain ⟨-, slot', hslot'⟩ := reads o ho
    obtain ⟨slot, hslot, plain, stale | same⟩ :=
      exists_slot_of_turned mirrored turned fresh hread hslot'
    · refine ⟨slot, slot', hslot, hslot', plain, ?_⟩
      exact (h.bears i port o node slot before passed hread stale hslot).imp_right
        fun firm => (firm slot' plain.symm).symm
    · exact ⟨slot, slot', hslot, hslot', plain, .inr same⟩
  rw [inferred_congr_of_plain node seen]
  refine h.settled i node before passed fun o ho => ⟨(reads o ho).1, ?_⟩
  obtain ⟨slot, _, hslot, -⟩ := seen o ho
  exact ⟨slot, hslot⟩

/-- A turn of the inference keeps every node that is up to date in step, given that what the node
reads has had its turn. -/
theorem Seamed.turned {done todo : List NodeId} (h : g.Seamed) (mirrored : g.Mirrored)
    (order : g.Sequential (done ++ id :: todo)) (fresh : ∀ i ∈ done, g.isStale i = false)
    (turned : GraphM.Turned .core id g g₁) : g₁.Seamed where
  settled := h.settled.of_spared fun i => by
    cases freshAfter : g₁.isStale i with
    | true =>
      left
      intro _ _ fresh
      simp [freshAfter] at fresh
    | false =>
      right
      intro node hnode reads
      by_cases passed : g.isStale i = false
      · exact h.inferred_turned mirrored turned passed freshAfter hnode reads
      · have stale : g.isStale i := by simpa using passed
        obtain rfl : i = id := by
          by_contra e
          simp [turned.isStale e stale] at freshAfter
        obtain ⟨node', hnode', inferred⟩ := turned.inStep Registry.steady_core stale
          fun port o hread source => order.not_mem_predecessors
            (mirrored.mem_predecessors.2 ⟨contains_of_isStale stale, port, o, hread, source⟩)
        obtain rfl := Option.some.inj (hnode'.symm.trans hnode)
        exact inferred
  bears reader port o node slot hnode freshReader hread stale hslot := by
    have same := turned.sameSkeleton
    have after := turned.isStale_eq_false order fresh
    rw [same.input?] at hread
    have live : g.contains o.node := by
      rw [← same.contains]
      exact contains_of_isStale stale
    have edge : reader ∈ g.successors o.node :=
      mirrored.mem_successors.2 ⟨live, port, o, hread, rfl⟩
    have elsewhere : o.node ≠ id := by
      intro e
      simp [e, after id (by simp)] at stale
    have apart : reader ≠ id := by
      rintro rfl
      have produced := order.before done reader todo rfl o.node
        (mem_predecessors_iff_mem_successors.2 edge)
      simp [after o.node (List.mem_append_left _ produced)] at stale
    have before : g.isStale o.node := by
      by_contra passed
      simp [turned.isStale_of_edge stale (by simpa using passed) edge] at freshReader
    refine h.bears reader port o node slot ((turned.node?_eq apart).symm.trans hnode)
      (isStale_eq_false_of_imp (turned.isStale apart) freshReader) hread before ?_
    rwa [slot_congr (turned.node?_eq elsewhere)] at hslot

/-- So does the whole inference, also one that fails. -/
theorem Seamed.inferStale (h : g.Seamed) (mirrored : g.Mirrored) :
    ((GraphM.inferStale .core).runOn g).2.Seamed :=
  GraphM.inferStale_keeps h mirrored fun _ _ _ _ _ mirrored order fresh turned h =>
    h.turned mirrored order fresh turned

/-! ### Inference of all nodes -/

/-- Inference of all nodes brings those up to date that are on no cycle and behind none, and leaves
the others stale. -/
theorem exists_order_of_inferAll (steady : registry.Steady) (mirrored : g'.Mirrored) {changed : Bool}
    (inferred : (GraphM.inferAll registry).runOn g = (.ok changed, g')) :
    ∃ order, g'.Sequential order ∧
      (∀ id ∈ order, g'.isStale id = false ∧ g'.InStep registry id) ∧
        ∀ id, g'.contains id → id ∉ order →
          g'.isStale id ∧ ∃ p ∈ g'.predecessors id, p ∉ order := by
  obtain ⟨n, inferred⟩ := GraphM.exists_inferStale_of_inferAll inferred
  have same := GraphM.sameSkeleton_of_inferStale inferred
  have allStale : ∀ id, (g.setStale g.ids).contains id → (g.setStale g.ids).isStale id := by
    intro id live
    rw [contains_congr (node?_setStale ..)] at live
    simp [isStale_setStale, live, mem_ids]
  rw [GraphM.runOn_inferStale] at inferred
  have order : (g.setStale g.ids).Sequential ([] ++ (g.setStale g.ids).order) :=
    sequential_order _
  refine ⟨_, order.of_sameSkeleton same, fun id hid => ?_, fun id live out => ?_⟩
  · refine ⟨GraphM.isStale_eq_false_of_inferInTurn order (by simp) inferred id hid, ?_⟩
    obtain ⟨turn, hturn, rfl⟩ := GraphM.exists_mem_turns inferred hid
    rw [GraphM.inStep_iff_of_mem_turns steady (mirrored.of_sameLinks same.sameLinks.symm) order
      inferred hturn]
    exact .inl (GraphM.isStale_of_mem_turns (nodup_order _)
      (fun i hi => allStale i (contains_of_mem_order hi)) hturn)
  · rw [same.contains] at live
    have kept : g'.isStale id := by
      obtain rfl : _ = g' := congrArg Prod.snd inferred
      exact GraphM.isStale_inferInTurn out (allStale id live)
    obtain ⟨p, hp, outside⟩ := exists_predecessor_not_mem_order live out
    exact ⟨kept, p, by rwa [predecessors, same.edges, ← predecessors], outside⟩

/-- There are no seams after inference of all nodes. -/
theorem seamed_of_inferAll (mirrored : g'.Mirrored) {changed : Bool}
    (inferred : (GraphM.inferAll .core).runOn g = (.ok changed, g')) : g'.Seamed := by
  obtain ⟨order, sequential, reached, others⟩ :=
    exists_order_of_inferAll Registry.steady_core mirrored inferred
  have mem_order {id : NodeId} (live : g'.contains id) (fresh : g'.isStale id = false) :
      id ∈ order := by
    by_contra out
    simp [(others id live out).1] at fresh
  have alert : g'.Alert := by
    intro p i stale edge
    by_contra fresh
    obtain ⟨port, hedge⟩ := mem_successors.1 edge
    obtain ⟨before, after, rfl⟩ :=
      List.append_of_mem (mem_order (g'.edges_live _ hedge).2 (by simpa using fresh))
    have produced := sequential.before before i after rfl p
      (mem_predecessors_iff_mem_successors.2 edge)
    simp [(reached p (List.mem_append_left _ produced)).1] at stale
  refine alert.seamed mirrored fun id node hnode fresh _ => ?_
  obtain ⟨node', hnode', computed⟩ :=
    (reached id (mem_order (contains_of_node? hnode) fresh)).2
  obtain rfl := Option.some.inj (hnode.symm.trans hnode')
  exact computed

end Graph

end TensorGraph
