import TensorGraph.Proofs.Batch.Candidates
import TensorGraph.Proofs.Graph.Validity

/-!
# Qualifying reshapes

`Graph.Qualifies` says which reshapes are to be relaxed, apart from the search for them. In a valid
graph the search finds all of them, unless the data of one of them have the batch 0, from which no
ratio can be computed (`Relaxation.candidates_cases`).
-/

namespace TensorGraph

/-- A reshape qualifies for a relaxation if its data have a known rank above 1 and a known batch,
its output has a known rank above 1, and its target is known and asks for a batch. -/
structure Graph.Qualifies (g : Graph) (id : NodeId) (node : Node) (batch : Nat) (target : Slot) :
    Prop where
  placed : g.node? id = some node
  op : node.op = "Reshape"
  reads : ∃ o o' data, node.inputs = [o, o'] ∧ g.slot o = .ok data ∧ g.slot o' = .ok target ∧
    ∃ dim dims, data.shape = .ranked (.fixed batch :: dim :: dims)
  rows : ∃ slot rank, node.outputs.head? = some slot ∧ slot.shape.rank? = some rank ∧ 1 < rank
  asks : ∃ t entry rest, target.value = some t ∧ t.integers? = some (entry :: rest) ∧ 0 < entry

/-- The node of a reshape that qualifies, its batch and its target are determined. -/
theorem Graph.Qualifies.unique {g : Graph} {id : NodeId} {node node' : Node} {batch batch' : Nat}
    {target target' : Slot} (h : g.Qualifies id node batch target)
    (h' : g.Qualifies id node' batch' target') :
    node' = node ∧ batch' = batch ∧ target' = target := by
  obtain rfl := Option.some.inj (h.placed.symm.trans h'.placed)
  obtain ⟨o, p, data, inputs, hdata, htarget, _, _, shape⟩ := h.reads
  obtain ⟨o', p', data', inputs', hdata', htarget', _, _, shape'⟩ := h'.reads
  obtain ⟨rfl, rfl⟩ : o = o' ∧ p = p' := by simpa using inputs.symm.trans inputs'
  obtain rfl := Except.ok.inj (hdata.symm.trans hdata')
  have first := List.cons.inj (Shape.ranked.inj (shape.symm.trans shape'))
  exact ⟨rfl, (Dim.fixed.inj first.1).symm, Except.ok.inj (htarget'.symm.trans htarget)⟩

namespace Relaxation

variable {g : Graph} {id : NodeId} {node : Node} {o o' : Output} {data target : Slot} {batch : Nat}

theorem hasRows_iff :
    hasRows node = true ↔
      ∃ slot rank, node.outputs.head? = some slot ∧ slot.shape.rank? = some rank ∧ 1 < rank := by
  rw [hasRows]
  cases first : node.outputs.head? with
  | none => simp
  | some slot => cases rank : slot.shape.rank? <;> simp [rank]

theorem qualifies_iff (hnode : g.node? id = some node) (op : node.op = "Reshape")
    (inputs : node.inputs = [o, o']) (hdata : g.slot o = .ok data)
    (htarget : g.slot o' = .ok target) {target' : Slot} :
    g.Qualifies id node batch target' ↔ target' = target ∧ inBatch? data = some batch ∧
      hasRows node = true ∧
        ∃ entry rest, target.value.bind Tensor.integers? = some (entry :: rest) ∧ 0 < entry := by
  constructor
  · intro h
    obtain ⟨p, p', data', inputs', hdata', htarget', known⟩ := h.reads
    obtain ⟨rfl, rfl⟩ : o = p ∧ o' = p' := by simpa using inputs.symm.trans inputs'
    obtain rfl := Except.ok.inj (hdata.symm.trans hdata')
    obtain rfl := Except.ok.inj (htarget.symm.trans htarget')
    obtain ⟨t, entry, rest, value, integers, positive⟩ := h.asks
    exact ⟨rfl, inBatch?_eq_some_iff.2 known, hasRows_iff.2 h.rows, entry, rest,
      Option.bind_eq_some_iff.2 ⟨t, value, integers⟩, positive⟩
  · rintro ⟨rfl, known, rows, entry, rest, value, positive⟩
    obtain ⟨t, value, integers⟩ := Option.bind_eq_some_iff.1 value
    exact ⟨hnode, op, ⟨o, o', data, inputs, hdata, htarget, inBatch?_eq_some_iff.1 known⟩,
      hasRows_iff.1 rows, t, entry, rest, value, integers, positive⟩

/-- What the search makes of a reshape: nothing, if it does not qualify, else a candidate, unless
the data have the batch 0. -/
theorem candidate?_cases (valid : g.Valid) (hnode : g.node? id = some node)
    (op : node.op = "Reshape") :
    (candidate? g id = .ok none ∧ ∀ batch target, ¬g.Qualifies id node batch target) ∨
      (∃ c target, candidate? g id = .ok (some c) ∧ g.Qualifies id node c.inBatch target ∧
        c.reshape = id ∧ g.slot c.target = .ok target) ∨
      ∃ target, candidate? g id = .error (.precondition (.zeroInputBatch node.name)) ∧
        g.Qualifies id node 0 target := by
  have start : g.node id = .ok node := Graph.node_eq_ok_iff.2 hnode
  obtain ⟨o, o', inputs⟩ | other :
      (∃ o o', node.inputs = [o, o']) ∨ ¬∃ o o', node.inputs = [o, o'] := em _
  swap
  · left
    refine ⟨?_, fun batch target h => ?_⟩
    · simp only [candidate?, start, bind, Except.bind]
      split
      · next o o' inputs => exact absurd ⟨o, o', inputs⟩ other
      · rfl
    · obtain ⟨o, o', -, inputs, -⟩ := h.reads
      exact other ⟨o, o', inputs⟩
  have read (port : Nat) {o : Output} (hread : node.inputs[port]? = some o) :
      ∃ slot, g.slot o = .ok slot :=
    valid.inputs_exist id port o ((Graph.input?_eq hnode port).trans hread)
  obtain ⟨data, hdata⟩ := read 0 (by rw [inputs]; rfl)
  obtain ⟨target, htarget⟩ := read 1 (by rw [inputs]; rfl)
  simp only [qualifies_iff hnode op inputs hdata htarget]
  cases known : inBatch? data with
  | none =>
    left
    simp [candidate?, start, inputs, hdata, known, bind, Except.bind, pure, Except.pure]
  | some batch =>
    cases rows : hasRows node with
    | false =>
      left
      simp [candidate?, start, inputs, hdata, known, rows, bind, Except.bind, pure, Except.pure]
    | true =>
      match value : target.value.bind Tensor.integers? with
      | none | some [] =>
        left
        simp [candidate?, start, inputs, hdata, htarget, known, rows, value, bind, Except.bind,
          pure, Except.pure]
      | some (entry :: rest) =>
        by_cases positive : 0 < entry
        · right
          by_cases zero : batch = 0
          · right
            refine ⟨target, ?_, rfl, congrArg some zero, rfl, entry, rest, rfl, positive⟩
            simp [candidate?, start, inputs, hdata, htarget, known, rows, value,
              Int.not_le.2 positive, zero, bind, Except.bind, throw, throwThe, MonadExceptOf.throw]
          · left
            refine ⟨⟨id, o, o', target.element, rest.length + 1, batch, entry⟩, target, ?_,
              ⟨rfl, rfl, rfl, entry, rest, rfl, positive⟩, rfl, htarget⟩
            simp [candidate?, start, inputs, hdata, htarget, known, rows, value,
              Int.not_le.2 positive, zero, bind, Except.bind, pure, Except.pure]
        · left
          refine ⟨?_, ?_⟩
          · simp [candidate?, start, inputs, hdata, htarget, known, rows, value,
              Int.not_lt.1 positive, bind, Except.bind, pure, Except.pure]
          · rintro _ _ ⟨-, -, -, _, _, same, asked⟩
            obtain ⟨rfl, -⟩ := List.cons.inj (Option.some.inj same)
            exact positive asked

theorem exists_match? (hnode : g.node? id = some node) (op : node.op = "Reshape")
    (inputs : node.inputs = [o, o']) (data : g.contains o.node) (target : g.contains o'.node) :
    ∃ m, pattern.match? g id = some m := by
  obtain ⟨node₁, hnode₁⟩ := Graph.contains_iff_exists_node?.1 data
  obtain ⟨node₂, hnode₂⟩ := Graph.contains_iff_exists_node?.1 target
  have bound : pattern.bind g id [] = some [("target", o'.node), ("data", o.node)] := by
    simp [pattern, Pattern.op, Pattern.any, Pattern.withInputs, Pattern.named, Pattern.withHead,
      Pattern.head, Pattern.bind, Pattern.bindAll, Pattern.Head.bindLabel, Pattern.Head.accepts,
      Bindings.node?, hnode, hnode₁, hnode₂, op, inputs]
  exact ⟨_, by rw [Pattern.match?, bound]; rfl⟩

/-- In a valid graph either every reshape that qualifies is a candidate, and no other one, or there
is one whose data have the batch 0, for which the search fails. -/
theorem candidates_cases (valid : g.Valid) :
    (∃ cs, candidates g = .ok cs ∧
      (∀ id node batch target, g.Qualifies id node batch target →
        ∃ c ∈ cs, c.reshape = id ∧ c.inBatch = batch ∧ g.slot c.target = .ok target) ∧
      ∀ c ∈ cs, ∃ node target, g.Qualifies c.reshape node c.inBatch target ∧
        g.slot c.target = .ok target) ∨
      ∃ id node target, candidates g = .error (.precondition (.zeroInputBatch node.name)) ∧
        g.Qualifies id node 0 target := by
  rcases mapM_cases (fun m => candidate? g m.root) (pattern.findAll g) with
    ⟨found, hfound⟩ | ⟨m, hm, e, he, failed⟩
  · left
    have each := forall₂_of_mapM_eq_ok hfound
    refine ⟨found.filterMap id, by rw [candidates, hfound]; rfl, ?_, ?_⟩
    · intro id node batch target h
      obtain ⟨o, o', data, inputs, hdata, htarget, -⟩ := h.reads
      have live {o : Output} {slot : Slot} (hslot : g.slot o = .ok slot) : g.contains o.node := by
        obtain ⟨node, hnode, -⟩ := Graph.slot_eq_ok_iff.1 hslot
        exact Graph.contains_of_node? hnode
      obtain ⟨m, hm⟩ := exists_match? h.placed h.op inputs (live hdata) (live htarget)
      obtain ⟨root, -⟩ := root_of_match? hm
      have ordered := valid.mem_order (Graph.contains_of_node? h.placed)
      obtain ⟨x, hx, found⟩ := exists_of_forall₂ each (List.mem_filterMap.2 ⟨id, ordered, hm⟩)
      rw [root] at found
      rcases candidate?_cases valid h.placed h.op with ⟨-, no⟩ | ⟨c, target', one, h', rest⟩ | zero
      · exact absurd h (no _ _)
      · obtain rfl := Except.ok.inj (found.symm.trans one)
        obtain ⟨-, rfl, rfl⟩ := h'.unique h
        exact ⟨c, List.mem_filterMap.2 ⟨_, hx, rfl⟩, rest.1, rfl, rest.2⟩
      · obtain ⟨_, zero, -⟩ := zero
        cases found.symm.trans zero
    · intro c hc
      obtain ⟨x, hx, rfl⟩ := List.mem_filterMap.1 hc
      obtain ⟨m, hm, found⟩ := exists_of_forall₂_right each hx
      obtain ⟨id, _, hid⟩ := List.mem_filterMap.1 hm
      obtain ⟨rfl, node, hnode, op⟩ := root_of_match? hid
      rcases candidate?_cases valid hnode op with ⟨none, -⟩ | ⟨c', target, one, h, rest⟩ | zero
      · cases found.symm.trans none
      · obtain rfl := Option.some.inj (Except.ok.inj (found.symm.trans one))
        exact ⟨node, target, rest.1 ▸ h, rest.2⟩
      · obtain ⟨_, zero, -⟩ := zero
        cases found.symm.trans zero
  · right
    obtain ⟨id, _, hid⟩ := List.mem_filterMap.1 hm
    obtain ⟨rfl, node, hnode, op⟩ := root_of_match? hid
    rcases candidate?_cases valid hnode op with ⟨none, -⟩ | ⟨c, _, one, -⟩ | ⟨target, zero, h⟩
    · cases he.symm.trans none
    · cases he.symm.trans one
    · obtain rfl := Except.error.inj (he.symm.trans zero)
      exact ⟨m.root, node, target, by rw [candidates, failed]; rfl, h⟩

end Relaxation

end TensorGraph
