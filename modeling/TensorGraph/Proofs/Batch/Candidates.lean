import TensorGraph.Batch.Relaxation
import TensorGraph.Proofs.Except
import TensorGraph.Proofs.Graph.Order

/-!
# Candidates for relaxation

What is known of a reshape that is to be relaxed (`Relaxation.Candidate.Fits`), and that no reshape
is found twice.
-/

namespace TensorGraph.Relaxation

variable {g : Graph} {c : Candidate} {cs : List Candidate} {id : NodeId} {m : Match} {node : Node}
  {slot : Slot}

/-- The candidate describes a reshape of the graph: data whose first extent is known and a target
that asks for a batch. -/
structure Candidate.Fits (g : Graph) (c : Candidate) : Prop where
  reshape : ∃ node, g.node? c.reshape = some node ∧ node.op = "Reshape" ∧
    node.inputs = [c.data, c.target]
  data : ∃ slot dims, g.slot c.data = .ok slot ∧ slot.shape = .ranked (.fixed c.inBatch :: dims)
  target : ∃ slot t rest, g.slot c.target = .ok slot ∧ slot.value = some t ∧
    t.integers? = some (c.outBatch :: rest) ∧ c.length = rest.length + 1 ∧
      c.element = slot.element
  inBatch_pos : 0 < c.inBatch
  outBatch_pos : 0 < c.outBatch

theorem inBatch?_eq_some_iff {batch : Nat} :
    inBatch? slot = some batch ↔
      ∃ dim dims, slot.shape = .ranked (.fixed batch :: dim :: dims) := by
  rw [inBatch?]
  split
  · next b dim dims shape =>
    simp only [shape, Option.some.injEq, Shape.ranked.injEq, List.cons.injEq, Dim.fixed.injEq]
    constructor
    · rintro rfl
      exact ⟨dim, dims, rfl, rfl, rfl⟩
    · rintro ⟨_, _, rfl, _⟩
      rfl
  · next other =>
    constructor
    · intro h
      cases h
    · rintro ⟨dim, dims, shape⟩
      exact absurd shape (other _ _ _)

/-- What is found at a reshape fits. -/
theorem Candidate.fits_of_candidate? (hnode : g.node? id = some node) (op : node.op = "Reshape")
    (h : candidate? g id = .ok (some c)) : c.reshape = id ∧ c.Fits g := by
  obtain ⟨read, hread, h⟩ := bind_eq_ok_iff.1 h
  rw [Graph.node, hnode] at hread
  obtain rfl := Except.ok.inj hread
  split at h
  · next data target inputs =>
    obtain ⟨dataSlot, hdata, h⟩ := bind_eq_ok_iff.1 h
    split at h
    · cases h
    · next inBatch known =>
      obtain ⟨dim, dims, shape⟩ := inBatch?_eq_some_iff.1 known
      split at h
      · cases h
      · obtain ⟨targetSlot, htarget, h⟩ := bind_eq_ok_iff.1 h
        split at h
        · cases h
        · cases h
        · next outBatch rest value =>
          obtain ⟨t, ht, integers⟩ := Option.bind_eq_some_iff.1 value
          split at h
          · cases h
          · next positive =>
            split at h
            · cases h
            · next nonzero =>
              obtain rfl := Option.some.inj (Except.ok.inj h)
              exact ⟨rfl, ⟨node, hnode, op, inputs⟩, ⟨dataSlot, _, hdata, shape⟩,
                ⟨targetSlot, t, rest, htarget, ht, integers, rfl, rfl⟩,
                Nat.pos_of_ne_zero nonzero, Int.not_le.1 positive⟩
  · cases h

theorem root_of_match? (h : pattern.match? g id = some m) :
    m.root = id ∧ ∃ node, g.node? id = some node ∧ node.op = "Reshape" := by
  obtain ⟨bindings, bound, rfl⟩ := Option.map_eq_some_iff.1 h
  refine ⟨rfl, ?_⟩
  simp only [pattern, Pattern.withInputs, Pattern.bind] at bound
  obtain ⟨node, hnode, bound⟩ := Option.bind_eq_some_iff.1 bound
  obtain ⟨_, _, bound⟩ := Option.bind_eq_some_iff.1 bound
  refine ⟨node, hnode, ?_⟩
  split at bound
  · next accepted =>
    simpa [Pattern.Head.accepts, Pattern.op, Pattern.head] using accepted
  · cases bound

/-- Every candidate that is found fits, and no reshape is found twice. -/
theorem fits_of_candidates (h : candidates g = .ok cs) :
    (∀ c ∈ cs, c.Fits g) ∧ (cs.map Candidate.reshape).Nodup := by
  obtain ⟨found, hfound, h⟩ := bind_eq_ok_iff.1 h
  obtain rfl := Except.ok.inj h
  have each := forall₂_of_mapM_eq_ok hfound
  have matched : ∀ m ∈ pattern.findAll g, ∃ node, g.node? m.root = some node ∧
      node.op = "Reshape" := by
    intro m hm
    obtain ⟨id, _, hid⟩ := List.mem_filterMap.1 hm
    obtain ⟨rfl, node⟩ := root_of_match? hid
    exact node
  have roots : ((pattern.findAll g).map Match.root).Nodup := by
    refine List.Nodup.sublist ?_ g.nodup_order
    rw [Pattern.findAll]
    induction g.order with
    | nil => exact .slnil
    | cons id rest ih =>
      cases hid : pattern.match? g id with
      | none =>
        rw [List.filterMap_cons_none hid]
        exact ih.cons id
      | some m =>
        rw [List.filterMap_cons_some hid, List.map_cons, (root_of_match? hid).1]
        exact ih.cons_cons id
  have sublist {ms : List Match} {xs : List (Option Candidate)}
      (each : List.Forall₂ (fun m x => candidate? g m.root = .ok x) ms xs)
      (matched : ∀ m ∈ ms, ∃ node, g.node? m.root = some node ∧ node.op = "Reshape") :
      (∀ c ∈ xs.filterMap id, c.Fits g) ∧
        ((xs.filterMap id).map Candidate.reshape).Sublist (ms.map Match.root) := by
    induction each with
    | nil => exact ⟨by simp, .slnil⟩
    | @cons m x ms xs first _ ih =>
      obtain ⟨⟨node, hnode, op⟩, later⟩ := List.forall_mem_cons.1 matched
      obtain ⟨fits, sub⟩ := ih later
      cases x with
      | none => exact ⟨fits, sub.cons m.root⟩
      | some c =>
        obtain ⟨root, hc⟩ := Candidate.fits_of_candidate? hnode op first
        refine ⟨List.forall_mem_cons.2 ⟨hc, fits⟩, ?_⟩
        change (c.reshape :: _).Sublist (m.root :: _)
        rw [root]
        exact sub.cons_cons m.root
  obtain ⟨fits, sub⟩ := sublist each matched
  exact ⟨fits, roots.sublist sub⟩

end TensorGraph.Relaxation
