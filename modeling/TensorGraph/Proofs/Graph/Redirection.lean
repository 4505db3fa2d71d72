import TensorGraph.Proofs.Graph.Grounded

/-!
# Nodes that are retired

A replacement redirects what reads an output of the old node, output by output. `input?_replaced`
says what every input reads afterwards: an input that names an output beyond those that the old node
has, because they are still to be computed, is passed over. The main statement is
`Graph.retired_iff`: the old node is retired, so that it can be removed and leaves nothing behind,
exactly if no input is passed over.
-/

namespace TensorGraph

namespace GraphM

variable {g g' : Graph} {old new i : NodeId} {p : Nat} {slots : List Nat} {o : Output}

/-- What a replacement that succeeds finds and what it leaves. -/
theorem runOn_replaceNode_eq_ok_iff :
    (replaceNode old new).runOn g = (.ok (), g') ↔
      ∃ oldNode newNode, g.node? old = some oldNode ∧ g.node? new = some newNode ∧
        (∀ slot < oldNode.outputs.length, newNode.outputs.length ≤ slot →
          readers g old new slot = []) ∧
        g' = replaced g old new oldNode.name
          (redirections g old new (List.range oldNode.outputs.length)) := by
  constructor
  · intro run
    rcases runOn_replaceNode old new g with ⟨e, failed⟩ | ⟨oldNode, newNode, hold, hnew, wide, done⟩
    · simp [failed] at run
    · refine ⟨oldNode, newNode, hold, hnew, wide, ?_⟩
      rw [done] at run
      exact (Prod.mk.inj run).2.symm
  · rintro ⟨oldNode, newNode, hold, hnew, wide, rfl⟩
    refine runOn_replaceNode_of_redirects hold hnew (redirects_eq_ok_iff.2 ⟨?_, rfl⟩)
    exact fun slot hslot => wide slot (List.mem_range.1 hslot)

/-- The inputs that read an output of the old node, the new node's own apart. -/
theorem mem_readers (mirrored : g.Mirrored) (live : g.contains old) {slot : Nat} :
    (i, p) ∈ readers g old new slot ↔ g.input? i p = some ⟨old, slot⟩ ∧ i ≠ new := by
  rw [readers, List.mem_filter, mirrored.mem_consumers (o := ⟨old, slot⟩) live, decide_eq_true_eq]

/-- The inputs that are redirected are those that read one of the given outputs. -/
theorem mem_map_fst_redirections (mirrored : g.Mirrored) (live : g.contains old) :
    (i, p) ∈ (redirections g old new slots).map Prod.fst ↔
      i ≠ new ∧ ∃ slot ∈ slots, g.input? i p = some ⟨old, slot⟩ := by
  constructor
  · intro h
    obtain ⟨⟨_, source⟩, hchange, rfl⟩ := List.mem_map.1 h
    obtain ⟨slot, hslot, hreader, _⟩ := mem_redirections.1 hchange
    obtain ⟨reads, other⟩ := (mem_readers mirrored live).1 hreader
    exact ⟨other, slot, hslot, reads⟩
  · rintro ⟨other, slot, hslot, reads⟩
    refine List.mem_map.2 ⟨((i, p), ⟨new, slot⟩), mem_redirections.2 ?_, rfl⟩
    exact ⟨slot, hslot, (mem_readers mirrored live).2 ⟨reads, other⟩, rfl⟩

/-- What an input reads after a replacement that redirects what reads the given outputs. -/
theorem input?_replaced (mirrored : g.Mirrored) (live : g.contains old) (name : String) :
    (replaced g old new name (redirections g old new slots)).input? i p =
      if i ≠ new ∧ ∃ slot ∈ slots, g.input? i p = some ⟨old, slot⟩ then
        (g.input? i p).map (Output.relabel (moved old new))
      else g.input? i p := by
  have renamed : Graph.SameLinks _ (replaced g old new name (redirections g old new slots)) :=
    .modifyNode fun _ _ => rfl
  rw [renamed.input?, (Graph.SameSkeleton.markStale _ new).input?]
  have images : ∀ change ∈ redirections g old new slots,
      ∃ o, g.input? change.1.1 change.1.2 = some o ∧ change.2 = o.relabel (moved old new) := by
    rintro ⟨⟨id, port⟩, source⟩ hchange
    obtain ⟨slot, _, hreader, rfl⟩ := mem_redirections.1 hchange
    obtain ⟨reads, _⟩ := (mem_readers mirrored live).1 hreader
    exact ⟨⟨old, slot⟩, reads, by rw [Output.relabel, moved, if_pos rfl]⟩
  have rewired := input?_rewireAll (i := i) (p := p) (moved_moved old new) images
  rw [if_congr (mem_map_fst_redirections mirrored live) rfl rfl] at rewired
  exact rewired

end GraphM

namespace Graph

variable {registry : Registry} {name : String} {calls : List Call} {g g' : Graph}
  {old new : NodeId}

/-- What reads the node `old`, apart from `new`, reads outputs that it has. -/
def Furnished (g : Graph) (old new : NodeId) : Prop :=
  ∀ id port o, g.input? id port = some o → id ≠ new → o.node = old → ∃ slot, g.slot o = .ok slot

instance : Decidable (g.Furnished old new) := decidable_of_iff _ forall_input_iff.symm

/-- After a replacement the old node is read by those whose inputs were passed over. -/
theorem reads_old_iff (mirrored : g.Mirrored) (distinct : old ≠ new)
    (done : (GraphM.replaceNode old new).runOn g = (.ok (), g')) :
    (∀ id, g'.Reads id old → id = new) ↔ g.Furnished old new := by
  obtain ⟨oldNode, newNode, hold, _, _, rfl⟩ := GraphM.runOn_replaceNode_eq_ok_iff.1 done
  have live := contains_of_node? hold
  have furnished (o : Output) (source : o.node = old) :
      (∃ slot, g.slot o = .ok slot) ↔ o.slot < oldNode.outputs.length := by
    rw [exists_slot_eq_ok_iff, source, hold]
    simp
  constructor
  · intro retired id port o hread other source
    rw [furnished o source]
    by_contra missing
    -- an input that is passed over still reads the old node
    refine other (retired id (reads_iff_exists_input.2 ⟨port, o, ?_, source⟩))
    rw [GraphM.input?_replaced mirrored live, if_neg, hread]
    rintro ⟨_, slot, hslot, reads⟩
    obtain rfl := Option.some.inj (hread.symm.trans reads)
    exact missing (List.mem_range.1 hslot)
  · intro h id reads
    by_contra other
    obtain ⟨port, o, hread, source⟩ := reads_iff_exists_input.1 reads
    rw [GraphM.input?_replaced mirrored live] at hread
    split at hread
    · obtain ⟨o, _, rfl⟩ := Option.map_eq_some_iff.1 hread
      exact GraphM.moved_ne_old distinct o.node source
    · next passed =>
      refine passed ⟨other, o.slot, List.mem_range.2 ?_, by rw [hread, ← source]⟩
      exact (furnished o source).1 (h id port o hread other source)

/-- A replacement retires the old node exactly if whatever reads it reads outputs that it has. Then
it can be removed at once, unless the new node reads it, and nothing is left that leads nowhere. -/
theorem retired_iff (linking : AllAlong registry Call.Linking (empty name) calls)
    (run : (empty name).after registry calls = g) (distinct : old ≠ new)
    (done : (GraphM.replaceNode old new).runOn g = (.ok (), g')) :
    ((∀ id, g'.Reads id old → id = new) ↔ g.Furnished old new) ∧
      (g.Furnished old new → ¬g.Reads new old →
        ∃ entry g'', (GraphM.removeNode old).runOn g' = (.ok entry, g'') ∧ g''.Linked) := by
  subst run
  have linked := (linked_empty name).after linking
  have iff := reads_old_iff linked.toMirrored distinct done
  refine ⟨iff, fun furnished apart => ?_⟩
  have retired := iff.2 furnished
  obtain ⟨oldNode, newNode, hold, hnew, _, rfl⟩ := GraphM.runOn_replaceNode_eq_ok_iff.1 done
  have live := contains_of_node? hold
  obtain ⟨entry, hentry⟩ := contains_iff.1 ((contains_replaced _ old).trans live)
  refine ⟨entry, GraphM.removed _ old, by rw [GraphM.runOn_removeNode, hentry], ?_⟩
  apply (linked.replaced (contains_of_node? hnew) _).removed
  intro id port o hread source
  obtain rfl := retired id (reads_iff_exists_input.2 ⟨port, o, hread, source⟩)
  -- the new node reads what it did, and that is not the old one
  rw [GraphM.input?_replaced linked.toMirrored live, if_neg fun h => h.1 rfl] at hread
  exact absurd (reads_iff_exists_input.2 ⟨port, o, hread, source⟩) apart

/-- A node that another one reads twice and that is an output of the graph, and one to replace
it. -/
def readTwice : List Call :=
  [.addParameter "x" ⟨.f32, .ofExtents [2]⟩, .makeNode { op := "Relu", inputs := [⟨0, 0⟩] },
    .makeNode { op := "Add", inputs := [⟨1, 0⟩, ⟨1, 0⟩] }, .addResult ⟨1, 0⟩,
    .makeNode { op := "Ceiling", inputs := [⟨0, 0⟩] }]

theorem retired_readTwice :
    ∃ g', AllAlong .core Call.Linking (empty "f") readTwice ∧
      (GraphM.replaceNode 1 4).runOn ((empty "f").after .core readTwice) = (.ok (), g') ∧
      (∀ id, g'.Reads id 1 → id = 4) ∧
      ∃ entry g'', (GraphM.removeNode 1).runOn g' = (.ok entry, g'') ∧ g''.Linked := by
  have linking : AllAlong .core Call.Linking (empty "f") readTwice := by decide +kernel
  have answer :
      ((GraphM.replaceNode 1 4).runOn ((empty "f").after .core readTwice)).1 = .ok () := by
    decide +kernel
  have done := GraphM.eq_ok_of_fst_eq answer
  have furnished : ((empty "f").after .core readTwice).Furnished 1 4 := by decide +kernel
  obtain ⟨retired, removed⟩ := retired_iff linking rfl (by decide) done
  exact ⟨_, linking, done, retired.2 furnished, removed furnished (by decide +kernel)⟩

/-- A node whose outputs are still to be computed is read by another one. -/
def readUncomputed : List Call :=
  [.addParameter "x" ⟨.f32, .ofExtents [2]⟩, .addNode { op := "Relu", inputs := [⟨0, 0⟩] },
    .addNode { op := "Ceiling", inputs := [⟨1, 0⟩] },
    .makeNode { op := "Relu", inputs := [⟨0, 0⟩] }]

/-- Not every replacement that succeeds retires the old node. -/
theorem not_forall_retired :
    ¬∀ (name : String) (calls : List Call) (old new : NodeId) (g' : Graph),
      AllAlong .core Call.Linking (empty name) calls → old ≠ new →
        (GraphM.replaceNode old new).runOn ((empty name).after .core calls) = (.ok (), g') →
          ∀ id, g'.Reads id old → id = new := by
  intro h
  have answer :
      ((GraphM.replaceNode 1 3).runOn ((empty "f").after .core readUncomputed)).1 = .ok () := by
    decide +kernel
  have done := GraphM.eq_ok_of_fst_eq answer
  have retired := h "f" readUncomputed 1 3 _ (by decide +kernel) (by decide) done
  exact absurd (retired 2 ⟨0, by decide +kernel⟩) (by decide)

end Graph

end TensorGraph
