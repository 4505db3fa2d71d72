import Mathlib.Data.List.Nodup
import Mathlib.Data.List.Perm.Subperm
import TensorGraph.Proofs.Graph.Changes
import TensorGraph.Proofs.Lists

/-!
# The order of the nodes is topological

`Schedule.Sound` is what every step of ordering preserves; while the outgoing edges of a listed node
are counted down, the ones still to be counted are part of it. The main statements are that
producers stand before their consumers (`Graph.predecessor_before`), that what is left out waits for
something that is left out as well (`Graph.exists_predecessor_not_mem_order`), and that nothing is
left out exactly if the edges go up in some rank (`Graph.isCyclic_eq_false_iff`).
-/

namespace TensorGraph

/-! ### Lines of turns -/

theorem Turn.perm_enqueue (t : Turn) (line : List Turn) : (t.enqueue line).Perm (t :: line) := by
  induction line with
  | nil => exact .refl _
  | cons u rest ih =>
    simp only [enqueue]
    split
    · exact (ih.cons u).trans (.swap t u rest)
    · exact .refl _

theorem Graph.perm_turns (g : Graph) :
    g.turns.Perm (g.placed.map fun place => ⟨place.2.seq, place.1⟩) := by
  simp only [turns]
  induction g.placed with
  | nil => exact .refl _
  | cons place rest ih => exact (Turn.perm_enqueue _ _).trans (ih.cons _)

theorem Graph.nodup_ids (g : Graph) : g.ids.Nodup :=
  g.pairwise_ids.imp fun h => Nat.ne_of_lt h

theorem Graph.nodup_turns (g : Graph) : g.turns.Nodup := by
  refine (List.Perm.nodup_iff g.perm_turns).2 (List.Nodup.of_map Turn.id ?_)
  rw [List.map_map]
  exact g.nodup_ids

theorem Graph.mem_turns_iff_seq? {g : Graph} {turn : Turn} :
    turn ∈ g.turns ↔ g.seq? turn.id = some turn.seq := by
  rw [mem_turns, seq?_eq_some_iff]

namespace Schedule

variable {g : Graph} {s : Schedule}

/-- How many edges into a node come from nodes that are not listed. -/
def waiting (g : Graph) (listed : List NodeId) (id : NodeId) : Nat :=
  (g.predecessors id).countP (· ∉ listed)

theorem waiting_eq_zero_iff {listed : List NodeId} {id : NodeId} :
    waiting g listed id = 0 ↔ ∀ p ∈ g.predecessors id, p ∈ listed := by
  simp [waiting, List.countP_eq_zero]

/-- Listing a node is the end of waiting for its outgoing edges. -/
theorem waiting_cons {listed : List NodeId} {id : NodeId} (h : id ∉ listed) (target : NodeId) :
    waiting g (id :: listed) target + (g.successors id).count target =
      waiting g listed target := by
  simp only [waiting, Graph.predecessors, Graph.successors, List.countP_map, List.countP_filter,
    List.count_eq_countP]
  induction g.edges with
  | nil => rfl
  | cons edge rest ih =>
    simp only [List.countP_cons, Function.comp_apply] at ih ⊢
    rw [← ih]
    by_cases source : edge.source = id <;> by_cases reads : edge.target = target <;>
      simp [source, reads, h] <;> omega

/-- What holds of a schedule while the edges to the nodes `todo` are still to be counted down. -/
structure Sound (g : Graph) (todo : List NodeId) (s : Schedule) : Prop where
  listed_live : ∀ id ∈ s.listed, g.contains id
  nodup_listed : s.listed.Nodup
  /-- A node is listed after all that it reads. -/
  closed : ∀ later id earlier, s.listed = later ++ id :: earlier →
    ∀ p ∈ g.predecessors id, p ∈ earlier
  size_pending : s.pending.size = g.arena.capacity
  /-- The counters say how many edges are still to be waited for. -/
  pending : ∀ id, g.contains id →
    s.pending.getD id 0 = ((waiting g s.listed id + todo.count id : Nat) : Int)
  nodup_ready : s.ready.Nodup
  /-- Who is ready is not listed and waits for nothing. -/
  ready : ∀ turn, turn ∈ s.ready ↔ g.seq? turn.id = some turn.seq ∧ turn.id ∉ s.listed ∧
    waiting g s.listed turn.id + todo.count turn.id = 0
  todo_unlisted : ∀ id ∈ todo, g.contains id ∧ id ∉ s.listed

theorem sound_start (g : Graph) : Sound g [] (start g) where
  listed_live := by simp [start]
  nodup_listed := by simp [start]
  closed := by simp [start]
  size_pending := by simp [start]
  pending := by
    intro id live
    obtain ⟨entry, hentry⟩ := Graph.contains_iff.1 live
    have bound : id < g.arena.capacity := Arena.lt_capacity hentry
    simp [start, waiting, Array.getD, bound]
  nodup_ready := g.nodup_turns.filter _
  ready := by
    intro turn
    simp [start, Graph.mem_turns_iff_seq?, waiting]
  todo_unlisted := by simp

theorem listed_release (s : Schedule) (id : NodeId) : (release g s id).listed = s.listed := by
  simp only [release]
  split <;> rfl

/-- A node with an edge that is still to be counted down is not ready. -/
theorem Sound.not_mem_ready {id : NodeId} {todo : List NodeId} (h : Sound g (id :: todo) s)
    {turn : Turn} (e : turn.id = id) : turn ∉ s.ready := by
  intro already
  have none := ((h.ready turn).1 already).2.2
  rw [e, List.count_cons_self] at none
  omega

/-- Who is ready once an edge to a node is counted down: the node as well, if it was its last. -/
theorem Sound.mem_ready_release {id : NodeId} {todo : List NodeId} (h : Sound g (id :: todo) s)
    {seq : Nat} (hseq : g.seq? id = some seq) (turn : Turn) :
    (turn ∈ if waiting g s.listed id + todo.count id = 0 then Turn.enqueue ⟨seq, id⟩ s.ready
      else s.ready) ↔
      g.seq? turn.id = some turn.seq ∧ turn.id ∉ s.listed ∧
        waiting g s.listed turn.id + todo.count turn.id = 0 := by
  by_cases e : turn.id = id
  · have unlisted := (h.todo_unlisted id List.mem_cons_self).2
    split
    · next zero =>
      simp only [Turn.mem_enqueue, h.not_mem_ready e, or_false, e, hseq, Option.some.injEq,
        unlisted, not_false_eq_true, zero, and_true]
      constructor
      · rintro rfl
        rfl
      · intro same
        cases turn
        simp_all
    · next nonzero => simp only [h.not_mem_ready e, e, nonzero, and_false]
  · have counted : (id :: todo).count turn.id = todo.count turn.id :=
      List.count_cons_of_ne (Ne.symm e)
    rw [← counted, ← h.ready]
    split
    · rw [Turn.mem_enqueue, or_iff_right]
      rintro rfl
      exact e rfl
    · rfl

/-- Counting down one edge. -/
theorem Sound.release {id : NodeId} {todo : List NodeId} (h : Sound g (id :: todo) s) :
    Sound g todo (release g s id) := by
  obtain ⟨live, unlisted⟩ := h.todo_unlisted id List.mem_cons_self
  obtain ⟨entry, hentry⟩ := Graph.contains_iff.1 live
  have bound : id < s.pending.size := by
    rw [h.size_pending]
    exact Arena.lt_capacity hentry
  have left : s.pending.getD id 0 - 1 = ((waiting g s.listed id + todo.count id : Nat) : Int) := by
    rw [h.pending id live, List.count_cons_self]
    omega
  simp only [Schedule.release, hentry, left, Int.natCast_eq_zero]
  refine ⟨h.listed_live, h.nodup_listed, h.closed, by simp [h.size_pending], ?_, ?_,
    h.mem_ready_release (Graph.seq?_eq_some_iff.2 ⟨entry, hentry, rfl⟩),
    fun t ht => h.todo_unlisted t (List.mem_cons_of_mem _ ht)⟩
  · intro t ht
    by_cases e : t = id
    · subst e
      simp [Array.getD, bound]
    · have same : (s.pending.setIfInBounds id ↑(waiting g s.listed id + todo.count id)).getD t 0 =
          s.pending.getD t 0 := by
        simp only [Array.getD_eq_getD_getElem?, Array.getElem?_setIfInBounds, if_neg (Ne.symm e)]
      rw [same, h.pending t ht, List.count_cons_of_ne (Ne.symm e)]
  · split
    · refine (List.Perm.nodup_iff (Turn.perm_enqueue _ _)).2 (List.nodup_cons.2 ⟨?_, h.nodup_ready⟩)
      exact h.not_mem_ready rfl
    · exact h.nodup_ready

theorem Sound.foldl_release {todo : List NodeId} (h : Sound g todo s) :
    Sound g [] (todo.foldl (Schedule.release g) s) := by
  induction todo generalizing s with
  | nil => exact h
  | cons id rest ih => exact ih h.release

theorem listed_foldl_release (s : Schedule) (todo : List NodeId) :
    (todo.foldl (release g) s).listed = s.listed := by
  induction todo generalizing s with
  | nil => rfl
  | cons id rest ih => rw [List.foldl_cons, ih, listed_release]

/-- Listing the first ready node; its outgoing edges are then to be counted down. -/
theorem Sound.list {turn : Turn} {ready : List Turn} (h : Sound g [] s)
    (first : s.ready = turn :: ready) :
    Sound g (g.successors turn.id) { s with ready, listed := turn.id :: s.listed } := by
  obtain ⟨seq, unlisted, zero⟩ := (h.ready turn).1 (by simp [first])
  have live : g.contains turn.id := Graph.contains_iff_exists_seq?.2 ⟨_, seq⟩
  have produced : ∀ p ∈ g.predecessors turn.id, p ∈ s.listed :=
    waiting_eq_zero_iff.1 (Nat.eq_zero_of_add_eq_zero_right zero)
  obtain ⟨fresh, nodup⟩ := List.nodup_cons.1 (first ▸ h.nodup_ready)
  refine ⟨?_, List.nodup_cons.2 ⟨unlisted, h.nodup_listed⟩, ?_, h.size_pending, ?_, nodup, ?_, ?_⟩
  · intro id hid
    rcases List.mem_cons.1 hid with rfl | hid
    · exact live
    · exact h.listed_live id hid
  · intro later id earlier split p hp
    cases later with
    | nil =>
      obtain ⟨rfl, rfl⟩ := List.cons.inj split
      exact produced p hp
    | cons _ later => exact h.closed later id earlier (List.cons.inj split).2 p hp
  · intro id hid
    rw [h.pending id hid, ← waiting_cons unlisted id]
    simp
  · intro other
    have member : other ∈ ready ↔ other ≠ turn ∧ other ∈ s.ready := by
      rw [first, List.mem_cons]
      constructor
      · intro ho
        exact ⟨fun e => fresh (e ▸ ho), .inr ho⟩
      · rintro ⟨ne, ho⟩
        exact ho.resolve_left ne
    rw [member, h.ready, ← waiting_cons unlisted, List.count_nil, Nat.add_zero, List.mem_cons,
      not_or]
    constructor
    · rintro ⟨ne, hseq, hlisted, hzero⟩
      refine ⟨hseq, ⟨fun e => ne ?_, hlisted⟩, hzero⟩
      obtain ⟨otherSeq, otherId⟩ := other
      obtain ⟨turnSeq, turnId⟩ := turn
      simp_all
    · rintro ⟨hseq, ⟨ne, hlisted⟩, hzero⟩
      exact ⟨fun e => ne (congrArg Turn.id e), hseq, hlisted, hzero⟩
  · intro id hid
    obtain ⟨port, edge⟩ := Graph.mem_successors.1 hid
    have reads : turn.id ∈ g.predecessors id := Graph.mem_predecessors.2 ⟨port, edge⟩
    refine ⟨(g.edges_live _ edge).2, fun hlisted => unlisted ?_⟩
    -- a node that is listed already was listed after all that it reads
    rcases List.mem_cons.1 hlisted with rfl | hlisted
    · exact produced _ reads
    · obtain ⟨later, earlier, split⟩ := List.append_of_mem hlisted
      rw [split]
      exact List.mem_append_right _ (List.mem_cons_of_mem _ (h.closed _ _ _ split _ reads))

theorem Sound.step (h : Sound g [] s) : Sound g [] (s.step g) := by
  simp only [Schedule.step]
  split
  · exact h
  · next turn ready first => exact (h.list first).foldl_release

theorem Sound.run (h : Sound g [] s) (fuel : Nat) : Sound g [] (s.run g fuel) := by
  induction fuel generalizing s with
  | zero => exact h
  | succ fuel ih => exact ih h.step

/-- Every step lists one more node, or nobody is ready any more. -/
theorem ready_run_eq_nil_or (s : Schedule) (fuel : Nat) :
    (s.run g fuel).ready = [] ∨ (s.run g fuel).listed.length = s.listed.length + fuel := by
  induction fuel generalizing s with
  | zero => exact .inr rfl
  | succ fuel ih =>
    rcases ih (s.step g) with done | count
    · exact .inl done
    · cases first : s.ready with
      | nil =>
        have stuck : s.step g = s := by simp [step, first]
        have stays (n : Nat) : s.run g n = s := by
          induction n with
          | zero => rfl
          | succ n ih => rw [run, stuck, ih]
        rw [stays]
        exact .inl first
      | cons turn ready =>
        right
        have one : (s.step g).listed.length = s.listed.length + 1 := by
          simp [step, first, listed_foldl_release]
        rw [run, count, one]
        omega

end Schedule

namespace Graph

variable {g : Graph} {id p : NodeId}

/-- The schedule with which ordering ends. -/
def schedule (g : Graph) : Schedule := (Schedule.start g).run g g.size

theorem sound_schedule (g : Graph) : Schedule.Sound g [] g.schedule :=
  (Schedule.sound_start g).run _

theorem mem_order : id ∈ g.order ↔ id ∈ g.schedule.listed :=
  List.mem_reverse

theorem nodup_order (g : Graph) : g.order.Nodup :=
  List.nodup_reverse.2 g.sound_schedule.nodup_listed

theorem contains_of_mem_order (h : id ∈ g.order) : g.contains id :=
  g.sound_schedule.listed_live id (mem_order.1 h)

/-- Producers stand before their consumers. -/
theorem predecessor_before {before after : List NodeId} (h : g.order = before ++ id :: after)
    (hp : p ∈ g.predecessors id) : p ∈ before := by
  have split : g.schedule.listed = after.reverse ++ id :: before.reverse := by
    rw [← List.reverse_reverse g.schedule.listed, show g.schedule.listed.reverse = _ from h]
    simp
  exact List.mem_reverse.1 (g.sound_schedule.closed _ _ _ split p hp)

/-- In the end nobody is ready any more: there are no more steps than nodes, but also no fewer. -/
theorem ready_schedule (g : Graph) : g.schedule.ready = [] := by
  have sound := g.sound_schedule
  rcases Schedule.ready_run_eq_nil_or (g := g) (Schedule.start g) g.size with done | count
  · exact done
  · have length : g.ids.length ≤ g.schedule.listed.length := by
      rw [show g.schedule.listed.length = _ from count, ids, List.length_map]
      exact Nat.le_add_left ..
    have all : g.ids.Subset g.schedule.listed := by
      have sub : g.schedule.listed.Subperm g.ids :=
        List.subperm_of_subset sound.nodup_listed fun id h => mem_ids.2 (sound.listed_live id h)
      exact (sub.perm_of_length_le length).symm.subset
    apply List.eq_nil_iff_forall_not_mem.2
    intro turn hturn
    obtain ⟨seq, unlisted, _⟩ := (sound.ready turn).1 hturn
    exact unlisted (all (mem_ids.2 (contains_iff_exists_seq?.2 ⟨_, seq⟩)))

/-- A node that is left out reads one that is left out as well. -/
theorem exists_predecessor_not_mem_order (live : g.contains id) (out : id ∉ g.order) :
    ∃ p ∈ g.predecessors id, p ∉ g.order := by
  obtain ⟨seq, hseq⟩ := contains_iff_exists_seq?.1 live
  by_contra none
  simp only [mem_order, not_exists, not_and, not_not] at none out
  have ready : (⟨seq, id⟩ : Turn) ∈ g.schedule.ready :=
    (g.sound_schedule.ready _).2 ⟨hseq, out, by simpa [Schedule.waiting_eq_zero_iff] using none⟩
  rw [ready_schedule] at ready
  cases ready

/-- What is read has a lower position than its reader. -/
theorem idxOf_lt_idxOf (h : id ∈ g.order) (hp : p ∈ g.predecessors id) :
    g.order.idxOf p < g.order.idxOf id := by
  obtain ⟨before, after, split⟩ := List.append_of_mem h
  have nodup := g.nodup_order
  rw [split] at nodup
  rw [split]
  exact idxOf_lt_idxOf_of_mem nodup (predecessor_before split hp)

theorem isCyclic_eq_false_iff_forall_mem :
    g.isCyclic = false ↔ ∀ id, g.contains id → id ∈ g.order := by
  have sub : g.order.Subperm g.ids :=
    List.subperm_of_subset g.nodup_order fun id h => mem_ids.2 (contains_of_mem_order h)
  have size : g.size = g.ids.length := by simp [size, ids]
  rw [isCyclic, decide_eq_false_iff_not, Nat.not_lt, size]
  constructor
  · intro length id live
    exact (sub.perm_of_length_le length).symm.subset (mem_ids.2 live)
  · intro all
    exact (List.subperm_of_subset g.nodup_ids fun id h => all id (mem_ids.1 h)).length_le

/-- Nothing is left out of the order exactly if the edges go up in some rank of the nodes. -/
theorem isCyclic_eq_false_iff :
    g.isCyclic = false ↔ ∃ rank : NodeId → Nat, ∀ edge ∈ g.edges,
      rank edge.source < rank edge.target := by
  rw [isCyclic_eq_false_iff_forall_mem]
  constructor
  · intro all
    refine ⟨g.order.idxOf, ?_⟩
    intro edge h
    exact idxOf_lt_idxOf (all _ (g.edges_live edge h).2) (mem_predecessors.2 ⟨edge.port, h⟩)
  · rintro ⟨rank, up⟩ id live
    -- by induction on the rank, since what is left out reads something of lower rank
    induction h : rank id using Nat.strongRecOn generalizing id with
    | _ n ih =>
      by_contra out
      obtain ⟨p, hp, hout⟩ := exists_predecessor_not_mem_order live out
      obtain ⟨port, edge⟩ := mem_predecessors.1 hp
      exact hout (ih (rank p) (h ▸ up _ edge) p (g.edges_live _ edge).1 rfl)

end Graph

end TensorGraph
