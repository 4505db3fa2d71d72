import Mathlib.Data.List.Lex
import TensorGraph.Proofs.Graph.Grounded
import TensorGraph.Proofs.Graph.Served

/-!
# The canonical order

What `Graph.order` lists, and in which order, said without the line of ready nodes by which it is
found: all nodes that no cycle leads to, in the least of the arrangements that put producers before
their consumers. `Graph.order_canonical` is the main statement. It follows that the order can be
told from the ages of the nodes and from which of them edges join, wherever the nodes are placed and
however often and in whatever order the edges have been added.
-/

namespace TensorGraph

/-! ### The counters -/

namespace Schedule

variable {g : Graph} {s moment : Schedule} {todo : List NodeId}

/-- The states that a step passes through: the first ready node is listed, and then its outgoing
edges are counted down one after the other. -/
def moments (g : Graph) (s : Schedule) : List Schedule :=
  match s.ready with
  | [] => [s]
  | turn :: ready =>
    (g.successors turn.id).scanl (release g) { s with ready, listed := turn.id :: s.listed }

theorem Sound.exists_of_mem_scanl (h : Sound g todo s)
    (hmem : moment ∈ todo.scanl (Schedule.release g) s) : ∃ left, Sound g left moment := by
  induction todo generalizing s with
  | nil =>
    obtain rfl := List.mem_singleton.1 hmem
    exact ⟨[], h⟩
  | cons id rest ih =>
    rw [List.scanl_cons] at hmem
    rcases List.mem_cons.1 hmem with rfl | later
    · exact ⟨id :: rest, h⟩
    · exact ih h.release later

theorem Sound.exists_of_mem_moments (h : Sound g [] s) (hmem : moment ∈ s.moments g) :
    ∃ left, Sound g left moment := by
  simp only [moments] at hmem
  split at hmem
  · obtain rfl := List.mem_singleton.1 hmem
    exact ⟨[], h⟩
  · next first => exact (h.list first).exists_of_mem_scanl hmem

/-- A counter counts the edges that are still to be waited for, and so never falls below zero. -/
theorem Sound.pending_nonneg (h : Sound g todo s) {id : NodeId} (live : g.contains id) :
    0 ≤ s.pending.getD id 0 := by
  rw [h.pending id live]
  exact Int.natCast_nonneg _

end Schedule

namespace Graph

variable {g g' : Graph} {id c p : NodeId} {l : List NodeId}

/-! ### Cycles -/

/-- An edge leads from the first node to the second one. -/
def Joins (g : Graph) (source target : NodeId) : Prop := target ∈ g.successors source

theorem joins_iff_mem_predecessors : g.Joins p id ↔ p ∈ g.predecessors id :=
  mem_predecessors_iff_mem_successors.symm

theorem Joins.contains_source (h : g.Joins p id) : g.contains p := by
  obtain ⟨port, edge⟩ := mem_successors.1 h
  exact (g.edges_live _ edge).1

/-- What leads to a listed node is listed before it. -/
theorem idxOf_lt_idxOf_of_transGen (path : Relation.TransGen g.Joins c id) (h : id ∈ g.order) :
    c ∈ g.order ∧ g.order.idxOf c < g.order.idxOf id := by
  have step {source target : NodeId} (edge : g.Joins source target) (h : target ∈ g.order) :
      source ∈ g.order ∧ g.order.idxOf source < g.order.idxOf target := by
    have reads := joins_iff_mem_predecessors.1 edge
    obtain ⟨before, after, split⟩ := List.append_of_mem h
    have listed := predecessor_before split reads
    exact ⟨split ▸ List.mem_append_left _ listed, idxOf_lt_idxOf h reads⟩
  induction path with
  | single edge => exact step edge h
  | tail _ edge ih =>
    obtain ⟨between, less⟩ := step edge h
    obtain ⟨first, more⟩ := ih between
    exact ⟨first, more.trans less⟩

theorem mem_upstream_iff_joins : p ∈ g.upstream id ↔ Relation.TransGen g.Joins p id := by
  have swapped : (fun reader source => source ∈ g.predecessors reader) =
      Function.swap g.Joins := by
    funext reader source
    exact propext joins_iff_mem_predecessors.symm
  rw [upstream, swapped, Set.mem_ofPred_eq, Relation.transGen_swap]

/-- A cycle leads to every node that is left out. -/
theorem exists_cycle_of_not_mem_order (live : g.contains id) (out : id ∉ g.order) :
    ∃ c, Relation.TransGen g.Joins c c ∧ Relation.ReflTransGen g.Joins c id := by
  -- by induction on the number of nodes upstream, since it reads one that is left out
  induction count : (g.upstream id).ncard using Nat.strongRecOn generalizing id with
  | _ n ih =>
    obtain ⟨p, hp, hout⟩ := exists_predecessor_not_mem_order live out
    have edge : g.Joins p id := joins_iff_mem_predecessors.2 hp
    by_cases cycle : Relation.TransGen g.Joins p p
    · exact ⟨p, cycle, .single edge⟩
    · have fewer := ncard_upstream_lt hp (mt mem_upstream_iff_joins.1 cycle)
      obtain ⟨c, loop, path⟩ := ih _ (count ▸ fewer) edge.contains_source hout rfl
      exact ⟨c, loop, path.tail edge⟩

/-- Exactly the nodes are listed that no cycle leads to. -/
theorem mem_order_iff_not_exists_cycle :
    id ∈ g.order ↔ g.contains id ∧
      ¬∃ c, Relation.TransGen g.Joins c c ∧ Relation.ReflTransGen g.Joins c id := by
  constructor
  · intro h
    refine ⟨contains_of_mem_order h, ?_⟩
    rintro ⟨c, loop, path⟩
    have listed : c ∈ g.order := by
      rcases Relation.reflTransGen_iff_eq_or_transGen.1 path with rfl | path
      · exact h
      · exact (idxOf_lt_idxOf_of_transGen path h).1
    exact Nat.lt_irrefl _ (idxOf_lt_idxOf_of_transGen loop listed).2
  · rintro ⟨live, none⟩
    by_contra out
    exact none (exists_cycle_of_not_mem_order live out)

theorem contains_of_cycle (loop : Relation.TransGen g.Joins c c) : g.contains c := by
  obtain ⟨_, edge, _⟩ := Relation.TransGen.head'_iff.1 loop
  exact edge.contains_source

/-- Every node is listed exactly if there is no cycle. -/
theorem forall_mem_order_iff :
    (∀ id, g.contains id → id ∈ g.order) ↔ ∀ c, ¬Relation.TransGen g.Joins c c := by
  constructor
  · intro all c loop
    have listed := all c (contains_of_cycle loop)
    exact (mem_order_iff_not_exists_cycle.1 listed).2 ⟨c, loop, .refl⟩
  · rintro none id live
    exact mem_order_iff_not_exists_cycle.2 ⟨live, fun ⟨c, loop, _⟩ => none c loop⟩

/-! ### Ages -/

/-- No two nodes are of the same age. -/
def DistinctAges (g : Graph) : Prop :=
  ∀ i j seq, g.seq? i = some seq → g.seq? j = some seq → i = j

/-- An edge leads from a node of the first age to one of the second. -/
def JoinsAges (g : Graph) (seq seq' : Nat) : Prop :=
  ∃ source target, g.seq? source = some seq ∧ g.seq? target = some seq' ∧ g.Joins source target

/-- The graphs have nodes of the same ages, and edges between nodes of the same ages. -/
structure SameByAge (g g' : Graph) : Prop where
  ages : ∀ seq, (∃ id, g'.seq? id = some seq) ↔ ∃ id, g.seq? id = some seq
  edges : ∀ seq seq', g'.JoinsAges seq seq' ↔ g.JoinsAges seq seq'

theorem seq?_eq_getD (live : g.contains id) : g.seq? id = some ((g.seq? id).getD 0) := by
  obtain ⟨seq, hseq⟩ := contains_iff_exists_seq?.1 live
  rw [hseq, Option.getD_some]

theorem filterMap_seq? (live : ∀ id ∈ l, g.contains id) :
    l.filterMap g.seq? = l.map fun id => (g.seq? id).getD 0 :=
  List.filterMap_eq_map_iff_forall_eq_some.2 fun id h => seq?_eq_getD (live id h)

/-- Where the ages tell the nodes apart, the older node takes its turn first. -/
theorem DistinctAges.lt_of_precedes (distinct : g.DistinctAges) {a b : NodeId}
    (h : g.Precedes a b) : (g.seq? a).getD 0 < (g.seq? b).getD 0 := by
  obtain ⟨s, t, hs, ht, before⟩ := h
  rw [hs, ht, Option.getD_some, Option.getD_some]
  rcases Turn.before_eq_true_iff.1 before with less | ⟨same, less⟩
  · exact less
  · obtain rfl : s = t := same
    obtain rfl := distinct a b s hs ht
    exact absurd less (Nat.lt_irrefl a)

/-- The ages are served in turn, the lowest one first. -/
theorem DistinctAges.served (distinct : g.DistinctAges) :
    Served (fun seq => ∃ id, g.seq? id = some seq) (fun seq seq' => g.JoinsAges seq' seq) (· < ·)
      (g.order.filterMap g.seq?) := by
  rw [filterMap_seq? fun _ => contains_of_mem_order]
  have age {id : NodeId} {seq : Nat} :
      g.seq? id = some seq ↔ g.contains id ∧ (g.seq? id).getD 0 = seq := by
    rw [contains_iff_exists_seq?]
    cases g.seq? id <;> simp
  refine g.served_order.map ?_ ?_ ?_ ?_ fun _ _ _ _ h => distinct.lt_of_precedes h
  · intro a b ha hb same
    exact distinct a b _ (seq?_eq_getD ha) (same ▸ seq?_eq_getD hb)
  · exact fun id p hp => (joins_iff_mem_predecessors.2 hp).contains_source
  · exact fun seq => exists_congr fun id => age
  · intro seq seq'
    constructor
    · rintro ⟨p, id, hp, hid, edge⟩
      obtain ⟨live, rfl⟩ := age.1 hid
      exact ⟨id, p, live, joins_iff_mem_predecessors.1 edge, rfl, (age.1 hp).2⟩
    · rintro ⟨id, p, live, hp, rfl, rfl⟩
      have edge := joins_iff_mem_predecessors.2 hp
      exact ⟨p, id, seq?_eq_getD edge.contains_source, seq?_eq_getD live, edge⟩

theorem SameByAge.order_eq (same : g.SameByAge g') (distinct : g.DistinctAges)
    (distinct' : g'.DistinctAges) :
    g'.order.filterMap g'.seq? = g.order.filterMap g.seq? := by
  have h' := distinct'.served
  simp only [same.ages, same.edges] at h'
  exact h'.eq (fun _ _ => Nat.lt_asymm) distinct.served

/-! ### The main statement -/

/-- If no two nodes are of the same age, the order lists each of the nodes once that no cycle leads
to; all of them are listed exactly if there is no cycle. While it is found no counter falls below
zero. Among the arrangements of the listed nodes in which producers stand before their consumers it
is the least one, age by age, and it is the same for every graph with nodes of the same ages and
edges between the same ages. -/
theorem order_canonical (distinct : g.DistinctAges) :
    g.order.Nodup ∧
    (∀ id, id ∈ g.order ↔ g.contains id ∧
      ¬∃ c, Relation.TransGen g.Joins c c ∧ Relation.ReflTransGen g.Joins c id) ∧
    (∀ steps, ∀ moment ∈ ((Schedule.start g).run g steps).moments g, ∀ id, g.contains id →
      0 ≤ moment.pending.getD id 0) ∧
    ((∀ id, g.contains id → id ∈ g.order) ↔ ∀ c, ¬Relation.TransGen g.Joins c c) ∧
    (g.Sequential g.order ∧ ∀ l, l.Perm g.order → g.Sequential l →
      l = g.order ∨ List.Lex (· < ·) (g.order.filterMap g.seq?) (l.filterMap g.seq?)) ∧
    ∀ g', g'.DistinctAges → g.SameByAge g' →
      g'.order.filterMap g'.seq? = g.order.filterMap g.seq? := by
  refine ⟨g.nodup_order, fun _ => mem_order_iff_not_exists_cycle, ?_, forall_mem_order_iff,
    ⟨g.sequential_order, ?_⟩, fun g' distinct' same => same.order_eq distinct distinct'⟩
  · intro steps moment hmoment id live
    have sound := (Schedule.sound_start g).run steps
    obtain ⟨left, sound⟩ := sound.exists_of_mem_moments hmoment
    exact sound.pending_nonneg live
  · intro l perm sequential
    have live : ∀ id ∈ l, g.contains id := fun id h => contains_of_mem_order (perm.subset h)
    rw [filterMap_seq? live, filterMap_seq? fun _ => contains_of_mem_order]
    exact g.served_order.eq_or_lex (fun _ _ _ _ => distinct.lt_of_precedes) perm sequential.before

/-- A node reads another one twice, two nodes read each other and a third one reads one of them. The
place of a node that has been removed is taken again, so that a lower place is of a higher age. -/
def loopAndReuse : List Call :=
  [.addParameter "x" ⟨.f32, .ofExtents [2]⟩, .makeNode { op := "Relu", inputs := [⟨0, 0⟩] },
    .makeNode { op := "Add", inputs := [⟨0, 0⟩, ⟨0, 0⟩] },
    .makeNode { op := "Add", inputs := [⟨2, 0⟩, ⟨0, 0⟩] },
    .makeNode { op := "Relu", inputs := [⟨3, 0⟩] }, .setInput 3 1 ⟨4, 0⟩,
    .makeNode { op := "Ceiling", inputs := [⟨4, 0⟩] }, .removeNode 1,
    .makeNode { op := "Relu", inputs := [⟨2, 0⟩] }]

/-- The nodes 3 and 4 read each other, and node 5 reads node 4. -/
theorem order_after_loopAndReuse :
    ((empty "f").after .core loopAndReuse).DistinctAges ∧
      ((empty "f").after .core loopAndReuse).order = [0, 2, 1] ∧
      Relation.TransGen ((empty "f").after .core loopAndReuse).Joins 3 3 ∧
      ((empty "f").after .core loopAndReuse).contains 5 ∧
      5 ∉ ((empty "f").after .core loopAndReuse).order := by
  have linking : AllAlong .core Call.Linking (empty "f") loopAndReuse := by decide +kernel
  have distinct : ((empty "f").after .core loopAndReuse).DistinctAges :=
    ((linked_empty "f").after linking).seq_injective
  have forth : ((empty "f").after .core loopAndReuse).Joins 3 4 := by
    unfold Joins
    decide +kernel
  have back : ((empty "f").after .core loopAndReuse).Joins 4 3 := by
    unfold Joins
    decide +kernel
  have behind : ((empty "f").after .core loopAndReuse).Joins 4 5 := by
    unfold Joins
    decide +kernel
  refine ⟨distinct, by decide +kernel, .tail (.single forth) back, by decide +kernel, ?_⟩
  intro listed
  refine (((order_canonical distinct).2.1 5).1 listed).2 ⟨3, .tail (.single forth) back, ?_⟩
  exact .tail (.single forth) behind

end Graph

end TensorGraph
