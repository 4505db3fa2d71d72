import TensorGraph.Graph.Basic

/-!
# Turns

Where nodes have to wait for each other they take turns by age: first inserted, first served.
`Turn.enqueue` keeps a line of turns in order, and `Graph.turns` lines up all nodes.
-/

namespace TensorGraph

/-- The turn of a node in a line of nodes. -/
structure Turn where
  /-- The number of insertions before that of the node. -/
  seq : Nat
  /-- The place of the node. -/
  id : NodeId
deriving DecidableEq, Repr

namespace Turn

/-- Does the turn of `a` come before that of `b`? -/
def before (a b : Turn) : Bool := a.seq < b.seq || (a.seq = b.seq && a.id < b.id)

/-- Lines up a turn in a line that is in order. -/
def enqueue (t : Turn) : List Turn → List Turn
  | [] => [t]
  | u :: rest => if u.before t then u :: t.enqueue rest else t :: u :: rest

theorem mem_enqueue {t u : Turn} {line : List Turn} :
    u ∈ t.enqueue line ↔ u = t ∨ u ∈ line := by
  induction line with
  | nil => simp [enqueue]
  | cons v rest ih =>
    simp only [enqueue]
    split
    · simp only [List.mem_cons, ih]
      exact or_left_comm
    · simp

theorem before_eq_true_iff {a b : Turn} :
    a.before b = true ↔ a.seq < b.seq ∨ a.seq = b.seq ∧ a.id < b.id := by
  simp [before]

/-- A line in which nobody stands behind a later turn stays one. -/
theorem pairwise_enqueue {t : Turn} {line : List Turn}
    (h : line.Pairwise fun a b => ¬b.before a) :
    (t.enqueue line).Pairwise fun a b => ¬b.before a := by
  induction line with
  | nil => simp [enqueue]
  | cons u rest ih =>
    obtain ⟨hu, hrest⟩ := List.pairwise_cons.1 h
    simp only [enqueue]
    split
    · next before =>
      refine List.pairwise_cons.2 ⟨?_, ih hrest⟩
      intro v hv
      rcases mem_enqueue.1 hv with rfl | hv
      · rw [before_eq_true_iff] at before ⊢
        simp only [NodeId] at before ⊢
        omega
      · exact hu v hv
    · next before =>
      refine List.pairwise_cons.2 ⟨?_, h⟩
      intro v hv
      rcases List.mem_cons.1 hv with rfl | hv
      · exact before
      · have later := hu v hv
        rw [before_eq_true_iff] at before later ⊢
        simp only [NodeId] at before later ⊢
        omega

end Turn

namespace Graph

/-- The nodes by age. -/
def turns (g : Graph) : List Turn :=
  g.placed.foldr (fun place line => Turn.enqueue ⟨place.2.seq, place.1⟩ line) []

theorem mem_turns {g : Graph} {turn : Turn} :
    turn ∈ g.turns ↔ ∃ entry, g.get? turn.id = some entry ∧ entry.seq = turn.seq := by
  have lineUp (places : List (NodeId × Entry)) :
      turn ∈ places.foldr (fun place line => Turn.enqueue ⟨place.2.seq, place.1⟩ line) [] ↔
        ∃ entry, (turn.id, entry) ∈ places ∧ entry.seq = turn.seq := by
    induction places with
    | nil => simp
    | cons place rest ih =>
      obtain ⟨id, entry⟩ := place
      rw [List.foldr_cons, Turn.mem_enqueue, ih]
      constructor
      · rintro (rfl | ⟨other, h, e⟩)
        · exact ⟨entry, List.mem_cons_self, rfl⟩
        · exact ⟨other, List.mem_cons_of_mem _ h, e⟩
      · rintro ⟨other, h, e⟩
        rcases List.mem_cons.1 h with h | h
        · obtain ⟨rfl, rfl⟩ := Prod.mk.inj h
          exact .inl (by cases turn; simp_all)
        · exact .inr ⟨other, h, e⟩
  rw [turns, lineUp]
  simp [mem_placed]

/-- Nobody stands behind a later turn. -/
theorem pairwise_turns (g : Graph) : g.turns.Pairwise fun a b => ¬b.before a := by
  unfold turns
  induction g.placed with
  | nil => simp
  | cons place rest ih => exact Turn.pairwise_enqueue ih

end Graph

end TensorGraph
