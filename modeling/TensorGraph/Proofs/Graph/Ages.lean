import TensorGraph.Proofs.Calls
import TensorGraph.Proofs.Graph.Substitution

/-!
# Ages

A place that has been vacated may be taken again, but a number is handed out only once. So a node is
known again by its place and its number: whatever calls have led to a graph, each of its nodes has
been there before, with its number, or has a number that was not yet handed out then
(`Graph.LeadsTo.aged`). `GraphM.MadeOfCalls` says of an action that this holds for what it does.
-/

namespace TensorGraph

namespace Graph

variable {g g' g'' : Graph}

/-! ### Ages -/

/-- What stands in a place stood there before or has been inserted since. -/
structure Aged (g g' : Graph) : Prop where
  nextSeq_le : g.nextSeq ≤ g'.nextSeq
  seq? : ∀ id seq, g'.seq? id = some seq → g.seq? id = some seq ∨ g.nextSeq ≤ seq

namespace Aged

theorem of_seq? (nextSeq : g'.nextSeq = g.nextSeq) (seq? : ∀ id, g'.seq? id = g.seq? id) :
    Aged g g' :=
  ⟨nextSeq.ge, fun id _ h => .inl ((seq? id).symm.trans h)⟩

theorem refl (g : Graph) : Aged g g := of_seq? rfl fun _ => rfl

theorem trans (h : Aged g g') (h' : Aged g' g'') : Aged g g'' where
  nextSeq_le := h.nextSeq_le.trans h'.nextSeq_le
  seq? id seq hseq := by
    rcases h'.seq? id seq hseq with old | young
    · exact h.seq? id seq old
    · exact .inr (h.nextSeq_le.trans young)

theorem of_sameSkeleton (same : SameSkeleton g g') : Aged g g' := of_seq? same.nextSeq same.seq?

theorem insert (g : Graph) (node : Node) : Aged g (g.insert node) where
  nextSeq_le := Nat.le_succ _
  seq? id seq hseq := by
    rw [seq?_insert] at hseq
    split at hseq
    · exact .inr (Option.some.inj hseq).le
    · exact .inl hseq

theorem foldl_vacate (g : Graph) (ids : List NodeId) : Aged g (ids.foldl vacate g) where
  nextSeq_le := by
    induction ids generalizing g with
    | nil => exact Nat.le_refl _
    | cons id rest ih => exact ih (g.vacate id)
  seq? id seq hseq := by
    rw [seq?_foldl_vacate] at hseq
    split at hseq
    · cases hseq
    · exact .inl hseq

/-- No operation on a graph gives a node the number of another one. -/
theorem leave (g : Graph) (registry : Registry) (call : Call) : Aged g (call.leave registry g) := by
  have left : call.Leaves registry g (call.leave registry g) := call.leaves registry g
  generalize call.leave registry g = g' at left ⊢
  cases left with
  | refused => exact .refl g
  | addNode node => exact .insert g node
  | addParameter => exact (Aged.insert g _).trans (.of_seq? rfl fun _ => rfl)
  | addConstant t => exact .insert g _
  | addResult => exact (Aged.insert g _).trans (.of_seq? rfl fun _ => rfl)
  | notInferred node => exact .insert g node
  | makeNode => exact (Aged.insert g _).trans (.of_sameSkeleton (.update ..))
  | inferNode => exact .of_sameSkeleton (.update ..)
  | setInput => exact .of_seq? (nextSeq_and_name_rewire ..).1 fun _ => seq?_rewire ..
  | replaceNode => exact .of_seq? (nextSeq_and_name_replaced ..).1 fun _ => seq?_replaced ..
  | notDeclared o type => exact .of_sameSkeleton (.markStale g o.node)
  | @setOutputType o type =>
    exact (Aged.of_sameSkeleton (.markStale g o.node)).trans
      (.of_sameSkeleton (.modifyOutputs _ _ _))
  | @editNode id f =>
    exact (Aged.of_sameSkeleton (.markStale g id)).trans (.of_seq? rfl fun _ => seq?_modifyNode ..)
  | markStale id => exact .of_sameSkeleton (.markStale g id)
  | removeNode id =>
    exact (Aged.of_sameSkeleton (SameSkeleton.markAll _ g)).trans (.foldl_vacate _ [id])
  | removeUnreachable => exact .foldl_vacate g g.dead
  | inferStale => exact .of_sameSkeleton (GraphM.sameSkeleton_inferInTurn registry g.order g)

end Aged

/-- Calls lead from one graph to the other, whatever they name and whatever operators they know. -/
def LeadsTo : Graph → Graph → Prop :=
  Relation.ReflTransGen fun g g' => ∃ registry call, g' = Call.leave registry call g

end Graph

/-! ### Actions made of calls -/

namespace GraphM

variable {α β : Type}

/-- Whatever the action does to a graph it does by calls. -/
def MadeOfCalls (action : GraphM α) : Prop :=
  ∀ g : Graph, g.LeadsTo (action.runOn g).2

theorem madeOfCalls_pure (a : α) : (pure a : GraphM α).MadeOfCalls := fun _ => .refl

theorem madeOfCalls_ask (query : Graph → Except Error α) : (ask query).MadeOfCalls :=
  fun _ => .refl

theorem madeOfCalls_of_leave {action : GraphM α} (registry : Registry) (call : Call)
    (h : ∀ g, (action.runOn g).2 = call.leave registry g) : action.MadeOfCalls :=
  fun g => .single ⟨registry, call, h g⟩

theorem MadeOfCalls.bind {x : GraphM α} {f : α → GraphM β} (hx : x.MadeOfCalls)
    (hf : ∀ a, (f a).MadeOfCalls) : (x >>= f).MadeOfCalls := by
  intro g
  have first : g.LeadsTo (x.runOn g).2 := hx g
  rw [runOn_bind]
  generalize x.runOn g = run at first ⊢
  rcases run with ⟨e | a, g'⟩
  · exact first
  · exact first.trans (hf a g')

end GraphM

end TensorGraph
