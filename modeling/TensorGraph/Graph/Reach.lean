import TensorGraph.Graph.Basic

/-!
# Reachability

`reach next fuel work seen` adds to `seen` all that can be reached from `work` in steps of `next`
without passing through what was in `seen`. Every step takes one place from the work; a place is
followed only once, so that as much fuel as there are places in `work` and edges in all is enough.
The main statements are `Graph.mem_dependents` and `Graph.mem_dependencies`: what is found is what a
`Walk` leads to.
-/

namespace TensorGraph

/-- All of `seen` and what is reached from `work` outside of it. -/
def reach (next : NodeId → List NodeId) : Nat → List NodeId → List NodeId → List NodeId
  | 0, _, seen => seen
  | _ + 1, [], seen => seen
  | fuel + 1, id :: work, seen =>
    if id ∈ seen then reach next fuel work seen
    else reach next fuel (next id ++ work) (id :: seen)

/-- Steps of `next` from one place to another, every place on the way outside of `seen`. -/
inductive Walk (next : NodeId → List NodeId) (seen : List NodeId) : NodeId → NodeId → Prop where
  /-- No step at all. -/
  | stay {a : NodeId} : a ∉ seen → Walk next seen a a
  /-- One step and then a walk. -/
  | step {a b c : NodeId} : a ∉ seen → b ∈ next a → Walk next seen b c → Walk next seen a c

namespace Walk

variable {next : NodeId → List NodeId} {seen : List NodeId} {a b : NodeId}

/-- A walk that is to keep clear of more places keeps clear of fewer. -/
theorem mono {more : List NodeId} (h : Walk next more a b) (sub : ∀ i ∈ seen, i ∈ more) :
    Walk next seen a b := by
  induction h with
  | stay clear => exact .stay fun h => clear (sub _ h)
  | step clear edge _ ih => exact .step (fun h => clear (sub _ h)) edge ih

/-- A walk keeps clear of `id`, or it ends there, or what follows its last visit there does. -/
theorem avoid (id : NodeId) (h : Walk next seen a b) :
    Walk next (id :: seen) a b ∨ b = id ∨ ∃ c ∈ next id, Walk next (id :: seen) c b := by
  induction h with
  | @stay a clear =>
    by_cases e : a = id
    · exact .inr (.inl e)
    · exact .inl (.stay (by simp [e, clear]))
  | @step a b c clear edge _ ih =>
    rcases ih with walk | rest
    · by_cases e : a = id
      · subst e
        exact .inr (.inr ⟨b, edge, walk⟩)
      · exact .inl (.step (by simp [e, clear]) edge walk)
    · exact .inr rest

end Walk

/-- Following a place that is not in `seen` trades it for the places after it. -/
theorem exists_walk_follow {next : NodeId → List NodeId} {seen work : List NodeId} {id x : NodeId}
    (fresh : id ∉ seen) :
    (x ∈ id :: seen ∨ ∃ w ∈ next id ++ work, Walk next (id :: seen) w x) ↔
      x ∈ seen ∨ ∃ w ∈ id :: work, Walk next seen w x := by
  have sub : ∀ i ∈ seen, i ∈ id :: seen := fun _ h => List.mem_cons_of_mem _ h
  constructor
  · rintro (h | ⟨w, hw, walk⟩)
    · rcases List.mem_cons.1 h with rfl | h
      · exact .inr ⟨x, List.mem_cons_self, .stay fresh⟩
      · exact .inl h
    · rcases List.mem_append.1 hw with hw | hw
      · exact .inr ⟨id, List.mem_cons_self, .step fresh hw (walk.mono sub)⟩
      · exact .inr ⟨w, List.mem_cons_of_mem _ hw, walk.mono sub⟩
  · rintro (h | ⟨w, hw, walk⟩)
    · exact .inl (List.mem_cons_of_mem _ h)
    · rcases walk.avoid id with clear | rfl | ⟨c, hc, clear⟩
      · rcases List.mem_cons.1 hw with rfl | hw
        · cases clear <;> exact absurd List.mem_cons_self ‹_›
        · exact .inr ⟨w, List.mem_append_right _ hw, clear⟩
      · exact .inl List.mem_cons_self
      · exact .inr ⟨c, List.mem_append_left _ hc, clear⟩

/-- With fuel for the work and for every edge that starts outside of `seen`, `reach` finds all that
a walk leads to. The edges are those from `key edge` to `val edge`. -/
theorem mem_reach {edges : List Edge} {key val : Edge → NodeId} {next : NodeId → List NodeId}
    (hnext : ∀ id, next id = (edges.filter fun edge => key edge = id).map val)
    {fuel : Nat} {work seen : List NodeId} {x : NodeId}
    (enough : work.length + (edges.filter fun edge => key edge ∉ seen).length ≤ fuel) :
    x ∈ reach next fuel work seen ↔ x ∈ seen ∨ ∃ w ∈ work, Walk next seen w x := by
  induction fuel generalizing work seen with
  | zero =>
    have : work = [] := List.length_eq_zero_iff.1 (by omega)
    simp [reach, this]
  | succ fuel ih =>
    cases work with
    | nil => simp [reach]
    | cons id work =>
      simp only [reach]
      split
      · next old =>
        rw [ih (by simp only [List.length_cons] at enough; omega)]
        constructor
        · rintro (h | ⟨w, hw, walk⟩)
          · exact .inl h
          · exact .inr ⟨w, List.mem_cons_of_mem _ hw, walk⟩
        · rintro (h | ⟨w, hw, walk⟩)
          · exact .inl h
          · rcases List.mem_cons.1 hw with rfl | hw
            · cases walk <;> exact absurd old ‹_›
            · exact .inr ⟨w, hw, walk⟩
      · next fresh =>
        have split : (edges.filter fun edge => key edge ∉ seen).length =
            (next id).length + (edges.filter fun edge => key edge ∉ id :: seen).length := by
          rw [hnext, List.length_map]
          clear ih enough hnext
          induction edges with
          | nil => rfl
          | cons edge rest ih =>
            by_cases e : key edge = id
            · simp [e, fresh] at ih ⊢
              omega
            · by_cases h : key edge ∈ seen
              · simpa [e, h] using ih
              · simp [e, h] at ih ⊢
                omega
        rw [ih (by simp only [List.length_append, List.length_cons] at enough ⊢; omega)]
        exact exists_walk_follow fresh

namespace Graph

/-- The nodes of `seen` and all that read, over any number of edges, a node of `work`. -/
def dependents (g : Graph) (work seen : List NodeId) : List NodeId :=
  reach g.successors (work.length + g.edges.length) work seen

/-- The nodes of `seen` and all that a node of `work` reads, over any number of edges. -/
def dependencies (g : Graph) (work seen : List NodeId) : List NodeId :=
  reach g.predecessors (work.length + g.edges.length) work seen

theorem mem_dependents {g : Graph} {work seen : List NodeId} {id : NodeId} :
    id ∈ g.dependents work seen ↔ id ∈ seen ∨ ∃ w ∈ work, Walk g.successors seen w id :=
  mem_reach (fun _ => rfl) (Nat.add_le_add_left (List.length_filter_le ..) _)

theorem mem_dependencies {g : Graph} {work seen : List NodeId} {id : NodeId} :
    id ∈ g.dependencies work seen ↔ id ∈ seen ∨ ∃ w ∈ work, Walk g.predecessors seen w id :=
  mem_reach (fun _ => rfl) (Nat.add_le_add_left (List.length_filter_le ..) _)

end Graph

end TensorGraph
