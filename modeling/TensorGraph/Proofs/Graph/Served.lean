import Mathlib.Data.List.Nodup
import TensorGraph.Proofs.Graph.Order

/-!
# Lists that serve in turn

Elements wait for other elements. A list serves them in turn if its next element is always the
first one of those that are ready, and if it goes on as long as one is ready. There is only one such
list (`Served.eq`); no other arrangement of its elements that respects the waiting is less
(`Served.eq_or_lex`). The order of the nodes is such a list (`Graph.served_order`), which is why it
does not depend on how the line of ready nodes is kept.
-/

namespace TensorGraph

variable {α β : Type} {live keep : α → Prop} {reads before : α → α → Prop} {l m : List α}

/-- What waits for an element `a` to be served is an element `b` with `reads b a`. -/
structure Served (live : α → Prop) (reads before : α → α → Prop) (l : List α) : Prop where
  mem_live : ∀ a ∈ l, live a
  nodup : l.Nodup
  ready : ∀ done a todo, l = done ++ a :: todo → ∀ p, reads a p → p ∈ done
  /-- The next one is the first one of those that are ready. -/
  first : ∀ done a todo, l = done ++ a :: todo → ∀ b, live b → b ∉ done →
    (∀ p, reads b p → p ∈ done) → b = a ∨ before a b
  complete : ∀ b, live b → (∀ p, reads b p → p ∈ l) → b ∈ l

/-! ### What serving in turn determines -/

namespace Served

/-- Two lists that agree so far go on in the same way. -/
theorem todo_eq (asymm : ∀ a b, before a b → ¬before b a) (done : List α) {todo todo' : List α}
    (h : Served live reads before (done ++ todo))
    (h' : Served live reads before (done ++ todo')) : todo = todo' := by
  induction todo generalizing done todo' with
  | nil =>
    cases todo' with
    | nil => rfl
    | cons b rest =>
      have again : b ∈ done ++ [] :=
        h.complete b (h'.mem_live b (by simp)) (by simpa using h'.ready done b rest rfl)
      rw [List.append_nil] at again
      exact absurd rfl ((List.nodup_append.1 h'.nodup).2.2 b again b List.mem_cons_self)
  | cons a rest ih =>
    have fresh {c : α} {others : List α} (hs : Served live reads before (done ++ c :: others)) :
        c ∉ done := fun hc => (List.nodup_append.1 hs.nodup).2.2 c hc c List.mem_cons_self rfl
    cases todo' with
    | nil =>
      have again : a ∈ done ++ [] :=
        h'.complete a (h.mem_live a (by simp)) (by simpa using h.ready done a rest rfl)
      exact absurd (by simpa using again) (fresh h)
    | cons b rest' =>
      have same : b = a := by
        have after := h.first done a rest rfl b (h'.mem_live b (by simp)) (fresh h')
          (h'.ready done b rest' rfl)
        have ahead := h'.first done b rest' rfl a (h.mem_live a (by simp)) (fresh h)
          (h.ready done a rest rfl)
        rcases after with same | after
        · exact same
        · exact (ahead.resolve_right (asymm _ _ after)).symm
      subst same
      rw [ih (done ++ [b]) (by simpa using h) (by simpa using h')]

/-- There is only one list that serves in turn. -/
theorem eq (asymm : ∀ a b, before a b → ¬before b a) (h : Served live reads before l)
    (h' : Served live reads before m) : l = m :=
  todo_eq asymm [] h h'

/-- If elements are kept with all that they wait for, they are served as if they were alone. -/
theorem filter [DecidablePred keep] {reads' before' : α → α → Prop}
    (h : Served live reads before l)
    (closed : ∀ a p, live a → keep a → reads a p → keep p)
    (same : ∀ a p, live a → keep a → (reads' a p ↔ reads a p))
    (mono : ∀ a b, keep a → keep b → before a b → before' a b) :
    Served (fun a => live a ∧ keep a) reads' before' (l.filter keep) where
  mem_live a ha := by
    obtain ⟨ha, kept⟩ := List.mem_filter.1 ha
    exact ⟨h.mem_live a ha, by simpa using kept⟩
  nodup := h.nodup.filter _
  ready done a todo split p hp := by
    obtain ⟨done', rest, rfl, rfl, hrest⟩ := List.filter_eq_append_iff.1 split
    obtain ⟨skipped, todo', rfl, hskipped, kept, -⟩ := List.filter_eq_cons_iff.1 hrest
    have kept : keep a := by simpa using kept
    have hlive := h.mem_live a (by simp)
    have hp := (same a p hlive kept).1 hp
    have hmem := h.ready (done' ++ skipped) a todo' (by simp) p hp
    have hkeep := closed a p hlive kept hp
    refine List.mem_filter.2 ⟨(List.mem_append.1 hmem).resolve_right ?_, by simpa using hkeep⟩
    exact fun hs => hskipped p hs (by simpa using hkeep)
  first done a todo split b hb fresh hready := by
    obtain ⟨done', rest, rfl, rfl, hrest⟩ := List.filter_eq_append_iff.1 split
    obtain ⟨skipped, todo', rfl, hskipped, kept, -⟩ := List.filter_eq_cons_iff.1 hrest
    have unserved : b ∉ done' ++ skipped := by
      intro hmem
      rcases List.mem_append.1 hmem with hmem | hmem
      · exact fresh (List.mem_filter.2 ⟨hmem, by simpa using hb.2⟩)
      · exact hskipped b hmem (by simpa using hb.2)
    have served (p : α) (hp : reads b p) : p ∈ done' ++ skipped := by
      have := hready p ((same b p hb.1 hb.2).2 hp)
      exact List.mem_append_left _ (List.mem_filter.1 this).1
    exact (h.first (done' ++ skipped) a todo' (by simp) b hb.1 unserved served).imp_right
      (mono a b (by simpa using kept) hb.2)
  complete b hb hready := by
    refine List.mem_filter.2 ⟨h.complete b hb.1 fun p hp => ?_, by simpa using hb.2⟩
    exact (List.mem_filter.1 (hready p ((same b p hb.1 hb.2).2 hp))).1

/-- Under names that keep the elements apart they are served in the same turn. -/
theorem map {f : α → β} {live' : β → Prop} {reads' before' : β → β → Prop}
    (h : Served live reads before l)
    (inj : ∀ a b, live a → live b → f a = f b → a = b)
    (source_live : ∀ a p, reads a p → live p)
    (hlive : ∀ x, live' x ↔ ∃ a, live a ∧ f a = x)
    (hreads : ∀ x y, reads' x y ↔ ∃ a p, live a ∧ reads a p ∧ f a = x ∧ f p = y)
    (hbefore : ∀ a b, live a → live b → before a b → before' (f a) (f b)) :
    Served live' reads' before' (l.map f) := by
  have reads_of {a p : α} (ha : live a) (hp : reads a p) : reads' (f a) (f p) :=
    (hreads _ _).2 ⟨a, p, ha, hp, rfl, rfl⟩
  have mem_of {done : List α} {p : α} (sub : ∀ a ∈ done, live a) (hp : live p)
      (hmem : f p ∈ done.map f) : p ∈ done := by
    obtain ⟨q, hq, e⟩ := List.mem_map.1 hmem
    exact inj q p (sub q hq) hp e ▸ hq
  refine ⟨?_, ?_, ?_, ?_, ?_⟩
  · intro x hx
    obtain ⟨a, ha, rfl⟩ := List.mem_map.1 hx
    exact (hlive _).2 ⟨a, h.mem_live a ha, rfl⟩
  · exact (List.nodup_map_iff_inj_on h.nodup).2
      fun a ha b hb e => inj a b (h.mem_live a ha) (h.mem_live b hb) e
  · intro done x todo split y hy
    obtain ⟨done', rest, rfl, rfl, hrest⟩ := List.map_eq_append_iff.1 split
    obtain ⟨a, todo', rfl, rfl, rfl⟩ := List.map_eq_cons_iff.1 hrest
    obtain ⟨a', p, ha', hp, e, rfl⟩ := (hreads _ _).1 hy
    obtain rfl := inj a' a ha' (h.mem_live a (by simp)) e
    exact List.mem_map_of_mem (h.ready done' a' todo' rfl p hp)
  · intro done x todo split y hy fresh hready
    obtain ⟨done', rest, rfl, rfl, hrest⟩ := List.map_eq_append_iff.1 split
    obtain ⟨a, todo', rfl, rfl, rfl⟩ := List.map_eq_cons_iff.1 hrest
    obtain ⟨b, hb, rfl⟩ := (hlive _).1 hy
    have sub : ∀ c ∈ done', live c := fun c hc => h.mem_live c (by simp [hc])
    have turn := h.first done' a todo' rfl b hb (fun hmem => fresh (List.mem_map_of_mem hmem))
      fun p hp => mem_of sub (source_live b p hp) (hready _ (reads_of hb hp))
    rcases turn with rfl | turn
    · exact .inl rfl
    · exact .inr (hbefore a b (h.mem_live a (by simp)) hb turn)
  · intro y hy hready
    obtain ⟨b, hb, rfl⟩ := (hlive _).1 hy
    refine List.mem_map_of_mem (h.complete b hb fun p hp => ?_)
    exact mem_of h.mem_live (source_live b p hp) (hready _ (reads_of hb hp))

/-- Where two arrangements part, the one that serves in turn goes on with the smaller number. -/
theorem todo_eq_or_lex {key : α → Nat} (done : List α) {todo todo' : List α}
    (h : Served live reads before (done ++ todo))
    (hkey : ∀ a b, live a → live b → before a b → key a < key b)
    (perm : todo'.Perm todo)
    (ready : ∀ past a rest, done ++ todo' = past ++ a :: rest → ∀ p, reads a p → p ∈ past) :
    todo' = todo ∨ List.Lex (· < ·) (todo.map key) (todo'.map key) := by
  induction todo generalizing done todo' with
  | nil => exact .inl perm.eq_nil
  | cons a rest ih =>
    cases todo' with
    | nil => exact absurd perm.symm.eq_nil (by simp)
    | cons b rest' =>
      have hmem : b ∈ a :: rest := perm.subset List.mem_cons_self
      have hlive : live b := h.mem_live b (List.mem_append_right _ hmem)
      have fresh : b ∉ done := fun hb => (List.nodup_append.1 h.nodup).2.2 b hb b hmem rfl
      rcases h.first done a rest rfl b hlive fresh (ready done b rest' rfl) with rfl | ahead
      · rcases ih (done ++ [b]) (by simpa using h) perm.cons_inv (by simpa using ready)
          with rfl | less
        · exact .inl rfl
        · exact .inr (.cons less)
      · exact .inr (.rel (hkey a b (h.mem_live a (by simp)) hlive ahead))

/-- Among the arrangements in which nothing comes before what it waits for, the one that serves in
turn is the least one, number by number. -/
theorem eq_or_lex {key : α → Nat} (h : Served live reads before l)
    (hkey : ∀ a b, live a → live b → before a b → key a < key b) (perm : m.Perm l)
    (ready : ∀ done a todo, m = done ++ a :: todo → ∀ p, reads a p → p ∈ done) :
    m = l ∨ List.Lex (· < ·) (l.map key) (m.map key) :=
  todo_eq_or_lex [] h hkey perm ready

end Served

/-! ### The order of the nodes -/

/-- The turn of the first node comes before that of the second one. -/
def Graph.Precedes (g : Graph) (a b : NodeId) : Prop :=
  ∃ s t, g.seq? a = some s ∧ g.seq? b = some t ∧ Turn.before ⟨s, a⟩ ⟨t, b⟩

theorem Graph.Precedes.asymm {g : Graph} {a b : NodeId} (h : g.Precedes a b) :
    ¬g.Precedes b a := by
  obtain ⟨s, t, hs, ht, before⟩ := h
  rintro ⟨t', s', ht', hs', after⟩
  obtain rfl := Option.some.inj (hs.symm.trans hs')
  obtain rfl := Option.some.inj (ht.symm.trans ht')
  rw [Turn.before_eq_true_iff] at before after
  simp only [NodeId] at before after
  omega

namespace Schedule

variable {g : Graph} {s : Schedule}

/-- The ready nodes stand in line, and every node that is listed was the first in line. -/
structure Greedy (g : Graph) (s : Schedule) : Prop where
  line : s.ready.Pairwise fun a b => ¬b.before a
  first : ∀ later id earlier, s.listed = later ++ id :: earlier → ∀ b, g.contains b →
    b ∉ earlier → (∀ p ∈ g.predecessors b, p ∈ earlier) → b = id ∨ g.Precedes id b

theorem greedy_start (g : Graph) : Greedy g (start g) where
  line := g.pairwise_turns.filter _
  first := by simp [start]

theorem Greedy.release (h : Greedy g s) (id : NodeId) : Greedy g (s.release g id) := by
  refine ⟨?_, by simpa only [listed_release] using h.first⟩
  simp only [Schedule.release]
  split
  · exact h.line
  · split
    · exact Turn.pairwise_enqueue h.line
    · exact h.line

theorem Greedy.foldl_release (h : Greedy g s) (todo : List NodeId) :
    Greedy g (todo.foldl (Schedule.release g) s) := by
  induction todo generalizing s with
  | nil => exact h
  | cons id rest ih => exact ih (h.release id)

/-- The first in line comes before every other node that is ready. -/
theorem Greedy.list {turn : Turn} {ready : List Turn} (h : Greedy g s) (sound : Sound g [] s)
    (line : s.ready = turn :: ready) :
    Greedy g { s with ready, listed := turn.id :: s.listed } := by
  obtain ⟨ahead, rest⟩ := List.pairwise_cons.1 (line ▸ h.line)
  refine ⟨rest, ?_⟩
  intro later id earlier split b hb fresh hready
  cases later with
  | cons _ later => exact h.first later id earlier (List.cons.inj split).2 b hb fresh hready
  | nil =>
    obtain ⟨rfl, rfl⟩ := List.cons.inj split
    obtain ⟨seq, hseq⟩ := Graph.contains_iff_exists_seq?.1 hb
    have waits : waiting g s.listed b = 0 := waiting_eq_zero_iff.2 hready
    have inLine : (⟨seq, b⟩ : Turn) ∈ turn :: ready :=
      line ▸ (sound.ready _).2 ⟨hseq, fresh, by simpa using waits⟩
    rcases List.mem_cons.1 inLine with rfl | behind
    · exact .inl rfl
    · by_cases same : b = turn.id
      · exact .inl same
      · right
        have own := ((sound.ready turn).1 (line ▸ List.mem_cons_self)).1
        refine ⟨turn.seq, seq, own, hseq, ?_⟩
        have notAhead := ahead _ behind
        rw [Turn.before_eq_true_iff] at notAhead ⊢
        simp only [NodeId] at notAhead same ⊢
        omega

theorem Greedy.step (h : Greedy g s) (sound : Sound g [] s) : Greedy g (s.step g) := by
  simp only [Schedule.step]
  split
  · exact h
  · next line => exact (h.list sound line).foldl_release _

theorem Greedy.run (h : Greedy g s) (sound : Sound g [] s) (fuel : Nat) :
    Greedy g (s.run g fuel) := by
  induction fuel generalizing s with
  | zero => exact h
  | succ fuel ih => exact ih (h.step sound) sound.step

end Schedule

/-- The order of a graph serves its nodes in turn. -/
theorem Graph.served_order (g : Graph) :
    Served (fun id => g.contains id) (fun id p => p ∈ g.predecessors id) g.Precedes g.order where
  mem_live _ := contains_of_mem_order
  nodup := g.nodup_order
  ready _ _ _ split _ hp := predecessor_before split hp
  first done id todo split b hb fresh hready := by
    have greedy : Schedule.Greedy g g.schedule :=
      (Schedule.greedy_start g).run (Schedule.sound_start g) g.size
    have listed : g.schedule.listed = todo.reverse ++ id :: done.reverse := by
      rw [← List.reverse_reverse g.schedule.listed, show g.schedule.listed.reverse = _ from split]
      simp
    exact greedy.first _ _ _ listed b hb (by simpa using fresh) (by simpa using hready)
  complete b hb hready := by
    by_contra out
    obtain ⟨p, hp, missing⟩ := exists_predecessor_not_mem_order hb out
    exact missing (hready p hp)

end TensorGraph
