import Mathlib.Data.Prod.Lex
import TensorGraph.Graph.Consumers
import TensorGraph.Proofs.Graph.Order

/-!
# The order of consumers

The consumers of an output are listed by the age of the node, by the place of the node and by port.
`Graph.standing` is where an input stands in such a list; `Graph.pairwise_standing_consumers` says
that the lists are in order, whatever the ages, and `eq_merge_of_mem_iff` that there is one list
only in which the members of two of them are in order.
-/

namespace TensorGraph

/-- A sorted list of the members of two others is their merge. -/
theorem eq_merge_of_mem_iff {α κ : Type} [LinearOrder κ] {key : α → κ}
    (injective : Function.Injective key) {as xs ys : List α}
    (has : as.Pairwise fun a b => key a < key b) (hxs : xs.Pairwise fun a b => key a < key b)
    (hys : ys.Pairwise fun a b => key a < key b) (apart : ∀ a ∈ xs, a ∉ ys)
    (h : ∀ a, a ∈ as ↔ a ∈ xs ∨ a ∈ ys) : as = xs.merge ys fun a b => key a ≤ key b := by
  have nodup {l : List α} (hl : l.Pairwise fun a b => key a < key b) : l.Nodup :=
    hl.imp fun {a b} lt e => lt.ne (congrArg key e)
  have nodup_merge : (xs.merge ys fun a b => key a ≤ key b).Nodup := by
    rw [(List.merge_perm_append _).nodup_iff]
    exact (nodup hxs).append (nodup hys) fun a hx hy => apart a hx hy
  have perm : as.Perm (xs.merge ys fun a b => key a ≤ key b) := by
    rw [List.perm_ext_iff_of_nodup (nodup has) nodup_merge]
    intro a
    rw [h, List.mem_merge]
  have sorted : (xs.merge ys fun a b => key a ≤ key b).Pairwise
      fun a b => decide (key a ≤ key b) = true := by
    refine List.pairwise_merge ?_ ?_ xs ys ?_ ?_
    · exact fun a b c => by simpa using le_trans
    · exact fun a b => by simpa using le_total (key a) (key b)
    · simpa using hxs.imp le_of_lt
    · simpa using hys.imp le_of_lt
  refine perm.eq_of_pairwise ?_ (has.imp le_of_lt) (by simpa using sorted)
  exact fun a b _ _ le ge => injective (le_antisymm le ge)

namespace Graph

/-- Where an input stands among consumers: by the age of its node, by the place of the node, and by
port. -/
def standing (g : Graph) (reader : NodeId × Nat) : ℕ ×ₗ ℕ ×ₗ ℕ :=
  toLex ((g.seq? reader.1).getD 0, toLex reader)

theorem standing_injective (g : Graph) : Function.Injective g.standing := by
  intro a b h
  have places : toLex a = toLex b := congrArg Prod.snd (toLex.injective h)
  exact toLex.injective places

theorem pairwise_portsReading (g : Graph) (o : Output) (id : NodeId) :
    (g.portsReading o id).Pairwise (· < ·) := by
  unfold portsReading
  split
  · exact .nil
  · exact List.pairwise_lt_range.filter _

/-- The consumers are in order. -/
theorem pairwise_standing_consumers (g : Graph) (o : Output) :
    (g.consumers o).Pairwise fun a b => g.standing a < g.standing b := by
  rw [consumers, List.pairwise_flatMap]
  constructor
  · intro turn _
    refine List.pairwise_map.2 ((g.pairwise_portsReading o turn.id).imp ?_)
    intro p q lt
    simp [standing, Prod.Lex.toLex_lt_toLex, lt]
  · have distinct := List.Pairwise.and g.pairwise_turns g.nodup_turns
    refine distinct.imp_of_mem ?_
    rintro ⟨s, i⟩ ⟨t, j⟩ hi hj ⟨notLater, apart⟩ a ha b hb
    obtain ⟨p, _, rfl⟩ := List.mem_map.1 ha
    obtain ⟨q, _, rfl⟩ := List.mem_map.1 hb
    rw [mem_turns_iff_seq?] at hi hj
    rw [Turn.before_eq_true_iff] at notLater
    simp only [standing, hi, hj, Option.getD_some, Prod.Lex.toLex_lt_toLex]
    have other : s = t → i ≠ j := by
      rintro rfl rfl
      exact apart rfl
    simp only [NodeId] at *
    omega

end Graph

end TensorGraph
