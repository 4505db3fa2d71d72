import Mathlib.Data.List.Perm.Subperm
import Mathlib.Data.Set.Function
import TensorGraph.Comparison
import TensorGraph.Proofs.Comparison.Contents
import TensorGraph.Proofs.Except
import TensorGraph.Proofs.Graph.Linked

/-!
# The comparison decides isomorphism

`Comparator.Isomorphism` says that a function on the nodes maps what can be seen of one graph to
what can be seen of another: all that its results and parameters lead to through the inputs. The
main statement is `Comparator.compare_eq_ok_iff`: the comparison finds no discrepancy exactly if
there is an isomorphism.

The walk keeps a correspondence that is one to one, all of whose pairs before the queue have been
compared and lead to pairs of the correspondence only (`Correspondence.Sound`). In the end the queue
is empty, because no node on the left is paired twice, and the correspondence is an isomorphism.
Conversely a walk along an isomorphism only ever pairs a node with its image
(`Correspondence.Follows`) and hence finds no discrepancy.
-/

namespace TensorGraph

/-- What the results and the parameters of a graph lead to through the inputs, whether it exists or
not. -/
inductive Graph.Visible (g : Graph) : NodeId → Prop where
  | result {id : NodeId} : id ∈ g.results → g.Visible id
  | parameter {id : NodeId} : id ∈ g.parameters → g.Visible id
  | input {id : NodeId} {port : Nat} {o : Output} :
      g.Visible id → g.input? id port = some o → g.Visible o.node

theorem Graph.Visible.inputs {g : Graph} {id : NodeId} {node : Node} (h : g.Visible id)
    (hnode : g.node? id = some node) : ∀ o ∈ node.inputs, g.Visible o.node := by
  intro o ho
  obtain ⟨port, hread⟩ := exists_port_of_mem hnode ho
  exact h.input hread

namespace Comparator

/-- The nodes agree in all that is compared but for what they read. -/
structure Alike (c : Comparator) (lhs rhs : Graph) (l r : NodeId) (left right : Node) : Prop where
  op : left.op = right.op
  inputCount : left.inputs.length = right.inputs.length
  outputCount : left.outputs.length = right.outputs.length
  shapes : left.outputs.map (·.shape) = right.outputs.map (·.shape)
  elementTypes : c.compares .elementTypes →
    left.outputs.map (·.element) = right.outputs.map (·.element)
  consumerCounts : c.compares .consumerCounts → ∀ slot < left.outputs.length,
    (lhs.consumers ⟨l, slot⟩).length = (rhs.consumers ⟨r, slot⟩).length
  names : c.compares .names → left.name = right.name
  attributes : c.compares .attributes → left.attributes = right.attributes
  constants : c.compares .constants → left.constant = right.constant

/-- A one-to-one map of what can be seen of one graph to what can be seen of the other, under which
results, parameters, nodes and inputs correspond. -/
structure Isomorphism (c : Comparator) (lhs rhs : Graph) (φ : NodeId → NodeId) : Prop where
  bijective : Set.BijOn φ {id | lhs.Visible id} {id | rhs.Visible id}
  results : lhs.results.map φ = rhs.results
  parameters : lhs.parameters.map φ = rhs.parameters
  nodes : ∀ id, lhs.Visible id → ∃ left right, lhs.node? id = some left ∧
    rhs.node? (φ id) = some right ∧ c.Alike lhs rhs id (φ id) left right ∧
    left.inputs.map (fun o => ⟨φ o.node, o.slot⟩) = right.inputs

variable {c : Comparator} {lhs rhs : Graph} {l r : NodeId} {left right : Node}

/-! ### Two nodes -/

theorem compareOutputs_eq_ok_iff {first : Nat} {as bs : List Slot}
    (length : as.length = bs.length) :
    c.compareOutputs lhs rhs l r left right first as bs = .ok () ↔
      as.map (·.shape) = bs.map (·.shape) ∧
      (c.compares .elementTypes → as.map (·.element) = bs.map (·.element)) ∧
      (c.compares .consumerCounts → ∀ slot < as.length,
        (lhs.consumers ⟨l, first + slot⟩).length = (rhs.consumers ⟨r, first + slot⟩).length) := by
  induction as generalizing first bs with
  | nil =>
    obtain rfl : bs = [] := List.eq_nil_of_length_eq_zero length.symm
    simp [compareOutputs]
  | cons a as ih =>
    obtain ⟨b, bs, rfl⟩ := List.exists_cons_of_length_eq_add_one length.symm
    have tail : c.compareOutputs lhs rhs l r left right (first + 1) as bs = .ok () ↔ _ :=
      ih (Nat.succ.inj length)
    have shifted : (∀ slot < (a :: as).length, (lhs.consumers ⟨l, first + slot⟩).length =
        (rhs.consumers ⟨r, first + slot⟩).length) ↔
          (lhs.consumers ⟨l, first⟩).length = (rhs.consumers ⟨r, first⟩).length ∧
          ∀ slot < as.length, (lhs.consumers ⟨l, first + 1 + slot⟩).length =
            (rhs.consumers ⟨r, first + 1 + slot⟩).length := by
      simp only [List.length_cons, Nat.forall_lt_succ_left, Nat.add_zero, Nat.add_assoc,
        Nat.add_comm 1]
    rw [compareOutputs, shifted]
    simp only [check_eq_ok_iff, List.map_cons, List.cons.injEq, not_and, ne_eq, not_not]
    cases counts : c.compares .consumerCounts with
    | true =>
      simp only [if_true, check_eq_ok_iff, tail, counts, not_not, true_imp_iff]
      constructor
      · rintro ⟨shape, element, count, shapes, elements, counts⟩
        exact ⟨⟨shape, shapes⟩, fun on => ⟨element on, elements on⟩, count, counts⟩
      · rintro ⟨⟨shape, shapes⟩, elements, count, counts⟩
        exact ⟨shape, fun on => (elements on).1, count, shapes, fun on => (elements on).2, counts⟩
    | false =>
      simp only [Bool.false_eq_true, if_false, tail, counts, false_imp_iff, and_true]
      constructor
      · rintro ⟨shape, element, shapes, elements⟩
        exact ⟨⟨shape, shapes⟩, fun on => ⟨element on, elements on⟩⟩
      · rintro ⟨⟨shape, shapes⟩, elements⟩
        exact ⟨shape, fun on => (elements on).1, shapes, fun on => (elements on).2⟩

theorem differingKey?_eq_none_iff : differingKey? left right = none ↔
    left.attributes = right.attributes := by
  constructor
  · intro h
    apply AttributeMap.ext_find?
    intro key
    simp only [differingKey?, List.find?_eq_none, List.mem_append, AttributeMap.mem_keys,
      decide_eq_true_eq, not_not] at h
    cases hl : left.attributes.find? key with
    | some value => rw [← hl, h key (.inl ⟨value, hl⟩)]
    | none =>
      cases hr : right.attributes.find? key with
      | none => rfl
      | some value => rw [← hr, ← hl, h key (.inr ⟨value, hr⟩)]
  · intro h
    simp [differingKey?, h]

theorem compareConstants_eq_ok_iff : compareConstants left right = .ok () ↔
    left.constant = right.constant := by
  simp only [compareConstants]
  cases left.constant with
  | none => cases right.constant <;> simp
  | some a =>
    cases right.constant with
    | none => simp
    | some b =>
      simp only [Option.some.injEq]
      constructor
      · intro h
        split at h
        · next same =>
          obtain ⟨data, extents⟩ := a
          obtain ⟨type, rfl, bytes⟩ := same
          exact congrArg (Tensor.mk · _) (TensorData.bytes_injective type bytes)
        · cases h
      · rintro rfl
        simp

theorem compareAttributes_eq_ok_iff {rest : Except Discrepancy Unit} :
    (if c.compares .attributes then
      match differingKey? left right with
      | some key => do
        throw (.attributes left right key)
        rest
      | none => rest
    else rest) = .ok () ↔
      (c.compares .attributes → left.attributes = right.attributes) ∧ rest = .ok () := by
  rw [← differingKey?_eq_none_iff]
  split
  · next on => cases differingKey? left right <;> simp [bind_eq_ok_iff, throw_eq_ok_iff, on]
  · next off => simp [off]

theorem compareNodes_eq_ok_iff :
    c.compareNodes lhs rhs l r left right = .ok () ↔ c.Alike lhs rhs l r left right := by
  have constants : (if c.compares .constants then compareConstants left right else pure ()) =
      .ok () ↔ (c.compares .constants → left.constant = right.constant) := by
    split
    · next on => simp [compareConstants_eq_ok_iff, on]
    · next off => simp [off, pure_eq_ok_iff]
  simp only [compareNodes]
  simp only [check_eq_ok_iff, bind_eq_ok_iff, ne_eq, not_and, not_not]
  constructor
  · rintro ⟨op, inputCount, outputCount, names, _, outputs, rest⟩
    obtain ⟨shapes, elementTypes, counts⟩ := (compareOutputs_eq_ok_iff outputCount).1 outputs
    simp only [Nat.zero_add] at counts
    obtain ⟨sameAttributes, rest⟩ := compareAttributes_eq_ok_iff.1 rest
    exact ⟨op, inputCount, outputCount, shapes, elementTypes, counts, names, sameAttributes,
      constants.1 rest⟩
  · intro h
    refine ⟨h.op, h.inputCount, h.outputCount, h.names, (), ?_,
      compareAttributes_eq_ok_iff.2 ⟨h.attributes, constants.2 h.constants⟩⟩
    refine (compareOutputs_eq_ok_iff h.outputCount).2 ⟨h.shapes, h.elementTypes, ?_⟩
    simpa only [Nat.zero_add] using h.consumerCounts

end Comparator

/-! ### Correspondences -/

namespace Correspondence

variable {lhs rhs : Graph} {l r : NodeId} {left right : Node} {k k' : Correspondence}
  {checked : List (NodeId × NodeId)}

/-- A one-to-one correspondence of nodes that can be seen, in the order in which the pairs were
found: those that have been checked and then those in the queue. -/
structure Pairing (lhs rhs : Graph) (checked : List (NodeId × NodeId)) (k : Correspondence) : Prop
    where
  one_to_one : ∀ p ∈ k.pairs, ∀ q ∈ k.pairs, p.1 = q.1 ↔ p.2 = q.2
  nodup : k.pairs.Nodup
  order : k.pairs.reverse = checked ++ k.queue
  visible : ∀ p ∈ k.pairs, lhs.Visible p.1 ∧ rhs.Visible p.2

theorem pairing_empty (lhs rhs : Graph) : Pairing lhs rhs [] {} where
  one_to_one := by simp
  nodup := .nil
  order := rfl
  visible := by simp

/-- What pairing two nodes makes of a correspondence. -/
structure Paired (lhs rhs : Graph) (checked : List (NodeId × NodeId)) (k k' : Correspondence) : Prop
    where
  pairing : Pairing lhs rhs checked k'
  mono : ∀ p ∈ k.pairs, p ∈ k'.pairs

theorem Pairing.pair (h : Pairing lhs rhs checked k) (hl : lhs.Visible l) (hr : rhs.Visible r)
    (ok : k.pair l r = .ok k') : Paired lhs rhs checked k k' ∧ (l, r) ∈ k'.pairs := by
  simp only [Correspondence.pair] at ok
  cases forward : k.pairs.find? (·.1 = l) with
  | some p =>
    obtain ⟨l', partner⟩ := p
    have hmem := List.mem_of_find?_eq_some forward
    obtain rfl : l' = l := by simpa using List.find?_some forward
    rw [forward] at ok
    simp only at ok
    split at ok
    · next same =>
      obtain rfl := Except.ok.inj ok
      exact ⟨⟨h, fun _ => id⟩, same ▸ hmem⟩
    · cases ok
  | none =>
    cases backward : k.pairs.find? (·.2 = r) with
    | some p => simp [forward, backward] at ok
    | none =>
      rw [forward, backward] at ok
      obtain rfl := Except.ok.inj ok
      have newLeft : ∀ p ∈ k.pairs, p.1 ≠ l := by simpa using forward
      have newRight : ∀ p ∈ k.pairs, p.2 ≠ r := by simpa using backward
      refine ⟨⟨⟨?_, ?_, ?_, ?_⟩, fun p hp => List.mem_cons_of_mem _ hp⟩, List.mem_cons_self⟩
      · intro p hp q hq
        rcases List.mem_cons.1 hp with rfl | hp <;> rcases List.mem_cons.1 hq with rfl | hq
        · simp
        · exact iff_of_false (newLeft q hq).symm (newRight q hq).symm
        · exact iff_of_false (newLeft p hp) (newRight p hp)
        · exact h.one_to_one p hp q hq
      · exact List.nodup_cons.2 ⟨fun hmem => newLeft _ hmem rfl, h.nodup⟩
      · simp [h.order]
      · intro p hp
        rcases List.mem_cons.1 hp with rfl | hp
        · exact ⟨hl, hr⟩
        · exact h.visible p hp

theorem Pairing.pairAll {ls rs : List NodeId} (h : Pairing lhs rhs checked k)
    (length : ls.length = rs.length) (hls : ∀ l ∈ ls, lhs.Visible l) (hrs : ∀ r ∈ rs, rhs.Visible r)
    (ok : k.pairAll ls rs = .ok k') :
    Paired lhs rhs checked k k' ∧ List.Forall₂ (fun l r => (l, r) ∈ k'.pairs) ls rs := by
  induction ls generalizing rs k with
  | nil =>
    obtain rfl : rs = [] := List.eq_nil_of_length_eq_zero length.symm
    obtain rfl := Except.ok.inj ok
    exact ⟨⟨h, fun _ => id⟩, .nil⟩
  | cons l ls ih =>
    obtain ⟨r, rs, rfl⟩ := List.exists_cons_of_length_eq_add_one length.symm
    obtain ⟨k₁, first, rest⟩ := bind_eq_ok_iff.1 ok
    obtain ⟨paired, hmem⟩ := h.pair (hls l List.mem_cons_self) (hrs r List.mem_cons_self) first
    obtain ⟨later, all⟩ := ih paired.pairing (Nat.succ.inj length)
      (fun l hl => hls l (List.mem_cons_of_mem _ hl))
      (fun r hr => hrs r (List.mem_cons_of_mem _ hr))
      rest
    exact ⟨⟨later.pairing, fun p hp => later.mono p (paired.mono p hp)⟩,
      .cons (later.mono _ hmem) all⟩

/-- Two inputs read the same slot of nodes that correspond. -/
def Reads (k : Correspondence) (a b : Output) : Prop := a.slot = b.slot ∧ (a.node, b.node) ∈ k.pairs

theorem Pairing.pairInputs {as bs : List Output} {port : Nat} (h : Pairing lhs rhs checked k)
    (length : as.length = bs.length) (has : ∀ a ∈ as, lhs.Visible a.node)
    (hbs : ∀ b ∈ bs, rhs.Visible b.node) (ok : k.pairInputs left right port as bs = .ok k') :
    Paired lhs rhs checked k k' ∧ List.Forall₂ k'.Reads as bs := by
  induction as generalizing bs k port with
  | nil =>
    obtain rfl : bs = [] := List.eq_nil_of_length_eq_zero length.symm
    obtain rfl := Except.ok.inj ok
    exact ⟨⟨h, fun _ => id⟩, .nil⟩
  | cons a as ih =>
    obtain ⟨b, bs, rfl⟩ := List.exists_cons_of_length_eq_add_one length.symm
    rw [Correspondence.pairInputs, check_eq_ok_iff, bind_eq_ok_iff] at ok
    obtain ⟨slot, k₁, first, rest⟩ := ok
    obtain ⟨paired, hmem⟩ := h.pair (has a List.mem_cons_self) (hbs b List.mem_cons_self) first
    obtain ⟨later, all⟩ := ih paired.pairing (Nat.succ.inj length)
      (fun a ha => has a (List.mem_cons_of_mem _ ha))
      (fun b hb => hbs b (List.mem_cons_of_mem _ hb))
      rest
    exact ⟨⟨later.pairing, fun p hp => later.mono p (paired.mono p hp)⟩,
      .cons ⟨not_not.1 slot, later.mono _ hmem⟩ all⟩

/-- The correspondence holds what the nodes of a pair read. -/
def Checks (c : Comparator) (lhs rhs : Graph) (k : Correspondence) (p : NodeId × NodeId) : Prop :=
  ∃ left right, lhs.node? p.1 = some left ∧ rhs.node? p.2 = some right ∧
    c.Alike lhs rhs p.1 p.2 left right ∧ List.Forall₂ k.Reads left.inputs right.inputs

theorem Checks.mono {c : Comparator} {p : NodeId × NodeId} (h : Checks c lhs rhs k p)
    (sub : ∀ p ∈ k.pairs, p ∈ k'.pairs) : Checks c lhs rhs k' p := by
  obtain ⟨left, right, hleft, hright, alike, reads⟩ := h
  exact ⟨left, right, hleft, hright, alike, reads.imp fun _ _ h => ⟨h.1, sub _ h.2⟩⟩

/-- A correspondence of which a part has been compared. -/
structure Sound (c : Comparator) (lhs rhs : Graph) (checked : List (NodeId × NodeId))
    (k : Correspondence) : Prop extends Pairing lhs rhs checked k where
  checks : ∀ p ∈ checked, Checks c lhs rhs k p

variable {c : Comparator}

/-- No more pairs can be compared than there are nodes on the left. -/
theorem Sound.length_checked_le (h : Sound c lhs rhs checked k) : checked.length ≤ lhs.size := by
  have mem {p : NodeId × NodeId} (hp : p ∈ checked) : p ∈ k.pairs := by
    rw [← List.mem_reverse, h.order]
    exact List.mem_append_left _ hp
  have nodup : (checked.map Prod.fst).Nodup := by
    have distinct : checked.Nodup := by
      have := h.order ▸ List.nodup_reverse.2 h.nodup
      exact (List.nodup_append.1 this).1
    apply distinct.map_on
    intro p hp q hq e
    exact Prod.ext e ((h.one_to_one p (mem hp) q (mem hq)).1 e)
  have live : ∀ id ∈ checked.map Prod.fst, id ∈ lhs.ids := by
    intro id hid
    obtain ⟨p, hp, rfl⟩ := List.mem_map.1 hid
    obtain ⟨left, _, hleft, _⟩ := h.checks p hp
    exact Graph.mem_ids.2 (Graph.contains_of_node? hleft)
  have := (List.subperm_of_subset nodup live).length_le
  simpa [Graph.ids, Graph.size] using this

/-- Comparing the first pair of the queue. -/
theorem Sound.step {queue : List (NodeId × NodeId)} (h : Sound c lhs rhs checked k)
    (first : k.queue = (l, r) :: queue) (hleft : lhs.node? l = some left)
    (hright : rhs.node? r = some right) (alike : c.Alike lhs rhs l r left right)
    (ok : ({ k with queue } : Correspondence).pairInputs left right 0 left.inputs right.inputs =
      .ok k') :
    Sound c lhs rhs (checked ++ [(l, r)]) k' ∧ ∀ p ∈ k.pairs, p ∈ k'.pairs := by
  have taken : Pairing lhs rhs (checked ++ [(l, r)]) { k with queue } :=
    ⟨h.one_to_one, h.nodup, by simp [h.order, first], h.visible⟩
  have hmem : (l, r) ∈ k.pairs := by
    rw [← List.mem_reverse, h.order, first]
    simp
  obtain ⟨visibleLeft, visibleRight⟩ := h.visible _ hmem
  obtain ⟨paired, reads⟩ := taken.pairInputs alike.inputCount (visibleLeft.inputs hleft)
    (visibleRight.inputs hright) ok
  refine ⟨⟨paired.pairing, ?_⟩, paired.mono⟩
  intro p hp
  rcases List.mem_append.1 hp with hp | hp
  · exact (h.checks p hp).mono paired.mono
  · obtain rfl := List.mem_singleton.1 hp
    exact ⟨left, right, hleft, hright, alike, reads⟩

/-- The walk ends with a correspondence that has been compared in full. -/
theorem Sound.walk {fuel : Nat} (h : Sound c lhs rhs checked k)
    (enough : lhs.size < checked.length + fuel) (ok : c.walk lhs rhs fuel k = .ok ()) :
    ∃ k', Sound c lhs rhs k'.pairs.reverse k' ∧ ∀ p ∈ k.pairs, p ∈ k'.pairs := by
  induction fuel generalizing checked k with
  | zero => exact absurd h.length_checked_le (by omega)
  | succ fuel ih =>
    simp only [Comparator.walk] at ok
    cases first : k.queue with
    | nil =>
      have all : k.pairs.reverse = checked := by simpa [first] using h.order
      exact ⟨k, all ▸ h, fun _ => id⟩
    | cons p queue =>
      obtain ⟨l, r⟩ := p
      simp only [first] at ok
      cases hleft : lhs.node? l with
      | none => simp [hleft, throw_eq_ok_iff] at ok
      | some left =>
        cases hright : rhs.node? r with
        | none => simp [hleft, hright, throw_eq_ok_iff] at ok
        | some right =>
          simp only [hleft, hright, bind_eq_ok_iff] at ok
          obtain ⟨_, nodes, k₁, inputs, rest⟩ := ok
          have alike := Comparator.compareNodes_eq_ok_iff.1 nodes
          obtain ⟨sound, mono⟩ := h.step first hleft hright alike inputs
          obtain ⟨k', done, more⟩ := ih sound (by simp; omega) rest
          exact ⟨k', done, fun p hp => more p (mono p hp)⟩

/-- The partner of a node on the left. -/
def partner (k : Correspondence) (l : NodeId) : NodeId :=
  ((k.pairs.find? (·.1 = l)).map Prod.snd).getD l

theorem Pairing.partner_eq (h : Pairing lhs rhs checked k) (hmem : (l, r) ∈ k.pairs) :
    k.partner l = r := by
  simp only [partner]
  cases hfind : k.pairs.find? (·.1 = l) with
  | none => exact absurd (List.find?_eq_none.1 hfind _ hmem) (by simp)
  | some p =>
    have hp := List.mem_of_find?_eq_some hfind
    have same : p.1 = l := by simpa using List.find?_some hfind
    exact (h.one_to_one p hp (l, r) hmem).1 same

section

variable (h : Sound c lhs rhs k.pairs.reverse k)
  (results : List.Forall₂ (fun l r => (l, r) ∈ k.pairs) lhs.results rhs.results)
  (parameters : List.Forall₂ (fun l r => (l, r) ∈ k.pairs) lhs.parameters rhs.parameters)

include h results parameters

/-- All that can be seen on the left has a partner, since the inputs of a pair have been paired. -/
theorem Sound.exists_right (visible : lhs.Visible l) : ∃ r, (l, r) ∈ k.pairs := by
  induction visible with
  | result hl =>
    obtain ⟨r, _, hmem⟩ := exists_of_forall₂ results hl
    exact ⟨r, hmem⟩
  | parameter hl =>
    obtain ⟨r, _, hmem⟩ := exists_of_forall₂ parameters hl
    exact ⟨r, hmem⟩
  | input _ hread ih =>
    obtain ⟨r, hmem⟩ := ih
    obtain ⟨left, _, hleft, _, _, reads⟩ := h.checks _ (List.mem_reverse.2 hmem)
    rw [Graph.input?_eq hleft] at hread
    obtain ⟨b, _, hread⟩ := exists_of_forall₂ reads (List.mem_of_getElem? hread)
    exact ⟨b.node, hread.2⟩

theorem Sound.exists_left (visible : rhs.Visible r) : ∃ l, (l, r) ∈ k.pairs := by
  induction visible with
  | result hr =>
    obtain ⟨l, _, hmem⟩ := exists_of_forall₂_right results hr
    exact ⟨l, hmem⟩
  | parameter hr =>
    obtain ⟨l, _, hmem⟩ := exists_of_forall₂_right parameters hr
    exact ⟨l, hmem⟩
  | input _ hread ih =>
    obtain ⟨l, hmem⟩ := ih
    obtain ⟨_, right, _, hright, _, reads⟩ := h.checks _ (List.mem_reverse.2 hmem)
    rw [Graph.input?_eq hright] at hread
    obtain ⟨a, _, hread⟩ := exists_of_forall₂_right reads (List.mem_of_getElem? hread)
    exact ⟨a.node, hread.2⟩

theorem Sound.bijOn_partner :
    Set.BijOn k.partner {id | lhs.Visible id} {id | rhs.Visible id} := by
  refine ⟨fun l hl => ?_, fun l hl l' hl' e => ?_, fun r hr => ?_⟩
  · obtain ⟨r, hmem⟩ := h.exists_right results parameters hl
    rw [Set.mem_ofPred_eq, h.partner_eq hmem]
    exact (h.visible _ hmem).2
  · obtain ⟨r, hmem⟩ := h.exists_right results parameters hl
    obtain ⟨r', hmem'⟩ := h.exists_right results parameters hl'
    rw [h.partner_eq hmem, h.partner_eq hmem'] at e
    exact (h.one_to_one _ hmem _ hmem').2 e
  · obtain ⟨l, hmem⟩ := h.exists_left results parameters hr
    exact ⟨l, (h.visible _ hmem).1, h.partner_eq hmem⟩

/-- A correspondence that has been compared in full and holds the results and parameters is an
isomorphism. -/
theorem Sound.isomorphism : c.Isomorphism lhs rhs k.partner where
  bijective := h.bijOn_partner results parameters
  results := map_eq_of_forall₂ results fun _ _ hmem => h.partner_eq hmem
  parameters := map_eq_of_forall₂ parameters fun _ _ hmem => h.partner_eq hmem
  nodes l hl := by
    obtain ⟨r, hmem⟩ := h.exists_right results parameters hl
    obtain ⟨left, right, hleft, hright, alike, reads⟩ := h.checks _ (List.mem_reverse.2 hmem)
    rw [h.partner_eq hmem]
    refine ⟨left, right, hleft, hright, alike, map_eq_of_forall₂ reads fun a b hab => ?_⟩
    rw [h.partner_eq hab.2, hab.1]

end

/-! ### Walks along an isomorphism -/

variable {φ : NodeId → NodeId}

/-- Every node of the correspondence is paired with its image. -/
def Follows (lhs : Graph) (φ : NodeId → NodeId) (k : Correspondence) : Prop :=
  (∀ p ∈ k.pairs, lhs.Visible p.1 ∧ p.2 = φ p.1) ∧ ∀ p ∈ k.queue, p ∈ k.pairs

theorem Follows.pair (h : Follows lhs φ k) (iso : c.Isomorphism lhs rhs φ) (hl : lhs.Visible l) :
    ∃ k', k.pair l (φ l) = .ok k' ∧ Follows lhs φ k' := by
  simp only [Correspondence.pair]
  cases forward : k.pairs.find? (·.1 = l) with
  | some p =>
    obtain ⟨l', r⟩ := p
    have hmem := List.mem_of_find?_eq_some forward
    obtain rfl : l' = l := by simpa using List.find?_some forward
    obtain rfl : r = φ l' := (h.1 _ hmem).2
    exact ⟨k, by simp, h⟩
  | none =>
    have newLeft : ∀ p ∈ k.pairs, p.1 ≠ l := by simpa using forward
    have backward : k.pairs.find? (·.2 = φ l) = none := by
      rw [List.find?_eq_none]
      intro p hp e
      obtain ⟨visible, image⟩ := h.1 p hp
      have e : p.2 = φ l := by simpa using e
      exact newLeft p hp (iso.bijective.injOn visible hl (image ▸ e))
    refine ⟨_, by rw [backward], ?_, ?_⟩
    · intro p hp
      rcases List.mem_cons.1 hp with rfl | hp
      · exact ⟨hl, rfl⟩
      · exact h.1 p hp
    · intro p hp
      rcases List.mem_append.1 hp with hp | hp
      · exact List.mem_cons_of_mem _ (h.2 p hp)
      · exact List.mem_singleton.1 hp ▸ List.mem_cons_self

theorem Follows.pairAll {ls : List NodeId} (h : Follows lhs φ k) (iso : c.Isomorphism lhs rhs φ)
    (hls : ∀ l ∈ ls, lhs.Visible l) :
    ∃ k', k.pairAll ls (ls.map φ) = .ok k' ∧ Follows lhs φ k' := by
  induction ls generalizing k with
  | nil => exact ⟨k, rfl, h⟩
  | cons l ls ih =>
    obtain ⟨k₁, first, h₁⟩ := h.pair iso (hls l List.mem_cons_self)
    obtain ⟨k', rest, h'⟩ := ih h₁ fun l hl => hls l (List.mem_cons_of_mem _ hl)
    exact ⟨k', bind_eq_ok_iff.2 ⟨k₁, first, rest⟩, h'⟩

theorem Follows.pairInputs {as : List Output} {port : Nat} (h : Follows lhs φ k)
    (iso : c.Isomorphism lhs rhs φ) (has : ∀ a ∈ as, lhs.Visible a.node) :
    ∃ k', k.pairInputs left right port as (as.map fun o => ⟨φ o.node, o.slot⟩) = .ok k' ∧
      Follows lhs φ k' := by
  induction as generalizing k port with
  | nil => exact ⟨k, rfl, h⟩
  | cons a as ih =>
    obtain ⟨k₁, first, h₁⟩ := h.pair iso (has a List.mem_cons_self)
    have later : ∀ a ∈ as, lhs.Visible a.node := fun a ha => has a (List.mem_cons_of_mem _ ha)
    obtain ⟨k', rest, h'⟩ : ∃ k', k₁.pairInputs left right (port + 1) as _ = .ok k' ∧ _ :=
      ih h₁ later
    refine ⟨k', ?_, h'⟩
    rw [List.map_cons, Correspondence.pairInputs, check_eq_ok_iff, bind_eq_ok_iff]
    exact ⟨not_not.2 rfl, k₁, first, rest⟩

/-- Along an isomorphism there is no discrepancy. -/
theorem Follows.walk {fuel : Nat} (h : Follows lhs φ k) (iso : c.Isomorphism lhs rhs φ) :
    c.walk lhs rhs fuel k = .ok () := by
  induction fuel generalizing k with
  | zero => rfl
  | succ fuel ih =>
    simp only [Comparator.walk]
    cases first : k.queue with
    | nil => rfl
    | cons p queue =>
      have hmem : p ∈ k.pairs := h.2 p (first ▸ List.mem_cons_self)
      obtain ⟨l, r⟩ := p
      obtain ⟨visible, image⟩ := h.1 _ hmem
      obtain rfl : r = φ l := image
      obtain ⟨left, right, hleft, hright, alike, inputs⟩ := iso.nodes l visible
      have taken : Follows lhs φ { k with queue } :=
        ⟨h.1, fun p hp => h.2 p (first ▸ List.mem_cons_of_mem _ hp)⟩
      obtain ⟨k', ok, h'⟩ : ∃ k', ({ k with queue } : Correspondence).pairInputs left right 0
          left.inputs _ = .ok k' ∧ _ := taken.pairInputs iso (visible.inputs hleft)
      rw [inputs] at ok
      simp only [hleft, hright]
      exact bind_eq_ok_iff.2 ⟨(), Comparator.compareNodes_eq_ok_iff.2 alike,
        bind_eq_ok_iff.2 ⟨k', ok, ih h'⟩⟩

end Correspondence

/-- The comparison finds no discrepancy exactly if there is an isomorphism of what can be seen of
the graphs. -/
theorem Comparator.compare_eq_ok_iff {c : Comparator} {lhs rhs : Graph} :
    c.compare lhs rhs = .ok () ↔ ∃ φ, c.Isomorphism lhs rhs φ := by
  simp only [Comparator.compare]
  simp only [check_eq_ok_iff, bind_eq_ok_iff, ne_eq, not_not]
  constructor
  · rintro ⟨results, parameters, k₁, first, k₂, second, ok⟩
    obtain ⟨paired₁, all₁⟩ := (Correspondence.pairing_empty lhs rhs).pairAll results
      (fun _ => .result) (fun _ => .result) first
    obtain ⟨paired₂, all₂⟩ := paired₁.pairing.pairAll parameters (fun _ => .parameter)
      (fun _ => .parameter) second
    have sound : Correspondence.Sound c lhs rhs [] k₂ := ⟨paired₂.pairing, by simp⟩
    obtain ⟨k, done, mono⟩ := sound.walk (by simp) ok
    exact ⟨k.partner, done.isomorphism (all₁.imp fun _ _ h => mono _ (paired₂.mono _ h))
      (all₂.imp fun _ _ h => mono _ h)⟩
  · rintro ⟨φ, iso⟩
    have empty : Correspondence.Follows lhs φ {} := ⟨by simp, by simp⟩
    obtain ⟨k₁, first, h₁⟩ := empty.pairAll iso fun _ => .result
    obtain ⟨k₂, second, h₂⟩ := h₁.pairAll iso fun _ => .parameter
    rw [iso.results] at first
    rw [iso.parameters] at second
    refine ⟨?_, ?_, k₁, first, k₂, second, h₂.walk iso⟩
    · rw [← iso.results, List.length_map]
    · rw [← iso.parameters, List.length_map]

end TensorGraph
