import Mathlib.Data.List.Forall2

/-!
# Lists

What lists related place by place have in common.
-/

namespace TensorGraph

variable {α β : Type} {R : α → β → Prop} {as : List α} {bs : List β}

theorem exists_of_forall₂ (h : List.Forall₂ R as bs) {a : α} (ha : a ∈ as) : ∃ b ∈ bs, R a b := by
  induction h with
  | nil => cases ha
  | cons first _ ih =>
    rcases List.mem_cons.1 ha with rfl | ha
    · exact ⟨_, List.mem_cons_self, first⟩
    · obtain ⟨b, hb, hab⟩ := ih ha
      exact ⟨b, List.mem_cons_of_mem _ hb, hab⟩

theorem exists_of_forall₂_right (h : List.Forall₂ R as bs) {b : β} (hb : b ∈ bs) :
    ∃ a ∈ as, R a b :=
  exists_of_forall₂ (R := flip R) (List.Forall₂.flip h) hb

theorem exists_getElem?_of_forall₂ (h : List.Forall₂ R as bs) {i : Nat} {a : α}
    (ha : as[i]? = some a) : ∃ b, bs[i]? = some b ∧ R a b := by
  obtain ⟨hi, rfl⟩ := List.getElem?_eq_some_iff.1 ha
  have hi' : i < bs.length := h.length_eq ▸ hi
  exact ⟨bs[i], List.getElem?_eq_getElem hi', h.get hi hi'⟩

theorem map_eq_of_forall₂ {f : α → β} (h : List.Forall₂ R as bs) (single : ∀ a b, R a b → f a = b) :
    as.map f = bs := by
  induction h with
  | nil => rfl
  | cons first _ ih => rw [List.map_cons, single _ _ first, ih]

/-- Lists of the same length are related to a third one through lists that they are related to. -/
theorem forall₂_zip_iff {γ α' β' : Type} {S : α → α' → Prop} {T : β → β' → Prop}
    {Q : α' → β' → γ → Prop} {cs : List γ} (same : as.length = bs.length) :
    List.Forall₂ (fun ab c => ∃ a' b', S ab.1 a' ∧ T ab.2 b' ∧ Q a' b' c) (as.zip bs) cs ↔
      ∃ as' bs', List.Forall₂ S as as' ∧ List.Forall₂ T bs bs' ∧
        List.Forall₂ (fun ab c => Q ab.1 ab.2 c) (as'.zip bs') cs := by
  induction as generalizing bs cs with
  | nil =>
    obtain rfl : bs = [] := List.eq_nil_of_length_eq_zero same.symm
    simp
  | cons a as ih =>
    obtain ⟨b, bs, rfl⟩ := List.exists_cons_of_length_eq_add_one same.symm
    simp only [List.zip_cons_cons, List.forall₂_cons_left_iff, ih (Nat.succ.inj same)]
    constructor
    · rintro ⟨c, cs, ⟨a', b', ha, hb, here⟩, ⟨as', bs', has, hbs, later⟩, rfl⟩
      exact ⟨_, _, ⟨a', as', ha, has, rfl⟩, ⟨b', bs', hb, hbs, rfl⟩, .cons here later⟩
    · rintro ⟨_, _, ⟨a', as', ha, has, rfl⟩, ⟨b', bs', hb, hbs, rfl⟩, related⟩
      obtain ⟨c, cs, here, later, rfl⟩ := List.forall₂_cons_left_iff.1 related
      exact ⟨c, cs, ⟨a', b', ha, hb, here⟩, ⟨as', bs', has, hbs, later⟩, rfl⟩

/-- What stands before an element that is there once has a lower position. -/
theorem idxOf_lt_idxOf_of_mem [BEq α] [LawfulBEq α] {before after : List α} {a b : α}
    (nodup : (before ++ a :: after).Nodup) (h : b ∈ before) :
    (before ++ a :: after).idxOf b < (before ++ a :: after).idxOf a := by
  have once : a ∉ before := by
    intro ha
    exact (List.nodup_append.1 nodup).2.2 a ha a List.mem_cons_self rfl
  rw [List.idxOf_append_of_mem h, List.idxOf_append_of_notMem once, List.idxOf_cons_self]
  exact Nat.lt_of_lt_of_le (List.idxOf_lt_length_of_mem h) (Nat.le_add_right ..)

/-- What is found for every element stands in the order of the elements. -/
theorem map_some_filterMap {g : α → Option β} {l : List α}
    (h : ∀ x ∈ l, ∃ y, g x = some y) : (l.filterMap g).map some = l.map g := by
  induction l with
  | nil => rfl
  | cons x l ih =>
    obtain ⟨first, later⟩ := List.forall_mem_cons.1 h
    obtain ⟨y, hy⟩ := first
    rw [List.filterMap_cons_some hy, List.map_cons, List.map_cons, ih later, hy]

theorem length_filterMap {g : α → Option β} {l : List α}
    (h : ∀ x ∈ l, ∃ y, g x = some y) : (l.filterMap g).length = l.length := by
  simpa using congrArg List.length (map_some_filterMap h)

/-- Elements of two kinds that exclude each other are counted one kind after the other. -/
theorem countP_or_eq_add {p q : α → Bool} {l : List α} (h : ∀ a ∈ l, p a → q a = false) :
    l.countP (fun a => p a || q a) = l.countP p + l.countP q := by
  induction l with
  | nil => rfl
  | cons a rest ih =>
    obtain ⟨first, later⟩ := List.forall_mem_cons.1 h
    simp only [List.countP_cons, ih later]
    cases hp : p a with
    | false =>
      simp only [Bool.false_or, Bool.false_eq_true, if_false]
      omega
    | true =>
      simp only [Bool.true_or, first hp, if_true, Bool.false_eq_true, if_false]
      omega

end TensorGraph
