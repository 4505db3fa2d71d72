import TensorGraph.Proofs.Lists

/-!
# Computations that may fail

When a computation of `Except` built from others succeeds.
-/

namespace TensorGraph

variable {ε ε' α β : Type} {a : α} {b : β} {x : Except ε α}

theorem bind_eq_ok_iff {f : α → Except ε β} :
    (x >>= f) = .ok b ↔ ∃ a, x = .ok a ∧ f a = .ok b := by
  cases x <;> simp [bind, Except.bind]

theorem pure_eq_ok_iff {a' : α} : (pure a : Except ε α) = .ok a' ↔ a = a' :=
  ⟨Except.ok.inj, congrArg _⟩

theorem throw_eq_ok_iff {e : ε} : (throw e : Except ε α) = .ok a ↔ False := by
  simp [throw, throwThe, MonadExceptOf.throw]

/-- A check before the rest of a computation. -/
theorem check_eq_ok_iff {p : Prop} [Decidable p] {e : ε} {f : β → Except ε α} :
    (if p then throw e >>= f else x) = .ok a ↔ ¬p ∧ x = .ok a := by
  split
  · next h => simp [bind_eq_ok_iff, throw_eq_ok_iff, h]
  · next h => simp [h]

@[simp] theorem mapError_ok {f : ε → ε'} : (Except.ok a : Except ε α).mapError f = .ok a :=
  rfl

@[simp] theorem mapError_error {e : ε} {f : ε → ε'} :
    (Except.error e : Except ε α).mapError f = .error (f e) :=
  rfl

theorem mapError_eq_ok_iff {f : ε → ε'} : x.mapError f = .ok a ↔ x = .ok a := by
  cases x <;> simp

instance decidableForallOk {P : α → Prop} [DecidablePred P] :
    (x : Except ε α) → Decidable (∀ a, x = .ok a → P a)
  | .ok a => decidable_of_iff (P a) ⟨fun h _ same => Except.ok.inj same ▸ h, fun h => h a rfl⟩
  | .error _ => isTrue nofun

/-- Computations with the same results agree but for why they fail. -/
theorem toOption_eq_of_forall {y : Except ε α} (h : ∀ a, x = .ok a ↔ y = .ok a) :
    x.toOption = y.toOption := by
  cases x with
  | ok a => rw [(h a).1 rfl]
  | error e =>
    cases y with
    | ok a => cases (h a).2 rfl
    | error e' => rfl

theorem forall₂_of_mapM_eq_ok {f : α → Except ε β} {xs : List α} {ys : List β}
    (h : xs.mapM f = .ok ys) : List.Forall₂ (fun x y => f x = .ok y) xs ys := by
  induction xs generalizing ys with
  | nil =>
    obtain rfl := Except.ok.inj h
    exact .nil
  | cons x xs ih =>
    rw [List.mapM_cons] at h
    obtain ⟨y, first, h⟩ := bind_eq_ok_iff.1 h
    obtain ⟨ys, rest, h⟩ := bind_eq_ok_iff.1 h
    obtain rfl := Except.ok.inj h
    exact .cons first (ih rest)

/-- Either a computation succeeds on all elements of a list, or it fails on the list as it does on
one of them. -/
theorem mapM_cases (f : α → Except ε β) (xs : List α) :
    (∃ ys, xs.mapM f = .ok ys) ∨ ∃ x ∈ xs, ∃ e, f x = .error e ∧ xs.mapM f = .error e := by
  induction xs with
  | nil => exact .inl ⟨[], rfl⟩
  | cons x xs ih =>
    rw [List.mapM_cons]
    cases first : f x with
    | error e => exact .inr ⟨x, List.mem_cons_self, e, first, rfl⟩
    | ok y =>
      rcases ih with ⟨ys, rest⟩ | ⟨x', hx', e, he, rest⟩
      · exact .inl ⟨y :: ys, by rw [rest]; rfl⟩
      · exact .inr ⟨x', List.mem_cons_of_mem _ hx', e, he, by rw [rest]; rfl⟩

end TensorGraph
