/-!
# Arenas

An arena keeps elements in numbered places. An element that is taken out leaves its place vacant,
and the next element goes to the place that became vacant last, or to a fresh one if none is
vacant. `Arena.get?` is the view through which the lemmas describe every change.
-/

namespace TensorGraph

/-- Elements in numbered places, some of which may be vacant. -/
structure Arena (α : Type) where
  /-- The places. -/
  places : Array (Option α) := #[]
  /-- The vacant places; the first one is taken next. -/
  vacant : List Nat := []
  /-- A place is vacant once only. -/
  nodup_vacant : vacant.Nodup := by simp
  /-- The vacant places are the ones that hold nothing. -/
  mem_vacant : ∀ i, i ∈ vacant ↔ places[i]? = some none := by simp
deriving DecidableEq

namespace Arena

variable {α : Type}

/-- The arena without places. -/
def empty : Arena α := {}

/-- The element in a place. -/
def get? (a : Arena α) (i : Nat) : Option α := a.places[i]?.join

/-- The place that the next element goes to. -/
def next (a : Arena α) : Nat := a.vacant.headD a.places.size

/-- The number of places, taken or vacant. -/
def capacity (a : Arena α) : Nat := a.places.size

/-- The places that hold an element, in order, with their elements. -/
def toList (a : Arena α) : List (Nat × α) :=
  (List.range a.capacity).filterMap fun i => (a.get? i).map (i, ·)

theorem get?_eq_some_iff {a : Arena α} {i : Nat} {x : α} :
    a.get? i = some x ↔ a.places[i]? = some (some x) := by
  simp [get?, Option.join_eq_some_iff]

theorem lt_capacity {a : Arena α} {i : Nat} {x : α} (h : a.get? i = some x) : i < a.capacity :=
  (Array.getElem?_eq_some_iff.1 (get?_eq_some_iff.1 h)).1

theorem mem_vacant_iff {a : Arena α} {i : Nat} :
    i ∈ a.vacant ↔ a.get? i = none ∧ i < a.capacity := by
  rw [a.mem_vacant, get?, capacity]
  cases h : a.places[i]? with
  | none => simp [Array.getElem?_eq_none_iff.1 h]
  | some place =>
    have hi : i < a.places.size := (Array.getElem?_eq_some_iff.1 h).1
    simp [hi]

/-- The next place holds nothing yet. -/
theorem get?_next (a : Arena α) : a.get? a.next = none := by
  cases h : a.vacant with
  | nil => simp [next, h, get?]
  | cons i rest =>
    have hi : i ∈ a.vacant := by simp [h]
    simp [next, h, (mem_vacant_iff.1 hi).1]

theorem mem_toList {a : Arena α} {i : Nat} {x : α} : (i, x) ∈ a.toList ↔ a.get? i = some x := by
  simp only [toList, List.mem_filterMap, List.mem_range, Option.map_eq_some_iff, Prod.mk.injEq]
  constructor
  · rintro ⟨j, _, y, hy, rfl, rfl⟩
    exact hy
  · intro h
    exact ⟨i, lt_capacity h, x, h, rfl, rfl⟩

/-- The places of the list are in ascending order. -/
theorem pairwise_toList (a : Arena α) : a.toList.Pairwise fun p q => p.1 < q.1 := by
  refine List.Pairwise.filterMap _ ?_ List.pairwise_lt_range
  intro i j hij p hp q hq
  simp only [Option.map_eq_some_iff] at hp hq
  obtain ⟨_, _, rfl⟩ := hp
  obtain ⟨_, _, rfl⟩ := hq
  exact hij

/-! ### Changes -/

/-- The arena with an element in its next place. -/
def insert (a : Arena α) (x : α) : Arena α :=
  match h : a.vacant with
  | [] =>
    { places := a.places.push (some x)
      mem_vacant := by
        intro i
        have hi := a.mem_vacant i
        rw [Array.getElem?_push]
        split <;> simp_all }
  | first :: rest =>
    { places := a.places.setIfInBounds first (some x)
      vacant := rest
      nodup_vacant := (List.nodup_cons.1 (h ▸ a.nodup_vacant)).2
      mem_vacant := by
        intro i
        have hfirst := (List.nodup_cons.1 (h ▸ a.nodup_vacant)).1
        have hi := a.mem_vacant i
        rw [Array.getElem?_setIfInBounds]
        by_cases e : first = i
        · subst e
          simp only [hfirst, if_true]
          split <;> simp
        · rw [if_neg e, ← hi, h]
          simp [Ne.symm e] }

/-- The arena without the element of a place. -/
def remove (a : Arena α) (i : Nat) : Arena α :=
  if h : (a.get? i).isSome then
    { places := a.places.setIfInBounds i none
      vacant := i :: a.vacant
      nodup_vacant := by
        refine List.nodup_cons.2 ⟨fun hi => ?_, a.nodup_vacant⟩
        rw [(mem_vacant_iff.1 hi).1] at h
        simp at h
      mem_vacant := by
        intro j
        obtain ⟨x, hx⟩ := Option.isSome_iff_exists.1 h
        have hi : i < a.places.size := lt_capacity hx
        rw [Array.getElem?_setIfInBounds, List.mem_cons, a.mem_vacant]
        by_cases e : i = j
        · subst e
          simp [hi]
        · simp [e, Ne.symm e] }
  else a

/-- The arena with every element changed by a function that sees its place. -/
def mapIdx (a : Arena α) (f : Nat → α → α) : Arena α where
  places := a.places.mapIdx fun i => Option.map (f i)
  vacant := a.vacant
  nodup_vacant := a.nodup_vacant
  mem_vacant := by
    intro i
    rw [a.mem_vacant, Array.getElem?_mapIdx]
    cases a.places[i]? <;> simp

/-- The arena with the element of a place changed. -/
def modify (a : Arena α) (i : Nat) (f : α → α) : Arena α :=
  a.mapIdx fun j x => if j = i then f x else x

@[simp] theorem get?_empty (i : Nat) : (empty : Arena α).get? i = none := by
  simp [get?, empty]

theorem get?_insert (a : Arena α) (x : α) (i : Nat) :
    (a.insert x).get? i = if i = a.next then some x else a.get? i := by
  unfold insert
  split
  · next h =>
    simp only [get?, next, h, List.headD_nil, Array.getElem?_push]
    split <;> simp
  · next first rest h =>
    have hfirst : first < a.places.size := (mem_vacant_iff.1 (show first ∈ a.vacant by simp [h])).2
    simp only [get?, next, h, List.headD_cons, Array.getElem?_setIfInBounds]
    by_cases e : first = i
    · subst e
      simp [hfirst]
    · simp [e, Ne.symm e]

theorem get?_remove (a : Arena α) (i j : Nat) :
    (a.remove i).get? j = if j = i then none else a.get? j := by
  unfold remove
  split
  · simp only [get?, Array.getElem?_setIfInBounds]
    by_cases e : i = j
    · subst e
      simp only [if_true]
      split <;> rfl
    · simp [e, Ne.symm e]
  · next h =>
    split
    · next e =>
      subst e
      simpa using h
    · rfl

@[simp] theorem get?_mapIdx (a : Arena α) (f : Nat → α → α) (i : Nat) :
    (a.mapIdx f).get? i = (a.get? i).map (f i) := by
  simp only [get?, mapIdx, Array.getElem?_mapIdx]
  cases a.places[i]? with
  | none => rfl
  | some place => cases place <;> rfl

theorem get?_modify (a : Arena α) (i j : Nat) (f : α → α) :
    (a.modify i f).get? j = if j = i then (a.get? j).map f else a.get? j := by
  simp only [modify, get?_mapIdx]
  split <;> simp

end Arena

end TensorGraph
