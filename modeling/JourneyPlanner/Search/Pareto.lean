/-!
Sets in which no element dominates another, kept in the order of insertion.
`dominates a b` means that `a` is at least as good as `b` on every criterion, so
equals dominate each other and the element that came first stays.
-/

namespace JourneyPlanner.Pareto

variable {α : Type}

inductive Addition (α : Type) where
  /-- The new set and the elements that had to leave it. -/
  | accepted (front dropped : List α)
  /-- An element of the set that dominates the new one. -/
  | rejected (rival : α)

def rival? (dominates : α → α → Bool) (front : List α) (x : α) : Option α :=
  front.find? fun y => dominates y x

def add (dominates : α → α → Bool) (front : List α) (x : α) : Addition α :=
  match rival? dominates front x with
  | some rival => .rejected rival
  | none =>
    .accepted (front.filter (fun y => !dominates x y) ++ [x]) (front.filter fun y => dominates x y)

/-- The set after an addition. -/
def insert (dominates : α → α → Bool) (front : List α) (x : α) : List α :=
  match add dominates front x with
  | .rejected _ => front
  | .accepted front _ => front

/-- No element dominates another one. -/
def IsFront (dominates : α → α → Bool) (xs : List α) : Prop :=
  xs.Pairwise fun x y => dominates x y = false ∧ dominates y x = false

theorem insert_of_rival {dominates : α → α → Bool} {front : List α} {x rival : α}
    (h : rival? dominates front x = some rival) : insert dominates front x = front := by
  simp [insert, add, h]

theorem insert_of_none {dominates : α → α → Bool} {front : List α} {x : α}
    (h : rival? dominates front x = none) :
    insert dominates front x = front.filter (fun y => !dominates x y) ++ [x] := by
  simp [insert, add, h]

theorem mem_of_mem_insert {dominates : α → α → Bool} {front : List α} {x y : α}
    (h : y ∈ insert dominates front x) : y = x ∨ y ∈ front := by
  cases hr : rival? dominates front x with
  | some rival =>
      rw [insert_of_rival hr] at h
      exact Or.inr h
  | none =>
      rw [insert_of_none hr, List.mem_append, List.mem_singleton, List.mem_filter] at h
      rcases h with h | h
      · exact Or.inr h.1
      · exact Or.inl h

theorem isFront_insert {dominates : α → α → Bool} {front : List α} (h : IsFront dominates front)
    (x : α) : IsFront dominates (insert dominates front x) := by
  cases hr : rival? dominates front x with
  | some rival => rwa [insert_of_rival hr]
  | none =>
      rw [insert_of_none hr]
      refine List.pairwise_append.2 ⟨h.filter _, List.pairwise_singleton _ _, ?_⟩
      intro y hy z hz
      obtain ⟨hmem, hnot⟩ := List.mem_filter.1 hy
      have hz : z = x := List.mem_singleton.1 hz
      subst hz
      have hrival : dominates y z = false := by
        simpa using List.find?_eq_none.1 hr y hmem
      exact ⟨hrival, by simpa using hnot⟩

end JourneyPlanner.Pareto
