/-!
Stable sorting by a strict comparison: stretches that are in order already are
merged, so that equal elements keep the order in which they were given. The
result has the same elements, and none comes strictly before its predecessor.
-/

namespace JourneyPlanner.Ordered

variable {α : Type}

/-- Puts `x` in front of the first element that does not come strictly before it. -/
def insert (before : α → α → Bool) (x : α) : List α → List α
  | [] => [x]
  | y :: ys => if before y x then y :: insert before x ys else x :: y :: ys

/-- Merges two lists behind those elements that are merged already, the last of
them first. -/
def mergeOnto (before : α → α → Bool) : Nat → List α → List α → List α → List α
  | fuel + 1, acc, x :: xs, y :: ys =>
    if before y x then mergeOnto before fuel (y :: acc) (x :: xs) ys
    else mergeOnto before fuel (x :: acc) xs (y :: ys)
  | _, acc, xs, ys => acc.reverse ++ (xs ++ ys)

/-- Of equal elements those of the first list come first. -/
def merge (before : α → α → Bool) (xs ys : List α) : List α :=
  mergeOnto before (xs.length + ys.length) [] xs ys

/-- Puts `x` in front of the first stretch, or on its own if it has to come later. -/
def addToRuns (before : α → α → Bool) (x : α) : List (List α) → List (List α)
  | (y :: ys) :: runs => if before y x then [x] :: (y :: ys) :: runs else (x :: y :: ys) :: runs
  | runs => [x] :: runs

/-- The longest stretches that are in order. -/
def runs (before : α → α → Bool) (xs : List α) : List (List α) :=
  xs.foldr (addToRuns before) []

/-- Merges every second stretch with the one behind it. -/
def mergePairs (before : α → α → Bool) : List (List α) → List (List α)
  | r :: s :: rs => merge before r s :: mergePairs before rs
  | rs => rs

/-- Merges pairs until one stretch is left. -/
def mergeAll (before : α → α → Bool) : Nat → List (List α) → List α
  | fuel + 1, r :: s :: rs => mergeAll before fuel (mergePairs before (r :: s :: rs))
  | _, rs => rs.flatten

def sort (before : α → α → Bool) (xs : List α) : List α :=
  let rs := runs before xs
  mergeAll before rs.length rs

/-- Ascending numbers, each listed once. -/
def ascending (xs : List Nat) : List Nat :=
  xs.foldl (fun acc x =>
    if acc.contains x then acc else insert (fun a b => decide (a < b)) x acc) []

/-- How many elements are unlike their predecessor. -/
def numChanges [DecidableEq α] : List α → Nat
  | [] => 0
  | x :: xs => (xs.foldl (fun (n, y) z => if y = z then (n, z) else (n + 1, z)) (1, x)).1

/-- How many different texts there are. -/
def numDistinct (xs : List String) : Nat :=
  numChanges (sort (fun a b => decide (a < b)) xs)

theorem mem_insert (before : α → α → Bool) (x y : α) (xs : List α) :
    y ∈ insert before x xs ↔ y = x ∨ y ∈ xs := by
  induction xs with
  | nil => simp [insert]
  | cons z zs ih =>
      simp only [insert]
      split <;> simp [ih, or_left_comm]

theorem mergeOnto_perm (before : α → α → Bool) (fuel : Nat) (acc xs ys : List α) :
    (mergeOnto before fuel acc xs ys).Perm (acc ++ (xs ++ ys)) := by
  fun_induction mergeOnto before fuel acc xs ys with
  | case1 fuel acc x xs y ys _ ih =>
      refine ih.trans ?_
      rw [List.cons_append, ← List.append_assoc acc, ← List.append_assoc acc]
      exact List.perm_middle.symm
  | case2 fuel acc x xs y ys _ ih =>
      exact ih.trans List.perm_middle.symm
  | case3 => exact (List.reverse_perm _).append_right _

theorem merge_perm (before : α → α → Bool) (xs ys : List α) :
    (merge before xs ys).Perm (xs ++ ys) :=
  mergeOnto_perm before _ [] xs ys

theorem flatten_addToRuns (before : α → α → Bool) (x : α) (rs : List (List α)) :
    (addToRuns before x rs).flatten = x :: rs.flatten := by
  fun_cases addToRuns before x rs <;> simp

theorem flatten_runs (before : α → α → Bool) (xs : List α) : (runs before xs).flatten = xs := by
  induction xs with
  | nil => rfl
  | cons x xs ih => exact (flatten_addToRuns before x _).trans (congrArg _ ih)

theorem flatten_mergePairs_perm (before : α → α → Bool) (rs : List (List α)) :
    (mergePairs before rs).flatten.Perm rs.flatten := by
  fun_induction mergePairs before rs with
  | case1 r s rs ih =>
      simpa using (merge_perm before r s).append ih
  | case2 => exact List.Perm.refl _

theorem length_mergePairs_le (before : α → α → Bool) (rs : List (List α)) :
    (mergePairs before rs).length ≤ rs.length := by
  fun_induction mergePairs before rs with
  | case1 r s rs ih => simp only [List.length_cons]; omega
  | case2 => exact Nat.le_refl _

theorem mergeAll_perm (before : α → α → Bool) (fuel : Nat) (rs : List (List α)) :
    (mergeAll before fuel rs).Perm rs.flatten := by
  fun_induction mergeAll before fuel rs with
  | case1 fuel r s rs ih => exact ih.trans (flatten_mergePairs_perm before _)
  | case2 => exact List.Perm.refl _

theorem sort_perm (before : α → α → Bool) (xs : List α) : (sort before xs).Perm xs := by
  have h := mergeAll_perm before (runs before xs).length (runs before xs)
  rwa [flatten_runs] at h

theorem mem_sort (before : α → α → Bool) (y : α) (xs : List α) :
    y ∈ sort before xs ↔ y ∈ xs :=
  (sort_perm before xs).mem_iff

section Sorted

variable {before : α → α → Bool}

/-- No element comes strictly before an earlier one. -/
abbrev InOrder (before : α → α → Bool) (xs : List α) : Prop :=
  xs.Pairwise fun a b => before b a = false

variable (asymm : ∀ a b, before a b = true → before b a = false)
  (trans : ∀ a b c, before b a = false → before c b = false → before c a = false)

include asymm trans in
theorem inOrder_mergeOnto (fuel : Nat) (acc xs ys : List α)
    (enough : xs.length + ys.length ≤ fuel)
    (hx : InOrder before (acc.reverse ++ xs)) (hy : InOrder before (acc.reverse ++ ys)) :
    InOrder before (mergeOnto before fuel acc xs ys) := by
  fun_induction mergeOnto before fuel acc xs ys with
  | case1 fuel acc x xs y ys h ih =>
      have hyx := asymm y x h
      refine ih (by simp_all; omega) ?_ (by simpa using hy)
      simp only [InOrder, List.reverse_cons, List.append_assoc, List.singleton_append,
        List.pairwise_append, List.pairwise_cons, List.mem_cons] at hx hy ⊢
      refine ⟨hx.1, ⟨?_, hx.2.1⟩, ?_⟩
      · rintro z (rfl | hz)
        · exact hyx
        · exact trans y x z hyx (hx.2.1.1 z hz)
      · rintro a ha z (rfl | hz)
        · exact hy.2.2 a ha z (Or.inl rfl)
        · exact hx.2.2 a ha z hz
  | case2 fuel acc x xs y ys h ih =>
      have hxy : before y x = false := by simpa using h
      refine ih (by simp_all; omega) (by simpa using hx) ?_
      simp only [InOrder, List.reverse_cons, List.append_assoc, List.singleton_append,
        List.pairwise_append, List.pairwise_cons, List.mem_cons] at hx hy ⊢
      refine ⟨hy.1, ⟨?_, hy.2.1⟩, ?_⟩
      · rintro z (rfl | hz)
        · exact hxy
        · exact trans x y z hxy (hy.2.1.1 z hz)
      · rintro a ha z (rfl | hz)
        · exact hx.2.2 a ha z (Or.inl rfl)
        · exact hy.2.2 a ha z hz
  | case3 fuel acc xs ys h =>
      cases xs with
      | nil => simpa using hy
      | cons x xs =>
        cases ys with
        | nil => simpa using hx
        | cons y ys =>
          cases fuel with
          | zero => simp at enough
          | succ fuel => exact absurd rfl (h fuel x xs y ys rfl rfl)

include trans in
theorem inOrder_addToRuns (x : α) (rs : List (List α)) (h : ∀ r ∈ rs, InOrder before r) :
    ∀ r ∈ addToRuns before x rs, InOrder before r := by
  fun_cases addToRuns before x rs with
  | case1 y ys rs _ => simpa using h
  | case2 y ys rs hyx =>
      simp only [Bool.not_eq_true] at hyx
      simp only [List.mem_cons, forall_eq_or_imp, InOrder, List.pairwise_cons] at h ⊢
      exact ⟨⟨⟨hyx, fun z hz => trans x y z hyx (h.1.1 z hz)⟩, h.1⟩, h.2⟩
  | case3 rs => simpa using h

include asymm trans in
theorem inOrder_mergePairs (rs : List (List α)) (h : ∀ r ∈ rs, InOrder before r) :
    ∀ r ∈ mergePairs before rs, InOrder before r := by
  fun_induction mergePairs before rs with
  | case1 r s rs ih =>
      simp only [List.mem_cons, forall_eq_or_imp] at h ⊢
      exact ⟨inOrder_mergeOnto asymm trans _ [] r s (Nat.le_refl _) h.1 h.2.1, ih h.2.2⟩
  | case2 => exact h

include asymm trans in
theorem inOrder_mergeAll (fuel : Nat) (rs : List (List α)) (enough : rs.length ≤ fuel)
    (h : ∀ r ∈ rs, InOrder before r) : InOrder before (mergeAll before fuel rs) := by
  fun_induction mergeAll before fuel rs with
  | case1 fuel r s rs ih =>
      refine ih ?_ (inOrder_mergePairs asymm trans _ h)
      have := length_mergePairs_le before rs
      simp only [mergePairs, List.length_cons] at enough ⊢
      omega
  | case2 fuel rs hne =>
      match rs, fuel with
      | [], _ => simp [InOrder]
      | [r], _ => simpa using h
      | _ :: _ :: _, 0 => simp at enough
      | r :: s :: rs, fuel + 1 => exact absurd rfl (hne fuel r s rs rfl)

include asymm trans in
/-- The result is in order, for a comparison of a strict weak order. -/
theorem inOrder_sort (xs : List α) : InOrder before (sort before xs) := by
  refine inOrder_mergeAll asymm trans _ _ (Nat.le_refl _) ?_
  induction xs with
  | nil => simp [runs]
  | cons x xs ih => exact inOrder_addToRuns trans x _ ih

end Sorted

section Ascending

theorem pairwise_insert {x : Nat} {xs : List Nat} (hx : x ∉ xs) (h : xs.Pairwise (· < ·)) :
    (insert (fun a b => decide (a < b)) x xs).Pairwise (· < ·) := by
  induction xs with
  | nil => simp [insert]
  | cons y ys ih =>
      simp only [List.pairwise_cons, List.mem_cons, not_or] at h hx
      simp only [insert]
      split
      case isTrue hyx =>
        refine List.pairwise_cons.mpr ⟨fun z hz => ?_, ih hx.2 h.2⟩
        rcases (mem_insert _ x z ys).mp hz with rfl | hz
        · simpa using hyx
        · exact h.1 z hz
      case isFalse hyx =>
        have hxy : x < y := by
          simp only [decide_eq_true_eq, Nat.not_lt] at hyx
          omega
        refine List.pairwise_cons.mpr ⟨fun z hz => ?_, List.pairwise_cons.mpr h⟩
        rcases List.mem_cons.mp hz with rfl | hz
        · exact hxy
        · exact Nat.lt_trans hxy (h.1 z hz)

theorem ascending_aux (xs acc : List Nat) (h : acc.Pairwise (· < ·)) :
    let ys := xs.foldl (fun acc x =>
      if acc.contains x then acc else insert (fun a b => decide (a < b)) x acc) acc
    ys.Pairwise (· < ·) ∧ ∀ y, y ∈ ys ↔ y ∈ acc ∨ y ∈ xs := by
  induction xs generalizing acc with
  | nil => simpa using h
  | cons x xs ih =>
      rw [List.foldl_cons]
      split
      case isTrue hx =>
        obtain ⟨hpair, hmem⟩ := ih acc h
        refine ⟨hpair, fun y => ?_⟩
        rw [hmem, List.mem_cons]
        have hx : x ∈ acc := by simpa using hx
        constructor
        · rintro (hy | hy)
          · exact Or.inl hy
          · exact Or.inr (Or.inr hy)
        · rintro (hy | rfl | hy)
          · exact Or.inl hy
          · exact Or.inl hx
          · exact Or.inr hy
      case isFalse hx =>
        have hx : x ∉ acc := by simpa using hx
        obtain ⟨hpair, hmem⟩ := ih _ (pairwise_insert hx h)
        refine ⟨hpair, fun y => ?_⟩
        rw [hmem, mem_insert, List.mem_cons, or_assoc, or_left_comm]

theorem pairwise_ascending (xs : List Nat) : (ascending xs).Pairwise (· < ·) :=
  (ascending_aux xs [] List.Pairwise.nil).1

theorem mem_ascending {y : Nat} {xs : List Nat} : y ∈ ascending xs ↔ y ∈ xs :=
  ((ascending_aux xs [] List.Pairwise.nil).2 y).trans (by simp)

end Ascending

end JourneyPlanner.Ordered
