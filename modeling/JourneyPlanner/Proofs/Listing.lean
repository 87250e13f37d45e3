import JourneyPlanner.Search.Ranking

/-!
The order of answers. Itineraries are listed by numbers, the first difference of which
decides: one for each criterion of the policy and one for what breaks ties. Sorting is
stable, so that leaving out itineraries before or after it makes no difference.
-/

namespace JourneyPlanner

namespace Ordered

variable {α : Type} {before : α → α → Bool}

/-- Neither comes before the other one. -/
def alike (before : α → α → Bool) (a b : α) : Bool :=
  !before a b && !before b a

section Stable

variable (asymm : ∀ a b, before a b = true → before b a = false)
  (trans : ∀ a b c, before b a = false → before c b = false → before c a = false)
  {tied : α → Bool} (htied : ∀ a b, tied a = true → tied b = true → before a b = false)

include trans htied in
/-- Merging keeps the order of elements of which none comes before another one. -/
theorem filter_mergeOnto (fuel : Nat) (acc xs ys : List α) (hx : InOrder before xs) :
    (mergeOnto before fuel acc xs ys).filter tied = (acc.reverse ++ (xs ++ ys)).filter tied := by
  fun_induction mergeOnto before fuel acc xs ys with
  | case1 fuel acc x xs y ys h ih =>
      rw [ih hx]
      by_cases hy : tied y = true
      · -- nothing like `y` comes after the element that `y` comes before
        have hnone : (x :: xs).filter tied = [] := by
          rw [List.filter_eq_nil_iff]
          intro z hz hz'
          have hxz : before z x = false := by
            rcases List.mem_cons.mp hz with rfl | hz
            · exact htied _ _ hz' hz'
            · exact (List.pairwise_cons.mp hx).1 z hz
          have hyx := trans x z y hxz (htied y z hy hz')
          rw [hyx] at h
          exact absurd h Bool.false_ne_true
        simp only [List.reverse_cons, List.filter_append, hnone, List.nil_append,
          List.append_assoc, List.filter_cons_of_pos hy, List.singleton_append]
      · simp only [List.reverse_cons, List.filter_append, List.filter_cons_of_neg hy,
          List.filter_nil, List.append_nil]
  | case2 fuel acc x xs y ys h ih =>
      rw [ih (List.pairwise_cons.mp hx).2]
      simp only [List.reverse_cons, List.append_assoc, List.cons_append, List.nil_append]
  | case3 => rfl

include trans htied in
theorem filter_mergePairs (rs : List (List α)) (h : ∀ r ∈ rs, InOrder before r) :
    (mergePairs before rs).flatten.filter tied = rs.flatten.filter tied := by
  fun_induction mergePairs before rs with
  | case1 r s rs ih =>
      have hrest := ih fun t ht => h t (List.mem_cons_of_mem _ (List.mem_cons_of_mem _ ht))
      have hmerge := filter_mergeOnto trans htied (r.length + s.length) [] r s
        (h r (List.mem_cons_self ..))
      simp only [List.flatten_cons, List.filter_append, hrest, merge, hmerge, List.reverse_nil,
        List.nil_append, List.append_assoc]
  | case2 => rfl

include asymm trans htied in
theorem filter_mergeAll (fuel : Nat) (rs : List (List α)) (h : ∀ r ∈ rs, InOrder before r) :
    (mergeAll before fuel rs).filter tied = rs.flatten.filter tied := by
  fun_induction mergeAll before fuel rs with
  | case1 fuel r s rs ih =>
      rw [ih (inOrder_mergePairs asymm trans _ h), filter_mergePairs trans htied _ h]
  | case2 => rfl

include asymm trans htied in
/-- Sorting keeps the order of elements of which none comes before another one. -/
theorem filter_sort_of_tied (xs : List α) :
    (sort before xs).filter tied = xs.filter tied := by
  have hruns : ∀ r ∈ runs before xs, InOrder before r := by
    induction xs with
    | nil => simp [runs]
    | cons x xs ih => exact inOrder_addToRuns trans x _ ih
  rw [sort, filter_mergeAll asymm trans htied _ _ hruns, flatten_runs]

/-- Lists in order with the same elements are equal, if those alike stand in the same order
in both. -/
theorem eq_of_inOrder {xs ys : List α} (hperm : xs.Perm ys) (hx : InOrder before xs)
    (hy : InOrder before ys) (refl : ∀ a, before a a = false)
    (halike : ∀ a, xs.filter (alike before a) = ys.filter (alike before a)) : xs = ys := by
  induction xs generalizing ys with
  | nil => exact hperm.nil_eq
  | cons x xs ih =>
      cases ys with
      | nil => exact absurd hperm List.not_perm_cons_nil
      | cons y ys =>
          have hfirst : ∀ {a b : α} {as : List α}, InOrder before (a :: as) → b ∈ a :: as →
              before b a = false := by
            intro a b as has hb
            rcases List.mem_cons.mp hb with rfl | hb
            · exact refl _
            · exact (List.pairwise_cons.mp has).1 b hb
          have hyx := hfirst hx (hperm.mem_iff.mpr (List.mem_cons_self ..))
          have hxy := hfirst hy (hperm.mem_iff.mp (List.mem_cons_self ..))
          have hheads := halike x
          rw [List.filter_cons_of_pos (by simp [alike, refl]),
            List.filter_cons_of_pos (by simp [alike, hyx, hxy]), List.cons.injEq] at hheads
          obtain ⟨rfl, -⟩ := hheads
          refine congrArg (x :: ·) (ih hperm.cons_inv (List.pairwise_cons.mp hx).2
            (List.pairwise_cons.mp hy).2 fun a => ?_)
          have htails := halike a
          by_cases ha : alike before a x = true
          · rw [List.filter_cons_of_pos ha, List.filter_cons_of_pos ha, List.cons.injEq] at htails
            exact htails.2
          · rwa [List.filter_cons_of_neg ha, List.filter_cons_of_neg ha] at htails

include asymm trans in
/-- Elements can be replaced before or after sorting, if they compare alike. -/
theorem sort_map {β : Type} {before' : β → β → Bool}
    (asymm' : ∀ a b, before' a b = true → before' b a = false)
    (trans' : ∀ a b c, before' b a = false → before' c b = false → before' c a = false)
    {f : α → β} (hf : ∀ a b, before' (f a) (f b) = before a b) (xs : List α) :
    sort before' (xs.map f) = (sort before xs).map f := by
  have refl' : ∀ a, before' a a = false := by
    intro a
    cases h : before' a a with
    | false => rfl
    | true => exact h ▸ asymm' a a h
  have htied : ∀ a b c, alike before' a b = true → alike before' a c = true →
      before' b c = false := by
    intro a b c hb hc
    simp only [alike, Bool.and_eq_true, Bool.not_eq_true'] at hb hc
    exact trans' c a b hc.1 hb.2
  refine eq_of_inOrder ?_ (inOrder_sort asymm' trans' _) ?_ refl' fun a => ?_
  · exact (sort_perm before' _).trans ((sort_perm before xs).map f).symm
  · exact List.pairwise_map.mpr ((inOrder_sort asymm trans xs).imp fun h => (hf _ _).trans h)
  · have hsort : (sort before xs).filter (alike before' a ∘ f) = xs.filter (alike before' a ∘ f) :=
      filter_sort_of_tied asymm trans (fun b c hb hc => (hf b c).symm.trans (htied a _ _ hb hc)) xs
    rw [filter_sort_of_tied asymm' trans' (htied a), List.filter_map, List.filter_map, hsort]

include asymm trans in
/-- Elements can be left out before or after sorting. -/
theorem filter_sort (keep : α → Bool) (xs : List α) :
    (sort before xs).filter keep = sort before (xs.filter keep) := by
  have refl : ∀ a, before a a = false := by
    intro a
    cases h : before a a with
    | false => rfl
    | true => exact h ▸ asymm a a h
  refine eq_of_inOrder ?_ ((inOrder_sort asymm trans xs).filter keep) (inOrder_sort asymm trans _)
    refl fun a => ?_
  · exact ((sort_perm before xs).filter keep).trans (sort_perm before _).symm
  · have htied : ∀ b c, alike before a b = true → alike before a c = true → before b c = false := by
      intro b c hb hc
      simp only [alike, Bool.and_eq_true, Bool.not_eq_true'] at hb hc
      exact trans c a b hc.1 hb.2
    have hcomm : ∀ zs : List α, (zs.filter keep).filter (alike before a)
        = (zs.filter (alike before a)).filter keep := by
      intro zs
      simp only [List.filter_filter, Bool.and_comm]
    rw [filter_sort_of_tied asymm trans htied, hcomm, hcomm,
      filter_sort_of_tied asymm trans htied]

end Stable

end Ordered

namespace Ranking

/-- What itineraries are listed by, the smallest number first. -/
def keyOf (d : Direction) (it : Itinerary) : Criterion → Int
  | .arrivalTime =>
    match d with
    | .forward => it.arrivalTime
    | .reverse => -it.departureTime
  | .transfers => it.transfers
  | .cost => it.generalizedCost

/-- Who departs last, or in reverse arrives first, comes first. -/
def lastKey (d : Direction) (it : Itinerary) : Int :=
  match d with
  | .forward => -it.departureTime
  | .reverse => it.arrivalTime

def keysFor (d : Direction) (it : Itinerary) (criteria : List Criterion) : List Int :=
  criteria.map (keyOf d it) ++ [lastKey d it]

/-- The numbers by which an itinerary is listed. -/
def keys (d : Direction) (p : DominancePolicy) (it : Itinerary) : List Int :=
  keysFor d it p.criteria

theorem compare_natCast (m n : Nat) : compare (m : Int) (n : Int) = compare m n := by
  simp only [compare, compareOfLessAndEq, Int.ofNat_lt, Int.ofNat_inj]

theorem compare_neg (m n : Int) : compare (-m) (-n) = compare n m := by
  simp only [compare, compareOfLessAndEq, Int.neg_lt_neg_iff, Int.neg_inj, eq_comm (a := m)]

theorem compareOn_eq (d : Direction) (c : Criterion) (a b : Itinerary) :
    compareOn d c a b = compare (keyOf d a c) (keyOf d b c) := by
  cases c with
  | arrivalTime =>
      cases d with
      | forward => rfl
      | reverse => exact (compare_neg ..).symm
  | transfers => exact (compare_natCast ..).symm
  | cost => exact (compare_natCast ..).symm

theorem compareLast_eq (d : Direction) (a b : Itinerary) :
    compareLast d a b = compare (lastKey d a) (lastKey d b) := by
  cases d with
  | forward => exact (compare_neg ..).symm
  | reverse => rfl

theorem compareAll_eq_lt (d : Direction) (a b : Itinerary) (criteria : List Criterion) :
    compareAll d a b criteria = .lt ↔ keysFor d a criteria < keysFor d b criteria := by
  induction criteria with
  | nil =>
      rw [compareAll, compareLast_eq, Int.compare_eq_lt]
      simp [keysFor, List.cons_lt_cons_iff]
  | cons c cs ih =>
      rw [compareAll, Ordering.then_eq_lt, compareOn_eq, Int.compare_eq_lt, Int.compare_eq_eq, ih]
      simp only [keysFor, List.map_cons, List.cons_append, List.cons_lt_cons_iff]

variable {d : Direction} {p : DominancePolicy} {its : List Itinerary}

theorem before_eq_true {a b : Itinerary} : before d p a b = true ↔ keys d p a < keys d p b := by
  rw [before, beq_iff_eq, compareAll_eq_lt]
  rfl

theorem before_asymm (a b : Itinerary) (h : before d p a b = true) : before d p b a = false := by
  rw [← Bool.not_eq_true]
  rw [before_eq_true] at h ⊢
  exact List.lt_asymm h

theorem before_trans (a b c : Itinerary) (hab : before d p b a = false)
    (hbc : before d p c b = false) : before d p c a = false := by
  rw [← Bool.not_eq_true, before_eq_true] at hab hbc ⊢
  exact fun h => (List.le_trans hab hbc) h

/-- No itinerary is listed after one with greater numbers. -/
theorem rank_sorted (d : Direction) (p : DominancePolicy) (its : List Itinerary) :
    (rank d p its).Pairwise fun a b => ¬ keys d p b < keys d p a :=
  (Ordered.inOrder_sort before_asymm before_trans its).imp fun h => by
    rwa [← before_eq_true, Bool.not_eq_true]

theorem rank_perm (d : Direction) (p : DominancePolicy) (its : List Itinerary) :
    (rank d p its).Perm its :=
  Ordered.sort_perm _ _

/-- Itineraries can be left out before or after they are listed. -/
theorem rank_filter (keep : Itinerary → Bool) :
    (rank d p its).filter keep = rank d p (its.filter keep) :=
  Ordered.filter_sort before_asymm before_trans keep its

/-- Itineraries can be replaced before or after they are listed, if they compare alike. -/
theorem rank_map {f : Itinerary → Itinerary} (hf : ∀ a b, before d p (f a) (f b) = before d p a b) :
    rank d p (its.map f) = (rank d p its).map f :=
  Ordered.sort_map before_asymm before_trans before_asymm before_trans hf its

end Ranking

end JourneyPlanner
