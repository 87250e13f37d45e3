import JourneyPlanner.Proofs.Reaching
import Mathlib.Data.List.Induction
import Mathlib.Data.List.Pairwise

/-!
What is left of some elements when they are added one by one to an empty front. An element
survives unless one before it dominates it or one after it is strictly better, whatever has
become of these: transitivity puts a survivor in the place of whoever had to leave. The
survivors do not depend on the order of the additions but for the choice between ties.
-/

namespace JourneyPlanner
namespace Pareto

variable {α : Type} {dominates : α → α → Bool} {front earlier later vs : List α} {x y z : α}

/-- Nothing earlier dominates the element, and what dominates it later is only as good. -/
def Survives (dominates : α → α → Bool) (earlier : List α) (x : α) (later : List α) : Prop :=
  (∀ y ∈ earlier, dominates y x = false) ∧
    ∀ y ∈ later, dominates y x = true → dominates x y = true

instance (earlier : List α) (x : α) (later : List α) :
    Decidable (Survives dominates earlier x later) :=
  inferInstanceAs (Decidable (_ ∧ _))

/-- The elements that survive among all the others, in their order. -/
def survivors (dominates : α → α → Bool) (vs : List α) : List α :=
  (vs.zipIdx.filter fun v => Survives dominates (vs.take v.2) v.1 (vs.drop (v.2 + 1))).map (·.1)

/-- The front that is left when all elements have been added. -/
def frontOf (dominates : α → α → Bool) (vs : List α) : List α :=
  vs.foldl (insert dominates) []

/-- What a true report says of an element that is added after some others: the first survivor
that dominates it, or the survivors that must leave because of it. -/
inductive IsReport (dominates : α → α → Bool) (earlier : List α) (x : α) : Addition α → Prop
  | rejected {better others : List α} {rival : α}
      (hfront : survivors dominates earlier = better ++ rival :: others)
      (hrival : dominates rival x = true) (hfirst : ∀ y ∈ better, dominates y x = false) :
      IsReport dominates earlier x (.rejected rival)
  | accepted {dropped : List α} (hnone : ∀ y ∈ earlier, dominates y x = false)
      (hdropped : dropped = (survivors dominates earlier).filter fun y => dominates x y)
      (hgone : ∀ y, y ∈ dropped ↔
        y ∈ survivors dominates earlier ∧ y ∉ survivors dominates (earlier ++ [x])) :
      IsReport dominates earlier x (.accepted (survivors dominates (earlier ++ [x])) dropped)

/-- A front that tells what has become of all the elements added to it. -/
structure Settles (dominates : α → α → Bool) (vs front : List α) : Prop where
  survivors : front = survivors dominates vs
  covered : ∀ x ∈ vs, ∃ y ∈ front, dominates y x = true
  reports : ∀ earlier x later, vs = earlier ++ x :: later →
    IsReport dominates earlier x (add dominates (frontOf dominates earlier) x)
  anyOrder : ∀ ws, ws.Perm vs → ∀ x ∈ front,
    ∃! y, y ∈ frontOf dominates ws ∧ dominates x y = true ∧ dominates y x = true

theorem survives_append_singleton :
    Survives dominates earlier x (later ++ [z]) ↔
      Survives dominates earlier x later ∧ (dominates z x = true → dominates x z = true) := by
  simp only [Survives, List.forall_mem_append, List.forall_mem_singleton, and_assoc]

/-- One more element at the end survives unless it is dominated, and takes away those that it
is strictly better than. -/
theorem survivors_append_singleton (vs : List α) (z : α) :
    survivors dominates (vs ++ [z]) =
      (survivors dominates vs).filter (fun x => !dominates z x || dominates x z) ++
        if ∀ y ∈ vs, dominates y z = false then [z] else [] := by
  have hold : ∀ v ∈ vs.zipIdx,
      decide (Survives dominates ((vs ++ [z]).take v.2) v.1 ((vs ++ [z]).drop (v.2 + 1)))
        = ((!dominates z v.1 || dominates v.1 z)
          && decide (Survives dominates (vs.take v.2) v.1 (vs.drop (v.2 + 1)))) := by
    intro v hv
    have hlt : v.2 < vs.length := (List.mem_zipIdx' hv).1
    rw [List.take_append_of_le_length (Nat.le_of_lt hlt), List.drop_append_of_le_length hlt,
      Bool.eq_iff_iff, Bool.and_eq_true, decide_eq_true_eq, decide_eq_true_eq,
      survives_append_singleton]
    cases dominates z v.1 <;> simp [and_comm]
  have hlast : Survives dominates ((vs ++ [z]).take vs.length) z ((vs ++ [z]).drop (vs.length + 1))
      ↔ ∀ y ∈ vs, dominates y z = false := by
    simp [Survives]
  unfold survivors
  rw [List.zipIdx_append, List.filter_append, List.map_append, List.filter_congr hold,
    ← List.filter_filter, List.filter_map]
  refine congrArg _ ?_
  rw [List.zipIdx_singleton, Nat.zero_add]
  by_cases h : ∀ y ∈ vs, dominates y z = false
  · rw [if_pos h, List.filter_cons_of_pos (by simpa using hlast.mpr h)]
    rfl
  · rw [if_neg h, List.filter_cons_of_neg (by simpa using mt hlast.mp h)]
    rfl

theorem frontOf_append_singleton (vs : List α) (z : α) :
    frontOf dominates (vs ++ [z]) = insert dominates (frontOf dominates vs) z := by
  simp [frontOf]

theorem isFront_frontOf (vs : List α) : IsFront dominates (frontOf dominates vs) :=
  List.foldlRecOn vs (insert dominates) (motive := IsFront dominates) List.Pairwise.nil
    fun _ hfront x _ => isFront_insert hfront x

theorem mem_of_mem_frontOf (h : x ∈ frontOf dominates vs) : x ∈ vs := by
  induction vs using List.reverseRecOn with
  | nil => exact h
  | append_singleton vs z ih =>
      rw [frontOf_append_singleton] at h
      rcases mem_of_mem_insert h with rfl | h
      · exact List.mem_append_right _ (List.mem_singleton_self _)
      · exact List.mem_append_left _ (ih h)

/-- In a front only ties are the same element. -/
theorem IsFront.eq_of_dominates (h : IsFront dominates front) (hx : x ∈ front) (hy : y ∈ front)
    (hdominates : dominates x y = true) : x = y := by
  by_contra hne
  have : Std.Symm fun x y : α => dominates x y = false ∧ dominates y x = false :=
    ⟨fun _ _ hxy => hxy.symm⟩
  have hnot := (h.forall hx hy hne).1
  rw [hdominates] at hnot
  exact Bool.noConfusion hnot

section Preorder

variable (refl : ∀ x, dominates x x = true)
  (trans : ∀ x y z, dominates x y = true → dominates y z = true → dominates x z = true)

include refl in
/-- Whatever was in a front or is added to it is dominated afterwards. -/
theorem exists_insert_dominates (hy : y ∈ front ∨ y = x) :
    ∃ w ∈ insert dominates front x, dominates w y = true := by
  cases hr : rival? dominates front x with
  | some rival =>
      rw [insert_of_rival hr]
      rcases hy with hy | rfl
      · exact ⟨y, hy, refl y⟩
      · exact ⟨rival, List.mem_of_find?_eq_some hr,
          List.find?_some (p := fun z => dominates z y) hr⟩
  | none =>
      rw [insert_of_none hr]
      have hnew : x ∈ front.filter (fun y => !dominates x y) ++ [x] :=
        List.mem_append_right _ (List.mem_singleton_self x)
      rcases hy with hy | rfl
      · by_cases hworse : dominates x y = true
        · exact ⟨x, hnew, hworse⟩
        · have hkept : y ∈ front.filter fun y => !dominates x y :=
            List.mem_filter.mpr ⟨hy, by simpa using hworse⟩
          exact ⟨y, List.mem_append_left _ hkept, refl y⟩
      · exact ⟨y, hnew, refl y⟩

include refl trans in
/-- Every element added is dominated by one that is left. -/
theorem exists_frontOf_dominates (hx : x ∈ vs) :
    ∃ y ∈ frontOf dominates vs, dominates y x = true := by
  induction vs using List.reverseRecOn generalizing x with
  | nil => simp at hx
  | append_singleton vs z ih =>
      rw [frontOf_append_singleton]
      rcases List.mem_append.mp hx with hx | hx
      · obtain ⟨y, hy, hdominates⟩ := ih hx
        obtain ⟨w, hw, hover⟩ := exists_insert_dominates refl (x := z) (Or.inl hy)
        exact ⟨w, hw, trans _ _ _ hover hdominates⟩
      · exact exists_insert_dominates refl (Or.inr (List.mem_singleton.mp hx))

include refl trans in
/-- What has no rival in the front is dominated by nothing that was added, be it gone or not. -/
theorem not_dominated_of_rival? (h : rival? dominates (frontOf dominates vs) x = none) :
    ∀ y ∈ vs, dominates y x = false := by
  intro y hy
  obtain ⟨w, hw, hover⟩ := exists_frontOf_dominates refl trans hy
  rw [← Bool.not_eq_true]
  exact fun hdominates => List.find?_eq_none.mp h w hw (trans _ _ _ hover hdominates)

include refl trans in
/-- The front is made of the survivors. -/
theorem frontOf_eq_survivors (vs : List α) : frontOf dominates vs = survivors dominates vs := by
  induction vs using List.reverseRecOn with
  | nil => rfl
  | append_singleton vs z ih =>
      rw [frontOf_append_singleton, survivors_append_singleton, ← ih]
      cases hr : rival? dominates (frontOf dominates vs) z with
      | some rival =>
          have hrival := List.mem_of_find?_eq_some hr
          have hover : dominates rival z = true := List.find?_some (p := fun y => dominates y z) hr
          have hnot : ¬∀ y ∈ vs, dominates y z = false := fun h => by
            simpa [hover] using h rival (mem_of_mem_frontOf hrival)
          rw [insert_of_rival hr, if_neg hnot, List.append_nil, eq_comm, List.filter_eq_self]
          intro x hx
          cases hworse : dominates z x with
          | false => rfl
          | true =>
              -- the rival is the only one in the front that it dominates
              have hbetter := trans _ _ _ hover hworse
              obtain rfl := (isFront_frontOf vs).eq_of_dominates hrival hx hbetter
              simpa using hover
      | none =>
          have hnone := not_dominated_of_rival? refl trans hr
          rw [insert_of_none hr, if_pos hnone]
          refine congrArg (· ++ [z]) (List.filter_congr fun x hx => ?_)
          simp [hnone x (mem_of_mem_frontOf hx)]

include refl trans in
/-- What a front reports of an addition is true of everything that was added before. -/
theorem isReport_add (earlier : List α) (x : α) :
    IsReport dominates earlier x (add dominates (frontOf dominates earlier) x) := by
  have hfront := frontOf_eq_survivors refl trans earlier
  cases hr : rival? dominates (frontOf dominates earlier) x with
  | some rival =>
      have hadd : add dominates (frontOf dominates earlier) x = .rejected rival := by simp [add, hr]
      obtain ⟨hover, better, others, hsplit, hbetter⟩ := List.find?_eq_some_iff_append.mp hr
      rw [hadd]
      exact .rejected (hfront ▸ hsplit) hover fun y hy => by simpa using hbetter y hy
  | none =>
      have hnone := not_dominated_of_rival? refl trans hr
      have hnew : survivors dominates (earlier ++ [x])
          = (survivors dominates earlier).filter (fun y => !dominates x y) ++ [x] := by
        rw [← hfront, ← frontOf_eq_survivors refl trans, frontOf_append_singleton,
          insert_of_none hr]
      have hadd : add dominates (frontOf dominates earlier) x = .accepted
          (survivors dominates (earlier ++ [x]))
          ((survivors dominates earlier).filter fun y => dominates x y) := by
        rw [add, hr, hnew, hfront]
      rw [hadd]
      refine .accepted hnone rfl fun y => ?_
      rw [hnew, List.mem_filter]
      refine and_congr_right fun hy => ?_
      have hne : y ≠ x := by
        rintro rfl
        have hself := hnone y (mem_of_mem_frontOf (hfront ▸ hy))
        rw [refl] at hself
        exact Bool.noConfusion hself
      simp [hy, hne]

include refl trans in
/-- In another order the same elements leave the same ones, each up to a tie. -/
theorem existsUnique_tie {ws : List α} (hperm : ws.Perm vs) (hx : x ∈ frontOf dominates vs) :
    ∃! y, y ∈ frontOf dominates ws ∧ dominates x y = true ∧ dominates y x = true := by
  obtain ⟨y, hy, hyx⟩ :=
    exists_frontOf_dominates refl trans (hperm.mem_iff.mpr (mem_of_mem_frontOf hx))
  obtain ⟨w, hw, hwy⟩ :=
    exists_frontOf_dominates refl trans (hperm.mem_iff.mp (mem_of_mem_frontOf hy))
  obtain rfl := (isFront_frontOf vs).eq_of_dominates hw hx (trans _ _ _ hwy hyx)
  refine ⟨y, ⟨hy, hwy, hyx⟩, fun z hz => ?_⟩
  exact (isFront_frontOf ws).eq_of_dominates hz.1 hy (trans _ _ _ hz.2.2 hwy)

end Preorder

/-- Adding elements one by one leaves the survivors among them, every report on the way is true,
and another order would leave the same elements up to ties. -/
theorem settles_frontOf (refl : ∀ x, dominates x x = true)
    (trans : ∀ x y z, dominates x y = true → dominates y z = true → dominates x z = true)
    (vs : List α) : Settles dominates vs (frontOf dominates vs) where
  survivors := frontOf_eq_survivors refl trans vs
  covered _ hx := exists_frontOf_dominates refl trans hx
  reports earlier x _ _ := isReport_add refl trans earlier x
  anyOrder _ hperm _ hx := existsUnique_tie refl trans hperm hx

/-- Journeys on time and rounds: the second one ties with the first one, the fourth one is better
than both, the last one is worse. -/
theorem settles_merits :
    let dominates := Merits.dominates { direction := .forward, boardSlack := 0 } { cost := false }
    (∀ m, dominates m m = true) ∧
      (∀ m m' m'', dominates m m' = true → dominates m' m'' = true → dominates m m'' = true) ∧
      Settles dominates
        [⟨0, 300, 1, 7⟩, ⟨0, 300, 1, 5⟩, ⟨0, 100, 5, 9⟩, ⟨0, 200, 1, 8⟩, ⟨0, 250, 3, 1⟩]
        [⟨0, 100, 5, 9⟩, ⟨0, 200, 1, 8⟩] :=
  ⟨Merits.dominates_refl _ _, fun _ _ _ => Merits.dominates_trans,
    settles_frontOf (Merits.dominates_refl _ _) (fun _ _ _ => Merits.dominates_trans) _⟩

end Pareto
end JourneyPlanner
