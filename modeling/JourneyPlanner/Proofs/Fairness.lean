import JourneyPlanner.Proofs.Coverage

/-!
Arrivals from which nothing better can come than a journey already known. Whatever
goes on from such an arrival is of the same kind, and no journey along it is accepted.
A search is fair if they never stand in the way of an arrival that could still lead to
something better.
-/

namespace JourneyPlanner

theorem Cost.le_plus {a b : Cost} (h : a ≤ Json.greatestWord) : a ≤ Cost.plus a b :=
  Nat.le_min.mpr ⟨Nat.le_add_right a b, h⟩

namespace CostRates

theorem walking_le (r : CostRates) (duration : Time) : r.walking duration ≤ Json.greatestWord :=
  Nat.min_le_right _ _

theorem walking_le_walking (r : CostRates) {d e : Time} (h : d ≤ e) :
    r.walking d ≤ r.walking e := by
  have hseconds : seconds d ≤ seconds e := Int.toNat_le_toNat h
  have hproduct : r.walk * seconds d ≤ r.walk * seconds e := Nat.mul_le_mul_left _ hseconds
  exact Nat.le_min.mpr ⟨Nat.le_trans (Nat.min_le_left _ _) hproduct, Nat.min_le_right _ _⟩

end CostRates

namespace Search

variable {s : Search} {times : List Time} {w : Way}

/-- The second arrival is no better than the first one in anything that is compared. -/
structure Onward (s : Search) (a b : StopArrival) : Prop where
  originTime : b.originTime = a.originTime
  time : s.heading.betterOrEqual a.time b.time = true
  round : a.round ≤ b.round
  cost : a.cost ≤ b.cost

theorem Onward.bound (hx : s.heading.IsExact) {a b : StopArrival} (h : s.Onward a b) :
    Merits.dominates s.heading s.policy (s.bound a) (s.bound b) = true := by
  have htime := Heading.advance_better hx h.time (Int.le_refl s.leastDuration)
  have hcost := Cost.plus_le_plus h.cost (Nat.le_refl (s.rates.walking s.leastDuration))
  simp only [Merits.dominates, Search.bound, h.originTime, htime, h.round, hcost,
    Heading.betterOrEqual_refl, decide_true, Bool.or_true, Bool.and_self]

/-- No journey along an arrival is better than its bound. -/
theorem bound_journeyFrom (hx : s.heading.IsExact) {a : StopArrival} {d : Time}
    (hd : d ∈ s.targetDurations a.stop) :
    Merits.dominates s.heading s.policy (s.bound a) (s.journeyFrom 0 a d).merits = true := by
  have hleast := leastDuration_le hd
  have htime := Heading.advance_better hx (s.heading.betterOrEqual_refl a.time) hleast
  have hcost := Cost.plus_le_plus (Nat.le_refl a.cost) (s.rates.walking_le_walking hleast)
  simp only [Merits.dominates, Search.bound, journeyFrom, htime, hcost, Nat.le_refl,
    Heading.betterOrEqual_refl, decide_true, Bool.or_true, Bool.and_self]

end Search

namespace Way.Traced

variable {s : Search} {times : List Time} {w : Way}

theorem cost_le (h : w.Traced s times) : w.arrival.cost ≤ Json.greatestWord := by
  cases h with
  | begin iteration hleg htime => exact s.rates.walking_le _
  | ride hw hb hstop horder hleft =>
      obtain ⟨_, _, _, hr⟩ := Search.rides_of_left? hb hleft
      exact hr.cost ▸ Nat.min_le_right _ _
  | walk hw hride hk => exact Nat.min_le_right _ _

/-- Only where a search begins the origin may still be left later. -/
theorem originTimeOf_eq (h : w.Traced s times) (hround : 0 < w.arrival.round) (time : Time) :
    s.originTimeOf w.arrival time = w.arrival.originTime := by
  cases h with
  | begin iteration hleg htime => simp [Search.originArrival] at hround
  | ride hw hb hstop horder hleft =>
      obtain ⟨_, _, _, hr⟩ := Search.rides_of_left? hb hleft
      simp only [Way.extend, StopArrival.unlinked, Search.originTimeOf, hr.kind]
  | walk hw hride hk => rfl

theorem onward_ride (hs : s.WellTimed) (h : w.Traced s times) (hround : 0 < w.arrival.round)
    {v : PatternView} {b : Search.Boarding} {position stop iteration : Nat} {a : StopArrival}
    (hb : s.Catches v w b) (hstop : v.stops[position]? = some stop)
    (horder : s.heading.Precedes b.position position)
    (hleft : s.left? v (w.arrival.round + 1) position stop iteration b = some a) :
    s.Onward w.arrival a := by
  obtain ⟨haround, rfl, -, -⟩ := Search.left?_round hleft
  obtain ⟨d, boardCall, call, hr⟩ := Search.rides_of_left? hb hleft
  refine ⟨hr.originTime.trans (h.originTimeOf_eq hround _), ?_, by omega, ?_⟩
  · rw [hr.time]
    exact (hr.goes hb hstop horder).later hs hr.inTime
  · rw [hr.cost]
    exact Nat.le_trans (Cost.le_plus h.cost_le) (Cost.le_plus (Nat.min_le_right _ _))

theorem onward_walk (hs : s.WellTimed) (h : w.Traced s times) {k : Transfer}
    (hk : k ∈ s.heading.walks s.timetable w.arrival.stop) :
    s.Onward w.arrival (s.walkArrival 0 w.arrival k) where
  originTime := rfl
  time := Heading.le_advance hs.exact (hs.walks _ k hk).2
  round := Nat.le_refl _
  cost := Cost.le_plus h.cost_le

end Way.Traced

namespace Search

/-- A journey that was accepted dominates the best that can come of an arrival. -/
def isBeaten (s : Search) (log : List Remark) (a : StopArrival) : Bool :=
  decide (0 < a.round) && log.any fun
    | .journey m => Merits.dominates s.heading s.policy m (s.bound a)
    | .contest _ _ => false

/-- A beaten arrival rejects and drops only arrivals that are beaten too. -/
def Allows (s : Search) (log : List Remark) : Remark → Prop
  | .contest winner loser => s.isBeaten log winner = true → s.isBeaten log loser = true
  | .journey _ => True

/-- Every decision was allowed by what was reported before it. -/
def IsFair (s : Search) (log : List Remark) : Prop :=
  ∀ i, (h : i < log.length) → s.Allows (log.take i) log[i]

instance (s : Search) (log : List Remark) (r : Remark) : Decidable (s.Allows log r) :=
  match r with
  | .contest winner loser =>
    inferInstanceAs (Decidable (s.isBeaten log winner = true → s.isBeaten log loser = true))
  | .journey _ => inferInstanceAs (Decidable True)

instance (s : Search) (log : List Remark) : Decidable (s.IsFair log) :=
  inferInstanceAs (Decidable (∀ i, (h : i < log.length) → s.Allows (log.take i) log[i]))

variable {s : Search} {log log' : List Remark} {a : StopArrival}

theorem isBeaten_iff : s.isBeaten log a = true ↔ 0 < a.round ∧ ∃ m, Remark.journey m ∈ log
    ∧ Merits.dominates s.heading s.policy m (s.bound a) = true := by
  simp only [isBeaten, Bool.and_eq_true, decide_eq_true_eq, List.any_eq_true]
  refine and_congr_right fun _ => ⟨?_, ?_⟩
  · rintro ⟨r, hr, hdominates⟩
    cases r with
    | contest winner loser => simp at hdominates
    | journey m => exact ⟨m, hr, hdominates⟩
  · rintro ⟨m, hm, hdominates⟩
    exact ⟨.journey m, hm, hdominates⟩

theorem IsFair.of_prefix (h : s.IsFair log') (hlog : log <+: log') : s.IsFair log := by
  obtain ⟨rest, rfl⟩ := hlog
  intro i hi
  have hallows := h i (by rw [List.length_append]; omega)
  rwa [List.take_append_of_le_length (Nat.le_of_lt hi), List.getElem_append_left hi] at hallows

theorem IsFair.allows {r : Remark} {rest : List Remark} (h : s.IsFair (log ++ r :: rest)) :
    s.Allows log r := by
  have hallows := h log.length (by simp)
  simpa using hallows

end Search
end JourneyPlanner
