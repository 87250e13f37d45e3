import JourneyPlanner.Proofs.Legs
import Mathlib.Algebra.GroupWithZero.Nat

/-!
What a journey costs. A search adds up costs in its own direction, so that in reverse
the trip caught without waiting is the last one; legs charge for it at the first. Sums
are counted exactly here and cut off at the greatest number afterwards.
-/

namespace JourneyPlanner

/-- It does not matter whether a sum is cut off before more is added. -/
theorem Cost.plus_min (n : Nat) (c : Cost) :
    plus (min n Json.greatestWord) c = min (n + c) Json.greatestWord := by
  delta Cost plus at *
  omega

theorem Cost.foldl_plus (costs : List Cost) (n : Nat) :
    costs.foldl plus (min n Json.greatestWord) = min (n + costs.sum) Json.greatestWord := by
  induction costs generalizing n with
  | nil => rfl
  | cons c costs ih => rw [List.foldl_cons, plus_min, ih, List.sum_cons, Nat.add_assoc]

/-- A total is the exact sum, or the greatest number if that is more. -/
theorem Cost.total_eq (costs : List Cost) : total costs = min costs.sum Json.greatestWord := by
  have htotal := foldl_plus costs 0
  rwa [Nat.zero_min, Nat.zero_add] at htotal

def Hop.isRide : Hop → Bool
  | .ride .. => true
  | .walk .. => false

namespace Search

/-- Penalties and waiting for a trip that departs from a stop at the given time. -/
def boardingOf (s : Search) (who : Traveller) (departure : Time) (fromStop : Nat) : Cost :=
  if who.hasRidden then
    s.rates.changing (s.heading.keep (departure - who.time - s.heading.boardSlack))
      (s.timetable.isDiscouraged fromStop
        || s.timetable.isDiscouraged (who.walkedFrom.getD fromStop))
  else s.rates.firstBoarding

/-- Whoever makes the hops pays so much for them in all, and is then where the second
traveller is. -/
inductive Charges (s : Search) : Traveller → List Hop → Nat → Traveller → Prop where
  | done (who : Traveller) : Charges s who [] 0 who
  | ride {who last : Traveller} {pattern fromStop board toStop alight rest : Nat} {d : DayTrip}
      {boardCall alightCall : Call} {hops : List Hop} (hboard : d.calls[board]? = some boardCall)
      (halight : d.calls[alight]? = some alightCall)
      (hrest : Charges s ⟨alightCall.arrival, true, none⟩ hops rest last) :
      Charges s who (.ride pattern d fromStop board toStop alight :: hops)
        (s.boardingOf who boardCall.departure fromStop
          + s.rates.riding (s.heading.keep (alightCall.arrival - boardCall.departure)) + rest) last
  | walk {who last : Traveller} {fromStop toStop rest : Nat} {duration : Time} {hops : List Hop}
      (hrest : Charges s
        ⟨s.heading.keep (who.time + duration), who.hasRidden, some fromStop⟩ hops rest last) :
      Charges s who (.walk fromStop toStop duration :: hops)
        (s.rates.walking duration + rest) last

variable {s : Search}

namespace Charges

variable {who next last : Traveller} {hops more : List Hop} {n m : Nat}

theorem append (h : s.Charges who hops n next) (h' : s.Charges next more m last) :
    s.Charges who (hops ++ more) (n + m) last := by
  induction h with
  | done who => rwa [Nat.zero_add]
  | ride hboard halight hrest ih =>
      rw [Nat.add_assoc]
      exact .ride hboard halight (ih h')
  | walk hrest ih =>
      rw [Nat.add_assoc]
      exact .walk (ih h')

/-- The price depends on the hops and on who makes them only. -/
theorem unique (h : s.Charges who hops n next) (h' : s.Charges who hops m last) : n = m := by
  induction h generalizing m with
  | done who =>
      cases h'
      rfl
  | ride hboard halight hrest ih =>
      cases h' with
      | ride hboard' halight' hrest' =>
          obtain rfl := Option.some.inj (hboard.symm.trans hboard')
          obtain rfl := Option.some.inj (halight.symm.trans halight')
          rw [ih hrest']
  | walk hrest ih =>
      cases h' with
      | walk hrest' => rw [ih hrest']

end Charges

theorem rideLeg_cost {who : Traveller} {pattern fromStop board toStop alight : Nat} {d : DayTrip}
    {leg : Leg} (h : s.rideLeg who pattern d fromStop board toStop alight = .ok leg) :
    ∃ boardCall alightCall, d.calls[board]? = some boardCall
      ∧ d.calls[alight]? = some alightCall ∧ leg.endTime = alightCall.arrival
      ∧ leg.isTransit = true
      ∧ leg.cost = Cost.plus (s.boardingOf who boardCall.departure fromStop)
        (s.rates.riding (s.heading.keep (alightCall.arrival - boardCall.departure))) := by
  simp only [rideLeg, DayTrip.call] at h
  cases hboard : d.calls[board]? with
  | none => simp [hboard, bind, Except.bind] at h
  | some boardCall =>
      cases halight : d.calls[alight]? with
      | none => simp [hboard, halight, bind, Except.bind] at h
      | some alightCall =>
          cases hheadsign : d.trip.headsign? board with
          | none => simp [hboard, halight, hheadsign, bind, Except.bind] at h
          | some headsign =>
              simp only [hboard, halight, hheadsign, bind, Except.bind, pure, Except.pure,
                Except.ok.injEq] at h
              subst h
              exact ⟨boardCall, alightCall, rfl, rfl, rfl, rfl, rfl⟩

/-- Legs have the costs of their hops, and there is one by trip for each ride. -/
theorem charges_of_legsAlong {who : Traveller} {hops : List Hop} {legs : List Leg} {time : Time}
    (h : s.legsAlong who hops = .ok (legs, time)) :
    ∃ n last, s.Charges who hops n last
      ∧ (∀ m : Nat, min (m + (legs.map Leg.cost).sum) Json.greatestWord
        = min (m + n) Json.greatestWord)
      ∧ (legs.filter Leg.isTransit).length = hops.countP Hop.isRide := by
  induction hops generalizing who legs time with
  | nil =>
      rw [legsAlong, Except.ok.injEq, Prod.mk.injEq] at h
      obtain ⟨rfl, -⟩ := h
      exact ⟨0, who, .done who, fun m => rfl, rfl⟩
  | cons hop hops ih =>
      cases hop with
      | ride pattern d fromStop board toStop alight =>
          simp only [legsAlong, Fallible.bind_eq_ok, Fallible.pure_eq_ok, Prod.mk.injEq] at h
          obtain ⟨leg, hleg, ⟨rest, last⟩, hrest, rfl, rfl⟩ := h
          obtain ⟨boardCall, alightCall, hboard, halight, hend, htransit, hcost⟩ := rideLeg_cost hleg
          rw [hend] at hrest
          obtain ⟨n, who', hcharges, hsum, hcount⟩ := ih hrest
          refine ⟨_, who', .ride hboard halight hcharges, fun m => ?_, ?_⟩
          · rw [List.map_cons, List.sum_cons, hcost, ← Nat.add_assoc, hsum]
            delta Cost Cost.plus at *
            omega
          · rw [List.filter_cons_of_pos htransit, List.length_cons, hcount,
              List.countP_cons_of_pos rfl]
      | walk fromStop toStop duration =>
          simp only [legsAlong, Fallible.bind_eq_ok, Fallible.pure_eq_ok, Prod.mk.injEq] at h
          obtain ⟨⟨rest, last⟩, hrest, rfl, rfl⟩ := h
          obtain ⟨n, who', hcharges, hsum, hcount⟩ := ih hrest
          refine ⟨_, who', .walk hcharges, fun m => ?_, ?_⟩
          · rw [List.map_cons, List.sum_cons, ← Nat.add_assoc, hsum, Nat.add_assoc]
            rfl
          · rw [List.filter_cons_of_neg (by simp [Leg.isTransit]), hcount,
              List.countP_cons_of_neg (by simp [Hop.isRide])]

/-- The traveller after the hops to an arrival of a search that goes forward. -/
structure StandsAt (a : StopArrival) (who : Traveller) : Prop where
  hasRidden : who.hasRidden = decide (0 < a.round)
  time : 0 < a.round → who.time = a.time
  walkedFrom : who.walkedFrom = match a.kind with
    | .transfer fromStop _ => some fromStop
    | _ => none

/-- How often one rode, and what one paid, to come to an arrival from a street leg. -/
structure Spends (s : Search) (leg : StreetLeg) (hops : List Hop) (a : StopArrival) : Prop where
  rides : hops.countP Hop.isRide = a.round
  cost : ∀ begun, ∃ n who, s.Charges ⟨begun, false, none⟩ hops n who ∧ StandsAt a who
    ∧ a.cost = min (s.rates.walking leg.duration + n) Json.greatestWord

/-- How often one has still to ride, and what it costs, to go from an arrival of a search
in reverse to a street leg. Who has ridden before pays for a change at it instead of the
first boarding. -/
structure Needs (s : Search) (leg : StreetLeg) (hops : List Hop) (a : StopArrival) : Prop where
  rides : hops.countP Hop.isRide = a.round
  cost : ∃ n, (∀ who : Traveller, who.hasRidden = false → ∃ last, s.Charges who hops n last)
    ∧ a.cost = min (s.rates.walking leg.duration + n) Json.greatestWord
    ∧ ((a.round = 0 ∧ hops = [])
      ∨ 0 < a.round ∧ ∀ who : Traveller, who.hasRidden = true →
        (a.isTransit = true ∨ who.walkedFrom = none) →
        ∃ m last, s.Charges who hops m last ∧ m + s.rates.firstBoarding = n + s.rates.changing
          (s.heading.keep (a.time - who.time))
          (s.isDiscouraged a || who.walkedFrom.any s.timetable.isDiscouraged))

theorem min_walking (r : CostRates) (duration : Time) :
    min (r.walking duration) Json.greatestWord = r.walking duration := by
  unfold CostRates.walking Cost.times
  rw [Nat.min_assoc, Nat.min_self]

section Steps

variable {leg : StreetLeg} {hops : List Hop} {w : Way} {v : PatternView} {b : Boarding}
  {position : Nat} {a : StopArrival} {d : DayTrip} {boardCall call : Call} {k : Transfer}

/-- Going forward the search charges for a trip what the legs do. -/
theorem boardingOf_of_standsAt (hd : s.heading.direction = .forward) {who : Traveller}
    (hwho : StandsAt w.arrival who) (departure : Time) :
    s.boardingOf who departure w.arrival.stop
      = s.boardingCost w.arrival departure (w.arrival.round + 1) := by
  unfold boardingOf boardingCost
  rw [hwho.hasRidden]
  by_cases hround : w.arrival.round = 0
  · simp [hround]
  · have hpos : 0 < w.arrival.round := Nat.pos_of_ne_zero hround
    simp only [hpos, decide_true, if_true, hround, Nat.add_eq_right, if_false, Heading.wait, hd,
      hwho.time hpos, hwho.walkedFrom, isDiscouraged]
    cases w.arrival.kind <;> simp

theorem spends_street (leg : StreetLeg) (time : Time) (iteration : Nat) :
    s.Spends leg [] (s.originArrival time iteration leg) where
  rides := rfl
  cost begun := by
    refine ⟨0, _, .done _, ⟨rfl, by simp [originArrival], rfl⟩, ?_⟩
    rw [Nat.add_zero, min_walking]
    rfl

theorem Spends.ride (h : s.Spends leg hops w.arrival) (hd : s.heading.direction = .forward)
    (hround : a.round = w.arrival.round + 1) (hr : s.Rides v w b position a d boardCall call) :
    s.Spends leg (hops ++ [.ride v.pattern d w.arrival.stop b.position a.stop position])
      a.unlinked where
  rides := by
    rw [List.countP_append, h.rides]
    exact hround.symm
  cost begun := by
    obtain ⟨n, who, hcharges, hwho, hcost⟩ := h.cost begun
    refine ⟨_, ⟨call.arrival, true, none⟩, hcharges.append (.ride hr.boards hr.leaves (.done _)),
      ⟨?_, fun _ => ?_, ?_⟩, ?_⟩
    · simp [StopArrival.unlinked, hround]
    · simp only [StopArrival.unlinked, hr.time, Heading.alightTime, hd]
    · simp only [StopArrival.unlinked, hr.kind]
    · have hboarding := boardingOf_of_standsAt hd hwho boardCall.departure
      have hacost := hr.cost
      simp only [Heading.boardTime, Heading.inVehicle, hd] at hacost
      rw [hboarding]
      change a.cost = _
      rw [hacost, hcost, Cost.plus_min, Cost.plus_min]
      simp only [Nat.add_assoc, Nat.add_zero]

theorem Spends.walk (h : s.Spends leg hops w.arrival) (hd : s.heading.direction = .forward)
    (hpos : 0 < w.arrival.round) :
    s.Spends leg (hops ++ [.walk w.arrival.stop k.target k.duration])
      (s.walkArrival 0 w.arrival k).unlinked where
  rides := by
    rw [List.countP_append, h.rides]
    rfl
  cost begun := by
    obtain ⟨n, who, hcharges, hwho, hcost⟩ := h.cost begun
    refine ⟨_, _, hcharges.append (.walk (.done _)), ⟨hwho.hasRidden, fun _ => ?_, rfl⟩, ?_⟩
    · simp only [hwho.time hpos, StopArrival.unlinked, walkArrival, Heading.advance, hd]
    · change Cost.plus w.arrival.cost (s.rates.walking k.duration) = _
      rw [hcost, Cost.plus_min, Nat.add_assoc, Nat.add_zero]

theorem needs_street (leg : StreetLeg) (time : Time) (iteration : Nat) :
    s.Needs leg [] (s.originArrival time iteration leg) where
  rides := rfl
  cost := by
    refine ⟨0, fun who _ => ⟨who, .done who⟩, ?_, Or.inl ⟨rfl, rfl⟩⟩
    rw [Nat.add_zero, min_walking]
    rfl

/-- A trip caught in reverse after others is the one to change from in the order of time,
and the change is charged at the trip after it. -/
theorem Needs.ride (h : s.Needs leg hops w.arrival) (hd : s.heading.direction = .reverse)
    (hround : a.round = w.arrival.round + 1) (hr : s.Rides v w b position a d boardCall call) :
    s.Needs leg (.ride v.pattern d a.stop position w.arrival.stop b.position :: hops)
      a.unlinked where
  rides := by
    rw [List.countP_cons_of_pos rfl, h.rides]
    exact hround.symm
  cost := by
    obtain ⟨n, hcharges, hcost, hchange⟩ := h.cost
    have hacost := hr.cost
    have hatime := hr.time
    simp only [Heading.boardTime, Heading.inVehicle, Heading.alightTime, hd] at hacost hatime
    -- the hops after the trip, for who comes by it
    obtain ⟨m, last, hrest, hm⟩ : ∃ m last, s.Charges ⟨boardCall.arrival, true, none⟩ hops m last
        ∧ m + s.rates.firstBoarding
          = n + s.boardingCost w.arrival boardCall.arrival (w.arrival.round + 1) := by
      rcases hchange with ⟨hzero, rfl⟩ | ⟨hpos, hchange⟩
      · obtain ⟨last, hnone⟩ := hcharges ⟨0, false, none⟩ rfl
        obtain rfl : n = 0 := hnone.unique (.done _)
        exact ⟨0, _, .done _, by simp [boardingCost, hzero]⟩
      · obtain ⟨m, last, hrest, hm⟩ := hchange ⟨boardCall.arrival, true, none⟩ rfl (Or.inr rfl)
        refine ⟨m, last, hrest, ?_⟩
        simpa [boardingCost, Nat.ne_of_gt hpos, Heading.wait, hd] using hm
    refine ⟨s.rates.firstBoarding
      + s.rates.riding (s.heading.keep (boardCall.arrival - call.departure)) + m,
      fun who hwho => ⟨last, ?_⟩, ?_, Or.inr ⟨?_, fun who hwho _ => ?_⟩⟩
    · have hfirst : s.boardingOf who call.departure a.stop = s.rates.firstBoarding := by
        simp [boardingOf, hwho]
      exact hfirst ▸ .ride hr.leaves hr.boards hrest
    · change a.cost = _
      rw [hacost, hcost]
      delta Cost Cost.plus at *
      omega
    · simp [StopArrival.unlinked, hround]
    · refine ⟨_, last, .ride hr.leaves hr.boards hrest, ?_⟩
      have hchanging : s.boardingOf who call.departure a.stop = s.rates.changing
          (s.heading.keep (a.unlinked.time - who.time))
          (s.isDiscouraged a.unlinked || who.walkedFrom.any s.timetable.isDiscouraged) := by
        have htime : s.heading.keep (call.departure - who.time - s.heading.boardSlack)
            = s.heading.keep (a.unlinked.time - who.time) := by
          simp only [StopArrival.unlinked, hatime, s.heading.keep_keep_sub]
          exact congrArg s.heading.keep (by grind)
        simp only [boardingOf, hwho, if_true, htime, isDiscouraged, StopArrival.unlinked, hr.kind]
        cases who.walkedFrom <;> simp
      rw [hchanging]
      omega

/-- Who walks to an arrival by a trip changes between both stops. -/
theorem Needs.walk (h : s.Needs leg hops w.arrival) (hd : s.heading.direction = .reverse)
    (hride : w.arrival.isTransit = true) (hpos : 0 < w.arrival.round) :
    s.Needs leg (.walk k.target w.arrival.stop k.duration :: hops)
      (s.walkArrival 0 w.arrival k).unlinked where
  rides := by
    rw [List.countP_cons_of_neg (by simp [Hop.isRide]), h.rides]
    rfl
  cost := by
    obtain ⟨n, hcharges, hcost, hchange⟩ := h.cost
    obtain ⟨-, hchange⟩ := hchange.resolve_left fun hzero => Nat.ne_of_gt hpos hzero.1
    refine ⟨s.rates.walking k.duration + n, fun who hwho => ?_, ?_,
      Or.inr ⟨hpos, fun who hwho hnone => ?_⟩⟩
    · obtain ⟨last, hrest⟩ := hcharges
        ⟨s.heading.keep (who.time + k.duration), who.hasRidden, some k.target⟩ hwho
      exact ⟨last, .walk hrest⟩
    · change Cost.plus w.arrival.cost (s.rates.walking k.duration) = _
      rw [hcost]
      delta Cost Cost.plus at *
      omega
    · have hnone : who.walkedFrom = none := hnone.resolve_left (by
        simp [StopArrival.unlinked, walkArrival, StopArrival.isTransit])
      obtain ⟨m, last, hrest, hm⟩ := hchange
        ⟨s.heading.keep (who.time + k.duration), who.hasRidden, some k.target⟩ hwho (Or.inl hride)
      refine ⟨_, last, .walk hrest, ?_⟩
      have hwait : s.heading.keep (w.arrival.time - s.heading.keep (who.time + k.duration))
          = s.heading.keep ((s.walkArrival 0 w.arrival k).unlinked.time - who.time) := by
        simp only [StopArrival.unlinked, walkArrival, Heading.advance, hd, s.heading.keep_keep_sub,
          s.heading.keep_sub_keep]
        exact congrArg s.heading.keep (by grind)
      have hdiscouraged : s.isDiscouraged w.arrival = s.timetable.isDiscouraged w.arrival.stop := by
        unfold StopArrival.isTransit at hride
        unfold isDiscouraged
        split at hride <;> simp_all
      have hboth : (s.isDiscouraged w.arrival || s.timetable.isDiscouraged k.target)
          = s.isDiscouraged (s.walkArrival 0 w.arrival k).unlinked := by
        rw [hdiscouraged, Bool.or_comm]
        rfl
      rw [hwait, Option.any_some, hboth] at hm
      rw [hnone, Option.any_none, Bool.or_false]
      omega

end Steps

end Search

namespace Way

open Search

variable {s : Search} {times : List Time} {w : Way}

theorem Traced.spends (hs : s.WellFormed) (hd : s.heading.direction = .forward)
    (h : w.Traced s times) : ∃ leg ∈ s.origin, ∃ time iteration hops,
      w.arrivals.getLast? = some (s.originArrival time iteration leg)
        ∧ hopsBetween s.forwardHop w.arrivals.reverse = .ok hops ∧ s.Spends leg hops w.arrival :=
  h.forward_hops hs hd spends_street (fun hp _ _ _ hround hr => hp.ride hd hround hr)
    fun hp _ hpos _ => hp.walk hd hpos

theorem Traced.needs (hs : s.WellFormed) (hd : s.heading.direction = .reverse)
    (h : w.Traced s times) : ∃ leg ∈ s.origin, ∃ time iteration hops,
      w.arrivals.getLast? = some (s.originArrival time iteration leg)
        ∧ hopsBetween s.reverseHop w.arrivals = .ok hops ∧ s.Needs leg hops w.arrival :=
  h.reverse_hops hs hd needs_street (fun hp _ _ _ hround hr => hp.ride hd hround hr)
    fun hp hride hpos _ => hp.walk hd hride hpos

end Way

namespace Search

variable {s : Search} {times : List Time} {t : StopTable} {d : DestinationArrival} {w : Way}
  {duration : Time}

/-- The route of a journey costs what the search counted for it. -/
theorem charges_of_journey (hs : s.WellFormed) (hw : w.Traced s times)
    (hj : t.journeyOf d = Chart.journeyAlong s w duration) :
    ∃ r, s.routeTo t d = .ok r ∧ r.hops.countP Hop.isRide = d.merits.rounds
      ∧ ∀ begun, ∃ n last, s.Charges ⟨begun, false, none⟩ r.hops n last
        ∧ d.merits.cost = min (s.rates.walking r.access.duration + n
          + s.rates.walking r.egress.duration) Json.greatestWord := by
  have hending : d.unlinked = s.journeyFrom 0 w.arrival duration := congrArg Journey.ending hj
  have hstreet : d.streetDuration = duration := congrArg DestinationArrival.streetDuration hending
  have hmerits : d.merits = (s.journeyFrom 0 w.arrival duration).merits := by
    rw [← hending]
    rfl
  have hcost : d.merits.cost = Cost.plus w.arrival.cost (s.rates.walking d.streetDuration) := by
    rw [hmerits, hstreet]
    rfl
  have hrounds : d.merits.rounds = w.arrival.round := by
    rw [hmerits]
    rfl
  cases hd : s.heading.direction with
  | forward =>
      obtain ⟨leg, -, time, iteration, hops, hfirst, hhops, hspends⟩ := hw.spends hs hd
      obtain ⟨arrivals, hway, harrivals⟩ := wayTo_of_journey hj hfirst
      rw [← harrivals, ← List.map_reverse, hopsBetween_unlinked (forwardHop_unlinked s)] at hhops
      refine ⟨⟨leg, hops, d.stop, d.streetDuration⟩, ?_, hrounds ▸ hspends.rides, fun begun => ?_⟩
      · simp only [routeTo, hway, hd, hhops, bind, Except.bind, pure, Except.pure]
      · obtain ⟨n, last, hcharges, -, hspent⟩ := hspends.cost begun
        refine ⟨n, last, hcharges, ?_⟩
        rw [hcost, hspent, Cost.plus_min]
  | reverse =>
      obtain ⟨leg, -, time, iteration, hops, hfirst, hhops, hneeds⟩ := hw.needs hs hd
      obtain ⟨arrivals, hway, harrivals⟩ := wayTo_of_journey hj hfirst
      rw [← harrivals, hopsBetween_unlinked (reverseHop_unlinked s)] at hhops
      refine ⟨⟨⟨d.stop, d.streetDuration⟩, hops, leg⟩, ?_, hrounds ▸ hneeds.rides, fun begun => ?_⟩
      · simp only [routeTo, hway, hd, hhops, bind, Except.bind, pure, Except.pure]
      · obtain ⟨n, hcharges, hneeded, -⟩ := hneeds.cost
        obtain ⟨last, hcharges⟩ := hcharges ⟨begun, false, none⟩ rfl
        refine ⟨n, last, hcharges, ?_⟩
        rw [hcost, hneeded, Cost.plus_min, Nat.add_right_comm, Nat.add_comm (s.rates.walking leg.duration),
          Nat.add_right_comm]

/-- What an itinerary says of itself is what the search counted for its journey. -/
theorem cost_of_journey (hs : s.WellFormed) (hw : w.Traced s times)
    (hj : t.journeyOf d = Chart.journeyAlong s w duration) {it : Itinerary}
    (h : s.itinerary t d = .ok it) :
    it.generalizedCost = d.merits.cost ∧ it.transfers = d.merits.rounds - 1 := by
  obtain ⟨r, hroute, hrides, hcost⟩ := charges_of_journey hs hw hj
  simp only [itinerary, hroute, Fallible.bind_eq_ok, Fallible.pure_eq_ok, Except.ok.injEq,
    exists_eq_left', legsOf] at h
  obtain ⟨legs, ⟨departure, -, ⟨middle, time⟩, hlegs, rfl⟩, rfl⟩ := h
  obtain ⟨n, last, hcharges, hsum, hcount⟩ := charges_of_legsAlong hlegs
  obtain ⟨n', last', hcharges', hcost⟩ :=
    hcost (s.heading.keep (departure - s.heading.boardSlack))
  obtain rfl := hcharges.unique hcharges'
  constructor
  · have hsum := hsum (s.rates.walking r.access.duration + s.rates.walking r.egress.duration)
    rw [itineraryOf, Cost.total_eq, hcost]
    simp only [List.map_cons, List.map_append, List.sum_cons, List.sum_append, List.map_nil,
      List.sum_nil, Leg.cost]
    delta Cost at *
    omega
  · rw [itineraryOf, ← hrides, ← hcount]
    simp [Leg.isTransit]

end Search
end JourneyPlanner
