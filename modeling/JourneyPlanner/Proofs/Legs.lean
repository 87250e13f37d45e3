import JourneyPlanner.Proofs.Touring
import JourneyPlanner.Proofs.Shown

/-!
The legs of a route. A tour between two street legs has legs and, as long as sums of
times are exact, they are legs that the search allows, one after the other in the order
of time; a journey of a search has such a route.
-/

namespace JourneyPlanner

namespace Leg

/-- What a leg may follow: a trip a street leg, a walk or another trip, with time to
board it, and a walk or the last street leg a trip. -/
def Follows (slack : Time) : Leg → Leg → Prop
  | .access stop _ e _, .transit r => stop = r.fromStop ∧ e + slack ≤ r.startTime
  | .transit q, .transit r => q.toStop = r.fromStop ∧ q.endTime + slack ≤ r.startTime
  | .transfer _ stop _ e _, .transit r => stop = r.fromStop ∧ e + slack ≤ r.startTime
  | .transit q, .transfer stop _ b _ _ => q.toStop = stop ∧ q.endTime ≤ b
  | .transit q, .egress stop b _ _ => q.toStop = stop ∧ q.endTime ≤ b
  | _, _ => False

/-- Where and when a trip can be boarded or a walk begun after a leg. -/
def EndsAt (stop : Nat) (time : Time) : Leg → Prop
  | .access toStop _ e _ => toStop = stop ∧ e = time
  | .transit r => r.toStop = stop ∧ r.endTime = time
  | _ => False

theorem EndsAt.exists_ride {l : Leg} {stop : Nat} {time : Time} (h : l.EndsAt stop time)
    (hl : l.isTransit = true) : ∃ q, l = .transit q ∧ q.toStop = stop ∧ q.endTime = time := by
  cases l with
  | transit q => exact ⟨q, rfl, h⟩
  | access | transfer | egress => simp [isTransit] at hl

theorem EndsAt.follows_transit {l : Leg} {stop : Nat} {time slack : Time} (h : l.EndsAt stop time)
    {r : Ride} (hstop : r.fromStop = stop) (htime : time + slack ≤ r.startTime) :
    l.Follows slack (.transit r) := by
  subst hstop
  cases l with
  | access toStop b e c =>
      obtain ⟨rfl, rfl⟩ := h
      exact ⟨rfl, htime⟩
  | transit q =>
      obtain ⟨hq, rfl⟩ := h
      exact ⟨hq, htime⟩
  | transfer => exact h.elim
  | egress => exact h.elim

/-- Legs between a street leg that leaves the origin at a time and one that comes to the
destination at another. -/
def Spans (departure arrival : Time) (legs : List Leg) : Prop :=
  ∃ origin start cost middle destination last cost',
    legs = .access origin departure start cost :: (middle ++ [.egress destination last arrival cost'])

end Leg

namespace Search

/-- Street legs at the origin of a journey. -/
def accessLegs (s : Search) : List StreetLeg :=
  match s.heading.direction with
  | .forward => s.origin
  | .reverse => s.target

/-- Street legs at the destination of a journey. -/
def egressLegs (s : Search) : List StreetLeg :=
  match s.heading.direction with
  | .forward => s.target
  | .reverse => s.origin

/-- A leg that a traveller can take. -/
def HasLeg (s : Search) : Leg → Prop
  | .access stop b e _ => ⟨stop, e - b⟩ ∈ s.accessLegs
  | .egress stop b e _ => ⟨stop, e - b⟩ ∈ s.egressLegs
  | .transfer fromStop toStop b e _ => ⟨toStop, e - b⟩ ∈ s.timetable.transfersFrom fromStop
  | .transit r => ∃ d boardCall alightCall,
      s.Rideable r.pattern d r.fromStop r.boardPosition r.toStop r.alightPosition boardCall alightCall
        ∧ r.tripId = d.trip.details.tripId ∧ r.routeId = d.trip.details.routeId
        ∧ r.serviceDate = d.date ∧ r.startTime = boardCall.departure
        ∧ r.endTime = alightCall.arrival

variable {s : Search}

theorem rideLeg_of_rideable (hs : s.WellFormed) (who : Traveller)
    {pattern fromStop board toStop alight : Nat} {d : DayTrip} {boardCall alightCall : Call}
    (hr : s.Rideable pattern d fromStop board toStop alight boardCall alightCall) :
    ∃ r, s.rideLeg who pattern d fromStop board toStop alight = .ok (.transit r)
      ∧ s.HasLeg (.transit r) ∧ r.fromStop = fromStop ∧ r.toStop = toStop
      ∧ r.startTime = boardCall.departure ∧ r.endTime = alightCall.arrival := by
  obtain ⟨v, index, hv, htrip, hboard, -⟩ := hr.view
  obtain ⟨-, hheadsigns⟩ := hs.complete v (List.mem_of_getElem? hv) index d htrip
  obtain ⟨headsign, hheadsign⟩ := Option.isSome_iff_exists.mp
    (hheadsigns board (Array.getElem?_eq_some_iff.mp hboard).1)
  simp only [rideLeg, DayTrip.call, hr.boards, hr.alights, hheadsign, bind, Except.bind, pure,
    Except.pure]
  exact ⟨_, rfl, ⟨d, boardCall, alightCall, hr, rfl, rfl, rfl, rfl, rfl⟩, rfl, rfl, rfl, rfl⟩

/-- Whoever makes a tour after a leg has legs, and they follow it one after the other, and
after them one can go on to the street. -/
theorem legsAlong_of_tour (hs : s.WellFormed) {start stop : Nat} {time arrival : Time}
    {hops : List Hop} (h : s.Tour start time hops stop arrival) (who : Traveller)
    (hwho : who.time = time) {previous : Leg} (hprevious : previous.EndsAt start time)
    (hfirst : previous.isTransit = true ∨ ∃ departure, DepartsAt hops departure) :
    ∃ legs, s.legsAlong who hops = .ok (legs, arrival)
      ∧ (s.heading.IsExact → (∀ l ∈ legs, s.HasLeg l)
        ∧ ∀ e c, List.IsChain (Leg.Follows s.heading.boardSlack)
          (previous :: (legs ++ [.egress stop arrival e c]))) := by
  induction h generalizing who previous with
  | done stop time =>
      have htransit : previous.isTransit = true := by
        refine hfirst.resolve_right fun ⟨departure, hdeparts⟩ => hdeparts.ne_nil rfl
      obtain ⟨q, rfl, rfl, rfl⟩ := hprevious.exists_ride htransit
      refine ⟨[], by rw [legsAlong, hwho], fun _ => ⟨by simp, fun e c => ?_⟩⟩
      exact .cons_cons ⟨rfl, Int.le_refl _⟩ (.singleton _)
  | @ride pattern fromStop board toStop alight stop d boardCall alightCall time arrival hops hr htime
      rest ih =>
      obtain ⟨r, hleg, hhas, hfrom, hto, hstart, hend⟩ := rideLeg_of_rideable hs who hr
      have hends : (Leg.transit r).EndsAt toStop alightCall.arrival := ⟨hto, hend⟩
      obtain ⟨legs, hlegs, hexact⟩ := ih ⟨r.endTime, true, none⟩ hend hends (Or.inl rfl)
      refine ⟨.transit r :: legs, ?_, fun hx => ?_⟩
      · rw [legsAlong, hleg]
        simp only [Leg.endTime, hlegs, bind, Except.bind, pure, Except.pure]
      · obtain ⟨hall, hchain⟩ := hexact hx
        refine ⟨List.forall_mem_cons.mpr ⟨hhas, hall⟩, fun e c => ?_⟩
        exact .cons_cons (hprevious.follows_transit hfrom (hstart ▸ htime hx)) (hchain e c)
  | @walk start pattern fromStop board toStop alight stop d boardCall alightCall time arrival duration
      hops hk hr htime rest ih =>
      have htransit : previous.isTransit = true := by
        refine hfirst.resolve_right fun ⟨departure, hdeparts⟩ => ?_
        obtain ⟨_, _, _, _, _, _, _, _, heq, -⟩ := hdeparts
        simp at heq
      obtain ⟨r, hleg, hhas, hfrom, hto, hstart, hend⟩ :=
        rideLeg_of_rideable hs ⟨s.heading.keep (time + duration), who.hasRidden, some start⟩ hr
      have hends : (Leg.transit r).EndsAt toStop alightCall.arrival := ⟨hto, hend⟩
      obtain ⟨legs, hlegs, hexact⟩ := ih ⟨r.endTime, true, none⟩ hend hends (Or.inl rfl)
      refine ⟨.transfer start fromStop time (s.heading.keep (time + duration))
        (s.rates.walking duration) :: .transit r :: legs, ?_, fun hx => ?_⟩
      · rw [legsAlong, legsAlong, hwho, hleg]
        simp only [Leg.endTime, hlegs, bind, Except.bind, pure, Except.pure]
      · obtain ⟨hall, hchain⟩ := hexact hx
        rw [hx.keep]
        refine ⟨List.forall_mem_cons.mpr ⟨?_, List.forall_mem_cons.mpr ⟨hhas, hall⟩⟩, fun e c => ?_⟩
        · have hduration : time + duration - time = duration := by grind
          simpa only [HasLeg, hduration] using hk
        · refine .cons_cons ?_ (.cons_cons ⟨hfrom.symm, hstart ▸ htime hx⟩ (hchain e c))
          obtain ⟨q, rfl, rfl, rfl⟩ := hprevious.exists_ride htransit
          exact ⟨rfl, Int.le_refl _⟩

/-- A route along a tour, with when it leaves the origin and comes to the destination. -/
structure Leads (s : Search) (r : Route) (departure arrival : Time) : Prop where
  access : r.access ∈ s.accessLegs
  egress : r.egress ∈ s.egressLegs
  tour : ∃ first ended,
    s.Tour r.access.stop (s.heading.keep (first - s.heading.boardSlack)) r.hops r.egress.stop ended
      ∧ DepartsAt r.hops first
      ∧ departure = s.heading.keep (first - s.heading.boardSlack - r.access.duration)
      ∧ arrival = s.heading.keep (ended + r.egress.duration)

/-- Legs that can be travelled from the origin to the destination. -/
structure Travels (s : Search) (legs : List Leg) (departure arrival : Time) : Prop where
  ends : Leg.Spans departure arrival legs
  each : ∀ l ∈ legs, s.HasLeg l
  chain : legs.IsChain (Leg.Follows s.heading.boardSlack)

theorem legsOf_of_leads (hs : s.WellFormed) {r : Route} {departure arrival : Time}
    (h : s.Leads r departure arrival) :
    ∃ legs, s.legsOf r = .ok legs ∧ Leg.Spans departure arrival legs
      ∧ (s.heading.IsExact → s.Travels legs departure arrival) := by
  obtain ⟨first, ended, tour, hdeparts, rfl, rfl⟩ := h.tour
  have hfirst := firstDeparture_of_departsAt hdeparts r.access.stop
  have hends : (Leg.access r.access.stop
      (s.heading.keep (first - s.heading.boardSlack - r.access.duration))
      (s.heading.keep (first - s.heading.boardSlack))
      (s.rates.walking r.access.duration)).EndsAt r.access.stop
        (s.heading.keep (first - s.heading.boardSlack)) := ⟨rfl, rfl⟩
  obtain ⟨legs, hlegs, hexact⟩ := legsAlong_of_tour hs tour
    ⟨s.heading.keep (first - s.heading.boardSlack), false, none⟩ rfl hends (Or.inr ⟨_, hdeparts⟩)
  refine ⟨_, ?_, ⟨_, _, _, legs, _, _, _, rfl⟩, fun hx => ⟨⟨_, _, _, legs, _, _, _, rfl⟩, ?_,
    (hexact hx).2 _ (s.rates.walking r.egress.duration)⟩⟩
  · simp only [legsOf, hfirst, hlegs, s.heading.keep_keep_sub, bind, Except.bind, pure, Except.pure]
    rfl
  · intro l hl
    rw [List.mem_cons, List.mem_append, List.mem_singleton] at hl
    rcases hl with rfl | hl | rfl
    · have haccess : first - s.heading.boardSlack
          - (first - s.heading.boardSlack - r.access.duration) = r.access.duration := by grind
      simpa only [HasLeg, hx.keep, haccess] using h.access
    · exact (hexact hx).1 l hl
    · have hegress : ended + r.egress.duration - ended = r.egress.duration := by grind
      simpa only [HasLeg, hx.keep, hegress] using h.egress

/-- When a journey leaves the origin. -/
def departure (s : Search) (m : Merits) : Time :=
  match s.heading.direction with
  | .forward => m.originTime
  | .reverse => m.time

/-- When a journey comes to the destination. -/
def arrival (s : Search) (m : Merits) : Time :=
  match s.heading.direction with
  | .forward => m.time
  | .reverse => m.originTime

section Hops

variable {hop : StopArrival → StopArrival → Except InternalFault Hop}

theorem forwardHop_unlinked (s : Search) (x a : StopArrival) :
    s.forwardHop x.unlinked a.unlinked = s.forwardHop x a := by
  unfold forwardHop
  rfl

theorem reverseHop_unlinked (s : Search) (a x : StopArrival) :
    s.reverseHop a.unlinked x.unlinked = s.reverseHop a x := by
  unfold reverseHop
  rfl

/-- Hops do not depend on ids. -/
theorem hopsBetween_unlinked (hhop : ∀ x a, hop x.unlinked a.unlinked = hop x a)
    (xs : List StopArrival) : hopsBetween hop (xs.map StopArrival.unlinked) = hopsBetween hop xs := by
  induction xs with
  | nil => rfl
  | cons x xs ih =>
      cases xs with
      | nil => rfl
      | cons y xs =>
          simp only [List.map_cons] at ih
          simp only [List.map_cons, hopsBetween, hhop, ih]

end Hops

section Journeys

variable {times : List Time} {t : StopTable} {d : DestinationArrival} {w : Way} {duration : Time}

theorem wayTo_of_journey (hj : t.journeyOf d = Chart.journeyAlong s w duration) {leg : StreetLeg}
    {time : Time} {iteration : Nat}
    (hfirst : w.arrivals.getLast? = some (s.originArrival time iteration leg)) :
    ∃ arrivals, wayTo t d = .ok (arrivals, leg)
      ∧ arrivals.map StopArrival.unlinked = w.arrivals := by
  have harrivals : t.arrivalsTo d.previous = w.arrivals := congrArg Journey.arrivals hj
  unfold StopTable.arrivalsTo at harrivals
  cases hchain : t.chain d.previous with
  | error e => simp [hchain, Except.toOption, Way.arrivals] at harrivals
  | ok arrivals =>
      simp only [hchain, Except.toOption, Option.getD_some] at harrivals
      rw [← harrivals, List.getLast?_map, Option.map_eq_some_iff] at hfirst
      obtain ⟨a, ha, hfirst⟩ := hfirst
      have hkind : a.kind = .access leg.duration := congrArg StopArrival.kind hfirst
      have hround : a.round = 0 := congrArg StopArrival.round hfirst
      have hstop : a.stop = leg.stop := congrArg StopArrival.stop hfirst
      refine ⟨arrivals, ?_, harrivals⟩
      simp only [wayTo, hchain, ha, hkind, hround, hstop, if_true, bind, Except.bind, pure,
        Except.pure]

theorem mem_targetDurations {stop : Nat} :
    duration ∈ s.targetDurations stop ↔ ⟨stop, duration⟩ ∈ s.target := by
  simp only [targetDurations, List.mem_map, List.mem_filter, beq_iff_eq]
  constructor
  · rintro ⟨leg, ⟨hleg, rfl⟩, rfl⟩
    exact hleg
  · intro h
    exact ⟨_, ⟨h, rfl⟩, rfl⟩

theorem routeTo_of_journey (hs : s.WellFormed) (hw : w.Traced s times)
    (hride : w.arrival.isTransit = true) (hduration : duration ∈ s.targetDurations w.arrival.stop)
    (hj : t.journeyOf d = Chart.journeyAlong s w duration) :
    ∃ r, s.routeTo t d = .ok r ∧ s.Leads r (s.departure d.merits) (s.arrival d.merits) := by
  have hending : d.unlinked = s.journeyFrom 0 w.arrival duration := congrArg Journey.ending hj
  have hstop : d.stop = w.arrival.stop := congrArg DestinationArrival.stop hending
  have hstreet : d.streetDuration = duration := congrArg DestinationArrival.streetDuration hending
  have hmerits : d.merits = (s.journeyFrom 0 w.arrival duration).merits := by
    rw [← hending]
    rfl
  have htarget := mem_targetDurations.mp hduration
  cases hd : s.heading.direction with
  | forward =>
      obtain ⟨leg, hleg, time, iteration, hops, hfirst, hhops, harrives⟩ := hw.arrives hs hd
      obtain ⟨first, tour, hdeparts, horigin⟩ := harrives.tour hride
      obtain ⟨arrivals, hway, harrivals⟩ := wayTo_of_journey hj hfirst
      rw [← harrivals, ← List.map_reverse, hopsBetween_unlinked (forwardHop_unlinked s)] at hhops
      refine ⟨⟨leg, hops, d.stop, d.streetDuration⟩, ?_, ?_, ?_, first, w.arrival.time, ?_⟩
      · simp only [routeTo, hway, hd, hhops, bind, Except.bind, pure, Except.pure]
      · simpa only [accessLegs, hd] using hleg
      · simpa only [egressLegs, hd, hstop, hstreet] using htarget
      · refine ⟨hstop ▸ tour, hdeparts, ?_, ?_⟩
        · simpa only [departure, hd, hmerits, journeyFrom, Heading.originTime] using horigin
        · simp only [arrival, hd, hmerits, journeyFrom, Heading.advance, hstreet]
  | reverse =>
      obtain ⟨leg, hleg, time, iteration, hops, hfirst, hhops, hleaves⟩ := hw.leaves hs hd
      obtain ⟨first, ended, tour, hdeparts, htime, horigin⟩ := hleaves.tour hride
      obtain ⟨arrivals, hway, harrivals⟩ := wayTo_of_journey hj hfirst
      rw [← harrivals, hopsBetween_unlinked (reverseHop_unlinked s)] at hhops
      rw [htime] at tour
      refine ⟨⟨⟨d.stop, d.streetDuration⟩, hops, leg⟩, ?_, ?_, ?_, first, ended, ?_⟩
      · simp only [routeTo, hway, hd, hhops, bind, Except.bind, pure, Except.pure]
      · simpa only [accessLegs, hd, hstop, hstreet] using htarget
      · simpa only [egressLegs, hd] using hleg
      · refine ⟨hstop ▸ tour, hdeparts, ?_, ?_⟩
        · simp only [departure, hd, hmerits, journeyFrom, Heading.advance, hstreet, htime,
            s.heading.keep_keep_sub]
        · simpa only [arrival, hd, hmerits, journeyFrom, Heading.originTime] using horigin

/-- Every journey of a search has an itinerary, at the times for which the search retained
it, and it can be travelled if the sums of the search are exact. -/
theorem itinerary_of_journey (hs : s.WellFormed) (hw : w.Traced s times)
    (hride : w.arrival.isTransit = true) (hduration : duration ∈ s.targetDurations w.arrival.stop)
    (hj : t.journeyOf d = Chart.journeyAlong s w duration) :
    ∃ it, s.itinerary t d = .ok it
      ∧ (s.heading.IsExact → s.Travels it.legs it.departureTime it.arrivalTime)
      ∧ it.departureTime = s.departure d.merits ∧ it.arrivalTime = s.arrival d.merits := by
  obtain ⟨r, hroute, hleads⟩ := routeTo_of_journey hs hw hride hduration hj
  obtain ⟨legs, hlegs, hspans, htravels⟩ := legsOf_of_leads hs hleads
  refine ⟨itineraryOf legs, ?_, ?_⟩
  · simp only [itinerary, hroute, hlegs, bind, Except.bind, pure, Except.pure]
  · obtain ⟨origin, start, cost, middle, destination, last, cost', heq⟩ := hspans
    have hdeparture : (itineraryOf legs).departureTime = s.departure d.merits := by
      rw [itineraryOf, heq]
      rfl
    have harrival : (itineraryOf legs).arrivalTime = s.arrival d.merits := by
      have hlast : legs.getLast? = some (.egress destination last (s.arrival d.merits) cost') := by
        rw [heq, ← List.cons_append, List.getLast?_concat]
      simp only [itineraryOf, hlast, Option.map_some, Option.getD_some, Leg.endTime]
    refine ⟨?_, hdeparture, harrival⟩
    rw [hdeparture, harrival]
    exact htravels

end Journeys

end Search
end JourneyPlanner
