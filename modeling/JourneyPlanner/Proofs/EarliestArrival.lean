import JourneyPlanner.Proofs.Coverage
import JourneyPlanner.Proofs.Travelling

/-!
Nobody comes to the destination earlier than an answer says. This takes trips that do
not overtake each other and may be used at every stop, and walks and street legs that
save nothing when one of them follows another one. It does not depend on what journeys
are compared on, nor on whether arrivals that cannot improve on a known journey are
left out.
-/

namespace JourneyPlanner

/-- A trip that leaves one position no later than another trip is at a further one no
later either. -/
def DayTrip.StaysAhead (d d' : DayTrip) (i j : Nat) : Prop :=
  ∀ c ∈ d.calls[i]?, ∀ c' ∈ d'.calls[i]?, ∀ e ∈ d.calls[j]?, ∀ e' ∈ d'.calls[j]?,
    c.departure ≤ c'.departure → e.arrival ≤ e'.arrival

instance (d d' : DayTrip) (i j : Nat) : Decidable (d.StaysAhead d' i j) :=
  inferInstanceAs (Decidable (∀ c ∈ d.calls[i]?, ∀ c' ∈ d'.calls[i]?, ∀ e ∈ d.calls[j]?,
    ∀ e' ∈ d'.calls[j]?, c.departure ≤ c'.departure → e.arrival ≤ e'.arrival))

namespace PatternView

/-- No trip overtakes another one, and all may be caught and left at every stop. -/
structure IsOrderly (v : PatternView) : Prop where
  inTurn : ∀ d ∈ v.trips, ∀ d' ∈ v.trips, ∀ j < v.stops.size, ∀ i < j, d.StaysAhead d' i j
  routable : ∀ d ∈ v.trips, ∀ c ∈ d.calls,
    c.pickup.isRoutable = true ∧ c.dropOff.isRoutable = true

instance (v : PatternView) : Decidable v.IsOrderly :=
  decidable_of_iff
    ((∀ d ∈ v.trips, ∀ d' ∈ v.trips, ∀ j < v.stops.size, ∀ i < j, d.StaysAhead d' i j)
      ∧ ∀ d ∈ v.trips, ∀ c ∈ d.calls, c.pickup.isRoutable = true ∧ c.dropOff.isRoutable = true)
    ⟨fun h => ⟨h.1, h.2⟩, fun h => ⟨h.inTurn, h.routable⟩⟩

end PatternView

namespace Request

/-- A request that takes any trip at any stop. -/
structure IsUnrestricted (r : Request) : Prop where
  trips : r.bannedTrips = []
  stops : r.bannedStops = []
  wheelchair : r.wheelchair = false
  bikes : r.bikes = false

/-- Where walks and street legs can follow one another there is a single one that takes
no longer, and no stop has street legs of both ends. -/
structure WalksClosed (r : Request) (t : Timetable) : Prop where
  onward : ∀ stop < t.numStops, ∀ k ∈ t.transfersFrom stop, ∀ k' ∈ t.transfersFrom k.target,
    k'.target ≠ stop → ∃ k'' ∈ t.transfersFrom stop, k''.target = k'.target
      ∧ k''.duration ≤ k.duration + k'.duration
  access : ∀ leg ∈ r.access, ∀ k ∈ t.transfersFrom leg.stop, ∃ leg' ∈ r.access,
    leg'.stop = k.target ∧ leg'.duration ≤ leg.duration + k.duration
  egress : ∀ stop < t.numStops, ∀ k ∈ t.transfersFrom stop, ∀ leg ∈ r.egress,
    leg.stop = k.target → ∃ leg' ∈ r.egress, leg'.stop = stop
      ∧ leg'.duration ≤ k.duration + leg.duration
  apart : ∀ leg ∈ r.access, ∀ leg' ∈ r.egress, leg.stop ≠ leg'.stop

theorem IsUnrestricted.permits {r : Request} (h : r.IsUnrestricted) {trip : Trip}
    {position stop : Nat} (hcalled : trip.isCancelledAt position = false) :
    r.Permits trip position stop where
  called := hcalled
  stop := by simp [h.stops]
  bans := by simp [h.trips]
  wheelchair := by simp [h.wheelchair]
  bikes := by simp [h.bikes]

end Request

namespace Search

variable {s : Search} {searchDate : Date}

/-- Which trips overtake others does not depend on how sums are kept, if they fit. -/
theorem IsOrderly.exact (hs : s.WellFormed) (hfits : s.Fits searchDate) (ho : s.IsOrderly) :
    s.exact.IsOrderly where
  inTurn {v d d' i stop j stop' boardCall boardCall' call} hgo hcaught hbetter := by
    have hleft : ∀ {d : DayTrip} {call : Call}, (∃ index, PatternView.tripIn? v.days index = some d) →
        d.calls[j]? = some call → s.heading.alightTime call = s.exact.heading.alightTime call := by
      rintro d call ⟨index, hd⟩ hcall
      exact hfits.alightTime_exact hs (mem_callTimes hgo.caught.view hd hcall).2
    have hgo' : s.Goes v d i stop j stop' boardCall call :=
      ⟨⟨hgo.caught.view, hgo.caught.trip, hgo.caught.stands, hgo.caught.allowed⟩, hgo.order,
        hgo.leaves, hgo.allowed⟩
    obtain ⟨call', hgoes, halight⟩ := ho.inTurn hgo'
      ⟨hcaught.view, hcaught.trip, hcaught.stands, hcaught.allowed⟩ hbetter
    rw [hleft hcaught.trip hgoes.leaves.2, hleft hgo.caught.trip hgo.leaves.2] at halight
    exact ⟨call', ⟨hcaught, hgoes.order, hgoes.leaves, hgoes.allowed⟩, halight⟩

theorem WalksClosed.exact (h : s.WalksClosed) : s.exact.WalksClosed :=
  ⟨h.onward, h.target⟩

theorem StreetsClosed.exact (h : s.StreetsClosed) : s.exact.StreetsClosed :=
  ⟨h.onward, h.apart⟩

end Search

namespace Router

variable {x : Router} {r : Request} {watch : Option Watch} {supervisor : Supervisor} {s : Search}

/-- Whoever may be caught at a call was not cancelled there. -/
theorem called_of_routable (hx : x.Deployed) (h : x.search r watch supervisor = .ok s)
    {v : PatternView} (hv : v ∈ s.viewList) {d : DayTrip} (hd : d ∈ v.trips) {position : Nat}
    {call : Call} (hcall : d.calls[position]? = some call) (hpickup : call.pickup.isRoutable = true) :
    d.trip.isCanceled = false ∧ d.trip.isCancelledAt position = false := by
  obtain ⟨i, p, dates, hp, -, rfl⟩ := view_of_mem h hv
  obtain ⟨index, hd⟩ := PatternView.mem_trips.mp hd
  obtain ⟨trip, hruns⟩ := Snapshot.runsOn_of_view hd
  obtain ⟨j, -, hversion⟩ := hruns.version
  obtain ⟨-, published, -, -, hrevises⟩ := hx.published hversion
  have hsame : d.trip = trip := by rw [hruns.calls]; rfl
  rw [hruns.calls] at hcall
  simp only [DayTrip.ofTrip, List.getElem?_toArray, List.getElem?_map, Option.map_eq_some_iff] at hcall
  obtain ⟨c, hc, rfl⟩ := hcall
  have husable := hruns.usable
  simp only [Trip.isUsable, Bool.and_eq_true, Bool.not_eq_true'] at husable
  refine ⟨hsame ▸ husable.1, ?_⟩
  rw [hsame, Trip.isCancelledAt, Trip.call?_eq, hc, Option.any_some, ← Bool.not_eq_true]
  intro hcancelled
  have hshut := (hrevises.shut c (List.mem_of_getElem? hc) hcancelled).1
  rw [Call.later, hshut] at hpickup
  exact absurd hpickup (by decide)

theorem accepts_of_routable (hx : x.Deployed) (h : x.search r watch supervisor = .ok s)
    (hopen : r.IsUnrestricted) {v : PatternView} (hv : v ∈ s.viewList) {d : DayTrip}
    (hd : d ∈ v.trips) {position stop : Nat} {call : Call} (hcall : d.calls[position]? = some call)
    (hpickup : call.pickup.isRoutable = true) : s.filter.accepts d.trip position stop = true := by
  have hruns := called_of_routable hx h hv hd hcall hpickup
  obtain ⟨limits, dates, -, -, rfl⟩ := search_eq_ok h
  exact TripFilter.accepts_ofRequest.mpr ⟨hruns.1, hopen.permits hruns.2⟩

theorem isOrderly_of_views (hx : x.Deployed) (h : x.search r watch supervisor = .ok s)
    (hforward : r.direction = .forward) (hopen : r.IsUnrestricted)
    (horder : ∀ v ∈ s.viewList, v.IsOrderly) : s.IsOrderly := by
  constructor
  intro v d d' i stop j stop' boardCall boardCall' call hgo hcaught hbetter
  have hd := PatternView.mem_trips.mpr hgo.caught.trip
  have hd' := PatternView.mem_trips.mpr hcaught.trip
  obtain ⟨index, htrip⟩ := hcaught.trip
  have hj : j < v.stops.size := (Array.getElem?_eq_some_iff.mp hgo.leaves.1).1
  have hsize : j < d'.calls.size := by
    rwa [((hx.wellFormed h).complete v hcaught.view index d' htrip).1]
  have hcall : d'.calls[j]? = some d'.calls[j] := Array.getElem?_eq_getElem hsize
  have hroutable := (horder v hcaught.view).routable d' hd' d'.calls[j] (Array.getElem_mem hsize)
  have haccepts : s.filter.accepts d'.trip j stop' = true :=
    accepts_of_routable hx h hopen hcaught.view hd' hcall hroutable.1
  have hdirection := (direction_of_search h).trans hforward
  have hi : i < j := by
    have hprecedes := hgo.order
    rwa [Heading.Precedes, hdirection] at hprecedes
  simp only [Heading.betterOrEqual, Heading.boardTime, Heading.alightTime, hdirection,
    decide_eq_true_eq] at hbetter ⊢
  refine ⟨d'.calls[j], ⟨hcaught, hgo.order, ⟨hgo.leaves.1, hcall⟩, ?_, haccepts⟩, ?_⟩
  · rw [Heading.alightRule, hdirection]
    exact hroutable.2
  · exact (horder v hcaught.view).inTurn d' hd' d hd j hj i hi boardCall' hcaught.stands.2 boardCall
      hgo.caught.stands.2 _ hcall call hgo.leaves.2 hbetter

theorem walksClosed_of_request (hx : x.Deployed) (h : x.search r watch supervisor = .ok s)
    (hforward : r.direction = .forward) (hwalks : r.WalksClosed x.timetable) :
    s.WalksClosed ∧ s.StreetsClosed := by
  obtain ⟨limits, dates, -, -, rfl⟩ := search_eq_ok h
  refine ⟨⟨?_, ?_⟩, ⟨?_, ?_⟩⟩
  · intro stop k k' hk hk' hne
    simp only [Search.ofRequest, Search.headingOf, Heading.walks, hforward] at hk hk' ⊢
    exact hwalks.onward stop (hx.sound.walks hk).1 k hk k' hk' hne
  · intro stop k d hk hd
    rw [Search.mem_targetDurations] at hd
    simp only [Search.ofRequest, Search.headingOf, Search.targetOf, Heading.walks, hforward]
      at hk hd
    obtain ⟨leg, hleg, hstop, hduration⟩ :=
      hwalks.egress stop (hx.sound.walks hk).1 k hk _ hd rfl
    refine ⟨leg.duration, Search.mem_targetDurations.mpr ?_, hduration⟩
    simp only [Search.ofRequest, Search.targetOf, hforward]
    exact hstop ▸ hleg
  · intro leg hleg k hk
    simp only [Search.ofRequest, Search.headingOf, Search.originOf, Heading.walks, hforward]
      at hleg hk ⊢
    exact hwalks.access leg hleg k hk
  · intro leg hleg
    simp only [Search.ofRequest, Search.originOf, hforward] at hleg
    rw [List.eq_nil_iff_forall_not_mem]
    intro d hd
    rw [Search.mem_targetDurations] at hd
    simp only [Search.ofRequest, Search.targetOf, hforward] at hd
    exact hwalks.apart leg hleg _ hd rfl

/-- A view has the usable version of each trip that runs on one of its dates. -/
theorem ofTrip_mem_trips {t : Timetable} {sn : Snapshot} {pattern index : Nat} {trip : Trip}
    {date : Date} {dates : List Date} (stops : List Nat) (searchDate : Date) (hdate : date ∈ dates)
    (hindex : index ∈ t.tripsOnDate pattern date)
    (hversion : sn.trip? t ⟨pattern, index⟩ = some trip) (husable : trip.isUsable = true) :
    DayTrip.ofTrip trip date (searchDate.daysUntil date * secondsOfDay)
      ∈ (PatternView.ofDates t sn pattern stops searchDate dates).trips := by
  simp only [PatternView.trips, PatternView.ofDates, List.mem_flatMap, List.mem_map]
  refine ⟨_, ⟨_, hdate, rfl⟩, ?_⟩
  simp only [DayTrips.ofDate, List.mem_map, List.mem_filter, List.mem_filterMap]
  exact ⟨trip, ⟨⟨index, hindex, hversion⟩, husable⟩, DayTrip.ofTrip_dayOffset ..⟩

/-- Whatever ride is possible is one of the search. -/
theorem hasLeg_of_isPossible (hx : x.Deployed) (hfits : x.Fits r)
    (h : x.search r watch supervisor = .ok s) {l : Leg} (hl : l.IsPossible x r) : s.HasLeg l := by
  have htrips := (hfits.of_search h).trips
  obtain ⟨limits, dates, -, hdates, rfl⟩ := search_eq_ok h
  obtain ⟨haccess, hegress⟩ := streetLegs_ofRequest x.timetable x.snapshot x.settings r limits dates
    watch supervisor
  cases l with
  | access stop b e cost =>
      rw [Search.HasLeg, haccess]
      exact hl
  | egress stop b e cost =>
      rw [Search.HasLeg, hegress]
      exact hl
  | transfer fromStop toStop b e cost => exact hl
  | transit ride =>
      obtain ⟨p, hp, hfrom, hto, hroute⟩ := hl.stops
      obtain ⟨index, base, trip, boardCall, alightCall, hbase, hactive, hversion, hruns, husable, htrip,
        hboard, halight, hstart, hend, hpickup, hdropOff, hcatch, hleave⟩ := hl.runs
      obtain ⟨p', published, hp', hpublished, hrevises⟩ := hx.published hversion
      obtain rfl : p = p' := Option.some.inj (hp.symm.trans hp')
      have hdate : ride.serviceDate ∈ dates := (mem_datesFor hfits.days hdates).mpr hl.within
      have hday := ofTrip_mem_trips p.stops r.date hdate
        (Timetable.mem_tripsOnDate.mpr ⟨base, hbase, hactive⟩) hversion husable
      obtain ⟨i, hi⟩ := PatternView.mem_trips.mp hday
      have hview : (Search.ofRequest x.timetable x.snapshot x.settings r limits dates watch
          supervisor).viewList[ride.pattern]?
            = some (.ofDates x.timetable x.snapshot ride.pattern p.stops r.date dates) := by
        rw [viewList_ofRequest, hp]
        rfl
      have hlater := (htrips _ (List.mem_of_getElem? hview) _ hday).onDay
      refine ⟨_, _, _, ⟨⟨_, i, hview, hi, ?_, ?_⟩, hl.order,
        (DayTrip.call_ofTrip hlater).mpr ⟨_, hboard, rfl⟩,
        (DayTrip.call_ofTrip hlater).mpr ⟨_, halight, rfl⟩, hpickup, hdropOff, ?_, ?_⟩, htrip.symm, ?_,
        rfl, hstart, hend⟩
      · simpa [PatternView.ofDates] using hfrom
      · simpa [PatternView.ofDates] using hto
      · exact TripFilter.accepts_ofRequest.mpr ⟨hruns, hcatch⟩
      · exact TripFilter.accepts_ofRequest.mpr ⟨hruns, hleave⟩
      · rw [← hroute, ← hpublished.route, ← hrevises.details]
        rfl

end Router

namespace Search

variable {s : Search} {start : Time} {rides : Nat}

/-- What a traveller attains who took a leg, having left the origin from a time on and
made so many rides. -/
def StandsAfter (s : Search) (start : Time) (rides : Nat) : Leg → Prop
  | .access stop _ e _ => s.Attains start false rides stop e
  | .transit r => s.Attains start true rides r.toStop r.endTime
  | .transfer _ stop _ e _ => s.Attains start false rides stop e
  | .egress stop b e _ => ∃ time ≤ b, s.Attains start true rides stop time
      ∧ e - b ∈ s.targetDurations stop

theorem goes_of_hasLeg (hd : s.heading.direction = .forward) {r : Ride} (h : s.HasLeg (.transit r)) :
    ∃ v d boardCall call, s.Goes v d r.boardPosition r.fromStop r.alightPosition r.toStop boardCall call
      ∧ r.startTime = s.heading.boardTime boardCall ∧ r.endTime = s.heading.alightTime call := by
  obtain ⟨d, boardCall, call, hr, -, -, -, hstart, hend⟩ := h
  obtain ⟨v, index, hv, htrip, hfrom, hto⟩ := hr.view
  refine ⟨v, d, boardCall, call, ⟨⟨List.mem_of_getElem? hv, ⟨index, htrip⟩, ⟨hfrom, hr.boards⟩, ?_,
    hr.boardAccepted⟩, ?_, ⟨hto, hr.alights⟩, ?_, hr.alightAccepted⟩, ?_, ?_⟩
  · simpa only [Heading.boardRule, hd] using hr.pickup
  · simpa only [Heading.Precedes, hd] using hr.order
  · simpa only [Heading.alightRule, hd] using hr.dropOff
  · simpa only [Heading.boardTime, hd] using hstart
  · simpa only [Heading.alightTime, hd] using hend

theorem boardLimit_of_forward (hx : s.heading.IsExact) (hd : s.heading.direction = .forward)
    {time : Time} {r : Ride} {boardCall : Call}
    (htime : time + s.heading.boardSlack ≤ r.startTime)
    (hstart : r.startTime = s.heading.boardTime boardCall) :
    s.heading.betterOrEqual (s.heading.boardLimit time) (s.heading.boardTime boardCall) = true := by
  simp only [Heading.betterOrEqual, Heading.boardLimit, hd, hx.keep, decide_eq_true_eq]
  exact hstart ▸ htime

theorem Attains.transit (hx : s.heading.IsExact) (hd : s.heading.direction = .forward)
    (hstreets : s.StreetsClosed) {r : Ride} {ridden : Bool} {time : Time}
    (h : s.Attains start ridden rides r.fromStop time)
    (htime : time + s.heading.boardSlack ≤ r.startTime) (hr : s.HasLeg (.transit r)) :
    s.Attains start true (rides + 1) r.toStop r.endTime := by
  obtain ⟨v, d, boardCall, call, hgo, hstart, hend⟩ := goes_of_hasLeg hd hr
  rw [hend]
  exact .ride h hgo (boardLimit_of_forward hx hd htime hstart) (Or.inl hstreets)

/-- Whoever stands after a leg can take any leg that may follow it. -/
theorem StandsAfter.follows (hx : s.heading.IsExact) (hd : s.heading.direction = .forward)
    (hstreets : s.StreetsClosed) {l m : Leg} (h : s.StandsAfter start rides l)
    (hfollows : l.Follows s.heading.boardSlack m)
    (hm : s.HasLeg m) : s.StandsAfter start (rides + if m.isTransit then 1 else 0) m := by
  cases l with
  | egress => cases m <;> exact hfollows.elim
  | access stop b e cost =>
      cases m with
      | transit r =>
          obtain ⟨rfl, htime⟩ := hfollows
          exact Attains.transit hx hd hstreets h htime hm
      | access => exact hfollows.elim
      | transfer => exact hfollows.elim
      | egress => exact hfollows.elim
  | transfer fromStop toStop b e cost =>
      cases m with
      | transit r =>
          obtain ⟨rfl, htime⟩ := hfollows
          exact Attains.transit hx hd hstreets h htime hm
      | access => exact hfollows.elim
      | transfer => exact hfollows.elim
      | egress => exact hfollows.elim
  | transit q =>
      cases m with
      | access => exact hfollows.elim
      | transit r =>
          obtain ⟨hstop, htime⟩ := hfollows
          have hattains : s.Attains start true rides r.fromStop q.endTime := by
            rw [← hstop]
            exact h
          exact hattains.transit hx hd hstreets htime hm
      | transfer fromStop toStop b e cost =>
          obtain ⟨rfl, htime⟩ := hfollows
          have hk : (⟨toStop, e - b⟩ : Transfer) ∈ s.heading.walks s.timetable q.toStop := by
            rw [Heading.walks, hd]
            exact hm
          refine Attains.walk h hk ?_
          simp only [Heading.betterOrEqual, Heading.advance, hd, hx.keep, decide_eq_true_eq]
          grind
      | egress stop b e cost =>
          obtain ⟨rfl, htime⟩ := hfollows
          simp only [HasLeg, egressLegs, hd] at hm
          exact ⟨q.endTime, htime, h, mem_targetDurations.mpr hm⟩

theorem StandsAfter.chain (hx : s.heading.IsExact) (hd : s.heading.direction = .forward)
    (hstreets : s.StreetsClosed) {l m : Leg} {legs : List Leg} (h : s.StandsAfter start rides l)
    (hchain : (l :: (legs ++ [m])).IsChain (Leg.Follows s.heading.boardSlack))
    (hlegs : ∀ m' ∈ legs ++ [m], s.HasLeg m') :
    s.StandsAfter start (rides + ((legs ++ [m]).filter Leg.isTransit).length) m := by
  have hcount : ∀ {l : Leg} {ls : List Leg}, ((l :: ls).filter Leg.isTransit).length =
      (if l.isTransit then 1 else 0) + (ls.filter Leg.isTransit).length := by
    intro l ls
    rw [← List.countP_eq_length_filter, ← List.countP_eq_length_filter, List.countP_cons, Nat.add_comm]
  induction legs generalizing l rides with
  | nil =>
      rw [List.nil_append, hcount]
      exact h.follows hx hd hstreets hchain.rel (hlegs m (List.mem_singleton.mpr rfl))
  | cons l' legs ih =>
      obtain ⟨hfollows, hchain⟩ := List.isChain_cons_cons.mp hchain
      obtain ⟨hl', hlegs⟩ := List.forall_mem_cons.mp hlegs
      rw [List.cons_append, hcount, ← Nat.add_assoc]
      exact ih (h.follows hx hd hstreets hfollows hl') hchain hlegs

/-- Whoever travels attains the destination. -/
theorem Travels.attains (hx : s.heading.IsExact) (hd : s.heading.direction = .forward)
    (hstreets : s.StreetsClosed) {legs : List Leg} {departure arrival : Time}
    (h : s.Travels legs departure arrival) (hleaves : start ≤ departure) :
    ∃ stop time, s.Attains start true (legs.filter Leg.isTransit).length stop time
      ∧ ∃ d ∈ s.targetDurations stop, time + d ≤ arrival := by
  obtain ⟨origin, begun, cost, middle, destination, last, cost', rfl⟩ := h.ends
  obtain ⟨haccess, hlegs⟩ := List.forall_mem_cons.mp h.each
  simp only [HasLeg, accessLegs, hd] at haccess
  have hstart : s.StandsAfter start 0 (.access origin departure begun cost) := by
    have hbegun : s.heading.advance departure (begun - departure) = begun := by
      simp only [Heading.advance, hd, hx.keep]
      grind
    have htime : s.heading.betterOrEqual start departure = true := by
      simpa only [Heading.betterOrEqual, hd, decide_eq_true_eq] using hleaves
    have hstreet : s.Attains start false 0 origin (s.heading.advance departure (begun - departure)) :=
      .street haccess htime
    exact hbegun ▸ hstreet
  obtain ⟨time, htime, hattains, hduration⟩ := hstart.chain hx hd hstreets h.chain hlegs
  rw [Nat.zero_add] at hattains
  exact ⟨destination, time, hattains, _, hduration, by grind⟩

/-- Whoever travels is served. -/
theorem Travels.serves (hs : s.WellTimed) (ho : s.IsOrderly) (hclosed : s.WalksClosed)
    (hstreets : s.StreetsClosed) (hd : s.heading.direction = .forward)
    (hsorted : s.times.Pairwise fun a b => s.heading.betterOrEqual b a = true)
    (ht : start ∈ s.times) {legs : List Leg} {departure arrival : Time}
    (h : s.Travels legs departure arrival) (hleaves : start ≤ departure)
    (hrides : (legs.filter Leg.isTransit).length ≤ s.maxRounds) : s.chart.Serves s start arrival := by
  obtain ⟨stop, time, hattains, d, hduration, harrival⟩ := h.attains hs.exact hd hstreets hleaves
  obtain ⟨past, c, hexhausts, himproves⟩ := Chart.exhausts_of_mem hs ho hclosed hsorted ht
  have hserves := Chart.serves_of_attains hs hexhausts hattains hrides hduration
  refine himproves.serves (hserves.weaken (s.heading.betterOrEqual_refl _) ?_)
  simpa only [Heading.betterOrEqual, Heading.advance, hd, hs.exact.keep, decide_eq_true_eq]
    using harrival

end Search

namespace Router

variable {x : Router} {r : Request} {watch : Option Watch} {supervisor : Supervisor} {s : Search}

/-- What an answer that was searched to the end has for whoever is served. -/
theorem itinerary_of_serves (hx : x.Deployed) (hsearch : x.search r watch supervisor = .ok s)
    (hfits : s.Fits r.date) {response : Response} {events : List Event}
    (h : x.routeWatched r watch supervisor = .ok (response, events))
    (hcomplete : response.status = .complete) {start time : Time}
    (hserves : s.exact.chart.Serves s.exact start time) :
    ∃ it ∈ response.itineraries, ∃ m : Merits, s.heading.betterOrEqual start m.originTime = true
      ∧ s.heading.betterOrEqual m.time time = true ∧ it.departureTime = s.departure m
      ∧ it.arrivalTime = s.arrival m := by
  obtain ⟨p, hrun, -, hchart, hlisted⟩ := run_of_routeWatched hx hsearch hfits h
  obtain ⟨j, hj, hleaves, harrives⟩ := hserves
  rw [← hchart hcomplete] at hj
  obtain ⟨d, hd, rfl⟩ := List.mem_map.mp hj
  obtain ⟨it, hok, -, hdeparture, harrival⟩ :=
    Search.itinerary_of_run (hx.wellFormed hsearch).exact hrun hd
  exact ⟨it, hlisted.mpr ⟨d, hd, hok⟩, d.merits, hleaves, harrives, hdeparture, harrival⟩

end Router

namespace FeederLine

open ThreeLines (day line)

/-- A line to a stop from where one walks to another line. -/
def builder : Builder :=
  ((Builder.ofTrips ["O", "A", "B", "D"] "W" [day]
    [line "f1" "f" [("O", 120), ("A", 300)], line "f2" "f" [("O", 180), ("A", 360)],
      line "m1" "m" [("B", 400), ("D", 600)], line "m2" "m" [("B", 480), ("D", 660)]]).addTransfers
    [("A", "B", 60)]).toOption.get (by decide +kernel)

theorem builder_assembled : builder.Assembled :=
  (Builder.assembled_ofTrips ..).addTransfers (Fallible.toOption_eq_some.mp (Option.some_get _).symm)

def router : Router where
  timetable := builder.timetable (by decide +kernel)

def request : Request where
  date := day
  time := 0
  searchWindow := some 240
  policy := .arrivalTimeOnly
  access := [⟨0, 0⟩]
  egress := [⟨3, 0⟩]

theorem router_deployed : router.Deployed :=
  Router.deployed_of_assembled builder_assembled _ {}

end FeederLine

namespace LateWalk

open ThreeLines (day line)

/-- One line arrives in the last second that 32 bits tell apart, where a walk begins to the
stop that the other line goes to. -/
def builder : Builder :=
  ((Builder.ofTrips ["O", "S", "T"] "W" [day]
    [line "u" "u" [("O", 100), ("S", greatestTime)], line "v" "v" [("O", 30), ("T", 2000)]]).addTransfers
    [("S", "T", 60)]).toOption.get (by decide +kernel)

theorem builder_assembled : builder.Assembled :=
  (Builder.assembled_ofTrips ..).addTransfers (Fallible.toOption_eq_some.mp (Option.some_get _).symm)

def router : Router where
  timetable := builder.timetable (by decide +kernel)

theorem router_deployed : router.Deployed :=
  Router.deployed_of_assembled builder_assembled _ {}

def request : Request where
  date := day
  time := 0
  searchWindow := some 120
  policy := .arrivalTimeOnly
  access := [⟨0, 0⟩]
  egress := [⟨1, 0⟩, ⟨2, 0⟩]

def ride : Ride where
  pattern := 1
  routeId := "v"
  tripId := "v"
  serviceDate := day
  headsign := none
  fromStop := 0
  boardPosition := 0
  toStop := 2
  alightPosition := 1
  startTime := 30
  endTime := 2000
  cost := 257000

def journey : Itinerary where
  legs := [.access 0 30 30 0, .transit ride, .egress 2 2000 2000 0]
  departureTime := 30
  arrivalTime := 2000
  transfers := 0
  generalizedCost := 257000

def trip : Trip :=
  (router.timetable.scheduledTrip? ⟨1, 0⟩).get (by decide +kernel)

theorem request_isUnrestricted : request.IsUnrestricted :=
  ⟨rfl, rfl, rfl, rfl⟩

theorem ride_isPossible : ride.IsPossible router request where
  order := by decide
  stops := ⟨router.timetable.patterns[1], by decide +kernel⟩
  within := by decide +kernel
  runs := by
    refine ⟨0, trip, trip,
      { arrival := 30, departure := 30, pickup := .scheduled, dropOff := .scheduled },
      { arrival := 2000, departure := 2000, pickup := .scheduled, dropOff := .scheduled }, ?_, ?_, ?_, ?_, ?_, ?_, ?_, ?_, ?_, ?_, rfl, rfl, request_isUnrestricted.permits ?_,
      request_isUnrestricted.permits ?_⟩ <;> decide +kernel

theorem journey_isTravellable : journey.IsTravellable router request where
  ends := ⟨0, 30, 0, [.transit ride], 2, 2000, 0, rfl⟩
  each := by
    have haccess : (Leg.access 0 30 30 0).IsPossible router request := by simp [Leg.IsPossible, request]
    have hegress : (Leg.egress 2 2000 2000 0).IsPossible router request := by
      simp [Leg.IsPossible, request]
    simp only [journey, List.forall_mem_cons, List.not_mem_nil, false_implies, implies_true, and_true]
    exact ⟨⟨haccess, by decide⟩, ⟨ride_isPossible, by decide⟩, hegress, by decide⟩
  chain := .cons_cons ⟨rfl, by decide⟩ (.cons_cons ⟨rfl, by decide⟩ (.singleton _))
  ordered := by decide

end LateWalk

end JourneyPlanner
