import JourneyPlanner.Proofs.ExactLegs

/-!
Every itinerary of an answer can be travelled: on trips that run, where getting on
and off is possible and the request does not forbid it, with time to board each of
them. It does not matter where the search was stopped.
-/

namespace JourneyPlanner

/-- Nothing forbids to catch or leave a trip at a call. -/
structure Request.Permits (r : Request) (trip : Trip) (position stop : Nat) : Prop where
  called : trip.isCancelledAt position = false
  stop : stop ∉ r.bannedStops
  bans : ∀ b ∈ r.bannedTrips, b.tripId = trip.details.tripId →
    b.positions ≠ [] ∧ position ∉ b.positions
  wheelchair : r.wheelchair = true → trip.details.wheelchair = .allowed
  bikes : r.bikes = true → trip.details.bikes = .allowed

namespace TripFilter

theorem covers_extend {positions : List Nat} {old : Option Ban} {position : Nat} :
    (Ban.extend positions old).covers position = true ↔
      old.any (fun b => b.covers position) = true ∨ positions = [] ∨ position ∈ positions := by
  unfold Ban.extend
  cases positions with
  | nil => simp [Ban.covers]
  | cons p ps =>
      cases old with
      | none => simp [Ban.covers]
      | some ban =>
          cases ban with
          | wholeTrip => simp [Ban.covers]
          | positions qs => simp [Ban.covers]

theorem bans_foldl {banned : List BannedTrip} {bans : List (String × Ban)} {tripId : String}
    {position : Nat} :
    ((Association.find? tripId (banned.foldl
        (fun bans b => Association.alter b.tripId (Ban.extend b.positions) bans) bans)).any
          fun b => b.covers position) = true ↔
      ((Association.find? tripId bans).any fun b => b.covers position) = true
        ∨ ∃ b ∈ banned, b.tripId = tripId ∧ (b.positions = [] ∨ position ∈ b.positions) := by
  induction banned generalizing bans with
  | nil => simp
  | cons b banned ih =>
      rw [List.foldl_cons, ih, Association.find?_alter]
      by_cases hid : b.tripId = tripId
      · subst hid
        simp only [if_true, Option.any_some, covers_extend, List.exists_mem_cons_iff, true_and,
          or_assoc]
      · simp only [hid, if_false, List.exists_mem_cons_iff, false_and, false_or]

theorem accepts_ofRequest {r : Request} {trip : Trip} {position stop : Nat} :
    (ofRequest r).accepts trip position stop = true ↔
      trip.isCanceled = false ∧ r.Permits trip position stop := by
  have hbans : ((ofRequest r).bans? trip.details.tripId position = true) ↔
      ∃ b ∈ r.bannedTrips, b.tripId = trip.details.tripId
        ∧ (b.positions = [] ∨ position ∈ b.positions) := by
    rw [bans?, ofRequest, bansOf, bans_foldl]
    simp [Association.find?]
  rw [← not_iff_not, Bool.not_eq_true] at hbans
  rw [accepts, Bool.and_eq_true, Bool.not_eq_true', hbans]
  simp only [Bool.and_eq_true, Bool.not_eq_true', allowsStop, suits, Bool.or_eq_true, beq_iff_eq,
    ofRequest]
  constructor
  · rintro ⟨⟨⟨⟨hruns, hcalled⟩, hstop⟩, hwheelchair, hbikes⟩, hnone⟩
    refine ⟨hruns, hcalled, by simpa using hstop, fun b hb hid => ?_, ?_, ?_⟩
    · exact not_or.mp fun hcovers => hnone ⟨b, hb, hid, hcovers⟩
    · exact fun hw => hwheelchair.resolve_left (by simp [hw])
    · exact fun hb => hbikes.resolve_left (by simp [hb])
  · rintro ⟨hruns, hpermits⟩
    refine ⟨⟨⟨⟨hruns, hpermits.called⟩, by simpa using hpermits.stop⟩, ?_, ?_⟩, ?_⟩
    · rw [← Bool.not_eq_true, ← Decidable.imp_iff_not_or]
      exact hpermits.wheelchair
    · rw [← Bool.not_eq_true, ← Decidable.imp_iff_not_or]
      exact hpermits.bikes
    · rintro ⟨b, hb, hid, hcovers⟩
      exact not_or.mpr (hpermits.bans b hb hid) hcovers

end TripFilter

/-- A ride from one stop of a pattern to a later one, on a trip that runs on its
service date, at the times at which it is expected there. -/
structure Ride.IsPossible (x : Router) (r : Request) (ride : Ride) : Prop where
  order : ride.boardPosition < ride.alightPosition
  stops : ∃ p, x.timetable.patterns[ride.pattern]? = some p
    ∧ p.stops[ride.boardPosition]? = some ride.fromStop
    ∧ p.stops[ride.alightPosition]? = some ride.toStop ∧ p.routeId = ride.routeId
  within : -(x.settings.searchDaysBefore : Int) ≤ r.date.daysUntil ride.serviceDate
    ∧ r.date.daysUntil ride.serviceDate ≤ x.settings.searchDaysAfter
  runs : ∃ index base trip boardCall alightCall,
    x.timetable.scheduledTrip? ⟨ride.pattern, index⟩ = some base
      ∧ x.timetable.calendar.isActive base.details.serviceCode ride.serviceDate = true
      ∧ x.snapshot.trip? x.timetable ⟨ride.pattern, index⟩ = some trip
      ∧ trip.isCanceled = false ∧ trip.isUsable = true ∧ trip.details.tripId = ride.tripId
      ∧ trip.call? ride.boardPosition = some boardCall
      ∧ trip.call? ride.alightPosition = some alightCall
      ∧ ride.startTime = boardCall.departure + r.date.daysUntil ride.serviceDate * secondsOfDay
      ∧ ride.endTime = alightCall.arrival + r.date.daysUntil ride.serviceDate * secondsOfDay
      ∧ boardCall.pickup.isRoutable = true ∧ alightCall.dropOff.isRoutable = true
      ∧ r.Permits trip ride.boardPosition ride.fromStop
      ∧ r.Permits trip ride.alightPosition ride.toStop

def Leg.IsPossible (x : Router) (r : Request) : Leg → Prop
  | .access stop b e _ => ⟨stop, e - b⟩ ∈ r.access
  | .egress stop b e _ => ⟨stop, e - b⟩ ∈ r.egress
  | .transfer fromStop toStop b e _ => ⟨toStop, e - b⟩ ∈ x.timetable.transfersFrom fromStop
  | .transit ride => ride.IsPossible x r

/-- A street leg, trips with at most one walk from one to the next, and a street leg;
each begins at the stop where the one before it ends, not before it ends, and a trip
only after the time kept for boarding. -/
structure Itinerary.IsTravellable (x : Router) (r : Request) (it : Itinerary) : Prop where
  ends : ∃ origin start cost middle destination last cost',
    it.legs = .access origin it.departureTime start cost
      :: (middle ++ [.egress destination last it.arrivalTime cost'])
  each : ∀ l ∈ it.legs, l.IsPossible x r ∧ l.startTime ≤ l.endTime
  chain : it.legs.IsChain (Leg.Follows (r.limits x.settings).boardSlack)
  ordered : it.legs.IsChain fun l m => l.endTime ≤ m.startTime

theorem Leg.Follows.ordered {l m : Leg} {slack : Time} (h : l.Follows slack m) (hslack : 0 ≤ slack) :
    l.endTime ≤ m.startTime := by
  have hboard : ∀ {a b : Time}, a + slack ≤ b → a ≤ b := by grind
  cases l <;> cases m <;> first | exact h.elim | exact hboard h.2 | exact h.2

namespace Date

theorem le_iff_day_le {d d' : Date} : d ≤ d' ↔ d.day ≤ d'.day :=
  Iff.rfl

theorem lt_iff_day_lt {d d' : Date} : d < d' ↔ d.day < d'.day :=
  Iff.rfl

theorem day_of_addDays? {d day : Date} {n : Int} : d.addDays? n = some day ↔ day.day = d.day + n := by
  simp only [addDays?, ofDay?, Option.dite_none_right_eq_some, Option.some_inj]
  constructor
  · rintro ⟨-, rfl⟩
    rfl
  · intro h
    exact ⟨h ▸ day.inRange, Date.ext h.symm⟩

/-- A step that leaves the range of dates gives another date instead. -/
theorem day_addDays?_getD (d : Date) (days : Int) (other : Date) :
    ((d.addDays? days).getD other).day
      = if firstDayNumber ≤ d.day + days ∧ d.day + days ≤ lastDayNumber
        then d.day + days else other.day := by
  unfold addDays? ofDay?
  split <;> rfl

/-- A window begins and ends within the range of all dates. -/
theorem window_eq_ok {d : Date} {before after : Nat} {dates : List Date}
    (h : d.window before after = .ok dates) :
    ∃ first : Date, first.day = d.day - before
      ∧ first.day + ((before + after + 1) % 4294967296 : Nat) - 1 ≤ lastDayNumber
      ∧ dates = first.consecutive ((before + after + 1) % 4294967296) := by
  unfold window at h
  cases hfirst : d.addDays? (-(before : Int)) with
  | none => simp [hfirst] at h
  | some first =>
      simp only [hfirst] at h
      split at h
      case isFalse => simp at h
      case isTrue hlast =>
        have hday := day_of_addDays?.mp hfirst
        exact ⟨first, by omega, hlast, (Except.ok.inj h).symm⟩

theorem mem_consecutive {first day : Date} {count : Nat} :
    day ∈ first.consecutive count ↔ first.day ≤ day.day ∧ day.day < first.day + count := by
  simp only [consecutive, List.mem_filterMap, List.mem_range, day_of_addDays?,
    Int.ofNat_eq_natCast]
  constructor
  · rintro ⟨k, hk, hday⟩
    omega
  · intro hday
    exact ⟨(day.day - first.day).toNat, by omega, by omega⟩

/-- A window has no other dates than those within it. -/
theorem within_of_mem_window {d day : Date} {before after : Nat} {dates : List Date}
    (h : d.window before after = .ok dates) (hday : day ∈ dates) :
    -(before : Int) ≤ d.daysUntil day ∧ d.daysUntil day ≤ after := by
  obtain ⟨first, hfirst, -, rfl⟩ := window_eq_ok h
  have hcount := Nat.mod_le (before + after + 1) 4294967296
  rw [mem_consecutive] at hday
  unfold daysUntil
  omega

/-- It has all of them, if 32 bits hold their number. -/
theorem mem_window {d day : Date} {before after : Nat} {dates : List Date}
    (hcount : before + after + 1 < 4294967296) (h : d.window before after = .ok dates) :
    day ∈ dates ↔ -(before : Int) ≤ d.daysUntil day ∧ d.daysUntil day ≤ after := by
  obtain ⟨first, hfirst, -, rfl⟩ := window_eq_ok h
  rw [mem_consecutive, Nat.mod_eq_of_lt hcount]
  unfold daysUntil
  omega

end Date

namespace Router

variable {x : Router} {r : Request} {watch : Option Watch} {supervisor : Supervisor} {s : Search}

theorem window_of_datesFor {settings : Settings} {dates : List Date} :
    datesFor settings r = .ok dates ↔
      r.date.window settings.searchDaysBefore settings.searchDaysAfter = .ok dates := by
  unfold datesFor
  cases r.date.window settings.searchDaysBefore settings.searchDaysAfter <;> simp

theorem mem_datesFor {settings : Settings} {dates : List Date} (hdays : settings.DaysFit)
    (h : datesFor settings r = .ok dates) {day : Date} :
    day ∈ dates ↔ -(settings.searchDaysBefore : Int) ≤ r.date.daysUntil day
      ∧ r.date.daysUntil day ≤ settings.searchDaysAfter :=
  Date.mem_window hdays (window_of_datesFor.mp h)

theorem isPossible_of_rideable (hx : x.Deployed) (h : x.search r watch supervisor = .ok s)
    (hfits : s.Fits r.date) {ride : Ride} {d : DayTrip} {boardCall alightCall : Call}
    (hr : s.Rideable ride.pattern d ride.fromStop ride.boardPosition ride.toStop ride.alightPosition
      boardCall alightCall)
    (htrip : ride.tripId = d.trip.details.tripId) (hroute : ride.routeId = d.trip.details.routeId)
    (hdate : ride.serviceDate = d.date) (hstart : ride.startTime = boardCall.departure)
    (hend : ride.endTime = alightCall.arrival) : ride.IsPossible x r := by
  obtain ⟨v, index, hv, hd, hfrom, hto⟩ := hr.view
  have hday := (hfits.trips v (List.mem_of_getElem? hv) d (PatternView.mem_trips.mpr ⟨index, hd⟩)).onDay
  obtain ⟨limits, dates, -, hdates, rfl⟩ := search_eq_ok h
  rw [viewList_ofRequest, Option.map_eq_some_iff] at hv
  obtain ⟨p, hp, rfl⟩ := hv
  obtain ⟨trip, hruns⟩ := Snapshot.runsOn_of_view hd
  obtain ⟨i, hactive, hversion⟩ := hruns.version
  obtain ⟨base, hbase, hactive⟩ := Timetable.mem_tripsOnDate.mp hactive
  obtain ⟨p', published, hp', hpublished, hrevises⟩ := hx.published hversion
  obtain rfl : p = p' := Option.some.inj (hp.symm.trans hp')
  have hsame : d.trip = trip := by rw [hruns.calls]; rfl
  rw [hsame] at hday
  obtain ⟨boarded, hboarded, rfl⟩ := (DayTrip.call_ofTrip hday).mp (hruns.calls ▸ hr.boards)
  obtain ⟨left, hleft, rfl⟩ := (DayTrip.call_ofTrip hday).mp (hruns.calls ▸ hr.alights)
  have hruns' : trip.isCanceled = false := by
    have husable := hruns.usable
    simp only [Trip.isUsable, Bool.and_eq_true, Bool.not_eq_true'] at husable
    exact husable.1
  have hboard := (TripFilter.accepts_ofRequest.mp hr.boardAccepted).2
  have halight := (TripFilter.accepts_ofRequest.mp hr.alightAccepted).2
  rw [hsame] at htrip hroute hboard halight
  rw [← hdate] at hactive hstart hend
  refine ⟨hr.order, ⟨p, hp, ?_, ?_, ?_⟩, ?_, ?_⟩
  · simpa [PatternView.ofDates] using hfrom
  · simpa [PatternView.ofDates] using hto
  · rw [hroute, hrevises.details, hpublished.route]
  · exact hdate ▸ Date.within_of_mem_window (window_of_datesFor.mp hdates) hruns.date
  · exact ⟨i, base, trip, boarded, left, hbase, hactive, hversion, hruns', hruns.usable, htrip.symm,
      hboarded, hleft, hstart, hend, hr.pickup, hr.dropOff, hboard, halight⟩

theorem streetLegs_ofRequest (t : Timetable) (sn : Snapshot) (settings : Settings) (r : Request)
    (limits : SearchLimits) (dates : List Date) (watch : Option Watch) (supervisor : Supervisor) :
    (Search.ofRequest t sn settings r limits dates watch supervisor).accessLegs = r.access
      ∧ (Search.ofRequest t sn settings r limits dates watch supervisor).egressLegs = r.egress := by
  simp only [Search.accessLegs, Search.egressLegs, Search.ofRequest, Search.headingOf,
    Search.originOf, Search.targetOf]
  cases r.direction <;> exact ⟨rfl, rfl⟩

theorem isPossible_of_hasLeg (hx : x.Deployed) (h : x.search r watch supervisor = .ok s)
    (hfits : s.Fits r.date) {l : Leg} (hl : s.HasLeg l) :
    l.IsPossible x r ∧ l.startTime ≤ l.endTime := by
  obtain ⟨limits, dates, haccept, -, heq⟩ := search_eq_ok h
  obtain ⟨-, -, hstreet⟩ := Request.accept_eq_ok haccept
  obtain ⟨haccess, hegress⟩ := streetLegs_ofRequest x.timetable x.snapshot x.settings r limits dates
    watch supervisor
  rw [← heq] at haccess hegress
  cases l with
  | access stop b e cost =>
      simp only [Search.HasLeg, haccess] at hl
      have hduration := (hstreet _ (List.mem_append_left _ hl)).2
      exact ⟨hl, Int.sub_nonneg.mp hduration⟩
  | egress stop b e cost =>
      simp only [Search.HasLeg, hegress] at hl
      have hduration := (hstreet _ (List.mem_append_right _ hl)).2
      exact ⟨hl, Int.sub_nonneg.mp hduration⟩
  | transfer fromStop toStop b e cost =>
      simp only [Search.HasLeg, timetable_of_search h] at hl
      exact ⟨hl, Int.sub_nonneg.mp (hx.sound.walks hl).2.2⟩
  | transit ride =>
      obtain ⟨d, boardCall, alightCall, hr, htrip, hroute, hdate, hstart, hend⟩ := hl
      refine ⟨isPossible_of_rideable hx h hfits hr htrip hroute hdate hstart hend, ?_⟩
      rw [Leg.startTime, Leg.endTime, hstart, hend]
      exact (Search.rideable_exact.mpr hr).departure_le (hx.wellTimed h hfits)

theorem isTravellable_of_travels (hx : x.Deployed) (h : x.search r watch supervisor = .ok s)
    (hfits : s.Fits r.date) {it : Itinerary}
    (hit : s.exact.Travels it.legs it.departureTime it.arrivalTime) : it.IsTravellable x r := by
  obtain ⟨limits, dates, haccept, -, -⟩ := search_eq_ok h
  obtain ⟨rfl, hslack, -⟩ := Request.accept_eq_ok haccept
  have hchain := hit.chain
  rw [Search.heading_exact, Heading.boardSlack_exact, boardSlack_eq_limits h] at hchain
  exact ⟨hit.ends,
    fun l hl => isPossible_of_hasLeg hx h hfits (Search.hasLeg_exact.mp (hit.each l hl)), hchain,
    hchain.imp fun _ _ hfollows => hfollows.ordered hslack⟩

end Router

namespace Search

variable {s : Search} {p : Progress} {status : SearchStatus}

/-- Whenever a search ends, its journeys have itineraries, and these can be travelled if its
sums are exact. -/
theorem itinerary_of_run (hs : s.WellFormed) (h : s.run = .ok (status, p)) {d : DestinationArrival}
    (hd : d ∈ p.destination) :
    ∃ it, s.itinerary p.table d = .ok it
      ∧ (s.heading.IsExact → s.Travels it.legs it.departureTime it.arrivalTime)
      ∧ it.departureTime = s.departure d.merits ∧ it.arrivalTime = s.arrival d.merits := by
  obtain ⟨w, duration, hw, hride, hduration, hj⟩ := journey_of_run hs h hd
  exact itinerary_of_journey hs hw hride hduration hj

/-- Itineraries are those of the journeys, ranked. -/
theorem itineraries_eq_ok {its : List Itinerary} (h : s.itineraries p = .ok its) :
    ∃ found, p.destination.mapM (s.itinerary p.table) = .ok found
      ∧ its = Ranking.rank s.heading.direction s.policy found := by
  simp only [itineraries, Fallible.bind_eq_ok, Fallible.pure_eq_ok] at h
  obtain ⟨found, hfound, rfl⟩ := h
  exact ⟨found, hfound, rfl⟩

theorem mem_itineraries {its : List Itinerary} (h : s.itineraries p = .ok its) {it : Itinerary} :
    it ∈ its ↔ ∃ d ∈ p.destination, s.itinerary p.table d = .ok it := by
  obtain ⟨found, hfound, rfl⟩ := itineraries_eq_ok h
  rw [Ranking.rank, Ordered.mem_sort, Fallible.mem_mapM hfound]

end Search

namespace Router

variable {x : Router} {r : Request} {watch : Option Watch} {supervisor : Supervisor} {s : Search}

theorem routeWatched_eq_ok {response : Response} {events : List Event}
    (h : x.routeWatched r watch supervisor = .ok (response, events)) :
    ∃ s status p its, x.search r watch supervisor = .ok s ∧ s.run = .ok (status, p)
      ∧ s.itineraries p = .ok its ∧ response = ⟨status, its, Search.reportOf r p⟩
      ∧ events = p.events.toList := by
  unfold routeWatched at h
  cases hs : x.search r watch supervisor with
  | error e => simp [hs] at h
  | ok s =>
      cases hbeyond : r.beyond? s.maxRounds with
      | some index => simp [hs, hbeyond] at h
      | none =>
          cases hanswer : answer s r with
          | error e => simp [hs, hbeyond, hanswer] at h
          | ok result =>
              simp only [hs, hbeyond, hanswer, Except.ok.injEq] at h
              subst h
              simp only [answer, Fallible.bind_eq_ok, Fallible.pure_eq_ok, Prod.mk.injEq] at hanswer
              obtain ⟨⟨status, p⟩, hrun, its, hits, hresponse, hevents⟩ := hanswer
              exact ⟨s, status, p, its, rfl, hrun, hits, hresponse.symm, hevents.symm⟩

/-- An answer lists the itineraries of the journeys that a run of the search retained, with
exact sums if its times fit. -/
theorem run_of_routeWatched (hx : x.Deployed) (hsearch : x.search r watch supervisor = .ok s)
    (hfits : s.Fits r.date) {response : Response} {events : List Event}
    (h : x.routeWatched r watch supervisor = .ok (response, events)) :
    ∃ p, s.exact.run = .ok (response.status, p) ∧ s.exact.IsStage .empty s.times (s.exact.shown p)
      ∧ (response.status = .complete → s.exact.shown p = s.exact.chart)
      ∧ ∀ {it : Itinerary}, it ∈ response.itineraries ↔
        ∃ d ∈ p.destination, s.exact.itinerary p.table d = .ok it := by
  obtain ⟨s', status, p, its, hsearch', hrun, hits, rfl, -⟩ := routeWatched_eq_ok h
  obtain rfl : s = s' := Except.ok.inj (hsearch.symm.trans hsearch')
  have hs := hx.wellFormed hsearch
  have hexact := hfits.runsAs hs
  rw [hexact.itineraries hrun] at hits
  rw [hexact.run] at hrun
  obtain ⟨-, hstage, hchart⟩ := Search.run_shows hs.exact.indexed hrun
  exact ⟨p, hrun, hstage, hchart, Search.mem_itineraries hits⟩

theorem isTravellable_of_mem (hx : x.Deployed) (hsearch : x.search r watch supervisor = .ok s)
    (hfits : s.Fits r.date) {response : Response} {events : List Event}
    (h : x.routeWatched r watch supervisor = .ok (response, events)) {it : Itinerary}
    (hit : it ∈ response.itineraries) : it.IsTravellable x r := by
  obtain ⟨p, hrun, -, -, hlisted⟩ := run_of_routeWatched hx hsearch hfits h
  obtain ⟨d, hd, hok⟩ := hlisted.mp hit
  obtain ⟨it', hit', htravels, -⟩ :=
    Search.itinerary_of_run (hx.wellFormed hsearch).exact hrun hd
  obtain rfl : it = it' := Except.ok.inj (hok.symm.trans hit')
  exact isTravellable_of_travels hx hsearch hfits (htravels s.heading.isExact_exact)

end Router

namespace ThreeLines

def day : Date := ⟨19844, by decide⟩

/-- A trip that stops nowhere longer than it needs to. -/
def line (tripId routeId : String) (calls : List (String × Time)) : TripRecord where
  tripId := tripId
  routeId := routeId
  serviceId := "W"
  stopTimes := calls.map fun c => { stopId := c.1, arrival := c.2, departure := c.2 }

/-- One line goes from the first stop to the last one, and two lines go from there to
the stop between. -/
def builder : Builder :=
  .ofTrips ["O", "S", "D"] "W" [day]
    [line "d" "a" [("O", 120), ("D", 300)], line "x" "b" [("O", 60), ("S", 600)],
      line "y" "c" [("O", 180), ("S", 900)]]

def router : Router where
  timetable := builder.timetable (by decide +kernel)

theorem router_deployed : router.Deployed :=
  Router.deployed_of_assembled (Builder.assembled_ofTrips ..) _ {}

def request : Request where
  date := day
  time := 0
  searchWindow := some 60
  access := [⟨0, 0⟩]
  egress := [⟨1, 0⟩, ⟨2, 0⟩]

end ThreeLines

namespace LastSecond

/-- One line arrives in the last second that 32 bits tell apart, and the other one has left by then. -/
def router : Router where
  timetable := (Builder.ofTrips ["O", "M", "D"] "W" [ThreeLines.day]
    [ThreeLines.line "u" "u" [("O", 100), ("M", greatestTime)],
      ThreeLines.line "t" "t" [("M", 1000), ("D", 2000)]]).timetable (by decide +kernel)

theorem router_deployed : router.Deployed :=
  Router.deployed_of_assembled (Builder.assembled_ofTrips ..) _ {}

def request : Request where
  date := ThreeLines.day
  time := 0
  searchWindow := some 60
  access := [⟨0, 0⟩]
  egress := [⟨2, 0⟩]
  boardSlack := some 60

end LastSecond

end JourneyPlanner
