import JourneyPlanner.Proofs.Widening
import JourneyPlanner.Proofs.FewerTransfers
import JourneyPlanner.Proofs.Undominated

/-!
A search over several times, and one for a single time of them. The stops of a search do
not compare when the origin is left, so what an iteration finds depends on those before
it. Where trips keep their order and walks are closed this does no harm: whatever the
search for a single time finds, somebody can attain who leaves at the last iteration time
that is not too late for it, and the search over all times serves whoever can. Elsewhere
another iteration can cost the only journey. What a journey costs, and which of two times
between iterations it leaves at, depends on the other iterations in any case.
-/

namespace JourneyPlanner

/-- The same request for a window from another time on. -/
def Request.during (r : Request) (time window : Time) : Request :=
  { r with
    time := time
    searchWindow := some window }

/-- An itinerary that makes up for another one, as far as the given times tell when the
origin is left: it is at the destination no later, and does not leave before any of these
times unless the other one does. In reverse departure and arrival change places. -/
def Itinerary.MakesUpFor (d : Direction) (times : List Time) (a b : Itinerary) : Prop :=
  match d with
  | .forward => a.arrivalTime ≤ b.arrivalTime
    ∧ ∀ time ∈ times, time ≤ b.departureTime → time ≤ a.departureTime
  | .reverse => b.departureTime ≤ a.departureTime
    ∧ ∀ time ∈ times, b.arrivalTime ≤ time → a.arrivalTime ≤ time

namespace Heading

variable {h : Heading}

theorem iterationCount_of_short {window step : Int} (hwindow : 0 < window) (hshort : window ≤ step) :
    iterationCount window step = 1 := by
  have hpos : 0 < step := Int.lt_of_lt_of_le hwindow hshort
  have hkept : Time.wrap (window + step - 1) ≤ window + step - 1 := Time.wrap_le (by omega)
  have hquotient : Time.wrap (window + step - 1) / step < 2 :=
    Int.ediv_lt_of_lt_mul hpos (by grind)
  unfold iterationCount
  rw [Int.max_eq_left (Int.le_of_lt_add_one hquotient)]
  rfl

/-- A window that is no longer than a step has a single iteration. -/
theorem iterationTimes_of_short {time window step : Time} (htime : Time.Fits time)
    (hwindow : 0 < window) (hshort : window ≤ max 1 step) :
    h.iterationTimes time window step = [time] := by
  have hadvance : h.advance time (Int.ofNat 0 * max 1 step) = time := by
    rw [show Int.ofNat 0 * max 1 step = 0 from Int.zero_mul _]
    have hkept := h.keep_of_fits htime
    unfold advance
    cases h.direction
    · rwa [Int.add_zero]
    · rwa [Int.sub_zero]
  simp only [iterationTimes, iterationCount_of_short hwindow hshort, List.range_one,
    List.reverse_singleton, List.map_cons, List.map_nil, hadvance]

/-- Of the times that are not too late one is the latest. -/
theorem exists_latest {times : List Time}
    (hsorted : times.Pairwise fun a b => h.betterOrEqual b a = true) {start time : Time}
    (hstart : start ∈ times) (hearly : h.betterOrEqual start time = true) :
    ∃ latest ∈ times, h.betterOrEqual latest time = true
      ∧ ∀ t ∈ times, h.betterOrEqual t time = true → h.betterOrEqual t latest = true := by
  induction times with
  | nil => exact absurd hstart (List.not_mem_nil)
  | cons first times ih =>
      obtain ⟨hworse, hsorted⟩ := List.pairwise_cons.mp hsorted
      by_cases hfirst : h.betterOrEqual first time = true
      · refine ⟨first, List.mem_cons_self .., hfirst, fun t ht _ => ?_⟩
        cases ht with
        | head => exact h.betterOrEqual_refl _
        | tail _ ht => exact hworse t ht
      · have hlater : start ∈ times :=
          (List.mem_cons.mp hstart).resolve_left fun heq => hfirst (heq ▸ hearly)
        obtain ⟨latest, hlatest, htime, hmost⟩ := ih hsorted hlater
        refine ⟨latest, List.mem_cons_of_mem _ hlatest, htime, fun t ht hearly => ?_⟩
        cases ht with
        | head => exact absurd hearly hfirst
        | tail _ ht => exact hmost t ht hearly

end Heading

namespace Search

/-- The same search at other times, for anybody who watches or stops it. -/
def atTimes (s : Search) (times : List Time) (watch : Option Watch) (supervisor : Supervisor) :
    Search :=
  { s with
    times := times
    watch := watch
    supervisor := supervisor }

variable {s s' : Search} {times : List Time} {n : Nat} {watch : Option Watch}
  {supervisor : Supervisor}

theorem Fits.atTimes {searchDate : Date} (hfits : s.Fits searchDate) {time : Time}
    (ht : time ∈ s.times) : (s.atTimes [time] watch supervisor).Fits searchDate where
  trips := hfits.trips
  near t hmem := by
    refine hfits.near t (List.mem_append.mpr ((List.mem_append.mp hmem).imp_left fun h => ?_))
    exact List.mem_singleton.mp h ▸ ht
  apart := hfits.apart

section Rounds

theorem atTimes_widens : (s.atTimes times watch supervisor).Widens s :=
  ⟨rfl, rfl, rfl, rfl, rfl, fun hk => ⟨_, hk, rfl, Int.le_refl _⟩⟩

theorem widens_withRounds : s.Widens (s.withRounds n watch supervisor) :=
  ⟨rfl, rfl, rfl, rfl, rfl, fun hk => ⟨_, hk, rfl, Int.le_refl _⟩⟩

theorem withRounds_widens : (s.withRounds n watch supervisor).Widens s :=
  ⟨rfl, rfl, rfl, rfl, rfl, fun hk => ⟨_, hk, rfl, Int.le_refl _⟩⟩

theorem WellTimed.withRounds (hs : s.WellTimed) : (s.withRounds n watch supervisor).WellTimed :=
  ⟨⟨hs.indexed, hs.numbered, hs.stops, hs.complete, hs.walks, hs.mirrored, hs.origin, hs.target,
    hs.slack⟩, hs.exact, hs.chronological⟩

theorem IsOrderly.withRounds (ho : s.IsOrderly) : (s.withRounds n watch supervisor).IsOrderly where
  inTurn hgo hboards hbetter := by
    obtain ⟨call, hgo, hearly⟩ := ho.inTurn (withRounds_widens.goes hgo)
      ⟨hboards.view, hboards.trip, hboards.stands, hboards.allowed⟩ hbetter
    exact ⟨call, widens_withRounds.goes hgo, hearly⟩

theorem WalksClosed.withRounds (h : s.WalksClosed) : (s.withRounds n watch supervisor).WalksClosed :=
  ⟨h.onward, h.target⟩

theorem StreetsClosed.withRounds (h : s.StreetsClosed) :
    (s.withRounds n watch supervisor).StreetsClosed :=
  ⟨h.onward, h.apart⟩

theorem Widens.withRounds (h : s.Widens s') : s.Widens (s'.withRounds n watch supervisor) :=
  ⟨h.heading, h.filter, h.views, h.origin, h.target, h.walks⟩

end Rounds

/-- However far a search for a single time has come, whoever leaves between that time and
the journey attains all that a journey of it does. -/
theorem attains_of_journey (hx : s.heading.IsExact) {time : Time}
    (hmore : (s.atTimes [time] watch supervisor).Widens s')
    (hstreets : s.policy.cost = true → s'.StreetsClosed) {c : Chart}
    (hstage : (s.atTimes [time] watch supervisor).IsStage .empty [time] c) {j : Journey}
    (hj : j ∈ c.journeys) :
    s.heading.betterOrEqual time j.ending.merits.originTime = true
      ∧ j.ending.merits.rounds ≤ s.maxRounds
      ∧ ∃ stop arrival, ∃ d ∈ s.targetDurations stop,
        j.ending.merits.time = s.heading.advance arrival d
        ∧ ∀ {start : Time}, s.heading.betterOrEqual time start = true →
          s.heading.betterOrEqual start j.ending.merits.originTime = true →
            s'.Attains start true j.ending.merits.rounds stop arrival := by
  have hx : (s.atTimes [time] watch supervisor).heading.IsExact := hx
  obtain ⟨start, hstart, w, d, hw, hride, hround, hd, rfl⟩ :=
    goesAlong_of_stage (inherits_attainedIn hx hmore hstreets) hstage hj
  obtain rfl : start = time := List.mem_singleton.mp hstart
  refine ⟨hw.leaves, hround, w.arrival.stop, w.arrival.time, d, hd, rfl, fun {start} hlater hleaves => ?_⟩
  have hattains := hw.attains hlater hleaves
  rw [hride] at hattains
  exact hattains

/-- Whoever leaves at an iteration time, not too late for a journey of the search for a
single time, is served as early as it is at the destination. -/
theorem serves_of_journey (hs : s'.WellTimed) (ho : s'.IsOrderly) (hclosed : s'.WalksClosed)
    (hsorted : s'.times.Pairwise fun a b => s'.heading.betterOrEqual b a = true)
    (hstreets : s.policy.cost = true → s'.StreetsClosed) {time : Time}
    (hmore : (s.atTimes [time] watch supervisor).Widens s') {c : Chart}
    (hstage : (s.atTimes [time] watch supervisor).IsStage .empty [time] c) {j : Journey}
    (hj : j ∈ c.journeys) (hrides : j.ending.merits.rounds ≤ s'.maxRounds) {start : Time}
    (hstart : start ∈ s'.times) (hlater : s.heading.betterOrEqual time start = true)
    (hleaves : s.heading.betterOrEqual start j.ending.merits.originTime = true) :
    s'.chart.Serves s' start j.ending.merits.time := by
  have hx : s.heading.IsExact := by
    have hexact := hs.exact
    rwa [hmore.heading] at hexact
  obtain ⟨-, -, stop, arrival, d, hd, htime, hattains⟩ :=
    attains_of_journey hx hmore hstreets hstage hj
  obtain ⟨past, c', hexhausts, himproves⟩ := Chart.exhausts_of_mem hs ho hclosed hsorted hstart
  have htarget : d ∈ s'.targetDurations stop := hmore.targetDurations stop ▸ hd
  have hserves :=
    Chart.serves_of_attains hs hexhausts (hattains hlater hleaves) hrides htarget
  rw [hmore.heading] at hserves
  exact htime ▸ himproves.serves hserves

/-- A search over several times makes up for each journey of the search for one of them,
as far as its times tell when the origin is left. -/
theorem journey_of_single (hs : s.WellTimed) (ho : s.IsOrderly) (hclosed : s.WalksClosed)
    (hsorted : s.times.Pairwise fun a b => s.heading.betterOrEqual b a = true)
    (hstreets : s.policy.cost = true → s.StreetsClosed) {time : Time} (ht : time ∈ s.times)
    {c : Chart} (hstage : (s.atTimes [time] watch supervisor).IsStage .empty [time] c) {j : Journey}
    (hj : j ∈ c.journeys) :
    ∃ j' ∈ s.chart.journeys,
      s.heading.betterOrEqual j'.ending.merits.time j.ending.merits.time = true
      ∧ (s.policy.transfers = true → j'.ending.merits.rounds ≤ j.ending.merits.rounds)
      ∧ ∀ start ∈ s.times, s.heading.betterOrEqual start j.ending.merits.originTime = true →
        s.heading.betterOrEqual start j'.ending.merits.originTime = true := by
  obtain ⟨hleaves, hrounds, -⟩ := attains_of_journey hs.exact atTimes_widens hstreets hstage hj
  obtain ⟨start, hstart, hearly, hlatest⟩ := Heading.exists_latest hsorted ht hleaves
  have hlater := hlatest time ht hleaves
  by_cases htransfers : s.policy.transfers = true
  · -- a search with no more rounds than the journey has rides finds a part of the journeys
    have hlimited : (s.withRounds j.ending.merits.rounds s.watch s.supervisor).WellTimed :=
      hs.withRounds
    obtain ⟨j', hj', hleaves', harrives⟩ := serves_of_journey hlimited ho.withRounds
      hclosed.withRounds hsorted (fun hcost => (hstreets hcost).withRounds) atTimes_widens.withRounds
      hstage hj (Nat.le_refl _) hstart hlater hearly
    have hshort : (s.withRounds j.ending.merits.rounds s.watch s.supervisor).Shortens s :=
      ⟨⟨s.maxRounds, s.watch, s.supervisor, rfl⟩, hrounds, htransfers⟩
    rw [← journeys_of_shortens hshort, List.mem_filter] at hj'
    exact ⟨j', hj'.1, harrives, fun _ => of_decide_eq_true hj'.2,
      fun t ht hleaves => s.heading.betterOrEqual_trans (hlatest t ht hleaves) hleaves'⟩
  · obtain ⟨j', hj', hleaves', harrives⟩ := serves_of_journey hs ho hclosed hsorted hstreets
      atTimes_widens hstage hj hrounds hstart hlater hearly
    exact ⟨j', hj', harrives, fun h => absurd h htransfers,
      fun t ht hleaves => s.heading.betterOrEqual_trans (hlatest t ht hleaves) hleaves'⟩

end Search

namespace Router

variable {x : Router} {r : Request} {time window : Time} {watch watch' : Option Watch}
  {supervisor supervisor' : Supervisor} {s s' : Search}

theorem search_during (htime : Time.Fits time) (hwindow : window ≤ max 1 x.settings.iterationStep)
    (h : x.search r watch supervisor = .ok s)
    (h' : x.search (r.during time window) watch' supervisor' = .ok s') :
    s' = s.atTimes [time] watch' supervisor' := by
  have hpos := (Request.window_of_fault? (search_eq_ok_iff.mp h').1).1
  obtain ⟨dates, rfl, rfl⟩ := ofRequest_of_searches h h' rfl
  have htimes : (Search.headingOf r (r.limits x.settings)).iterationTimes time window
      x.settings.iterationStep = [time] := Heading.iterationTimes_of_short htime hpos hwindow
  exact congrArg (fun times => (Search.ofRequest x.timetable x.snapshot x.settings r
    (r.limits x.settings) dates watch supervisor).atTimes times watch' supervisor') htimes

/-- Each itinerary of an answer, however it ended, is one of a journey that was retained. -/
theorem journey_of_itinerary (hx : x.Deployed) (hsearch : x.search r watch supervisor = .ok s)
    (hfits : s.Fits r.date) {response : Response} {events : List Event}
    (h : x.routeWatched r watch supervisor = .ok (response, events)) {it : Itinerary}
    (hit : it ∈ response.itineraries) :
    ∃ c, s.exact.IsStage .empty s.times c ∧ ∃ j ∈ c.journeys, it.departureTime = s.departure j.ending.merits
      ∧ it.arrivalTime = s.arrival j.ending.merits ∧ it.transfers = j.ending.merits.rounds - 1 := by
  have hs := (hx.wellFormed hsearch).exact
  obtain ⟨p, hrun, hstage, -, hlisted⟩ := run_of_routeWatched hx hsearch hfits h
  obtain ⟨d, hd, hok⟩ := hlisted.mp hit
  obtain ⟨found, hfound, -, hdeparture, harrival⟩ := Search.itinerary_of_run hs hrun hd
  obtain rfl : found = it := Except.ok.inj (hfound.symm.trans hok)
  obtain ⟨-, -, htransfers⟩ := Search.cost_of_run hs hrun hd hok
  exact ⟨s.exact.shown p, hstage, p.table.journeyOf d, List.mem_map_of_mem hd, hdeparture, harrival,
    htransfers⟩

/-- An answer that was searched to the end has an itinerary for each journey of the search. -/
theorem itinerary_of_journey (hx : x.Deployed) (hsearch : x.search r watch supervisor = .ok s)
    (hfits : s.Fits r.date) {response : Response} {events : List Event}
    (h : x.routeWatched r watch supervisor = .ok (response, events))
    (hcomplete : response.status = .complete) {j : Journey} (hj : j ∈ s.exact.chart.journeys) :
    ∃ it ∈ response.itineraries, it.departureTime = s.departure j.ending.merits
      ∧ it.arrivalTime = s.arrival j.ending.merits ∧ it.transfers = j.ending.merits.rounds - 1 := by
  have hs := (hx.wellFormed hsearch).exact
  obtain ⟨p, hrun, -, hchart, hlisted⟩ := run_of_routeWatched hx hsearch hfits h
  rw [← hchart hcomplete] at hj
  obtain ⟨d, hd, rfl⟩ := List.mem_map.mp hj
  obtain ⟨it, hok, -, hdeparture, harrival⟩ := Search.itinerary_of_run hs hrun hd
  obtain ⟨-, -, htransfers⟩ := Search.cost_of_run hs hrun hd hok
  exact ⟨it, hlisted.mpr ⟨d, hd, hok⟩, hdeparture, harrival, htransfers⟩

end Router

/-- For who minds transfers and costs too. -/
def FeederLine.comparing : Request :=
  { request with policy := {} }

/-- An answer for several times that has nothing as good, on all that the policy compares,
as some itinerary of the answer for one of them. -/
def Router.Loses (x : Router) (r : Request) (time : Time) : Prop :=
  ∃ s response response' events events', x.search r none {} = .ok s ∧ time ∈ s.times
    ∧ x.routeWatched r none {} = .ok (response, events) ∧ response.status = .complete
    ∧ x.routeWatched (r.during time x.settings.iterationStep) none {} = .ok (response', events')
    ∧ ∃ single ∈ response'.itineraries, ∀ it ∈ response.itineraries,
      ¬ it.IsAsGoodAs r.policy single

theorem Router.loses_of_decide {x : Router} {r : Request} {time : Time}
    (h : (x.search r none {}).toOption.any (fun s => (x.routeWatched r none {}).toOption.any fun a =>
      (x.routeWatched (r.during time x.settings.iterationStep) none {}).toOption.any fun b =>
        decide (time ∈ s.times ∧ a.1.status = .complete ∧ ∃ single ∈ b.1.itineraries,
          ∀ it ∈ a.1.itineraries, ¬ it.IsAsGoodAs r.policy single)) = true) : x.Loses r time := by
  obtain ⟨s, hsearch, h⟩ := Fallible.any_toOption.mp h
  obtain ⟨⟨response, events⟩, hroute, h⟩ := Fallible.any_toOption.mp h
  obtain ⟨⟨response', events'⟩, hroute', h⟩ := Fallible.any_toOption.mp h
  obtain ⟨htime, hcomplete, hlost⟩ := of_decide_eq_true h
  exact ⟨s, response, response', events, events', hsearch, htime, hroute, hcomplete, hroute', hlost⟩

namespace Footpath

open ThreeLines (day line)

/-- A slow line, and one that departs later to a stop from where one walks. -/
def builder : Builder :=
  ((Builder.ofTrips ["O", "A", "S"] "W" [day]
    [line "p" "p" [("O", 70), ("A", 80)], line "x" "x" [("O", 10), ("S", 100)]]).addTransfers
    [("A", "S", 10)]).toOption.get (by decide +kernel)

def router : Router where
  timetable := builder.timetable (by decide +kernel)

def request : Request where
  date := day
  time := 0
  searchWindow := some 120
  access := [⟨0, 0⟩]
  egress := [⟨2, 0⟩]

theorem router_deployed : router.Deployed :=
  Router.deployed_of_assembled ((Builder.assembled_ofTrips ..).addTransfers
    (Fallible.toOption_eq_some.mp (Option.some_get _).symm)) _ {}

end Footpath

namespace Crossing

open ThreeLines (day line)

/-- Two lines to a stop from where a third one goes on. The first line has an earlier and a
later trip, and the trip of the second one departs after both. -/
def builder : Builder :=
  .ofTrips ["O", "S", "D"] "W" [day]
    [line "p1" "p" [("O", 30), ("S", 95)], line "p2" "p" [("O", 70), ("S", 100)],
      line "q" "q" [("O", 90), ("S", 125)], line "r" "r" [("S", 200), ("D", 300)]]

def router : Router where
  timetable := builder.timetable (by decide +kernel)

def request : Request where
  date := day
  time := 0
  searchWindow := some 120
  access := [⟨0, 0⟩]
  egress := [⟨2, 0⟩]

theorem router_deployed : router.Deployed :=
  Router.deployed_of_assembled (Builder.assembled_ofTrips ..) _ {}

theorem closed : ∃ s, router.search request none {} = .ok s ∧ s.IsOrderly ∧ s.WalksClosed
    ∧ s.StreetsClosed := by
  have hviews : (router.search request none {}).toOption.any (fun s =>
      decide (∀ v ∈ s.viewList, v.IsOrderly)) = true := by decide +kernel
  obtain ⟨s, hsearch, horder⟩ := Fallible.any_toOption.mp hviews
  have hwalks : request.WalksClosed router.timetable := by constructor <;> decide +kernel
  exact ⟨s, hsearch, Router.isOrderly_of_views router_deployed hsearch rfl ⟨rfl, rfl, rfl, rfl⟩
    (of_decide_eq_true horder), Router.walksClosed_of_request router_deployed hsearch rfl hwalks⟩

end Crossing

end JourneyPlanner
