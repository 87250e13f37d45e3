import JourneyPlanner.Proofs.Applying
import JourneyPlanner.Proofs.ShownRun
import JourneyPlanner.Routing.Router

/-!
What a search can rely on when its request was accepted, its timetable was made
from records and its snapshot was published for that timetable.
-/

namespace JourneyPlanner

/-- A router over a timetable made from records, with a snapshot published for it. -/
structure Router.Deployed (x : Router) : Prop where
  timetable : ∃ b : Builder, b.Assembled ∧ b.build.2 = .ok x.timetable
  snapshot : ∃ f : Feed, Feed.Running x.timetable f ∧ f.snapshot = x.snapshot

theorem Timetable.mem_tripsOnDate {t : Timetable} {pattern index : Nat} {date : Date} :
    index ∈ t.tripsOnDate pattern date ↔ ∃ base, t.scheduledTrip? ⟨pattern, index⟩ = some base
      ∧ t.calendar.isActive base.details.serviceCode date = true := by
  unfold tripsOnDate scheduledTrip?
  cases hp : t.patterns[pattern]? with
  | none => simp
  | some p =>
      simp only [activeTrips, List.mem_map, List.mem_filter, Option.bind_eq_bind, Option.bind_some]
      constructor
      · rintro ⟨⟨base, i⟩, ⟨hmem, hactive⟩, rfl⟩
        exact ⟨base, List.mk_mem_zipIdx_iff_getElem?.mp hmem, hactive⟩
      · rintro ⟨base, hbase, hactive⟩
        exact ⟨(base, index), ⟨List.mk_mem_zipIdx_iff_getElem?.mpr hbase, hactive⟩, rfl⟩

/-- A trip of a pattern on a day of a search. -/
structure Snapshot.RunsOn (sn : Snapshot) (t : Timetable) (searchDate : Date) (dates : List Date)
    (pattern : Nat) (d : DayTrip) (trip : Trip) : Prop where
  version : ∃ index ∈ t.tripsOnDate pattern d.date, sn.trip? t ⟨pattern, index⟩ = some trip
  usable : trip.isUsable = true
  date : d.date ∈ dates
  calls : d = DayTrip.ofTrip trip d.date (searchDate.daysUntil d.date * secondsOfDay)

namespace Search

/-- What steps of a search rely on. -/
structure WellFormed (s : Search) : Prop where
  indexed : s.IsIndexed
  numbered : ∀ (i : Nat) (v : PatternView), s.viewList[i]? = some v → v.pattern = i
  stops : ∀ v ∈ s.viewList, ∀ stop ∈ v.stops.toList, stop < s.timetable.numStops
  complete : ∀ v ∈ s.viewList, ∀ (index : Nat) (d : DayTrip),
    PatternView.tripIn? v.days index = some d → d.calls.size = v.stops.size
      ∧ ∀ position, position < v.stops.size → (d.trip.headsign? position).isSome = true
  walks : ∀ (stop : Nat) (k : Transfer), k ∈ s.heading.walks s.timetable stop →
    k.target < s.timetable.numStops ∧ 0 ≤ k.duration
  mirrored : ∀ {a b : Nat} {d : Time},
    ⟨b, d⟩ ∈ s.timetable.transfersTo a ↔ ⟨a, d⟩ ∈ s.timetable.transfersFrom b
  origin : ∀ leg ∈ s.origin, leg.stop < s.timetable.numStops ∧ 0 ≤ leg.duration
  target : ∀ leg ∈ s.target, leg.stop < s.timetable.numStops ∧ 0 ≤ leg.duration
  slack : 0 ≤ s.heading.boardSlack

/-- What comparing the times of a search relies on: its sums are exact, and no trip goes back
in time. -/
structure WellTimed (s : Search) : Prop extends s.WellFormed where
  exact : s.heading.IsExact
  chronological : ∀ v ∈ s.viewList, ∀ (index : Nat) (d : DayTrip),
    PatternView.tripIn? v.days index = some d → Chronological d.calls.toList

end Search

/-- How far away a day is makes no difference where 32 bits cannot tell. -/
theorem DayTrip.ofTrip_dayOffset (trip : Trip) (searchDate date : Date) :
    ofTrip trip date (DayTrips.dayOffset searchDate date)
      = ofTrip trip date (searchDate.daysUntil date * secondsOfDay) := by
  simp only [ofTrip, DayTrips.dayOffset, Call.later_wrap]

/-- On a day a trip calls as published, moved to that day, where 32 bits hold its times. -/
theorem DayTrip.call_ofTrip {trip : Trip} {date : Date} {offset : Time}
    (hfits : ∀ c ∈ trip.calls, c.FitsLater offset) {position : Nat} {call : Call} :
    (ofTrip trip date offset).calls[position]? = some call ↔ ∃ c, trip.call? position = some c
      ∧ call = { c with arrival := c.arrival + offset, departure := c.departure + offset } := by
  simp only [ofTrip, List.getElem?_toArray, List.getElem?_map, Option.map_eq_some_iff, Trip.call?_eq]
  refine exists_congr fun c => and_congr_right fun hc => ?_
  rw [(hfits c (List.mem_of_getElem? hc)).later, eq_comm]

theorem tripIn?_mem {days : List DayTrips} {index : Nat} {d : DayTrip}
    (h : PatternView.tripIn? days index = some d) : ∃ day ∈ days, d ∈ day.trips := by
  induction days generalizing index with
  | nil => simp [PatternView.tripIn?] at h
  | cons day days ih =>
      unfold PatternView.tripIn? at h
      split at h
      case isTrue hlt =>
        exact ⟨day, List.mem_cons_self .., Option.some.inj h ▸ Array.getElem_mem hlt⟩
      case isFalse =>
        obtain ⟨day', hday', hd⟩ := ih h
        exact ⟨day', List.mem_cons_of_mem _ hday', hd⟩

theorem Snapshot.runsOn_of_view {t : Timetable} {sn : Snapshot} {i : Nat} {stops : List Nat}
    {searchDate : Date} {dates : List Date} {index : Nat} {d : DayTrip}
    (h : PatternView.tripIn? (PatternView.ofDates t sn i stops searchDate dates).days index
      = some d) : ∃ trip, sn.RunsOn t searchDate dates i d trip := by
  obtain ⟨day, hday, hd⟩ := tripIn?_mem h
  obtain ⟨date, hdate, rfl⟩ := List.mem_map.mp hday
  simp only [DayTrips.ofDate, List.mem_toArray, List.mem_map, List.mem_filter,
    List.mem_filterMap] at hd
  obtain ⟨trip, ⟨⟨j, hj, htrip⟩, husable⟩, rfl⟩ := hd
  exact ⟨trip, ⟨j, hj, htrip⟩, husable, hdate, DayTrip.ofTrip_dayOffset ..⟩

namespace Request

variable {r : Request} {settings : Settings} {t : Timetable} {limits : SearchLimits}

theorem durationFault?_eq_none {duration : Time} (h : durationFault? duration = none) :
    0 ≤ duration := by
  unfold durationFault? at h
  split at h
  case isTrue => simp at h
  case isFalse hno => exact Int.not_lt.mp fun hlt => hno (Or.inl hlt)

theorem unknownStop?_eq_none {stop : Nat} (h : unknownStop? t stop = none) :
    stop < t.numStops := by
  unfold unknownStop? at h
  split at h
  case isTrue hlt => exact hlt
  case isFalse => simp at h

theorem legFault?_eq_none {leg : StreetLeg} (h : legFault? t leg = none) :
    leg.stop < t.numStops ∧ 0 ≤ leg.duration := by
  obtain ⟨hstop, hduration⟩ := Option.or_eq_none_iff.mp h
  exact ⟨unknownStop?_eq_none hstop, durationFault?_eq_none hduration⟩

/-- Street legs and board slack of an accepted request. -/
theorem accept_eq_ok (h : r.accept settings t = .ok limits) :
    limits = r.limits settings ∧ 0 ≤ limits.boardSlack
      ∧ ∀ leg ∈ r.access ++ r.egress, leg.stop < t.numStops ∧ 0 ≤ leg.duration := by
  unfold accept at h
  cases hf : r.fault? settings t with
  | some e => simp [hf] at h
  | none =>
      simp only [hf, Except.ok.injEq] at h
      subst h
      simp only [fault?, Option.or_eq_none_iff] at hf
      obtain ⟨-, -, hstreet, -, -, -, hslack, -⟩ := hf
      refine ⟨rfl, durationFault?_eq_none hslack, fun leg hleg => ?_⟩
      unfold streetFault? at hstreet
      split at hstreet
      case isTrue => simp at hstreet
      case isFalse =>
        split at hstreet
        case isTrue => simp at hstreet
        case isFalse => exact legFault?_eq_none (List.findSome?_eq_none_iff.mp hstreet leg hleg)

end Request

namespace Router

variable {x : Router} {r : Request} {watch : Option Watch} {supervisor : Supervisor} {s : Search}

/-- A router over a timetable just built, without real-time information. -/
theorem deployed_of_assembled {b : Builder} (hb : b.Assembled)
    (h : b.build.2.toOption.isSome = true) (settings : Settings) :
    Router.Deployed { timetable := b.timetable h, settings := settings } where
  timetable := ⟨b, hb, b.build_eq_timetable h⟩
  snapshot := ⟨_, .start, rfl⟩

theorem Deployed.sound (h : x.Deployed) : x.timetable.Sound := by
  obtain ⟨b, hb, hbuild⟩ := h.timetable
  exact Builder.sound_build hb hbuild

/-- Trips of the timetable are as published. -/
theorem Deployed.scheduled (h : x.Deployed) {key : TripKey} {trip : Trip}
    (ht : x.timetable.scheduledTrip? key = some trip) :
    ∃ p, x.timetable.patterns[key.pattern]? = some p
      ∧ trip.IsPublished p.routeId p.stops.length := by
  obtain ⟨b, hb, hbuild⟩ := h.timetable
  exact Builder.published_of_scheduledTrip? hb hbuild ht

theorem Deployed.live (h : x.Deployed) {key : TripKey} {trip : Trip}
    (ht : x.timetable.scheduledTrip? key = some trip) : trip.live = none := by
  obtain ⟨p, -, hpublished⟩ := h.scheduled ht
  exact hpublished.live

theorem Deployed.revise (h : x.Deployed) : LiveTrips.Revise x.timetable x.snapshot.trips := by
  obtain ⟨b, hb, hbuild⟩ := h.timetable
  obtain ⟨f, hf, hsnapshot⟩ := h.snapshot
  exact hsnapshot ▸ (hf.revise hb hbuild).2

/-- Every trip of a deployed router revises one that was published. -/
theorem Deployed.published (h : x.Deployed) {key : TripKey} {trip : Trip}
    (ht : x.snapshot.trip? x.timetable key = some trip) :
    ∃ (p : Pattern) (base : Trip), x.timetable.patterns[key.pattern]? = some p
      ∧ base.IsPublished p.routeId p.stops.length ∧ base.Revises trip := by
  obtain ⟨base, hbase, hrevises⟩ := LiveTrips.revises_of_trip? h.revise (fun _ _ => h.live) ht
  obtain ⟨p, hp, hpublished⟩ := h.scheduled hbase
  exact ⟨p, base, hp, hpublished, hrevises⟩

/-- What a search for an accepted request consists of. -/
theorem search_eq_ok (h : x.search r watch supervisor = .ok s) :
    ∃ limits dates, r.accept x.settings x.timetable = .ok limits
      ∧ datesFor x.settings r = .ok dates
      ∧ s = .ofRequest x.timetable x.snapshot x.settings r limits dates watch supervisor := by
  unfold search at h
  simp only [Fallible.bind_eq_ok, Fallible.pure_eq_ok] at h
  obtain ⟨limits, haccept, dates, hdates, rfl⟩ := h
  exact ⟨limits, dates, haccept, hdates, rfl⟩

/-- A search is begun if no check fails and all dates around that of the request exist. -/
theorem search_eq_ok_iff : x.search r watch supervisor = .ok s ↔
    r.fault? x.settings x.timetable = none ∧ ∃ dates, datesFor x.settings r = .ok dates
      ∧ s = .ofRequest x.timetable x.snapshot x.settings r (r.limits x.settings) dates watch
        supervisor := by
  unfold search Request.accept
  cases r.fault? x.settings x.timetable with
  | some e => simp [bind, Except.bind]
  | none =>
      simp only [Fallible.bind_eq_ok, Fallible.pure_eq_ok, Except.ok.injEq, exists_eq_left', true_and]
      simp only [eq_comm (b := s)]

theorem search_eq_error_iff {e : RequestFault} : x.search r watch supervisor = .error e ↔
    r.accept x.settings x.timetable = .error e
      ∨ (∃ limits, r.accept x.settings x.timetable = .ok limits)
        ∧ datesFor x.settings r = .error e := by
  unfold search
  cases r.accept x.settings x.timetable with
  | error e => simp [bind, Except.bind]
  | ok limits => cases datesFor x.settings r <;> simp [bind, Except.bind, pure, Except.pure]

theorem maxRounds_eq_limits (h : x.search r watch supervisor = .ok s) :
    s.maxRounds = (r.limits x.settings).maxRounds := by
  obtain ⟨-, dates, -, rfl⟩ := search_eq_ok_iff.mp h
  rfl

theorem boardSlack_eq_limits (h : x.search r watch supervisor = .ok s) :
    s.heading.boardSlack = (r.limits x.settings).boardSlack := by
  obtain ⟨-, dates, -, rfl⟩ := search_eq_ok_iff.mp h
  rfl

theorem timetable_of_search (h : x.search r watch supervisor = .ok s) :
    s.timetable = x.timetable := by
  obtain ⟨limits, dates, -, -, rfl⟩ := search_eq_ok h
  rfl

theorem direction_of_search (h : x.search r watch supervisor = .ok s) :
    s.heading.direction = r.direction := by
  obtain ⟨limits, dates, -, -, rfl⟩ := search_eq_ok h
  rfl

theorem policy_of_search (h : x.search r watch supervisor = .ok s) : s.policy = r.policy := by
  obtain ⟨limits, dates, -, -, rfl⟩ := search_eq_ok h
  rfl

/-- What two searches consist of whose requests are for the same dates. -/
theorem ofRequest_of_searches {x' : Router} {r' : Request} {watch' : Option Watch}
    {supervisor' : Supervisor} {s' : Search}
    (h : x.search r watch supervisor = .ok s) (h' : x'.search r' watch' supervisor' = .ok s')
    (hsame : datesFor x'.settings r' = datesFor x.settings r) : ∃ dates,
      s = .ofRequest x.timetable x.snapshot x.settings r (r.limits x.settings) dates watch supervisor
        ∧ s' = .ofRequest x'.timetable x'.snapshot x'.settings r' (r'.limits x'.settings) dates
          watch' supervisor' := by
  obtain ⟨-, dates, hdates, hs⟩ := search_eq_ok_iff.mp h
  obtain ⟨-, dates', hdates', hs'⟩ := search_eq_ok_iff.mp h'
  obtain rfl : dates' = dates := Except.ok.inj (hdates'.symm.trans (hsame.trans hdates))
  exact ⟨dates', hs, hs'⟩

theorem viewList_ofRequest (t : Timetable) (sn : Snapshot) (settings : Settings) (r : Request)
    (limits : SearchLimits) (dates : List Date) (watch : Option Watch) (supervisor : Supervisor)
    (i : Nat) : (Search.ofRequest t sn settings r limits dates watch supervisor).viewList[i]? =
      t.patterns[i]?.map fun p => PatternView.ofDates t sn i p.stops r.date dates := by
  simp only [Search.viewList, Search.ofRequest, Search.viewsOf, List.getElem?_map,
    Array.getElem?_toList, Array.getElem?_mapIdx, Option.map_map]
  rfl

theorem view_of_mem (h : x.search r watch supervisor = .ok s) {v : PatternView} (hv : v ∈ s.viewList) :
    ∃ i p dates, x.timetable.patterns[i]? = some p ∧ datesFor x.settings r = .ok dates
      ∧ v = PatternView.ofDates x.timetable x.snapshot i p.stops r.date dates := by
  obtain ⟨limits, dates, -, hdates, rfl⟩ := search_eq_ok h
  obtain ⟨i, hi⟩ := List.getElem?_of_mem hv
  rw [viewList_ofRequest, Option.map_eq_some_iff] at hi
  obtain ⟨p, hp, rfl⟩ := hi
  exact ⟨i, p, dates, hp, hdates, rfl⟩

section Views

variable {i : Nat} {p : Pattern} {searchDate : Date} {dates : List Date} {index : Nat} {d : DayTrip}

/-- A trip in a view revises one that was published for the stops of the pattern. -/
theorem Deployed.revises_of_view (hx : x.Deployed) (hp : x.timetable.patterns[i]? = some p)
    (hd : PatternView.tripIn? (PatternView.ofDates x.timetable x.snapshot i p.stops searchDate
      dates).days index = some d) :
    ∃ (base trip : Trip), x.snapshot.RunsOn x.timetable searchDate dates i d trip
      ∧ base.IsPublished p.routeId p.stops.length ∧ base.Revises trip := by
  obtain ⟨trip, hruns⟩ := Snapshot.runsOn_of_view hd
  obtain ⟨j, -, htrip⟩ := hruns.version
  obtain ⟨p', base, hp', hpublished, hrevises⟩ := hx.published htrip
  obtain rfl : p = p' := Option.some.inj (hp.symm.trans hp')
  exact ⟨base, trip, hruns, hpublished, hrevises⟩

/-- It calls at each stop of the pattern. -/
theorem Deployed.size_calls (hx : x.Deployed) (hp : x.timetable.patterns[i]? = some p)
    (hd : PatternView.tripIn? (PatternView.ofDates x.timetable x.snapshot i p.stops searchDate
      dates).days index = some d) : d.calls.size = p.stops.length := by
  obtain ⟨base, trip, hruns, hpublished, hrevises⟩ := hx.revises_of_view hp hd
  rw [hruns.calls]
  simp [DayTrip.ofTrip, hrevises.length, hpublished.length]

end Views

theorem Deployed.wellFormed (hx : x.Deployed) (h : x.search r watch supervisor = .ok s) :
    s.WellFormed := by
  have hview := fun {v : PatternView} => view_of_mem (v := v) h
  obtain ⟨limits, dates, haccept, -, rfl⟩ := search_eq_ok h
  obtain ⟨-, hslack, hlegs⟩ := Request.accept_eq_ok haccept
  have hsound := hx.sound
  refine ⟨?indexed, ?numbered, ?stops, ?complete, ?walks, hsound.mirrored, ?origin,
    ?target, hslack⟩
  case indexed =>
    intro i v hv stop hstop
    rw [viewList_ofRequest, Option.map_eq_some_iff] at hv
    obtain ⟨p, hp, rfl⟩ := hv
    have hstop : stop ∈ p.stops := by simpa [PatternView.ofDates] using hstop
    exact hsound.indexed.mpr ⟨hsound.stops hp stop hstop, p, hp, hstop⟩
  case numbered =>
    intro i v hv
    rw [viewList_ofRequest, Option.map_eq_some_iff] at hv
    obtain ⟨p, hp, rfl⟩ := hv
    rfl
  case stops =>
    intro v hv stop hstop
    obtain ⟨i, p, dates, hp, -, rfl⟩ := hview hv
    exact hsound.stops hp stop (by simpa [PatternView.ofDates] using hstop)
  case complete =>
    intro v hv index d hd
    obtain ⟨i, p, dates, hp, -, rfl⟩ := hview hv
    obtain ⟨base, trip, hruns, hpublished, hrevises⟩ := hx.revises_of_view hp hd
    refine ⟨by simpa [PatternView.ofDates] using hx.size_calls hp hd, fun position hposition => ?_⟩
    have hposition : position < p.stops.length := by
      simpa [PatternView.ofDates] using hposition
    rw [hruns.calls]
    change (trip.headsign? position).isSome = true
    unfold Trip.headsign?
    rw [hrevises.headsigns]
    cases hheadsigns : base.headsigns with
    | none => rfl
    | some hs => simp [hpublished.headsigns hs hheadsigns, hposition]
  case walks =>
    intro stop k hk
    have hforward : ∀ {stop : Nat} {k : Transfer}, k ∈ x.timetable.transfersFrom stop →
        k.target < x.timetable.numStops ∧ 0 ≤ k.duration :=
      fun hk => (hsound.walks hk).2
    unfold Heading.walks at hk
    split at hk
    · exact hforward hk
    · obtain ⟨hstop, -, hduration⟩ := hsound.walks (hsound.mirrored.mp hk)
      exact ⟨hstop, hduration⟩
  case origin =>
    intro leg hleg
    refine hlegs leg ?_
    simp only [Search.ofRequest, Search.originOf] at hleg
    split at hleg <;> simp [hleg]
  case target =>
    intro leg hleg
    refine hlegs leg ?_
    simp only [Search.ofRequest, Search.targetOf] at hleg
    split at hleg <;> simp [hleg]

end Router
end JourneyPlanner
