import JourneyPlanner.Proofs.Thinning

/-!
Days are all alike. A time past midnight can be asked for as a time of the next day: the
same dates are searched then, and the answer is the same with every time a day less.
-/

namespace JourneyPlanner

/-- The next day stands for the request date: one more day lies before it, one less after. -/
def Settings.fromNextDay (s : Settings) : Settings :=
  { s with
    searchDaysBefore := s.searchDaysBefore + 1
    searchDaysAfter := s.searchDaysAfter - 1 }

def Router.fromNextDay (x : Router) : Router :=
  { x with settings := x.settings.fromNextDay }

theorem Router.Deployed.fromNextDay {x : Router} (hx : x.Deployed) : x.fromNextDay.Deployed :=
  ⟨hx.timetable, hx.snapshot⟩

/-- The same request, its time told from the next day, which is `date`. -/
def Request.fromNextDay (r : Request) (date : Date) : Request :=
  { r with date := date, time := r.time - secondsOfDay }

namespace Date

variable {d d' : Date}

/-- The dates around a date are those around the next one. -/
theorem window_nextDay (h : d.addDays? 1 = some d') {before after : Nat} (hafter : 1 ≤ after) :
    (d'.window (before + 1) (after - 1)).toOption = (d.window before after).toOption := by
  have hday := day_of_addDays?.mp h
  have hfirst : d'.addDays? (-((before + 1 : Nat) : Int)) = d.addDays? (-(before : Int)) := by
    unfold addDays?
    exact congrArg ofDay? (by omega)
  have htotal : before + 1 + (after - 1) + 1 = before + after + 1 := by omega
  unfold window
  rw [hfirst, htotal]
  cases d.addDays? (-(before : Int)) with
  | none => rfl
  | some first => rfl

/-- A period that reaches the dates around a date reaches those around the next one. -/
theorem clamped_nextDay (h : d.addDays? 1 = some d') {before after : Nat} (hafter : 1 ≤ after)
    (first last : Date) :
    (d' < (first.addDays? (-((after - 1 : Nat) : Int))).getD .first
        ∨ (last.addDays? ((before + 1 : Nat) : Int)).getD .last < d') ↔
      d < (first.addDays? (-(after : Int))).getD .first
        ∨ (last.addDays? before).getD .last < d := by
  have hday := day_of_addDays?.mp h
  have hd := d.inRange
  have hd' := d'.inRange
  have hfirst := first.inRange
  have hlast := last.inRange
  simp only [lt_iff_day_lt, day_addDays?_getD, Date.first, Date.last]
  omega

end Date

namespace Request

variable {r : Request} {settings : Settings} {t : Timetable} {date : Date}

theorem fault?_fromNextDay (hnext : r.date.addDays? 1 = some date)
    (hafter : 1 ≤ settings.searchDaysAfter) (hlow : secondsOfDay ≤ r.time)
    (hhigh : r.time ≤ 2 * secondsOfDay) :
    (r.fromNextDay date).fault? settings.fromNextDay t = none ↔ r.fault? settings t = none := by
  have htime : r.timeFault? = none := if_neg (by grind [secondsOfDay])
  have htime' : (r.fromNextDay date).timeFault? = none := by
    refine if_neg ?_
    simp only [fromNextDay]
    grind [secondsOfDay]
  have hdate : (r.fromNextDay date).dateFault? settings.fromNextDay t = none ↔
      r.dateFault? settings t = none := by
    unfold dateFault?
    cases t.calendar.period with
    | none => rfl
    | some period =>
        simp only [fromNextDay, Settings.fromNextDay, Date.clamped_nextDay hnext hafter, ite_eq_right_iff,
          reduceCtorEq, imp_false]
  simp only [fault?, Option.or_eq_none_iff, htime, htime', hdate, true_and]
  rfl

end Request

/-- A trip of a day has its times so many seconds later if the days are counted from a
date so much earlier. -/
theorem DayTrip.agrees_ofTrip (f : TripFilter) {trip : Trip} (date : Date) {offset later : Time}
    (hbefore : ∀ c ∈ trip.calls, c.FitsLater offset)
    (hafter : ∀ c ∈ trip.calls, c.FitsLater (offset + later)) :
    (DayTrip.ofTrip trip date offset).Agrees later f f
      (DayTrip.ofTrip trip date (offset + later)) := by
  refine ⟨rfl, rfl, fun _ => rfl, fun {position c} hc => ?_⟩
  simp only [DayTrip.ofTrip, List.getElem?_toArray, List.getElem?_map, Option.map_eq_some_iff]
    at hc ⊢
  obtain ⟨call, hcall, rfl⟩ := hc
  have hcall' := List.mem_of_getElem? hcall
  refine ⟨_, ⟨call, hcall, rfl⟩, ?_, ?_, fun _ => rfl, fun _ => rfl⟩
  all_goals
    rw [(hbefore call hcall').later, (hafter call hcall').later]
    exact (Int.add_assoc ..).symm

namespace Search

variable {t : Timetable} {sn : Snapshot} {settings : Settings} {r : Request} {date : Date}
  {dates : List Date} {watch : Option Watch} {supervisor : Supervisor}

theorem offset_nextDay (hnext : r.date.addDays? 1 = some date) (serviceDate : Date) :
    date.daysUntil serviceDate * secondsOfDay
      = r.date.daysUntil serviceDate * secondsOfDay + -secondsOfDay := by
  have hday := Date.day_of_addDays?.mp hnext
  unfold Date.daysUntil
  grind

theorem Fits.onDay {limits : SearchLimits}
    (hfits : (ofRequest t sn settings r limits dates watch supervisor).Fits r.date) {pattern : Nat}
    {p : Pattern} (hp : t.patterns[pattern]? = some p) {serviceDate : Date}
    (hdate : serviceDate ∈ dates) {trip : Trip}
    (htrip : trip ∈ ((t.tripsOnDate pattern serviceDate).filterMap
      fun i => sn.trip? t ⟨pattern, i⟩).filter Trip.isUsable) :
    ∀ c ∈ trip.calls, c.FitsLater (r.date.daysUntil serviceDate * secondsOfDay) := by
  have hv : PatternView.ofDates t sn pattern p.stops r.date dates
      ∈ (ofRequest t sn settings r limits dates watch supervisor).viewList := by
    refine List.mem_of_getElem? (i := pattern) ?_
    rw [Router.viewList_ofRequest, hp]
    rfl
  refine (hfits.trips _ hv (.ofTrip trip serviceDate (DayTrips.dayOffset r.date serviceDate)) ?_).onDay
  simp only [PatternView.trips, PatternView.ofDates, List.mem_flatMap, List.mem_map]
  refine ⟨_, ⟨serviceDate, hdate, rfl⟩, ?_⟩
  simp only [DayTrips.ofDate]
  exact List.mem_map_of_mem htrip

/-- All trips are left, with the same indices. -/
theorem thins_fromNextDay (hnext : r.date.addDays? 1 = some date)
    (hfits : (ofRequest t sn settings r (r.limits settings) dates watch supervisor).Fits r.date)
    (hfits' : (ofRequest t sn settings.fromNextDay (r.fromNextDay date)
      ((r.fromNextDay date).limits settings.fromNextDay) dates watch supervisor).Fits date)
    (htimes : (headingOf r (r.limits settings)).iterationTimes (r.time - secondsOfDay)
        (r.limits settings).window settings.iterationStep
      = ((headingOf r (r.limits settings)).iterationTimes r.time (r.limits settings).window
          settings.iterationStep).map (· + -secondsOfDay)) :
    (ofRequest t sn settings r (r.limits settings) dates watch supervisor).Thins (-secondsOfDay)
      (fun _ => true)
      (ofRequest t sn settings.fromNextDay (r.fromNextDay date)
        ((r.fromNextDay date).limits settings.fromNextDay) dates watch supervisor) := by
  refine ⟨⟨_, _, _, rfl⟩, fun _ => rfl, htimes, fun {i v} hv => ?_⟩
  rw [Router.viewList_ofRequest, Option.map_eq_some_iff] at hv
  obtain ⟨p, hp, rfl⟩ := hv
  refine ⟨_, by rw [Router.viewList_ofRequest, hp]; rfl, ?_⟩
  refine PatternView.thins_ofDates (fun serviceDate hdate => ?_)
    (fun _ _ _ _ h => absurd h (by simp))
  simp only [DayTrips.ofDate, List.filter_true]
  rw [List.forall₂_map_left_iff, List.forall₂_map_right_iff, List.forall₂_same]
  intro trip htrip
  have hbefore := hfits.onDay hp hdate htrip
  have hafter := Fits.onDay (r := r.fromNextDay date) hfits' hp hdate htrip
  rw [DayTrip.ofTrip_dayOffset, DayTrip.ofTrip_dayOffset]
  rw [show (r.fromNextDay date).date = date from rfl, offset_nextDay hnext] at hafter ⊢
  exact DayTrip.agrees_ofTrip _ _ hbefore hafter

end Search

namespace Router

variable {x : Router} {r : Request} {date : Date} {watch : Option Watch} {supervisor : Supervisor}

theorem datesFor_fromNextDay (hnext : r.date.addDays? 1 = some date) {settings : Settings}
    (hafter : 1 ≤ settings.searchDaysAfter) (dates : List Date) :
    datesFor settings.fromNextDay (r.fromNextDay date) = .ok dates ↔
      datesFor settings r = .ok dates := by
  have hok : ∀ (settings : Settings) (r : Request), datesFor settings r = .ok dates ↔
      (r.date.window settings.searchDaysBefore settings.searchDaysAfter).toOption = some dates := by
    intro settings r
    unfold datesFor
    cases r.date.window settings.searchDaysBefore settings.searchDaysAfter <;> simp [Except.toOption]
  rw [hok, hok]
  exact iff_of_eq (congrArg (· = some dates) (Date.window_nextDay hnext hafter))

/-- A request and the same one told from the next day are both rejected, or they are
searched for alike. -/
theorem search_fromNextDay (hnext : r.date.addDays? 1 = some date)
    (hafter : 1 ≤ x.settings.searchDaysAfter) (hlow : secondsOfDay ≤ r.time)
    (hhigh : r.time ≤ 2 * secondsOfDay) (hfits : x.Fits r)
    (hfits' : x.fromNextDay.Fits (r.fromNextDay date)) :
    (∃ e e', x.search r watch supervisor = .error e
        ∧ x.fromNextDay.search (r.fromNextDay date) watch supervisor = .error e')
      ∨ ∃ s s', x.search r watch supervisor = .ok s
        ∧ x.fromNextDay.search (r.fromNextDay date) watch supervisor = .ok s'
        ∧ s.Thins (-secondsOfDay) (fun _ => true) s' := by
  have hfault := Request.fault?_fromNextDay (t := x.timetable) hnext hafter hlow hhigh
  have hdates := datesFor_fromNextDay hnext hafter
  cases h : x.search r watch supervisor with
  | ok s =>
      obtain ⟨haccepted, dates, hok, rfl⟩ := search_eq_ok_iff.mp h
      have haccepted' := hfault.mpr haccepted
      have h' : x.fromNextDay.search (r.fromNextDay date) watch supervisor = .ok _ :=
        search_eq_ok_iff.mpr ⟨haccepted', dates, (hdates dates).mpr hok, rfl⟩
      refine Or.inr ⟨_, _, rfl, h', ?_⟩
      refine Search.thins_fromNextDay hnext (hfits.of_search h) (hfits'.of_search h') ?_
      have hexact := (Search.headingOf r (r.limits x.settings)).isExact_exact.shifts (-secondsOfDay)
      have hshifted := Heading.iterationTimes_add hexact r.time (r.limits x.settings).window
        x.settings.iterationStep
      rw [← hfits.window.iterationTimes haccepted] at hshifted
      exact (hfits'.window.iterationTimes haccepted').trans hshifted
  | error e =>
      cases h' : x.fromNextDay.search (r.fromNextDay date) watch supervisor with
      | error e' => exact Or.inl ⟨e, e', rfl, rfl⟩
      | ok s' =>
          obtain ⟨haccepted, dates, hok, -⟩ := search_eq_ok_iff.mp h'
          have hs : x.search r watch supervisor = .ok _ :=
            search_eq_ok_iff.mpr ⟨hfault.mp haccepted, dates, (hdates dates).mp hok, rfl⟩
          exact absurd (h.symm.trans hs) (by simp)

end Router

namespace ThreeLines

def eve : Date := ⟨19843, by decide⟩

/-- The request told from the day before. -/
def eveRequest : Request :=
  { request with date := eve, time := secondsOfDay }

end ThreeLines

namespace LastArrival

open ThreeLines (day eve line)

/-- One of two lines arrives in the last second that 32 bits tell apart. -/
def router : Router where
  timetable := (Builder.ofTrips ["A", "B"] "W" [day]
    [line "t" "t" [("A", 28800), ("B", greatestTime)],
      line "v" "v" [("A", 28900), ("B", 40000)]]).timetable (by decide +kernel)

theorem router_deployed : router.Deployed :=
  Router.deployed_of_assembled (Builder.assembled_ofTrips ..) _ {}

/-- The request told from the day before. -/
def request : Request where
  date := eve
  time := 115200
  searchWindow := some 60
  access := [⟨0, 0⟩]
  egress := [⟨1, 0⟩]

end LastArrival

end JourneyPlanner
