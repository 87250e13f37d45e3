import JourneyPlanner.Proofs.Boarding
import JourneyPlanner.Proofs.FeedHistory
import JourneyPlanner.Proofs.Searchable
import JourneyPlanner.Proofs.Simulation

/-!
The trip that is caught at a stop is the best one there, and its index is that of the same trip
on the same day whenever it is looked up. Trips do not stand in the order of their times: those of
yesterday come before those of today, and any of them may be late.
-/

namespace JourneyPlanner

namespace Heading

variable {h : Heading} {a b : Time}

theorem better_irrefl (h : Heading) (a : Time) : h.better a a = false :=
  better_eq_false.mpr (h.betterOrEqual_refl a)

theorem better_asymm (hab : h.better a b = true) : h.better b a = false := by
  rw [better_eq_not, Bool.not_eq_true'] at hab
  exact better_eq_false.mpr (betterOrEqual_of_not hab)

theorem better_or_eq (hab : h.betterOrEqual a b = true) : h.better a b = true ∨ b = a := by
  unfold betterOrEqual at hab
  unfold better
  cases hd : h.direction <;> simp only [hd, decide_eq_true_eq] at hab ⊢ <;> grind

end Heading

namespace PatternView

variable {v : PatternView} {index : Nat} {d : DayTrip}

theorem getElem?_schedules (v : PatternView) (index : Nat) :
    v.schedules[index]? = (tripIn? v.days index).map fun d => (d, index) := by
  rw [v.schedules_eq, schedulesOf, List.getElem?_zipIdx, getElem?_flatMap_trips, Nat.zero_add]

/-- Taking the trips of one day after the other off an index leads to the trip that has this
index among those of all days. -/
theorem tripAt_eq_ok_iff : v.tripAt index = .ok d ↔ v.schedules[index]? = some (d, index) := by
  rw [getElem?_schedules, tripAt]
  cases tripIn? v.days index <;> simp

theorem mem_schedules_iff : (d, index) ∈ v.schedules ↔ v.tripAt index = .ok d := by
  rw [mem_schedules, tripAt_eq_ok_iff, getElem?_schedules]
  simp

theorem tripAt_eq_error_iff :
    v.tripAt index = .error (.tripIndex v.pattern index v.numTrips) ↔ v.numTrips ≤ index := by
  rw [numTrips, ← List.getElem?_eq_none_iff, getElem?_schedules, tripAt]
  cases tripIn? v.days index <;> simp [numTrips]

variable {h : Heading} {f : TripFilter} {position stop : Nat} {limit : Time} {c c' : Catchable}

/-- Of all trips that can be caught the best one, and of equally good ones the first. -/
structure IsBestCatch (v : PatternView) (h : Heading) (f : TripFilter) (position stop : Nat)
    (limit : Time) (c : Catchable) : Prop where
  resolves : v.tripAt c.index = .ok c.trip
  caught : ∃ call, CanCatch h f position stop limit c.trip call ∧ c.time = h.boardTime call
  best : ∀ index d call, v.tripAt index = .ok d → CanCatch h f position stop limit d call →
    h.better c.time (h.boardTime call) = true ∨ h.boardTime call = c.time ∧ c.index ≤ index

namespace IsBestCatch

theorem no_later (hc : v.IsBestCatch h f position stop limit c)
    (hc' : v.IsBestCatch h f position stop limit c') :
    h.better c.time c'.time = true ∨ c'.time = c.time ∧ c.index ≤ c'.index := by
  obtain ⟨call, hcatch, htime⟩ := hc'.caught
  rw [htime]
  exact hc.best c'.index c'.trip call hc'.resolves hcatch

/-- Neither of two best ones can be better than the other. -/
theorem index_le (hc : v.IsBestCatch h f position stop limit c)
    (hc' : v.IsBestCatch h f position stop limit c') :
    c'.time = c.time ∧ c.index ≤ c'.index := by
  refine (hc.no_later hc').resolve_left fun hbetter => ?_
  obtain hbetter' | ⟨htime, -⟩ := hc'.no_later hc
  · exact Bool.eq_false_iff.mp (Heading.better_asymm hbetter) hbetter'
  · rw [htime] at hbetter
    exact Bool.eq_false_iff.mp (h.better_irrefl _) hbetter

theorem unique (hc : v.IsBestCatch h f position stop limit c)
    (hc' : v.IsBestCatch h f position stop limit c') : c = c' := by
  obtain ⟨htime, hle⟩ := hc.index_le hc'
  obtain ⟨-, hle'⟩ := hc'.index_le hc
  have hindex : c.index = c'.index := Nat.le_antisymm hle hle'
  have htrip : c.trip = c'.trip := by
    have hresolves := hc.resolves
    rw [hindex, hc'.resolves] at hresolves
    exact (Except.ok.inj hresolves).symm
  cases c
  cases c'
  simp only at htime hindex htrip
  rw [htime, hindex, htrip]

end IsBestCatch

section Finding

variable (hstop : v.stops[position]? = some stop)

include hstop

theorem isBestCatch_of_found (hf : v.findBoarding h f position limit = .ok (some c)) :
    v.IsBestCatch h f position stop limit c := by
  obtain ⟨stop', hstop', hfound, hbest⟩ := findBoarding_eq_ok hf
  obtain rfl : stop = stop' := Option.some.inj (hstop.symm.trans hstop')
  obtain ⟨hmem, hcaught⟩ := hfound c rfl
  refine ⟨mem_schedules_iff.mp hmem, hcaught, fun index d call hd hcatch => ?_⟩
  have hmem : (d, index) ∈ v.schedules := mem_schedules_iff.mpr hd
  obtain ⟨_, ⟨⟩, hle⟩ := hbest _ hmem call hcatch
  refine (Heading.better_or_eq hle).imp_right fun htime => ⟨htime, ?_⟩
  exact findBoarding_isFirst hf hstop c rfl _ hmem call hcatch htime

theorem not_canCatch_of_notFound (hf : v.findBoarding h f position limit = .ok none) {call : Call}
    (hd : v.tripAt index = .ok d) : ¬ CanCatch h f position stop limit d call := by
  intro hcatch
  obtain ⟨stop', hstop', -, hbest⟩ := findBoarding_eq_ok hf
  obtain rfl : stop = stop' := Option.some.inj (hstop.symm.trans hstop')
  obtain ⟨c, hc, -⟩ := hbest _ (mem_schedules_iff.mpr hd) call hcatch
  exact Option.some_ne_none c hc.symm

variable (hcalls : ∀ index d, v.tripAt index = .ok d → position < d.calls.size)

include hcalls

theorem exists_found (h : Heading) (f : TripFilter) (limit : Time) :
    ∃ found, v.findBoarding h f position limit = .ok found := by
  obtain ⟨hposition, -⟩ := Array.getElem?_eq_some_iff.mp hstop
  exact findBoarding_succeeds hposition fun e he => hcalls e.2 e.1 (mem_schedules_iff.mp he)

theorem findBoarding_eq_some_iff : v.findBoarding h f position limit = .ok (some c)
    ↔ v.IsBestCatch h f position stop limit c := by
  refine ⟨isBestCatch_of_found hstop, fun hc => ?_⟩
  obtain ⟨found, hf⟩ := exists_found hstop hcalls h f limit
  cases found with
  | none =>
      obtain ⟨call, hcatch, -⟩ := hc.caught
      exact absurd hcatch (not_canCatch_of_notFound hstop hf hc.resolves)
  | some c' => rw [hf, (isBestCatch_of_found hstop hf).unique hc]

theorem findBoarding_eq_none_iff : v.findBoarding h f position limit = .ok none
    ↔ ∀ index d call, v.tripAt index = .ok d → ¬ CanCatch h f position stop limit d call := by
  refine ⟨fun hf index d call hd => not_canCatch_of_notFound hstop hf hd, fun hnone => ?_⟩
  obtain ⟨found, hf⟩ := exists_found hstop hcalls h f limit
  cases found with
  | none => exact hf
  | some c =>
      have hc := isBestCatch_of_found hstop hf
      obtain ⟨call, hcatch, -⟩ := hc.caught
      exact absurd hcatch (hnone _ _ call hc.resolves)

end Finding
end PatternView

namespace Router

open PatternView

/-- At each stop of a pattern the best trip is found that can be caught, on whatever days and from
whatever time on; no trip is found only if none can be caught. Its index, like that of every trip,
is looked up as the same trip of the same day. -/
theorem Deployed.boards_best {x : Router} (hx : x.Deployed) {i : Nat} {p : Pattern}
    (hp : x.timetable.patterns[i]? = some p) (searchDate : Date) (dates : List Date) (h : Heading)
    (f : TripFilter) {position stop : Nat} (hstop : p.stops[position]? = some stop) (limit : Time) :
    let v := PatternView.ofDates x.timetable x.snapshot i p.stops searchDate dates
    (∃ found, v.findBoarding h f position limit = .ok found)
      ∧ (v.findBoarding h f position limit = .ok none ↔ ∀ index d call,
        v.tripAt index = .ok d → ¬ CanCatch h f position stop limit d call)
      ∧ (∀ c, v.findBoarding h f position limit = .ok (some c)
        ↔ v.IsBestCatch h f position stop limit c)
      ∧ ∀ index, (v.tripAt index = .error (.tripIndex i index v.numTrips) ↔ v.numTrips ≤ index)
        ∧ ∀ d, (v.tripAt index = .ok d ↔ v.schedules[index]? = some (d, index))
          ∧ (v.tripAt index = .ok d →
            ∃ trip, x.snapshot.RunsOn x.timetable searchDate dates i d trip) := by
  intro v
  have hstop' : v.stops[position]? = some stop := by
    simpa [v, PatternView.ofDates] using hstop
  obtain ⟨hposition, -⟩ := List.getElem?_eq_some_iff.mp hstop
  have hcalls : ∀ index d, v.tripAt index = .ok d → position < d.calls.size := fun index d hd => by
    rw [hx.size_calls hp (Search.tripAt_eq_ok hd)]
    exact hposition
  refine ⟨exists_found hstop' hcalls h f limit, findBoarding_eq_none_iff hstop' hcalls,
    fun c => findBoarding_eq_some_iff hstop' hcalls, fun index => ⟨tripAt_eq_error_iff, fun d =>
      ⟨tripAt_eq_ok_iff, fun hd => Snapshot.runsOn_of_view (Search.tripAt_eq_ok hd)⟩⟩⟩

end Router

namespace NightLine

def saturday : Date := ⟨19847, by decide⟩

def sunday : Date := ⟨19848, by decide⟩

def trip (tripId : String) (start : Time) : TripRecord where
  tripId := tripId
  routeId := "n"
  serviceId := "W"
  stopTimes :=
    [⟨"A", start, start, none, .scheduled, .scheduled, true, none⟩,
      ⟨"B", start + 300, start + 300, none, .scheduled, .scheduled, true, none⟩]

/-- The last trip of a day departs shortly before the first one of the next day. -/
def builder : Builder :=
  .ofTrips ["A", "B"] "W" [saturday, sunday] [trip "first" 600, trip "last" 86970]

def timetable : Timetable :=
  builder.timetable (by decide +kernel)

theorem builder_build : builder.build.2 = .ok timetable :=
  builder.build_eq_timetable _

/-- The last trip is so late that it departs together with the first one. -/
def router : Router where
  timetable := timetable
  snapshot := (Feed.after timetable [.batch [.delay "last" (.position 0) 30 30 true]]).snapshot

theorem router_deployed : router.Deployed where
  timetable := ⟨builder, Builder.assembled_ofTrips .., builder_build⟩
  snapshot := ⟨_, Feed.running_after .., rfl⟩

def pattern : Pattern :=
  (timetable.patterns[0]?).get (by decide +kernel)

theorem getElem?_patterns : router.timetable.patterns[0]? = some pattern :=
  (Option.some_get _).symm

def heading : Heading where
  direction := .forward
  boardSlack := 60

/-- Nothing runs on Friday. -/
def view : PatternView :=
  .ofDates timetable router.snapshot 0 pattern.stops sunday
    [⟨19846, by decide⟩, saturday, sunday]

end NightLine

/-- Of the two trips that depart together the one of Saturday is caught. -/
theorem Router.nightLine_boards :
    NightLine.router.Deployed ∧ NightLine.router.timetable.patterns[0]? = some NightLine.pattern
      ∧ NightLine.pattern.stops[0]? = some 0
      ∧ NightLine.view.schedules.map (fun e => (e.1.trip.details.tripId, e.1.date,
          e.1.calls[0]?.map (·.departure)))
        = [("first", NightLine.saturday, some (-85800)), ("last", NightLine.saturday, some 600),
          ("first", NightLine.sunday, some 600), ("last", NightLine.sunday, some 87000)]
      ∧ ∃ c, NightLine.view.findBoarding NightLine.heading {} 0 0 = .ok (some c) ∧ c.index = 1
        ∧ NightLine.view.IsBestCatch NightLine.heading {} 0 0 0 c := by
  have hstop : NightLine.pattern.stops[0]? = some 0 := by decide +kernel
  have hboards := NightLine.router_deployed.boards_best NightLine.getElem?_patterns
    NightLine.sunday [⟨19846, by decide⟩, NightLine.saturday, NightLine.sunday]
    NightLine.heading {} hstop 0
  have hindex : (NightLine.view.findBoarding NightLine.heading {} 0 0).toOption.any
      (fun found => found.any fun c => c.index == 1) = true := by
    decide +kernel
  obtain ⟨found, hfound, hany⟩ := Fallible.any_toOption.mp hindex
  obtain ⟨c, rfl, hc⟩ := (Option.any_eq_true ..).mp hany
  exact ⟨NightLine.router_deployed, NightLine.getElem?_patterns, hstop, by decide +kernel, c,
    hfound, beq_iff_eq.mp hc, (hboards.2.2.1 c).mp hfound⟩

end JourneyPlanner
