import JourneyPlanner.Proofs.Boarding
import JourneyPlanner.Proofs.Searchable

/-!
Rides of a search: what is known of a trip that was caught after one arrival and
left with another, in search direction and in the order of time.
-/

namespace JourneyPlanner
namespace Search

/-- A trip caught at one call after a way and left at another call. -/
structure Rides (s : Search) (v : PatternView) (w : Way) (b : Boarding) (position : Nat)
    (a : StopArrival) (d : DayTrip) (boardCall call : Call) : Prop where
  trip : PatternView.tripIn? v.days b.trip = some d
  boards : d.calls[b.position]? = some boardCall
  leaves : d.calls[position]? = some call
  inTime : s.heading.betterOrEqual (s.heading.boardLimit w.arrival.time)
    (s.heading.boardTime boardCall) = true
  boardRule : (s.heading.boardRule boardCall).isRoutable = true
  alightRule : (s.heading.alightRule call).isRoutable = true
  boardAccepted : s.filter.accepts d.trip b.position w.arrival.stop = true
  alightAccepted : s.filter.accepts d.trip position a.stop = true
  kind : a.kind = .transit v.pattern b.trip b.position position
  time : a.time = s.heading.alightTime call
  originTime : a.originTime = s.originTimeOf w.arrival (s.heading.boardTime boardCall)
  cost : a.cost = Cost.plus
    (Cost.plus w.arrival.cost
      (s.boardingCost w.arrival (s.heading.boardTime boardCall) (w.arrival.round + 1)))
    (s.rates.riding (s.heading.inVehicle boardCall call))

variable {s : Search} {v : PatternView} {w : Way} {b : Boarding} {position stop iteration : Nat}
  {a : StopArrival}

theorem rides_of_left? (hb : s.Catches v w b)
    (hleft : s.left? v (w.arrival.round + 1) position stop iteration b = some a) :
    ∃ d boardCall call, s.Rides v w b position a d boardCall call := by
  obtain ⟨c, hfound, hb'⟩ := caught?_eq_some hb.caught
  obtain ⟨boardStop, hstop, hfacts, -⟩ := PatternView.findBoarding_eq_ok hfound
  obtain ⟨hmem, boardCall, hcatch, htime⟩ := hfacts c rfl
  obtain rfl : w.arrival.stop = boardStop := Option.some.inj (hb.stop.symm.trans hstop)
  have hindex : b.trip = c.index := by rw [hb']
  obtain ⟨d, call, boardCall', htrip, hcall, hboard, hrule, haccepts, rfl⟩ := left?_eq_some hleft
  have hd : d = c.trip := by
    rw [hindex, mem_schedules.mp hmem, Option.some_inj] at htrip
    exact htrip.symm
  subst hd
  obtain rfl : boardCall' = boardCall := Option.some.inj (hboard.symm.trans hcatch.stands)
  refine ⟨c.trip, boardCall', call, htrip, hboard, hcall, hcatch.inTime, hcatch.routable, hrule,
    hcatch.accepted, haccepts, rfl, rfl, ?_, ?_⟩
  · simp only [alightArrival]
    rw [hb', htime]
  · simp only [alightArrival]
    rw [hb', htime]

theorem Rides.isTransit {d : DayTrip} {boardCall call : Call}
    (hr : s.Rides v w b position a d boardCall call) : a.isTransit = true := by
  simp only [StopArrival.isTransit, hr.kind]

/-- A ride in the order of time. -/
structure Rideable (s : Search) (pattern : Nat) (d : DayTrip) (fromStop board toStop alight : Nat)
    (boardCall alightCall : Call) : Prop where
  view : ∃ v index, s.viewList[pattern]? = some v ∧ PatternView.tripIn? v.days index = some d
    ∧ v.stops[board]? = some fromStop ∧ v.stops[alight]? = some toStop
  order : board < alight
  boards : d.calls[board]? = some boardCall
  alights : d.calls[alight]? = some alightCall
  pickup : boardCall.pickup.isRoutable = true
  dropOff : alightCall.dropOff.isRoutable = true
  boardAccepted : s.filter.accepts d.trip board fromStop = true
  alightAccepted : s.filter.accepts d.trip alight toStop = true

theorem Catches.view_getElem? (hw : s.WellFormed) (hb : s.Catches v w b) :
    s.viewList[v.pattern]? = some v := by
  obtain ⟨i, hi⟩ := List.getElem?_of_mem hb.view
  rw [hw.numbered i v hi]
  exact hi

/-- A ride of a search in reverse is one from where it was left to where it was caught. -/
theorem Rides.rideable (hw : s.WellFormed) (hb : s.Catches v w b)
    (hstop : v.stops[position]? = some a.stop) (horder : s.heading.Precedes b.position position)
    {d : DayTrip} {boardCall call : Call} (hr : s.Rides v w b position a d boardCall call) :
    match s.heading.direction with
    | .forward => s.Rideable v.pattern d w.arrival.stop b.position a.stop position boardCall call
    | .reverse => s.Rideable v.pattern d a.stop position w.arrival.stop b.position call boardCall := by
  have hview := hb.view_getElem? hw
  have hboard := hr.boardRule
  have halight := hr.alightRule
  unfold Heading.Precedes at horder
  unfold Heading.boardRule at hboard
  unfold Heading.alightRule at halight
  cases hd : s.heading.direction with
  | forward =>
      simp only [hd] at horder hboard halight
      exact ⟨⟨v, b.trip, hview, hr.trip, hb.stop, hstop⟩, horder, hr.boards, hr.leaves, hboard,
        halight, hr.boardAccepted, hr.alightAccepted⟩
  | reverse =>
      simp only [hd] at horder hboard halight
      exact ⟨⟨v, b.trip, hview, hr.trip, hstop, hb.stop⟩, horder, hr.leaves, hr.boards, halight,
        hboard, hr.alightAccepted, hr.boardAccepted⟩

/-- Time passes during a ride. -/
theorem Rideable.departure_le (hw : s.WellTimed) {pattern fromStop board toStop alight : Nat}
    {d : DayTrip} {boardCall alightCall : Call}
    (hr : s.Rideable pattern d fromStop board toStop alight boardCall alightCall) :
    boardCall.departure ≤ alightCall.arrival := by
  obtain ⟨v, index, hv, htrip, -, -⟩ := hr.view
  have hcalls := hw.chronological v (List.mem_of_getElem? hv) index d htrip
  apply hcalls.departure_le hr.order
  · rw [Array.getElem?_toList]
    exact hr.boards
  · rw [Array.getElem?_toList]
    exact hr.alights

end Search
end JourneyPlanner
