import JourneyPlanner.Realtime.Snapshot
import JourneyPlanner.Search.Filter
import JourneyPlanner.Search.Heading

/-!
The trips of a pattern on the days of a search, with times relative to the
request date. Cancelled trips and trips whose times decrease are left out. A
trip has one index over all days, in the order of the days.
-/

namespace JourneyPlanner

/-- A trip on one service date. -/
structure DayTrip where
  trip : Trip
  date : Date
  calls : Array Call

/-- The trips of one service date. -/
structure DayTrips where
  date : Date
  trips : Array DayTrip

/-- All trips with their indices, day after day. -/
def schedulesOf (days : List DayTrips) : List (DayTrip × Nat) :=
  (days.flatMap fun d => d.trips.toList).zipIdx

structure PatternView where
  pattern : Nat
  stops : Array Nat
  days : List DayTrips
  /-- Listed once, since every attempt to catch a trip goes through them. -/
  schedules : List (DayTrip × Nat) := schedulesOf days
  schedules_eq : schedules = schedulesOf days := by rfl

namespace DayTrip

def ofTrip (t : Trip) (date : Date) (offset : Time) : DayTrip where
  trip := t
  date := date
  calls := (t.calls.map fun c => c.later offset).toArray

def call (d : DayTrip) (position : Nat) : Except InternalFault Call :=
  match d.calls[position]? with
  | some c => .ok c
  | none => .error (.outOfBounds position)

end DayTrip

namespace DayTrips

/-- Seconds from the request date to a service date. -/
def dayOffset (searchDate date : Date) : Time :=
  Time.wrap (searchDate.daysUntil date * secondsOfDay)

/-- Trips of the pattern that run on the date, in the version of the snapshot. -/
def ofDate (t : Timetable) (s : Snapshot) (pattern : Nat) (searchDate date : Date) : DayTrips where
  date := date
  trips :=
    ((t.tripsOnDate pattern date).filterMap (fun i => s.trip? t ⟨pattern, i⟩)
      |>.filter Trip.isUsable
      |>.map fun trip => DayTrip.ofTrip trip date (dayOffset searchDate date)).toArray

end DayTrips

/-- A trip that can be caught, with its index and the time of catching it. -/
structure Catchable where
  index : Nat
  trip : DayTrip
  time : Time

namespace PatternView

def ofDates (t : Timetable) (s : Snapshot) (pattern : Nat) (stops : List Nat) (searchDate : Date)
    (dates : List Date) : PatternView where
  pattern := pattern
  stops := stops.toArray
  days := dates.map (DayTrips.ofDate t s pattern searchDate)

def numTrips (v : PatternView) : Nat :=
  v.schedules.length

def tripIn? : List DayTrips → Nat → Option DayTrip
  | [], _ => none
  | d :: ds, index => if h : index < d.trips.size then some d.trips[index]
    else tripIn? ds (index - d.trips.size)

def tripAt (v : PatternView) (index : Nat) : Except InternalFault DayTrip :=
  match tripIn? v.days index with
  | some trip => .ok trip
  | none => .error (.tripIndex v.pattern index v.numTrips)

def stopAt (v : PatternView) (position : Nat) : Except InternalFault Nat :=
  match v.stops[position]? with
  | some stop => .ok stop
  | none => .error (.outOfBounds position)

/-- Takes the next trip instead of the best so far if it is strictly better, is
not caught before the limit and may be caught. -/
def consider (h : Heading) (f : TripFilter) (position stop : Nat) (limit : Time)
    (best : Option Catchable) (entry : DayTrip × Nat) : Except InternalFault (Option Catchable) := do
  let call ← entry.1.call position
  let time := h.boardTime call
  if h.better time limit || best.any (fun b => h.betterOrEqual b.time time) then return best
  else if (h.boardRule call).isRoutable && f.accepts entry.1.trip position stop then
    return some ⟨entry.2, entry.1, time⟩
  else return best

/-- The best trip to catch at a position from the limit on; of equals the one
with the least index. -/
def findBoarding (v : PatternView) (h : Heading) (f : TripFilter) (position : Nat) (limit : Time) :
    Except InternalFault (Option Catchable) := do
  let stop ← v.stopAt position
  v.schedules.foldlM (consider h f position stop limit) none

end PatternView
end JourneyPlanner
