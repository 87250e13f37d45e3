import JourneyPlanner.Notice
import JourneyPlanner.Ordered
import JourneyPlanner.Timetable.Basic
import JourneyPlanner.Trip.Live

/-!
Snapshots of real-time information: the trips that differ from the timetable, and
how one update changes them. A snapshot is a value; an update makes a new one.
-/

namespace JourneyPlanner

/-- Real-time versions of trips, each key once. -/
abbrev LiveTrips := List (TripKey × Trip)

structure Snapshot where
  trips : LiveTrips := []
  version : Nat := 0

namespace Snapshot

def empty : Snapshot := {}

def isEmpty (s : Snapshot) : Bool :=
  s.trips.isEmpty

def numUpdated (s : Snapshot) : Nat :=
  s.trips.length

def updatedTrip? (s : Snapshot) (key : TripKey) : Option Trip :=
  Association.find? key s.trips

/-- The real-time version of a trip, or else the one of the timetable. -/
def trip? (s : Snapshot) (t : Timetable) (key : TripKey) : Option Trip :=
  (s.updatedTrip? key).or (t.scheduledTrip? key)

/-- Ascending. -/
def updatedKeys (s : Snapshot) : List TripKey :=
  Ordered.sort TripKey.before (s.trips.map (·.1))

end Snapshot

namespace Timetable

def resolveTrip (t : Timetable) (tripId : String) : Except Fault TripKey :=
  match t.findTrip? tripId with
  | some key => .ok key
  | none => .error (.request (.unknownTrip tripId))

/-- A stop reference is resolved on the published trip. -/
def resolvePosition (t : Timetable) (key : TripKey) (stop : StopRef) : Except Fault Nat :=
  match t.scheduledTrip? key with
  | none => .error (.data (.missingTrip key.pattern key.index))
  | some trip =>
    let position := match stop with
      | .position p => if p < trip.numCalls then some p else none
      | .sequence s => trip.positionOfSequence? s
    match position with
    | some p => .ok p
    | none => .error (.data (.stopNotOnTrip stop trip.details.tripId))

end Timetable

namespace LiveTrips

/-- The version a change starts from. -/
def current (m : LiveTrips) (t : Timetable) (key : TripKey) : Except Fault Trip :=
  match Association.find? key m with
  | some trip => .ok trip
  | none =>
    match t.scheduledTrip? key with
    | some trip => .ok trip
    | none => .error (.data (.missingTrip key.pattern key.index))

/-- What became of the trip, with a notice if its times decrease. -/
def outcome (trip : Trip) : UpdateOutcome × List Notice :=
  if trip.isCanceled then (.applied, [])
  else
    match trip.decrease? with
    | none => (.applied, [])
    | some (position, decrease) =>
      (.appliedNonMonotonic, [.timesDecrease trip.details.tripId decrease position])

structure Change where
  trips : LiveTrips
  outcome : UpdateOutcome
  notices : List Notice

/-- Changes a trip at a position; `change` has no value beyond the trip. -/
def changeAt (m : LiveTrips) (t : Timetable) (tripId : String) (stop : StopRef)
    (change : Trip → Nat → Option Trip) : Except Fault Change := do
  let key ← t.resolveTrip tripId
  let position ← t.resolvePosition key stop
  let trip ← m.current t key
  match change trip position with
  | none => .error (.internal (.outOfBounds position))
  | some trip =>
    let (outcome, notices) := outcome trip
    return ⟨Association.put key trip m, outcome, notices⟩

/-- The arrival and departure of each later position shifted by `delay`. -/
def delayFrom? (trip : Trip) (delay : Time) : List Nat → Option Trip
  | [] => some trip
  | p :: ps => do
    let trip ← trip.delayArrival? p delay
    let trip ← trip.delayDeparture? p delay
    delayFrom? trip delay ps

def delay? (arrival departure : Time) (propagate : Bool) (trip : Trip) (position : Nat) :
    Option Trip := do
  let trip ← trip.delayArrival? position arrival
  let trip ← trip.delayDeparture? position departure
  if propagate then
    delayFrom? trip departure
      ((List.range (trip.numCalls - (position + 1))).map fun k => position + 1 + k)
  else return trip

def setTimes? (arrival departure : Option Time) (inaccurate : Bool) (trip : Trip) (position : Nat) :
    Option Trip := do
  let trip ← match arrival with
    | some time => trip.setArrival? position time
    | none => some trip
  let trip ← match departure with
    | some time => trip.setDeparture? position time
    | none => some trip
  if inaccurate then trip.markInaccurate? position else return trip

def apply (m : LiveTrips) (t : Timetable) (u : TripUpdate) : Except Fault Change :=
  match u with
  | .delay id stop arrival departure propagate =>
    m.changeAt t id stop (delay? arrival departure propagate)
  | .times id stop arrival departure inaccurate =>
    m.changeAt t id stop (setTimes? arrival departure inaccurate)
  | .cancelStop id stop => m.changeAt t id stop Trip.cancelStop?
  | .recorded id stop => m.changeAt t id stop Trip.markRecorded?
  | .cancelTrip id => do
    let key ← t.resolveTrip id
    let trip ← m.current t key
    return ⟨Association.put key trip.cancel m, .applied, []⟩
  | .revert id => do
    let key ← t.resolveTrip id
    return ⟨Association.erase key m, .applied, []⟩

end LiveTrips
end JourneyPlanner
