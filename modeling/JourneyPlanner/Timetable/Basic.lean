import JourneyPlanner.Calendar.Services
import JourneyPlanner.Calendar.Zone
import JourneyPlanner.Timetable.Rows
import JourneyPlanner.Trip.Basic

/-!
A timetable: stops, patterns with their trips, walks between stops and the
calendar of services. A pattern holds all trips of one route with the same stops
in the same order; a trip keeps its index in its pattern for as long as the
timetable is in use.
-/

namespace JourneyPlanner

structure Stop where
  stopId : String
  name : Option String := none
  priority : TransferPriority := .allowed
  deriving DecidableEq, Inhabited

/-- A walk; `target` is its other end. -/
structure Transfer where
  target : Nat
  duration : Time
  deriving DecidableEq

structure Pattern where
  code : String
  routeId : String
  stops : List Nat
  trips : List Trip
  deriving DecidableEq

namespace Pattern

def numStops (p : Pattern) : Nat :=
  p.stops.length

/-- A loop visits a stop more than once. -/
def positionsOf (p : Pattern) (stop : Nat) : List Nat :=
  (List.range p.stops.length).filter fun i => p.stops[i]? == some stop

end Pattern

/-- Where a trip is found in a timetable. -/
structure TripKey where
  pattern : Nat
  index : Nat
  deriving DecidableEq, Repr

namespace TripKey

def before (a b : TripKey) : Bool :=
  decide (a.pattern < b.pattern) || (a.pattern == b.pattern && decide (a.index < b.index))

end TripKey

structure Timetable where
  stops : Array Stop
  patterns : Array Pattern
  stopPatterns : Rows Nat
  transfers : Rows Transfer
  incoming : Rows Transfer
  calendar : ServiceCalendar
  zone : Zone
  /-- The entry that comes first holds for its trip id. -/
  tripIndex : List (String × TripKey)

namespace Timetable

def numStops (t : Timetable) : Nat :=
  t.stops.size

def numTrips (t : Timetable) : Nat :=
  t.patterns.foldl (fun n p => n + p.trips.length) 0

def findStop? (t : Timetable) (stopId : String) : Option Nat :=
  t.stops.toList.findIdx? fun s => s.stopId == stopId

def findTrip? (t : Timetable) (tripId : String) : Option TripKey :=
  Association.find? tripId t.tripIndex

def scheduledTrip? (t : Timetable) (key : TripKey) : Option Trip := do
  let pattern ← t.patterns[key.pattern]?
  pattern.trips[key.index]?

/-- Walks that leave the stop. -/
def transfersFrom (t : Timetable) (stop : Nat) : List Transfer :=
  t.transfers.row stop

/-- Walks that reach the stop; their target is where they start. -/
def transfersTo (t : Timetable) (stop : Nat) : List Transfer :=
  t.incoming.row stop

/-- Patterns through the stop, ascending. -/
def patternsAt (t : Timetable) (stop : Nat) : List Nat :=
  t.stopPatterns.row stop

/-- Trips whose service runs on the date, with their indices. -/
def activeTrips (t : Timetable) (pattern : Pattern) (date : Date) : List (Trip × Nat) :=
  pattern.trips.zipIdx.filter fun (trip, _) => t.calendar.isActive trip.details.serviceCode date

def tripsOnDate (t : Timetable) (pattern : Nat) (date : Date) : List Nat :=
  match t.patterns[pattern]? with
  | some p => (t.activeTrips p date).map (·.2)
  | none => []

def isDiscouraged (t : Timetable) (stop : Nat) : Bool :=
  t.stops[stop]?.any fun s => s.priority == .discouraged

end Timetable
end JourneyPlanner
