import JourneyPlanner.Clock
import JourneyPlanner.Trip.Attributes

/-!
The records a timetable is made from: trips with their stop times, and
frequencies that repeat a trip. Times are read from seconds or from clock texts
and written as seconds.
-/

namespace JourneyPlanner

namespace Json

def readTime : Json → Reading Time :=
  readIntWithin leastTime greatestTime

/-- Whole seconds or a clock text. -/
def readClockTime : Json → Reading Time
  | .str text =>
    match Clock.read? text.toList with
    | some t => .ok t
    | none => .error (.invalidTime text)
  | j => readTime j

/-- Counts, indices and positions. -/
def readIndex : Json → Reading Nat :=
  readNatUpTo greatestWord

def greatestSequence : Nat := 4294967295

def readSequence : Json → Reading Nat :=
  readNatUpTo greatestSequence

end Json

/-- One call of a trip at a stop. -/
structure StopTimeRecord where
  stopId : String
  arrival : Time
  departure : Time
  stopSequence : Option Nat := none
  pickup : PickDrop := .scheduled
  dropOff : PickDrop := .scheduled
  isTimepoint : Bool := true
  headsign : Option String := none
  deriving DecidableEq

namespace StopTimeRecord

def fieldNames : List String :=
  ["stop_id", "arrival", "departure", "stop_sequence", "pickup", "drop_off", "timepoint", "headsign"]

def toJson (r : StopTimeRecord) : Json :=
  .obj
    [("stop_id", .str r.stopId), ("arrival", .int r.arrival), ("departure", .int r.departure),
      ("stop_sequence", Json.nullable (fun n => .int (Int.ofNat n)) r.stopSequence),
      ("pickup", r.pickup.toJson), ("drop_off", r.dropOff.toJson),
      ("timepoint", .bool r.isTimepoint), ("headsign", Json.nullable .str r.headsign)]

def ofJson (j : Json) : Reading StopTimeRecord := do
  let r ← Record.ofJson fieldNames j
  r.finish <| StopTimeRecord.mk
    <$> r.required "stop_id" Json.readString
    <*> r.required "arrival" Json.readClockTime
    <*> r.required "departure" Json.readClockTime
    <*> r.optional "stop_sequence" Json.readSequence
    <*> r.withDefault "pickup" .scheduled PickDrop.ofCodeOrName
    <*> r.withDefault "drop_off" .scheduled PickDrop.ofCodeOrName
    <*> r.withDefault "timepoint" true Json.readBool
    <*> r.optional "headsign" Json.readString

end StopTimeRecord

/-- A trip with its calls. -/
structure TripRecord where
  tripId : String
  routeId : String
  serviceId : String
  headsign : Option String := none
  wheelchair : Permission := .unknown
  bikes : Permission := .unknown
  stopTimes : List StopTimeRecord
  deriving DecidableEq

namespace TripRecord

def fieldNames : List String :=
  ["trip_id", "route_id", "service_id", "headsign", "wheelchair", "bikes", "stop_times"]

def toJson (r : TripRecord) : Json :=
  .obj
    [("trip_id", .str r.tripId), ("route_id", .str r.routeId), ("service_id", .str r.serviceId),
      ("headsign", Json.nullable .str r.headsign), ("wheelchair", r.wheelchair.toJson),
      ("bikes", r.bikes.toJson), ("stop_times", .arr (r.stopTimes.map StopTimeRecord.toJson))]

def ofJson (j : Json) : Reading TripRecord := do
  let r ← Record.ofJson fieldNames j
  r.finish <| TripRecord.mk
    <$> r.required "trip_id" Json.readString
    <*> r.required "route_id" Json.readString
    <*> r.required "service_id" Json.readString
    <*> r.optional "headsign" Json.readString
    <*> r.withDefault "wheelchair" .unknown Permission.ofJson
    <*> r.withDefault "bikes" .unknown Permission.ofJson
    <*> r.required "stop_times" (Json.readList StopTimeRecord.ofJson)

end TripRecord

/-- Repeats the trip of that id every `headway` seconds, departing from `start`
on and before `end`. -/
structure FrequencyRecord where
  tripId : String
  start : Time
  finish : Time
  headway : Time
  exactTimes : Bool := false
  deriving DecidableEq

namespace FrequencyRecord

def fieldNames : List String :=
  ["trip_id", "start", "end", "headway", "exact_times"]

def toJson (r : FrequencyRecord) : Json :=
  .obj
    [("trip_id", .str r.tripId), ("start", .int r.start), ("end", .int r.finish),
      ("headway", .int r.headway), ("exact_times", .bool r.exactTimes)]

def ofJson (j : Json) : Reading FrequencyRecord := do
  let r ← Record.ofJson fieldNames j
  r.finish <| FrequencyRecord.mk
    <$> r.required "trip_id" Json.readString
    <*> r.required "start" Json.readClockTime
    <*> r.required "end" Json.readClockTime
    <*> r.required "headway" Json.readTime
    <*> r.withDefault "exact_times" false Json.readBool

/-- At least one second. -/
def step (r : FrequencyRecord) : Time :=
  max 1 r.headway

/-- First departures of the repeated trips, ascending. -/
def departures (r : FrequencyRecord) : List Time :=
  let count := ((r.finish - r.start + r.step - 1) / r.step).toNat
  (List.range count).map fun k => r.start + Int.ofNat k * r.step

def firstDeparture (r : FrequencyRecord) : Time :=
  r.start

/-- The last arrival of a repeated trip that takes `duration`. -/
def lastArrival (r : FrequencyRecord) (duration : Time) : Time :=
  match r.departures.getLast? with
  | some t => Time.wrap (t + duration)
  | none => r.start

end FrequencyRecord
end JourneyPlanner
