import JourneyPlanner.Calendar.Date
import JourneyPlanner.Timetable.Record

/-!
Answers: itineraries with their legs, and what the search looked at. Times are
seconds since the start of service of the request date; costs are hundredths of
a second.
-/

namespace JourneyPlanner

/-- Generalized cost, at most the greatest 64 bit number. -/
abbrev Cost := Nat

/-- A ride on one trip. -/
structure Ride where
  pattern : Nat
  routeId : String
  tripId : String
  serviceDate : Date
  headsign : Option String
  fromStop : Nat
  boardPosition : Nat
  toStop : Nat
  alightPosition : Nat
  startTime : Time
  endTime : Time
  /-- With boarding, waiting and transfer penalties. -/
  cost : Cost
  deriving DecidableEq

inductive Leg where
  | access (toStop : Nat) (startTime endTime : Time) (cost : Cost)
  | transit (ride : Ride)
  | transfer (fromStop toStop : Nat) (startTime endTime : Time) (cost : Cost)
  | egress (fromStop : Nat) (startTime endTime : Time) (cost : Cost)
  deriving DecidableEq

namespace Leg

def startTime : Leg → Time
  | .access _ s _ _ | .transfer _ _ s _ _ | .egress _ s _ _ => s
  | .transit r => r.startTime

def endTime : Leg → Time
  | .access _ _ e _ | .transfer _ _ _ e _ | .egress _ _ e _ => e
  | .transit r => r.endTime

def cost : Leg → Cost
  | .access _ _ _ c | .transfer _ _ _ _ c | .egress _ _ _ c => c
  | .transit r => r.cost

def isTransit : Leg → Bool
  | .transit _ => true
  | _ => false

def nat (n : Nat) : Json :=
  .int (Int.ofNat n)

def toJson : Leg → Json
  | .access toStop startTime endTime cost =>
    .obj
      [("mode", .str "access"), ("to_stop", nat toStop), ("start_time", .int startTime),
        ("end_time", .int endTime), ("cost", nat cost)]
  | .transit r =>
    .obj
      [("mode", .str "transit"), ("pattern", nat r.pattern), ("route_id", .str r.routeId),
        ("trip_id", .str r.tripId), ("service_date", r.serviceDate.toJson),
        ("headsign", Json.nullable .str r.headsign), ("from_stop", nat r.fromStop),
        ("board_position", nat r.boardPosition), ("to_stop", nat r.toStop),
        ("alight_position", nat r.alightPosition), ("start_time", .int r.startTime),
        ("end_time", .int r.endTime), ("cost", nat r.cost)]
  | .transfer fromStop toStop startTime endTime cost =>
    .obj
      [("mode", .str "transfer"), ("from_stop", nat fromStop), ("to_stop", nat toStop),
        ("start_time", .int startTime), ("end_time", .int endTime), ("cost", nat cost)]
  | .egress fromStop startTime endTime cost =>
    .obj
      [("mode", .str "egress"), ("from_stop", nat fromStop), ("start_time", .int startTime),
        ("end_time", .int endTime), ("cost", nat cost)]

def rideFieldNames : List String :=
  ["pattern", "route_id", "trip_id", "service_date", "headsign", "from_stop", "board_position",
    "to_stop", "alight_position", "start_time", "end_time", "cost"]

def rideOfJson (j : Json) : Reading Ride := do
  let r ← Record.ofJson rideFieldNames j
  r.finish <| Ride.mk
    <$> r.required "pattern" Json.readIndex
    <*> r.required "route_id" Json.readString
    <*> r.required "trip_id" Json.readString
    <*> r.required "service_date" Date.ofJson
    <*> r.nullable "headsign" Json.readString
    <*> r.required "from_stop" Json.readIndex
    <*> r.required "board_position" Json.readIndex
    <*> r.required "to_stop" Json.readIndex
    <*> r.required "alight_position" Json.readIndex
    <*> r.required "start_time" Json.readTime
    <*> r.required "end_time" Json.readTime
    <*> r.required "cost" Json.readIndex

def ofTagged (tag : String) (j : Json) : Reading Leg :=
  match tag with
  | "access" => do
    let r ← Record.ofJson ["to_stop", "start_time", "end_time", "cost"] j
    r.finish <| Leg.access
      <$> r.required "to_stop" Json.readIndex
      <*> r.required "start_time" Json.readTime
      <*> r.required "end_time" Json.readTime
      <*> r.required "cost" Json.readIndex
  | "transit" => (rideOfJson j).map .transit
  | "transfer" => do
    let r ← Record.ofJson ["from_stop", "to_stop", "start_time", "end_time", "cost"] j
    r.finish <| Leg.transfer
      <$> r.required "from_stop" Json.readIndex
      <*> r.required "to_stop" Json.readIndex
      <*> r.required "start_time" Json.readTime
      <*> r.required "end_time" Json.readTime
      <*> r.required "cost" Json.readIndex
  | "egress" => do
    let r ← Record.ofJson ["from_stop", "start_time", "end_time", "cost"] j
    r.finish <| Leg.egress
      <$> r.required "from_stop" Json.readIndex
      <*> r.required "start_time" Json.readTime
      <*> r.required "end_time" Json.readTime
      <*> r.required "cost" Json.readIndex
  | _ => .error .mismatch

def ofJson (j : Json) : Reading Leg := do
  let (tag, fields) ← Json.readTagged "mode" j
  ofTagged tag fields

end Leg

/-- A complete journey from the origin to the destination. -/
structure Itinerary where
  legs : List Leg
  departureTime : Time
  arrivalTime : Time
  transfers : Nat
  generalizedCost : Cost
  deriving DecidableEq

namespace Itinerary

def duration (i : Itinerary) : Time :=
  Time.wrap (i.arrivalTime - i.departureTime)

def transitLegs (i : Itinerary) : List Leg :=
  i.legs.filter Leg.isTransit

def toJson (i : Itinerary) : Json :=
  .obj
    [("legs", .arr (i.legs.map Leg.toJson)), ("departure_time", .int i.departureTime),
      ("arrival_time", .int i.arrivalTime), ("transfers", Leg.nat i.transfers),
      ("generalized_cost", Leg.nat i.generalizedCost)]

def ofJson (j : Json) : Reading Itinerary := do
  let r ← Record.ofJson
    ["legs", "departure_time", "arrival_time", "transfers", "generalized_cost"] j
  r.finish <| Itinerary.mk
    <$> r.required "legs" (Json.readList Leg.ofJson)
    <*> r.required "departure_time" Json.readTime
    <*> r.required "arrival_time" Json.readTime
    <*> r.required "transfers" Json.readIndex
    <*> r.required "generalized_cost" Json.readIndex

end Itinerary

inductive SearchStatus where
  | complete
  /-- Stopped by the caller; what was found before is returned. -/
  | cancelled
  /-- Out of time; what was found before is returned. -/
  | timedOut
  deriving DecidableEq, Repr

namespace SearchStatus

def name : SearchStatus → String
  | .complete => "complete"
  | .cancelled => "cancelled"
  | .timedOut => "timed_out"

def all : List SearchStatus := [.complete, .cancelled, .timedOut]

def toJson (s : SearchStatus) : Json :=
  .str s.name

def ofJson : Json → Reading SearchStatus :=
  Json.readChoice (all.map fun s => (s.name, s))

end SearchStatus

/-- Microseconds spent in the parts of a search. -/
structure SearchTimers where
  route : Nat := 0
  transit : Nat := 0
  transfers : Nat := 0
  deriving DecidableEq

namespace SearchTimers

def toJson (t : SearchTimers) : Json :=
  .obj
    [("route_us", Leg.nat t.route), ("transit_us", Leg.nat t.transit),
      ("transfers_us", Leg.nat t.transfers)]

def ofJson (j : Json) : Reading SearchTimers := do
  let r ← Record.ofJson ["route_us", "transit_us", "transfers_us"] j
  r.finish <| SearchTimers.mk
    <$> r.required "route_us" Json.readIndex
    <*> r.required "transit_us" Json.readIndex
    <*> r.required "transfers_us" Json.readIndex

end SearchTimers

structure SearchReport where
  /-- First and last iteration time that was searched. -/
  windowStart : Time
  windowEnd : Time
  iterations : Nat
  /-- The highest round of any iteration. -/
  rounds : Nat
  acceptedArrivals : Nat
  timers : SearchTimers := {}
  deriving DecidableEq

namespace SearchReport

def toJson (m : SearchReport) : Json :=
  .obj
    [("search_window_start", .int m.windowStart), ("search_window_end", .int m.windowEnd),
      ("iterations", Leg.nat m.iterations), ("rounds", Leg.nat m.rounds),
      ("accepted_arrivals", Leg.nat m.acceptedArrivals), ("timers", m.timers.toJson)]

def ofJson (j : Json) : Reading SearchReport := do
  let r ← Record.ofJson
    ["search_window_start", "search_window_end", "iterations", "rounds", "accepted_arrivals",
      "timers"] j
  r.finish <| SearchReport.mk
    <$> r.required "search_window_start" Json.readTime
    <*> r.required "search_window_end" Json.readTime
    <*> r.required "iterations" Json.readIndex
    <*> r.required "rounds" Json.readIndex
    <*> r.required "accepted_arrivals" Json.readIndex
    <*> r.required "timers" SearchTimers.ofJson

end SearchReport

structure Response where
  status : SearchStatus
  itineraries : List Itinerary
  report : SearchReport
  deriving DecidableEq

namespace Response

def toJson (r : Response) : Json :=
  .obj
    [("status", r.status.toJson), ("itineraries", .arr (r.itineraries.map Itinerary.toJson)),
      ("metadata", r.report.toJson)]

def ofJson (j : Json) : Reading Response := do
  let r ← Record.ofJson ["status", "itineraries", "metadata"] j
  r.finish <| Response.mk
    <$> r.required "status" SearchStatus.ofJson
    <*> r.required "itineraries" (Json.readList Itinerary.ofJson)
    <*> r.required "metadata" SearchReport.ofJson

end Response
end JourneyPlanner
