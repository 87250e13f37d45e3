import JourneyPlanner.Calendar.ServiceDay
import JourneyPlanner.Timetable.Basic

/-!
Requests for journeys: where and when from and to, what to compare journeys on,
and what not to use.
-/

namespace JourneyPlanner

/-- A walk between the origin or the destination and a stop. -/
structure StreetLeg where
  stop : Nat
  duration : Time
  deriving DecidableEq, Inhabited

namespace StreetLeg

def toJson (l : StreetLeg) : Json :=
  .obj [("stop", .int (Int.ofNat l.stop)), ("duration", .int l.duration)]

def ofJson (j : Json) : Reading StreetLeg := do
  let r ← Record.ofJson ["stop", "duration"] j
  r.finish <| StreetLeg.mk
    <$> r.required "stop" Json.readIndex
    <*> r.required "duration" Json.readTime

end StreetLeg

inductive Direction where
  /-- Departs after the request time. -/
  | forward
  /-- Arrives before the request time. -/
  | reverse
  deriving DecidableEq, Repr

namespace Direction

def name : Direction → String
  | .forward => "forward"
  | .reverse => "reverse"

def all : List Direction := [.forward, .reverse]

def toJson (d : Direction) : Json :=
  .str d.name

def ofJson : Json → Reading Direction :=
  Json.readChoice (all.map fun d => (d.name, d))

end Direction

/-- Weights of the generalized cost: penalties in seconds, and reluctances that
multiply the time spent walking, waiting and riding. -/
structure CostWeights where
  board : Time := 600
  transfer : Time := 0
  /-- For changing at a stop where transfers are discouraged. -/
  discouragedTransfer : Time := 3600
  walkReluctance : Float := 2.0
  waitReluctance : Float := 1.0
  transitReluctance : Float := 1.0

namespace CostWeights

def fieldNames : List String :=
  ["board_cost", "transfer_cost", "discouraged_transfer_cost", "walk_reluctance",
    "wait_reluctance", "transit_reluctance"]

def toJson (w : CostWeights) : Json :=
  .obj
    [("board_cost", .int w.board), ("transfer_cost", .int w.transfer),
      ("discouraged_transfer_cost", .int w.discouragedTransfer),
      ("walk_reluctance", .real w.walkReluctance), ("wait_reluctance", .real w.waitReluctance),
      ("transit_reluctance", .real w.transitReluctance)]

def ofJson (j : Json) : Reading CostWeights := do
  let r ← Record.ofJson fieldNames j
  r.finish <| CostWeights.mk
    <$> r.withDefault "board_cost" 600 Json.readTime
    <*> r.withDefault "transfer_cost" 0 Json.readTime
    <*> r.withDefault "discouraged_transfer_cost" 3600 Json.readTime
    <*> r.withDefault "walk_reluctance" 2.0 Json.readFloat
    <*> r.withDefault "wait_reluctance" 1.0 Json.readFloat
    <*> r.withDefault "transit_reluctance" 1.0 Json.readFloat

end CostWeights

inductive Criterion where
  | arrivalTime
  | transfers
  | cost
  deriving DecidableEq, Repr

namespace Criterion

def name : Criterion → String
  | .arrivalTime => "arrival_time"
  | .transfers => "transfers"
  | .cost => "cost"

def all : List Criterion := [.arrivalTime, .transfers, .cost]

def toJson (c : Criterion) : Json :=
  .str c.name

def ofJson : Json → Reading Criterion :=
  Json.readChoice (all.map fun c => (c.name, c))

end Criterion

/-- What journeys are compared on besides their times, and the order in which
they are listed. -/
structure DominancePolicy where
  transfers : Bool := true
  cost : Bool := true
  order : Criterion × Criterion × Criterion := (.arrivalTime, .transfers, .cost)
  deriving DecidableEq

namespace DominancePolicy

def arrivalTimeOnly : DominancePolicy :=
  { transfers := false, cost := false }

def arrivalAndTransfers : DominancePolicy :=
  { cost := false }

def criteria (p : DominancePolicy) : List Criterion :=
  [p.order.1, p.order.2.1, p.order.2.2]

def readOrder (j : Json) : Reading (Criterion × Criterion × Criterion) :=
  match Json.readList Criterion.ofJson j with
  | .ok [a, b, c] => .ok (a, b, c)
  | _ => .error .mismatch

def toJson (p : DominancePolicy) : Json :=
  .obj
    [("transfers", .bool p.transfers), ("cost", .bool p.cost),
      ("order", .arr (p.criteria.map Criterion.toJson))]

def ofJson (j : Json) : Reading DominancePolicy := do
  let r ← Record.ofJson ["transfers", "cost", "order"] j
  r.finish <| DominancePolicy.mk
    <$> r.withDefault "transfers" true Json.readBool
    <*> r.withDefault "cost" true Json.readBool
    <*> r.withDefault "order" (.arrivalTime, .transfers, .cost) readOrder

end DominancePolicy

/-- A trip not to be used, or not at some of its positions. -/
structure BannedTrip where
  tripId : String
  /-- Empty for the whole trip. -/
  positions : List Nat := []
  deriving DecidableEq

namespace BannedTrip

def toJson (b : BannedTrip) : Json :=
  .obj [("trip_id", .str b.tripId), ("positions", Json.nats b.positions)]

def ofJson (j : Json) : Reading BannedTrip := do
  let r ← Record.ofJson ["trip_id", "positions"] j
  r.finish <| BannedTrip.mk
    <$> r.required "trip_id" Json.readString
    <*> r.withDefault "positions" [] (Json.readList Json.readIndex)

end BannedTrip

structure Request where
  /-- The service date that times are relative to. -/
  date : Date
  /-- Earliest departure, or latest arrival in reverse. -/
  time : Time
  direction : Direction := .forward
  searchWindow : Option Time := none
  maxTransfers : Option Nat := none
  access : List StreetLeg
  egress : List StreetLeg
  cost : CostWeights := {}
  policy : DominancePolicy := {}
  boardSlack : Option Time := none
  wheelchair : Bool := false
  bikes : Bool := false
  bannedTrips : List BannedTrip := []
  bannedStops : List Nat := []
  timeout : Option Nat := none
  /-- Leaves out arrivals that cannot improve on a known journey. -/
  destinationPruning : Bool := true

namespace Request

def departAfter (date : Date) (time : Time) (access egress : List StreetLeg) : Request :=
  { date := date, time := time, access := access, egress := egress }

def arriveBy (date : Date) (time : Time) (access egress : List StreetLeg) : Request :=
  { date := date, time := time, direction := .reverse, access := access, egress := egress }

/-- The request for an absolute instant with a part of a second, in the time zone of the
timetable. -/
def atMoment (t : Timetable) (instant : Instant) (nanos : Nat) (direction : Direction)
    (access egress : List StreetLeg) : Except DataFault Request :=
  match ServiceDay.dateAndTime instant nanos t.zone with
  | .error e => .error e
  | .ok (date, time) =>
    .ok { date := date, time := time, direction := direction, access := access, egress := egress }

/-- The request for a full second. -/
def atInstant (t : Timetable) (instant : Instant) (direction : Direction)
    (access egress : List StreetLeg) : Except DataFault Request :=
  atMoment t instant 0 direction access egress

def fieldNames : List String :=
  ["date", "time", "direction", "search_window", "max_transfers", "access", "egress", "cost",
    "policy", "board_slack", "wheelchair", "bikes", "banned_trips", "banned_stops", "timeout_ms",
    "destination_pruning"]

def toJson (r : Request) : Json :=
  .obj
    [("date", r.date.toJson), ("time", .int r.time), ("direction", r.direction.toJson),
      ("search_window", Json.nullable .int r.searchWindow),
      ("max_transfers", Json.nullable (fun n => .int (Int.ofNat n)) r.maxTransfers),
      ("access", .arr (r.access.map StreetLeg.toJson)),
      ("egress", .arr (r.egress.map StreetLeg.toJson)), ("cost", r.cost.toJson),
      ("policy", r.policy.toJson), ("board_slack", Json.nullable .int r.boardSlack),
      ("wheelchair", .bool r.wheelchair), ("bikes", .bool r.bikes),
      ("banned_trips", .arr (r.bannedTrips.map BannedTrip.toJson)),
      ("banned_stops", Json.nats r.bannedStops),
      ("timeout_ms", Json.nullable (fun n => .int (Int.ofNat n)) r.timeout),
      ("destination_pruning", .bool r.destinationPruning)]

def ofJson (j : Json) : Reading Request := do
  let r ← Record.ofJson fieldNames j
  r.finish <| Request.mk
    <$> r.required "date" Date.ofJson
    <*> r.required "time" Json.readTime
    <*> r.withDefault "direction" .forward Direction.ofJson
    <*> r.optional "search_window" Json.readTime
    <*> r.optional "max_transfers" Json.readIndex
    <*> r.required "access" (Json.readList StreetLeg.ofJson)
    <*> r.required "egress" (Json.readList StreetLeg.ofJson)
    <*> r.withDefault "cost" {} CostWeights.ofJson
    <*> r.withDefault "policy" {} DominancePolicy.ofJson
    <*> r.optional "board_slack" Json.readTime
    <*> r.withDefault "wheelchair" false Json.readBool
    <*> r.withDefault "bikes" false Json.readBool
    <*> r.withDefault "banned_trips" [] (Json.readList BannedTrip.ofJson)
    <*> r.withDefault "banned_stops" [] (Json.readList Json.readIndex)
    <*> r.optional "timeout_ms" Json.readIndex
    <*> r.withDefault "destination_pruning" true Json.readBool

end Request
end JourneyPlanner
