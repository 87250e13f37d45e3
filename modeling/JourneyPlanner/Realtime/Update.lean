import JourneyPlanner.Text.Quoted
import JourneyPlanner.Timetable.Record

/-!
Real-time messages about single trips, and what becomes of them.
-/

namespace JourneyPlanner

/-- Names a stop of a trip by its position or by its sequence number. -/
inductive StopRef where
  | position (p : Nat)
  | sequence (s : Nat)
  deriving DecidableEq, Repr

namespace StopRef

def toJson : StopRef → Json
  | .position p => .obj [("position", .int (Int.ofNat p))]
  | .sequence s => .obj [("sequence", .int (Int.ofNat s))]

def ofJson : Json → Reading StopRef
  | .obj [("position", j)] => (Json.readIndex j).map .position
  | .obj [("sequence", j)] => (Json.readSequence j).map .sequence
  | _ => .error .mismatch

def describe : StopRef → String
  | .position p => "Position(" ++ toString p ++ ")"
  | .sequence s => "Sequence(" ++ toString s ++ ")"

end StopRef

inductive TripUpdate where
  /-- Shifts the scheduled times at a stop, and with `propagate` those of all
  later stops by the departure delay. -/
  | delay (tripId : String) (stop : StopRef) (arrival departure : Time) (propagate : Bool)
  /-- Predicted times at one stop; what is not given stays as it is. -/
  | times (tripId : String) (stop : StopRef) (arrival departure : Option Time) (inaccurate : Bool)
  | cancelStop (tripId : String) (stop : StopRef)
  | cancelTrip (tripId : String)
  | recorded (tripId : String) (stop : StopRef)
  /-- Back to the timetable. -/
  | revert (tripId : String)
  deriving DecidableEq, Repr

namespace TripUpdate

def tripId : TripUpdate → String
  | .delay id _ _ _ _ | .times id _ _ _ _ | .cancelStop id _ | .cancelTrip id | .recorded id _
  | .revert id => id

def stop? : TripUpdate → Option StopRef
  | .delay _ s _ _ _ | .times _ s _ _ _ | .cancelStop _ s | .recorded _ s => some s
  | .cancelTrip _ | .revert _ => none

def toJson : TripUpdate → Json
  | .delay id stop arrival departure propagate =>
    .obj
      [("type", .str "delay"), ("trip_id", .str id), ("stop", stop.toJson),
        ("arrival_delay", .int arrival), ("departure_delay", .int departure),
        ("propagate", .bool propagate)]
  | .times id stop arrival departure inaccurate =>
    .obj
      [("type", .str "times"), ("trip_id", .str id), ("stop", stop.toJson),
        ("arrival", Json.nullable .int arrival), ("departure", Json.nullable .int departure),
        ("inaccurate", .bool inaccurate)]
  | .cancelStop id stop =>
    .obj [("type", .str "cancel_stop"), ("trip_id", .str id), ("stop", stop.toJson)]
  | .cancelTrip id => .obj [("type", .str "cancel_trip"), ("trip_id", .str id)]
  | .recorded id stop =>
    .obj [("type", .str "recorded"), ("trip_id", .str id), ("stop", stop.toJson)]
  | .revert id => .obj [("type", .str "revert"), ("trip_id", .str id)]

def ofTagged (tag : String) (j : Json) : Reading TripUpdate :=
  match tag with
  | "delay" => do
    let r ← Record.ofJson ["trip_id", "stop", "arrival_delay", "departure_delay", "propagate"] j
    r.finish <| TripUpdate.delay
      <$> r.required "trip_id" Json.readString
      <*> r.required "stop" StopRef.ofJson
      <*> r.required "arrival_delay" Json.readTime
      <*> r.required "departure_delay" Json.readTime
      <*> r.withDefault "propagate" true Json.readBool
  | "times" => do
    let r ← Record.ofJson ["trip_id", "stop", "arrival", "departure", "inaccurate"] j
    r.finish <| TripUpdate.times
      <$> r.required "trip_id" Json.readString
      <*> r.required "stop" StopRef.ofJson
      <*> r.nullable "arrival" Json.readTime
      <*> r.nullable "departure" Json.readTime
      <*> r.withDefault "inaccurate" false Json.readBool
  | "cancel_stop" => do
    let r ← Record.ofJson ["trip_id", "stop"] j
    r.finish <| TripUpdate.cancelStop
      <$> r.required "trip_id" Json.readString
      <*> r.required "stop" StopRef.ofJson
  | "cancel_trip" => do
    let r ← Record.ofJson ["trip_id"] j
    r.finish <| TripUpdate.cancelTrip <$> r.required "trip_id" Json.readString
  | "recorded" => do
    let r ← Record.ofJson ["trip_id", "stop"] j
    r.finish <| TripUpdate.recorded
      <$> r.required "trip_id" Json.readString
      <*> r.required "stop" StopRef.ofJson
  | "revert" => do
    let r ← Record.ofJson ["trip_id"] j
    r.finish <| TripUpdate.revert <$> r.required "trip_id" Json.readString
  | _ => .error .mismatch

def ofJson (j : Json) : Reading TripUpdate := do
  let (tag, fields) ← Json.readTagged "type" j
  ofTagged tag fields

def describeTime : Option Time → String
  | none => "None"
  | some t => "Some(" ++ toString t ++ ")"

def describeFlag (b : Bool) : String :=
  if b then "true" else "false"

/-- A name and named parts in braces. -/
def describeParts (name : String) (parts : List (String × String)) : String :=
  name ++ " \x7b "
    ++ String.intercalate ", " (parts.map fun (label, value) => label ++ ": " ++ value) ++ " \x7d"

def describe : TripUpdate → String
  | .delay id stop arrival departure propagate =>
    describeParts "Delay"
      [("trip_id", Text.quoted id), ("stop", stop.describe), ("arrival_delay", toString arrival),
        ("departure_delay", toString departure), ("propagate", describeFlag propagate)]
  | .times id stop arrival departure inaccurate =>
    describeParts "Times"
      [("trip_id", Text.quoted id), ("stop", stop.describe), ("arrival", describeTime arrival),
        ("departure", describeTime departure), ("inaccurate", describeFlag inaccurate)]
  | .cancelStop id stop =>
    describeParts "CancelStop" [("trip_id", Text.quoted id), ("stop", stop.describe)]
  | .cancelTrip id => describeParts "CancelTrip" [("trip_id", Text.quoted id)]
  | .recorded id stop =>
    describeParts "Recorded" [("trip_id", Text.quoted id), ("stop", stop.describe)]
  | .revert id => describeParts "Revert" [("trip_id", Text.quoted id)]

end TripUpdate

inductive UpdateOutcome where
  | applied
  /-- Kept, but the times decrease along the trip and the search will not use it. -/
  | appliedNonMonotonic
  | rejected
  deriving DecidableEq, Repr

namespace UpdateOutcome

def name : UpdateOutcome → String
  | .applied => "applied"
  | .appliedNonMonotonic => "applied_non_monotonic"
  | .rejected => "rejected"

def all : List UpdateOutcome := [.applied, .appliedNonMonotonic, .rejected]

def toJson (o : UpdateOutcome) : Json :=
  .str o.name

def ofJson : Json → Reading UpdateOutcome :=
  Json.readChoice (all.map fun o => (o.name, o))

end UpdateOutcome
end JourneyPlanner
