import JourneyPlanner.Search.Destination

/-!
What a search reports to those who watch it: arrivals and journeys that it
accepts, rejects and drops.
-/

namespace JourneyPlanner

namespace ArrivalKind

def name : ArrivalKind → String
  | .access _ => "access"
  | .transit _ _ _ _ => "transit"
  | .transfer _ _ => "transfer"

end ArrivalKind

namespace StopArrival

def toJson (a : StopArrival) : Json :=
  .obj
    [("stop", Leg.nat a.stop), ("round", Leg.nat a.round), ("time", .int a.time),
      ("cost", Leg.nat a.cost), ("kind", .str a.kind.name)]

end StopArrival

namespace DestinationArrival

def toJson (d : DestinationArrival) : Json :=
  .obj
    [("stop", Leg.nat d.stop), ("origin_time", .int d.merits.originTime),
      ("time", .int d.merits.time), ("rounds", Leg.nat d.merits.rounds),
      ("cost", Leg.nat d.merits.cost)]

def describe (d : DestinationArrival) : String :=
  "PathView \x7b stop: " ++ toString d.stop ++ ", origin_time: " ++ toString d.merits.originTime
    ++ ", time: " ++ toString d.merits.time ++ ", rounds: " ++ toString d.merits.rounds
    ++ ", cost: " ++ toString d.merits.cost ++ " \x7d"

end DestinationArrival

inductive Action where
  | accept
  | reject
  | drop
  deriving DecidableEq, Repr

namespace Action

def name : Action → String
  | .accept => "accept"
  | .reject => "reject"
  | .drop => "drop"

end Action

inductive Reason where
  | accepted
  | dominated
  /-- Nothing that comes of the arrival can be better than a known journey. -/
  | pruned (journey : DestinationArrival)
  deriving DecidableEq

namespace Reason

def text : Reason → String
  | .accepted => "accepted"
  | .dominated => "dominated"
  | .pruned d => "cannot improve on destination arrival Some(" ++ d.describe ++ ")"

end Reason

structure Report (α : Type) where
  action : Action
  /-- The time of the iteration. -/
  time : Time
  element : α
  /-- What rejected or dropped the element, if that is of the same kind. -/
  rival : Option α
  reason : Reason
  deriving DecidableEq

namespace Report

def toJson {α : Type} (write : α → Json) (r : Report α) : Json :=
  .obj
    [("action", .str r.action.name), ("iteration_start_time", .int r.time),
      ("element", write r.element), ("rejected_by", Json.nullable write r.rival),
      ("reason", .str r.reason.text)]

end Report

inductive Event where
  | arrival (r : Report StopArrival)
  | path (r : Report DestinationArrival)
  deriving DecidableEq

namespace Event

def toJson : Event → Json
  | .arrival r => .obj [("arrival", r.toJson StopArrival.toJson)]
  | .path r => .obj [("path", r.toJson DestinationArrival.toJson)]

end Event

/-- What somebody wants to see of a search. -/
structure Watch where
  /-- Arrivals at these stops. -/
  stops : List Nat := []
  /-- Arrivals whose way goes along the beginning of this list of stops. -/
  path : List Nat := []
  arrivals : Bool := false
  paths : Bool := false
  deriving DecidableEq

namespace Watch

def listText (xs : List Nat) : String :=
  "[" ++ String.intercalate ", " (xs.map toString) ++ "]"

def describe (w : Watch) : String :=
  "DebugRequest \x7b stops: " ++ listText w.stops ++ ", path: " ++ listText w.path
    ++ ", stop_arrival_listener: " ++ toString w.arrivals ++ ", path_listener: "
    ++ toString w.paths ++ " \x7d"

/-- The stops on the way to an arrival, itself included. -/
def stopsTo (t : StopTable) (a : StopArrival) : List Nat :=
  let before := match a.previous with
    | some id => (t.chainStops id).toOption.getD []
    | none => []
  before ++ [a.stop]

/-- Without filters every arrival is of interest. -/
def wants (w : Watch) (t : StopTable) (a : StopArrival) : Bool :=
  (w.stops.isEmpty && w.path.isEmpty) || w.stops.contains a.stop
    || (!w.path.isEmpty && (stopsTo t a).isPrefixOf w.path)

end Watch
end JourneyPlanner
