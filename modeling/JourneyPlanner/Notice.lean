import JourneyPlanner.Trip.Basic

/-!
What a timetable or a feed has to tell its operator.
-/

namespace JourneyPlanner

inductive Notice where
  | stopRepeated (stopId : String)
  | tooFewCalls (tripId : String) (count : Nat)
  | unknownStop (tripId stopId : String)
  | timesDecrease (tripId : String) (decrease : Decrease) (position : Nat)
  | updateSkipped (update : TripUpdate) (fault : Fault)
  | transfersIndexed (transfers stops : Nat)
  | timetableBuilt (stops patterns trips skipped services : Nat)
  | columnsShared (stats : SharingStats)
  deriving DecidableEq

namespace Notice

def isWarning : Notice → Bool
  | .stopRepeated _ | .tooFewCalls _ _ | .unknownStop _ _ | .timesDecrease _ _ _
  | .updateSkipped _ _ => true
  | .transfersIndexed _ _ | .timetableBuilt _ _ _ _ _ | .columnsShared _ => false

def text : Notice → String
  | .stopRepeated id => "Stop " ++ id ++ " added twice, keeping the first definition"
  | .tooFewCalls id count =>
    "Trip " ++ id ++ " has " ++ toString count ++ " stop times, at least two are needed"
  | .unknownStop id stop => "Trip " ++ id ++ " references unknown stop " ++ stop
  | .timesDecrease id decrease position =>
    "Trip " ++ id ++ " has " ++ decrease.text ++ " at stop index " ++ toString position
  | .updateSkipped update fault =>
    "Skipping real-time update " ++ update.describe ++ ": " ++ fault.message
  | .transfersIndexed transfers stops =>
    "Indexed " ++ toString transfers ++ " transfers between " ++ toString stops ++ " stops"
  | .timetableBuilt stops patterns trips skipped services =>
    "Built transit layer: " ++ toString stops ++ " stops, " ++ toString patterns ++ " patterns, "
      ++ toString trips ++ " trips (" ++ toString skipped ++ " skipped), " ++ toString services
      ++ " services"
  | .columnsShared s =>
    "Deduplicated stop time arrays: " ++ toString s.lookups ++ " lookups, " ++ toString s.hits
      ++ " hits, " ++ toString s.distinct ++ " distinct"

def line (n : Notice) : String :=
  (if n.isWarning then "WARN " else "INFO ") ++ n.text

end Notice
end JourneyPlanner
