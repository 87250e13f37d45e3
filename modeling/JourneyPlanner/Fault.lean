import JourneyPlanner.Calendar.Window
import JourneyPlanner.Realtime.Update

/-!
Why a timetable cannot be built or a request cannot be answered. A request that
nobody could route is the client's fault; everything else is ours.
-/

namespace JourneyPlanner

inductive RequestFault where
  | searchWindow (window : Time)
  | time (time : Time)
  | noAccess
  | noEgress
  | unknownStop (stop : Nat)
  | duration (duration : Time)
  | cost (parameter : String)
  | tooManyTransfers (requested limit : Nat)
  | dateOutsideService (date : Date)
  | dateWindow (fault : WindowFault)
  | unknownTrip (tripId : String)
  deriving DecidableEq

namespace RequestFault

def message : RequestFault → String
  | .searchWindow w => "search window of " ++ toString w ++ "s is outside the allowed range"
  | .time t => "request time " ++ toString t ++ " is outside the supported range"
  | .noAccess => "no access legs: origin is not connected to any stop"
  | .noEgress => "no egress legs: destination is not connected to any stop"
  | .unknownStop s => "unknown stop index " ++ toString s
  | .duration d => "negative street leg duration " ++ toString d ++ "s"
  | .cost p => "invalid cost parameter " ++ p
  | .tooManyTransfers requested limit =>
    "max transfers " ++ toString requested ++ " exceeds limit " ++ toString limit
  | .dateOutsideService d => "service date " ++ d.text ++ " is outside the loaded calendar"
  | .dateWindow f => "invalid date window: " ++ f.message
  | .unknownTrip id => "unknown trip id " ++ id

end RequestFault

inductive DataFault where
  | noStopTimes (tripId : String)
  | duplicateTrip (tripId : String)
  | unknownStop (stopId : String)
  | negativeTransfer (duration : Time) (source target : String)
  | stopNotOnTrip (stop : StopRef) (tripId : String)
  /-- Local clocks show noon of that date never or twice. -/
  | noonUnresolved (date : Date) (zone : String)
  | instantOutsideCalendar (instant : Int)
  | missingTrip (pattern index : Nat)
  deriving DecidableEq

namespace DataFault

def message : DataFault → String
  | .noStopTimes id => "trip " ++ id ++ " has no stop times"
  | .duplicateTrip id => "duplicate trip id " ++ id
  | .unknownStop id => "unknown stop id " ++ id
  | .negativeTransfer d source target =>
    "negative transfer duration " ++ toString d ++ "s from " ++ source ++ " to " ++ target
  | .stopNotOnTrip stop id => "stop " ++ stop.describe ++ " not found on trip " ++ id
  | .noonUnresolved date zone => "noon of " ++ date.text ++ " is ambiguous in " ++ zone
  | .instantOutsideCalendar t => "instant " ++ toString t ++ " is outside the calendar"
  | .missingTrip pattern index =>
    "trip " ++ toString index ++ " of pattern " ++ toString pattern ++ " missing"

end DataFault

/-- Broken invariants of a search. -/
inductive InternalFault where
  | tripIndex (pattern index count : Nat)
  | unknownPattern (pattern : Nat)
  | unknownLabel (id : Nat)
  | brokenChain (stop : Nat)
  | boardPosition (pattern stop : Nat)
  /-- An index beyond a trip, a pattern or a table. -/
  | outOfBounds (index : Nat)
  /-- An index beyond every table. -/
  | tooLarge (index : Nat)
  deriving DecidableEq

namespace InternalFault

def message : InternalFault → String
  | .tripIndex pattern index count =>
    "trip index " ++ toString index ++ " out of range for pattern " ++ toString pattern ++ " ("
      ++ toString count ++ " trips)"
  | .unknownPattern p => "pattern " ++ toString p ++ " is not part of the request transit data"
  | .unknownLabel id => "arrival " ++ toString id ++ " not found in arena"
  | .brokenChain stop => "broken predecessor chain at stop " ++ toString stop
  | .boardPosition pattern stop =>
    "board position for stop " ++ toString stop ++ " not found on trip of pattern "
      ++ toString pattern
  | .outOfBounds index => "index " ++ toString index ++ " out of bounds"
  | .tooLarge index => "no table reaches index " ++ toString index

/-- Whether the program ends with it, without another word. -/
def isFatal : InternalFault → Bool
  | .outOfBounds _ | .tooLarge _ => true
  | _ => false

end InternalFault

inductive Fault where
  | request (fault : RequestFault)
  | data (fault : DataFault)
  | internal (fault : InternalFault)
  deriving DecidableEq

namespace Fault

def message : Fault → String
  | .request f => "Invalid request: " ++ f.message
  | .data f => "Invalid data: " ++ f.message
  | .internal f => "Internal error: " ++ f.message

def isClientFault : Fault → Bool
  | .request _ => true
  | .data _ | .internal _ => false

def isFatal : Fault → Bool
  | .internal f => f.isFatal
  | .request _ | .data _ => false

end Fault
end JourneyPlanner
