import JourneyPlanner.Routing.Request
import JourneyPlanner.Routing.Settings

/-!
Which requests are routed. The checks are made in a fixed order and the first
that fails is reported; an accepted request gets its defaults filled in.
-/

namespace JourneyPlanner

/-- What a search needs of a request once defaults are filled in. -/
structure SearchLimits where
  window : Time
  /-- The most trips a journey may ride. -/
  maxRounds : Nat
  boardSlack : Time
  deriving DecidableEq

namespace CostWeights

def isReluctance (x : Float) : Bool :=
  x.isFinite && !(x < 0.0) && !(x > 1000.0)

def isPenalty (t : Time) : Bool :=
  decide (0 ≤ t) && decide (t ≤ secondsOfDay)

/-- The name of the first weight out of range. -/
def invalid? (w : CostWeights) : Option String :=
  if !isReluctance w.walkReluctance then some "walk_reluctance"
  else if !isReluctance w.waitReluctance then some "wait_reluctance"
  else if !isReluctance w.transitReluctance then some "transit_reluctance"
  else if !isPenalty w.board then some "board_cost"
  else if !isPenalty w.transfer then some "transfer_cost"
  else if !isPenalty w.discouragedTransfer then some "discouraged_transfer_cost"
  else none

end CostWeights

namespace Request

def limits (r : Request) (s : Settings) : SearchLimits where
  window := r.searchWindow.getD s.defaultSearchWindow
  maxRounds := r.maxTransfers.getD s.defaultMaxTransfers + 1
  boardSlack := r.boardSlack.getD s.defaultBoardSlack

def windowFault? (r : Request) (s : Settings) : Option RequestFault :=
  let window := (r.limits s).window
  if window ≤ 0 ∨ s.maxSearchWindow < window then some (.searchWindow window) else none

def timeFault? (r : Request) : Option RequestFault :=
  if r.time < 0 ∨ 2 * secondsOfDay < r.time then some (.time r.time) else none

def unknownStop? (t : Timetable) (stop : Nat) : Option RequestFault :=
  if stop < t.numStops then none else some (.unknownStop stop)

def durationFault? (duration : Time) : Option RequestFault :=
  if duration < 0 ∨ secondsOfDay < duration then some (.duration duration) else none

def legFault? (t : Timetable) (leg : StreetLeg) : Option RequestFault :=
  (unknownStop? t leg.stop).or (durationFault? leg.duration)

def streetFault? (r : Request) (t : Timetable) : Option RequestFault :=
  if r.access.isEmpty then some .noAccess
  else if r.egress.isEmpty then some .noEgress
  else (r.access ++ r.egress).findSome? (legFault? t)

def transfersFault? (r : Request) (s : Settings) : Option RequestFault :=
  let requested := r.maxTransfers.getD s.defaultMaxTransfers
  if s.maxTransfersLimit < requested then some (.tooManyTransfers requested s.maxTransfersLimit)
  else none

/-- The window of search dates has to overlap the period of the calendar. -/
def dateFault? (r : Request) (s : Settings) (t : Timetable) : Option RequestFault :=
  match t.calendar.period with
  | none => none
  | some (first, last) =>
    let lower := (first.addDays? (-(s.searchDaysAfter : Int))).getD Date.first
    let upper := (last.addDays? s.searchDaysBefore).getD Date.last
    if r.date < lower ∨ upper < r.date then some (.dateOutsideService r.date) else none

def fault? (r : Request) (s : Settings) (t : Timetable) : Option RequestFault :=
  (r.windowFault? s).or <|
  r.timeFault?.or <|
  (r.streetFault? t).or <|
  (r.bannedStops.findSome? (unknownStop? t)).or <|
  (r.cost.invalid?.map .cost).or <|
  (r.transfersFault? s).or <|
  (durationFault? (r.limits s).boardSlack).or <|
  r.dateFault? s t

/-- The limits of an accepted request. -/
def accept (r : Request) (s : Settings) (t : Timetable) : Except RequestFault SearchLimits :=
  match r.fault? s t with
  | some e => .error e
  | none => .ok (r.limits s)

end Request
end JourneyPlanner
