import JourneyPlanner.Search.Basic

/-!
The steps of a search: arrivals are added unless something better is known,
trips are caught and left along each pattern, stops nearby are walked to, and
street legs lead from there to the destination.
-/

namespace JourneyPlanner
namespace Search

/-- Reports an arrival to who watches it. -/
def reportArrival (s : Search) (p : Progress) (action : Action) (a : StopArrival)
    (rival : Option StopArrival) (reason : Reason) : Progress :=
  match s.watch with
  | none => p
  | some w =>
    if w.arrivals && w.wants p.table a then
      { p with
        arrivalReports := p.arrivalReports + 1
        events := p.events.push (.arrival ⟨action, p.time, a, rival, reason⟩) }
    else p

def reportPath (s : Search) (p : Progress) (action : Action) (d : DestinationArrival)
    (rival : Option DestinationArrival) (reason : Reason) : Progress :=
  match s.watch with
  | none => p
  | some w =>
    if w.paths then
      { p with events := p.events.push (.path ⟨action, p.time, d, rival, reason⟩) }
    else p

/-- The journey that makes an arrival not worth following. An arrival by a street
leg is always followed. -/
def pruned? (s : Search) (p : Progress) (a : StopArrival) : Option DestinationArrival :=
  if s.pruning && decide (0 < a.round) then
    DestinationArrival.pruning? s.heading s.policy p.destination (s.bound a)
  else none

def dominates (s : Search) : StopArrival → StopArrival → Bool :=
  StopArrival.dominates s.heading s.policy.cost

/-- Adds an arrival; an accepted one gets an id. -/
def addArrival (s : Search) (p : Progress) (a : StopArrival) :
    Except InternalFault (Progress × Option Nat) :=
  match s.pruned? p a with
  | some journey => .ok (s.reportArrival p .reject a none (.pruned journey), none)
  | none => do
    match ← p.table.judge s.dominates a with
    | .rejected rival =>
      return (s.reportArrival p .reject a (some rival.arrival) .dominated, none)
    | .accepted labels dropped =>
      let id := p.table.numAccepted
      let p := s.reportArrival (p.place a labels) .accept a none .accepted
      let p := dropped.foldl
        (fun p old => s.reportArrival p .drop old.arrival (some a) .dominated) p
      return (p, some id)

/-- Adds a journey that ends with a street leg. -/
def addJourney (s : Search) (p : Progress) (d : DestinationArrival) : Progress :=
  match Pareto.add (DestinationArrival.dominates s.heading s.policy) p.destination d with
  | .rejected rival => s.reportPath p .reject d (some rival) .dominated
  | .accepted front dropped =>
    let p := s.reportPath { p with destination := front } .accept d none .accepted
    dropped.foldl (fun p old => s.reportPath p .drop old (some d) .dominated) p

def journeyFrom (s : Search) (id : Nat) (a : StopArrival) (duration : Time) :
    DestinationArrival where
  previous := id
  stop := a.stop
  streetDuration := duration
  merits :=
    { originTime := a.originTime
      time := s.heading.advance a.time duration
      rounds := a.round
      cost := Cost.plus a.cost (s.rates.walking duration) }

/-- All street legs from an accepted arrival to where the search ends. -/
def reachDestination (s : Search) (p : Progress) (id : Nat) (a : StopArrival) : Progress :=
  (s.targetDurations a.stop).foldl (fun p duration => s.addJourney p (s.journeyFrom id a duration)) p

def originArrival (s : Search) (time : Time) (iteration : Nat) (leg : StreetLeg) :
    StopArrival where
  stop := leg.stop
  round := 0
  time := s.heading.advance time leg.duration
  cost := s.rates.walking leg.duration
  originTime := time
  previous := none
  kind := .access leg.duration
  iteration := iteration

/-- Street legs at the beginning of an iteration. -/
def seed (s : Search) (p : Progress) (time : Time) : Except InternalFault Progress :=
  s.origin.foldlM
    (fun p leg => (s.addArrival p (s.originArrival time p.table.iteration leg)).map (·.1)) p

/-- A trip that was caught during a scan. -/
structure Boarding where
  previous : Nat
  trip : Nat
  position : Nat
  cost : Cost
  originTime : Time
  deriving DecidableEq

/-- Whether changing at the stop of an arrival, or walking there from another
stop, is discouraged. -/
def isDiscouraged (s : Search) (a : StopArrival) : Bool :=
  match a.kind with
  | .transfer fromStop _ => s.timetable.isDiscouraged a.stop || s.timetable.isDiscouraged fromStop
  | _ => s.timetable.isDiscouraged a.stop

def boardingCost (s : Search) (a : StopArrival) (time : Time) (round : Nat) : Cost :=
  if round = 1 then s.rates.firstBoarding
  else s.rates.changing (s.heading.wait a.time time) (s.isDiscouraged a)

def originTimeOf (s : Search) (a : StopArrival) (time : Time) : Time :=
  match a.kind with
  | .access duration => s.heading.originTime time duration
  | _ => a.originTime

/-- The trip caught at a position after an arrival at its stop. -/
def board (s : Search) (v : PatternView) (round position : Nat) (l : Label) :
    Except InternalFault (Option Boarding) := do
  let limit := s.heading.boardLimit l.arrival.time
  match ← v.findBoarding s.heading s.filter position limit with
  | none => return none
  | some c =>
    return some
      { previous := l.id
        trip := c.index
        position := position
        cost := Cost.plus l.arrival.cost (s.boardingCost l.arrival c.time round)
        originTime := s.originTimeOf l.arrival c.time }

/-- Trips caught after each of the arrivals, in their order. -/
def boardAll (s : Search) (v : PatternView) (round position : Nat) :
    List Label → Except InternalFault (List Boarding)
  | [] => .ok []
  | l :: ls => do
    let boarding ← s.board v round position l
    let rest ← boardAll s v round position ls
    return boarding.toList ++ rest

def alightArrival (s : Search) (v : PatternView) (round position stop iteration : Nat)
    (b : Boarding) (boardCall call : Call) : StopArrival where
  stop := stop
  round := round
  time := s.heading.alightTime call
  cost := Cost.plus b.cost (s.rates.riding (s.heading.inVehicle boardCall call))
  originTime := b.originTime
  previous := some b.previous
  kind := .transit v.pattern b.trip b.position position
  iteration := iteration

/-- Leaves a caught trip at a position, if one may, and goes on to the destination. -/
def alight (s : Search) (v : PatternView) (round position stop : Nat) (p : Progress)
    (b : Boarding) : Except InternalFault Progress := do
  let trip ← v.tripAt b.trip
  let call ← trip.call position
  if (s.heading.alightRule call).isRoutable && s.filter.accepts trip.trip position stop then
    let boardCall ← trip.call b.position
    let a := s.alightArrival v round position stop p.table.iteration b boardCall call
    match ← s.addArrival p a with
    | (p, some id) => return s.reachDestination p id a
    | (p, none) => return p
  else return p

/-- At each stop trips caught so far are left before new ones are caught. A banned
stop is passed. -/
def scanStop (s : Search) (v : PatternView) (round : Nat) (state : Progress × List Boarding)
    (entry : Nat × Nat) : Except InternalFault (Progress × List Boarding) :=
  let (p, onboard) := state
  let (stop, position) := entry
  if s.filter.allowsStop stop then do
    let p ← onboard.foldlM (s.alight v round position stop) p
    let labels ← p.table.newLabelsAt (round - 1) stop
    let caught ← s.boardAll v round position labels
    return (p, onboard ++ caught)
  else .ok (p, onboard)

/-- Goes along a pattern in search direction. -/
def scanPattern (s : Search) (round : Nat) (p : Progress) (pattern : Nat) :
    Except InternalFault Progress := do
  let v ← s.view pattern
  if v.numTrips = 0 then return p
  else
    let (p, _) ← (s.heading.inOrder v.stops.toList).foldlM (s.scanStop v round) (p, [])
    return p

/-- Current arrivals of a round. -/
def currentArrivals (t : StopTable) (round : Nat) : Except InternalFault (List StopArrival) :=
  ((t.touchedIn round).filter t.isCurrent).mapM t.arrival

/-- Patterns at the stops reached in the round before, ascending. -/
def patternsToScan (s : Search) (t : StopTable) (round : Nat) :
    Except InternalFault (List Nat) := do
  let arrivals ← currentArrivals t (round - 1)
  return Ordered.ascending (arrivals.flatMap fun a => s.timetable.patternsAt a.stop)

def transitPhase (s : Search) (round : Nat) (p : Progress) : Except InternalFault Progress := do
  let patterns ← s.patternsToScan p.table round
  patterns.foldlM (s.scanPattern round) p

def walkArrival (s : Search) (id : Nat) (a : StopArrival) (w : Transfer) : StopArrival where
  stop := w.target
  round := a.round
  time := s.heading.advance a.time w.duration
  cost := Cost.plus a.cost (s.rates.walking w.duration)
  originTime := a.originTime
  previous := some id
  kind := .transfer a.stop w.duration
  iteration := a.iteration

/-- Walks from an arrival if it is current and was by a trip. -/
def walkFrom (s : Search) (p : Progress) (id : Nat) : Except InternalFault Progress :=
  if p.table.isCurrent id then do
    let a ← p.table.arrival id
    if a.isTransit then
      (s.heading.walks s.timetable a.stop).foldlM
        (fun p w => (s.addArrival p (s.walkArrival id a w)).map (·.1)) p
    else return p
  else .ok p

def transferPhase (s : Search) (round : Nat) (p : Progress) : Except InternalFault Progress :=
  (p.table.touchedIn round).foldlM s.walkFrom p

end Search
end JourneyPlanner
