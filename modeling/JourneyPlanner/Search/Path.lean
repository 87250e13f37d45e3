import JourneyPlanner.Search.Run

/-!
Itineraries from the arrivals of a search. The way to a destination is first
turned into rides and walks in the order of time; times and costs are then
computed again along it, so that searches in both directions give the same legs
for the same journey.
-/

namespace JourneyPlanner

/-- A ride or a walk between the street legs of a journey. -/
inductive Hop where
  | ride (pattern : Nat) (trip : DayTrip) (fromStop boardPosition toStop alightPosition : Nat)
  | walk (fromStop toStop : Nat) (duration : Time)

namespace Search

/-- The way to a destination, from it back to the street leg where the search began. -/
def wayTo (t : StopTable) (d : DestinationArrival) :
    Except InternalFault (List StopArrival × StreetLeg) := do
  let arrivals ← t.chain d.previous
  match arrivals.getLast? with
  | none => .error (.brokenChain d.stop)
  | some first =>
    match first.kind with
    | .access duration =>
      if first.round = 0 then return (arrivals, ⟨first.stop, duration⟩)
      else .error (.brokenChain first.stop)
    | _ => .error (.brokenChain first.stop)

/-- The hop to an arrival from the one before it. -/
def forwardHop (s : Search) (previous a : StopArrival) : Except InternalFault Hop :=
  match a.kind with
  | .transit pattern trip board position => do
    let v ← s.view pattern
    let trip ← v.tripAt trip
    if board < position ∧ v.stops[board]? = some previous.stop then
      let call ← trip.call board
      if s.heading.boardLimit previous.time ≤ call.departure then
        return .ride pattern trip previous.stop board a.stop position
      else .error (.boardPosition pattern previous.stop)
    else .error (.boardPosition pattern previous.stop)
  | .transfer fromStop duration => .ok (.walk fromStop a.stop duration)
  | .access _ => .error (.brokenChain a.stop)

/-- The hop from an arrival to the one found before it, in a search in reverse. -/
def reverseHop (s : Search) (a next : StopArrival) : Except InternalFault Hop :=
  match a.kind with
  | .transit pattern trip alight position => do
    let v ← s.view pattern
    let trip ← v.tripAt trip
    if position < alight ∧ v.stops[alight]? = some next.stop then
      let call ← trip.call alight
      if call.arrival ≤ next.time then
        return .ride pattern trip a.stop position next.stop alight
      else .error (.boardPosition pattern next.stop)
    else .error (.boardPosition pattern next.stop)
  | .transfer fromStop duration => .ok (.walk a.stop fromStop duration)
  | .access _ => .error (.brokenChain a.stop)

/-- A hop for each two arrivals that follow each other. -/
def hopsBetween (hop : StopArrival → StopArrival → Except InternalFault Hop) :
    List StopArrival → Except InternalFault (List Hop)
  | a :: b :: rest => do
    let first ← hop a b
    let others ← hopsBetween hop (b :: rest)
    return first :: others
  | _ => .ok []

/-- Street legs at both ends and what lies between them, in the order of time. -/
structure Route where
  access : StreetLeg
  hops : List Hop
  egress : StreetLeg

def routeTo (s : Search) (t : StopTable) (d : DestinationArrival) :
    Except InternalFault Route := do
  let (arrivals, begun) ← wayTo t d
  match s.heading.direction with
  | .forward => return ⟨begun, ← hopsBetween s.forwardHop arrivals.reverse, d.stop, d.streetDuration⟩
  | .reverse => return ⟨⟨d.stop, d.streetDuration⟩, ← hopsBetween s.reverseHop arrivals, begun⟩

/-- When the first trip departs. -/
def firstDeparture (accessStop : Nat) : List Hop → Except InternalFault Time
  | [] => .error (.brokenChain accessStop)
  | .ride _ trip _ board _ _ :: _ => return (← trip.call board).departure
  | .walk _ _ _ :: hops => firstDeparture accessStop hops

/-- Where a traveller is along a journey. -/
structure Traveller where
  time : Time
  hasRidden : Bool := false
  /-- The stop walked from since the last ride. -/
  walkedFrom : Option Nat := none

def rideLeg (s : Search) (who : Traveller) (pattern : Nat) (trip : DayTrip)
    (fromStop board toStop alight : Nat) : Except InternalFault Leg := do
  let boardCall ← trip.call board
  let alightCall ← trip.call alight
  let headsign ← match trip.trip.headsign? board with
    | some h => .ok h
    | none => .error (.outOfBounds board)
  let boarding :=
    if who.hasRidden then
      s.rates.changing (s.heading.keep (boardCall.departure - who.time - s.heading.boardSlack))
        (s.timetable.isDiscouraged fromStop
          || s.timetable.isDiscouraged (who.walkedFrom.getD fromStop))
    else s.rates.firstBoarding
  return .transit
    { pattern := pattern
      routeId := trip.trip.details.routeId
      tripId := trip.trip.details.tripId
      serviceDate := trip.date
      headsign := headsign
      fromStop := fromStop
      boardPosition := board
      toStop := toStop
      alightPosition := alight
      startTime := boardCall.departure
      endTime := alightCall.arrival
      cost := Cost.plus boarding
        (s.rates.riding (s.heading.keep (alightCall.arrival - boardCall.departure))) }

/-- Legs of the hops, and when the last one ends. -/
def legsAlong (s : Search) : Traveller → List Hop → Except InternalFault (List Leg × Time)
  | who, [] => .ok ([], who.time)
  | who, .ride pattern trip fromStop board toStop alight :: hops => do
    let leg ← s.rideLeg who pattern trip fromStop board toStop alight
    let (legs, time) ← legsAlong s ⟨leg.endTime, true, none⟩ hops
    return (leg :: legs, time)
  | who, .walk fromStop toStop duration :: hops => do
    let arrival := s.heading.keep (who.time + duration)
    let leg := Leg.transfer fromStop toStop who.time arrival (s.rates.walking duration)
    let (legs, time) ← legsAlong s ⟨arrival, who.hasRidden, some fromStop⟩ hops
    return (leg :: legs, time)

/-- The origin is left just in time for the first trip. -/
def legsOf (s : Search) (r : Route) : Except InternalFault (List Leg) := do
  let departure ← firstDeparture r.access.stop r.hops
  let begun := s.heading.keep (departure - s.heading.boardSlack)
  let (legs, time) ← s.legsAlong ⟨begun, false, none⟩ r.hops
  let access := Leg.access r.access.stop (s.heading.keep (begun - r.access.duration)) begun
    (s.rates.walking r.access.duration)
  let egress := Leg.egress r.egress.stop time (s.heading.keep (time + r.egress.duration))
    (s.rates.walking r.egress.duration)
  return access :: legs ++ [egress]

def itineraryOf (legs : List Leg) : Itinerary where
  legs := legs
  departureTime := (legs.head?.map Leg.startTime).getD 0
  arrivalTime := (legs.getLast?.map Leg.endTime).getD 0
  transfers := (legs.filter Leg.isTransit).length - 1
  generalizedCost := Cost.total (legs.map Leg.cost)

def itinerary (s : Search) (t : StopTable) (d : DestinationArrival) :
    Except InternalFault Itinerary := do
  let route ← s.routeTo t d
  let legs ← s.legsOf route
  return itineraryOf legs

end Search
end JourneyPlanner
