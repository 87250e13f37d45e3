import JourneyPlanner.Fault
import JourneyPlanner.Sharing

/-!
A trip and its calls. The published times are kept relative to the first arrival,
so that trips of equal rhythm share their columns; real-time information, if
there is any, replaces all calls by absolute ones. Positions beyond the last call
have no times.
-/

namespace JourneyPlanner

structure TripDetails where
  tripId : String
  routeId : String
  serviceCode : Nat
  headsign : Option String
  wheelchair : Permission
  bikes : Permission
  deriving DecidableEq

/-- A published call; its times are relative to the shift of the trip. -/
structure ScheduledCall where
  arrival : Time
  departure : Time
  sequence : Nat
  pickup : PickDrop
  dropOff : PickDrop
  isTimepoint : Bool
  deriving DecidableEq, Inhabited

/-- A call as it is expected to happen. -/
structure Call where
  arrival : Time
  departure : Time
  pickup : PickDrop
  dropOff : PickDrop
  isCancelled : Bool := false
  isRecorded : Bool := false
  isInaccurate : Bool := false
  deriving DecidableEq, Inhabited

namespace ScheduledCall

def shiftedBy (c : ScheduledCall) (shift : Time) : Call where
  arrival := Time.wrap (c.arrival + shift)
  departure := Time.wrap (c.departure + shift)
  pickup := c.pickup
  dropOff := c.dropOff

end ScheduledCall

namespace Call

/-- The same call some seconds later. -/
def later (c : Call) (seconds : Time) : Call :=
  { c with
    arrival := Time.wrap (c.arrival + seconds)
    departure := Time.wrap (c.departure + seconds) }

end Call

structure Trip where
  details : TripDetails
  shift : Time
  schedule : List ScheduledCall
  /-- One headsign a call, if they differ from that of the trip. -/
  headsigns : Option (List (Option String))
  live : Option (List Call) := none
  state : LiveState := .scheduled
  deriving DecidableEq

/-- How times can decrease along a trip. -/
inductive Decrease where
  | dwell
  | run
  deriving DecidableEq, Repr

namespace Decrease

def text : Decrease → String
  | .dwell => "negative dwell time"
  | .run => "negative running time"

end Decrease

namespace Trip

def numCalls (t : Trip) : Nat :=
  t.schedule.length

def scheduledCalls (t : Trip) : List Call :=
  t.schedule.map fun c => c.shiftedBy t.shift

def calls (t : Trip) : List Call :=
  t.live.getD t.scheduledCalls

def scheduledCall? (t : Trip) (position : Nat) : Option Call :=
  t.schedule[position]?.map fun c => c.shiftedBy t.shift

def call? (t : Trip) (position : Nat) : Option Call :=
  match t.live with
  | some calls => calls[position]?
  | none => t.scheduledCall? position

theorem scheduledCall?_eq (t : Trip) (position : Nat) :
    t.scheduledCall? position = t.scheduledCalls[position]? := by
  simp [scheduledCall?, scheduledCalls]

theorem call?_eq (t : Trip) (position : Nat) : t.call? position = t.calls[position]? := by
  cases h : t.live with
  | none => simp [call?, calls, h, scheduledCall?_eq]
  | some calls => simp [call?, Trip.calls, h]

def scheduledArrival? (t : Trip) (position : Nat) : Option Time :=
  (t.scheduledCall? position).map (·.arrival)

def scheduledDeparture? (t : Trip) (position : Nat) : Option Time :=
  (t.scheduledCall? position).map (·.departure)

def arrival? (t : Trip) (position : Nat) : Option Time :=
  (t.call? position).map (·.arrival)

def departure? (t : Trip) (position : Nat) : Option Time :=
  (t.call? position).map (·.departure)

def pickup? (t : Trip) (position : Nat) : Option PickDrop :=
  (t.call? position).map (·.pickup)

def dropOff? (t : Trip) (position : Nat) : Option PickDrop :=
  (t.call? position).map (·.dropOff)

/-- Zero for a trip without calls. -/
def firstDeparture (t : Trip) : Time :=
  (t.departure? 0).getD 0

/-- Seconds spent at a stop. -/
def dwell? (t : Trip) (position : Nat) : Option Time := do
  return Time.wrap ((← t.departure? position) - (← t.arrival? position))

/-- Seconds from a stop to the next one. -/
def running? (t : Trip) (position : Nat) : Option Time := do
  return Time.wrap ((← t.arrival? (position + 1)) - (← t.departure? position))

def arrivalDelay? (t : Trip) (position : Nat) : Option Time := do
  return Time.wrap ((← t.arrival? position) - (← t.scheduledArrival? position))

def departureDelay? (t : Trip) (position : Nat) : Option Time := do
  return Time.wrap ((← t.departure? position) - (← t.scheduledDeparture? position))

/-- Without headsigns of its own the trip's headsign holds at every position. -/
def headsign? (t : Trip) (position : Nat) : Option (Option String) :=
  match t.headsigns with
  | some headsigns => headsigns[position]?
  | none => some t.details.headsign

def sequence? (t : Trip) (position : Nat) : Option Nat :=
  t.schedule[position]?.map (·.sequence)

/-- The first call with that sequence number. -/
def positionOfSequence? (t : Trip) (sequence : Nat) : Option Nat :=
  t.schedule.findIdx? fun c => c.sequence == sequence

def isTimepoint (t : Trip) (position : Nat) : Bool :=
  t.schedule[position]?.any (·.isTimepoint)

def isCancelledAt (t : Trip) (position : Nat) : Bool :=
  (t.call? position).any (·.isCancelled)

def isRecordedAt (t : Trip) (position : Nat) : Bool :=
  (t.call? position).any (·.isRecorded)

def isInaccurateAt (t : Trip) (position : Nat) : Bool :=
  (t.call? position).any (·.isInaccurate)

def isScheduled (t : Trip) : Bool :=
  t.live.isNone

def isCanceled (t : Trip) : Bool :=
  t.state == .canceled

/-- The first call that ends before it starts or starts before the call before it
has ended. -/
def decreaseFrom? : Nat → Option Time → List Call → Option (Nat × Decrease)
  | _, _, [] => none
  | i, previous, c :: cs =>
    if c.departure < c.arrival then some (i, .dwell)
    else if previous.any fun p => decide (c.arrival < p) then some (i, .run)
    else decreaseFrom? (i + 1) (some c.departure) cs

def decrease? (t : Trip) : Option (Nat × Decrease) :=
  decreaseFrom? 0 none t.calls

def isMonotonic (t : Trip) : Bool :=
  t.decrease?.isNone

/-- Whether a search may use the trip at all. -/
def isUsable (t : Trip) : Bool :=
  !t.isCanceled && (t.isScheduled || t.isMonotonic)

/-- The same rhythm under other details, departing at `departure`; real-time
information is left behind. -/
def startingAt (t : Trip) (details : TripDetails) (departure : Time) : Trip where
  details := details
  shift := Time.wrap (departure - ((t.schedule[0]?).map (·.departure)).getD 0)
  schedule := t.schedule
  headsigns := t.headsigns

/-- No headsigns if all calls show the trip's headsign or none at all. -/
def headsignsOf (headsign : Option String) (stopTimes : List StopTimeRecord) :
    Option (List (Option String)) :=
  let allShowTrip := headsign.isSome
    && stopTimes.all fun s => s.headsign.isNone || s.headsign == headsign
  if allShowTrip || stopTimes.all (fun s => s.headsign.isNone) then none
  else some (stopTimes.map fun s => s.headsign.or headsign)

/-- A call without a sequence number gets its position. -/
def scheduleOf (shift : Time) (stopTimes : List StopTimeRecord) : List ScheduledCall :=
  stopTimes.zipIdx.map fun (s, i) =>
    { arrival := Time.wrap (s.arrival - shift)
      departure := Time.wrap (s.departure - shift)
      sequence := s.stopSequence.getD i
      pickup := s.pickup
      dropOff := s.dropOff
      isTimepoint := s.isTimepoint }

/-- Looks up the columns of a trip. -/
def shareColumns (t : Trip) (pools : Pools) : Pools :=
  let headsigns := match t.headsigns with
    | some hs => (pools.headsigns.share hs).2
    | none => pools.headsigns
  let times := (pools.times.share (t.schedule.map (·.arrival))).2
  let pickDrops := (pools.pickDrops.share (t.schedule.map (·.pickup))).2
  { pools with
    headsigns := headsigns
    times := (times.share (t.schedule.map (·.departure))).2
    sequences := (pools.sequences.share (t.schedule.map (·.sequence))).2
    pickDrops := (pickDrops.share (t.schedule.map (·.dropOff))).2
    flags := (pools.flags.share (Flags.ofList (t.schedule.map (·.isTimepoint)))).2 }

/-- The published trip with the given calls, in the given order. -/
def ofStopTimes (details : TripDetails) (stopTimes : List StopTimeRecord) : Except DataFault Trip :=
  match stopTimes with
  | [] => .error (.noStopTimes details.tripId)
  | s :: _ =>
    .ok
      { details := details
        shift := s.arrival
        schedule := scheduleOf s.arrival stopTimes
        headsigns := headsignsOf details.headsign stopTimes }

end Trip
end JourneyPlanner
