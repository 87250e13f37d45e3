import JourneyPlanner.Trip.Basic

/-!
Real-time changes of a trip. The first change replaces the published calls by
absolute copies; the published ones stay as they are. A change at a position the
trip does not have gives no trip.
-/

namespace JourneyPlanner.Trip

/-- Gives the trip calls of its own. -/
def makeLive (t : Trip) : Trip :=
  match t.live with
  | some _ => t
  | none => { t with live := some t.scheduledCalls, state := .updated }

def changeCall? (t : Trip) (position : Nat) (change : Call → Call) : Option Trip :=
  let t := t.makeLive
  if position < t.calls.length then some { t with live := some (t.calls.modify position change) }
  else none

def delayArrival? (t : Trip) (position : Nat) (delay : Time) : Option Trip := do
  let scheduled ← t.scheduledArrival? position
  t.changeCall? position fun c => { c with arrival := Time.wrap (scheduled + delay) }

def delayDeparture? (t : Trip) (position : Nat) (delay : Time) : Option Trip := do
  let scheduled ← t.scheduledDeparture? position
  t.changeCall? position fun c => { c with departure := Time.wrap (scheduled + delay) }

def setArrival? (t : Trip) (position : Nat) (time : Time) : Option Trip :=
  t.changeCall? position fun c => { c with arrival := time }

def setDeparture? (t : Trip) (position : Nat) (time : Time) : Option Trip :=
  t.changeCall? position fun c => { c with departure := time }

/-- Nobody can get on or off there. -/
def cancelCall (c : Call) : Call :=
  { c with isCancelled := true, pickup := .unavailable, dropOff := .unavailable }

def cancelStop? (t : Trip) (position : Nat) : Option Trip :=
  t.changeCall? position cancelCall

def markRecorded? (t : Trip) (position : Nat) : Option Trip :=
  t.changeCall? position fun c => { c with isRecorded := true }

def markInaccurate? (t : Trip) (position : Nat) : Option Trip :=
  t.changeCall? position fun c => { c with isInaccurate := true }

/-- The trip does not run at all. -/
def cancel (t : Trip) : Trip :=
  { t with
    live := some (t.calls.map fun c =>
      { cancelCall c with arrival := unavailable, departure := unavailable })
    state := .canceled }

end JourneyPlanner.Trip
