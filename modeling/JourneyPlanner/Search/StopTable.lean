import JourneyPlanner.Routing.Journey
import JourneyPlanner.Search.Heading
import JourneyPlanner.Search.Pareto

/-!
What a search knows about reaching stops: one Pareto front for each round and
stop. Every arrival that was ever accepted keeps its id, also after it was
dropped from its front, so that the way to it can be walked back.
-/

namespace JourneyPlanner

inductive ArrivalKind where
  /-- By a street leg from where the search begins. -/
  | access (duration : Time)
  /-- By leaving a trip; positions are in search direction. -/
  | transit (pattern trip boardPosition position : Nat)
  | transfer (fromStop : Nat) (duration : Time)
  deriving DecidableEq

structure StopArrival where
  stop : Nat
  /-- How many trips were ridden. -/
  round : Nat
  time : Time
  cost : Cost
  /-- When the journey leaves the origin, or reaches the destination in reverse. -/
  originTime : Time
  previous : Option Nat
  kind : ArrivalKind
  iteration : Nat
  deriving DecidableEq

namespace StopArrival

def isTransit (a : StopArrival) : Bool :=
  match a.kind with
  | .transit _ _ _ _ => true
  | _ => false

/-- At least as good in time and, if it counts, in cost. -/
def dominates (h : Heading) (compareCost : Bool) (a b : StopArrival) : Bool :=
  h.betterOrEqual a.time b.time && (!compareCost || decide (a.cost ≤ b.cost))

end StopArrival

/-- An accepted arrival and its id. -/
structure Label where
  id : Nat
  arrival : StopArrival
  deriving DecidableEq

structure StopTable where
  /-- All accepted arrivals; an id is a place in this list. -/
  arrivals : Array StopArrival
  /-- By round, then by stop. -/
  fronts : Array (Array (List Label))
  /-- Ids accepted in each round of the current iteration. -/
  touched : Array (Array Nat)
  iteration : Nat

namespace StopTable

/-- Rounds go from zero to `maxRounds`. -/
def empty (numStops maxRounds : Nat) : StopTable where
  arrivals := #[]
  fronts := Array.replicate (maxRounds + 1) (Array.replicate numStops [])
  touched := Array.replicate (maxRounds + 1) #[]
  iteration := 0

/-- Fronts stay as they are between iterations. -/
def startIteration (t : StopTable) : StopTable :=
  { t with
    touched := t.touched.map fun _ => #[]
    iteration := t.iteration + 1 }

def numAccepted (t : StopTable) : Nat :=
  t.arrivals.size

def arrival (t : StopTable) (id : Nat) : Except InternalFault StopArrival :=
  match t.arrivals[id]? with
  | some a => .ok a
  | none => .error (.unknownLabel id)

def front? (t : StopTable) (round stop : Nat) : Option (List Label) := do
  let row ← t.fronts[round]?
  row[stop]?

def front (t : StopTable) (round stop : Nat) : Except InternalFault (List Label) :=
  match t.front? round stop with
  | some labels => .ok labels
  | none => .error (.outOfBounds stop)

def touchedIn (t : StopTable) (round : Nat) : List Nat :=
  (t.touched[round]?.getD #[]).toList

/-- The first label of a lower round that dominates the arrival. -/
def rivalBelow? (t : StopTable) (dominates : StopArrival → StopArrival → Bool) (a : StopArrival) :
    Option Label :=
  (List.range a.round).findSome? fun round =>
    ((t.front? round a.stop).getD []).find? fun l => dominates l.arrival a

/-- Keeps an arrival under the next id, with the new labels of its front. -/
def place (t : StopTable) (a : StopArrival) (labels : List Label) : StopTable :=
  match t with
  | ⟨arrivals, fronts, touched, iteration⟩ =>
    let id := arrivals.size
    { arrivals := arrivals.push a
      fronts := fronts.modify a.round fun row => row.setIfInBounds a.stop labels
      touched := touched.modify a.round fun ids => ids.push id
      iteration := iteration }

/-- What becomes of an arrival: a label at its stop in its round or a lower one
may reject it, and it may drop labels of its own round. The labels are those of
its front after it. -/
def judge (t : StopTable) (dominates : StopArrival → StopArrival → Bool) (a : StopArrival) :
    Except InternalFault (Pareto.Addition Label) := do
  let labels ← t.front a.round a.stop
  match t.rivalBelow? dominates a with
  | some rival => return .rejected rival
  | none =>
    return Pareto.add (fun l r => dominates l.arrival r.arrival) labels ⟨t.arrivals.size, a⟩

/-- Whether an accepted arrival is still in its front; only then is it expanded. -/
def isCurrent (t : StopTable) (id : Nat) : Bool :=
  match t.arrivals[id]? with
  | some a => ((t.front? a.round a.stop).getD []).any fun l => l.id == id
  | none => false

/-- Labels of the current iteration; older ones were expanded in theirs. -/
def newLabelsAt (t : StopTable) (round stop : Nat) : Except InternalFault (List Label) := do
  let labels ← t.front round stop
  return labels.filter fun l => l.arrival.iteration == t.iteration

def chainFrom (t : StopTable) : Nat → Nat → Except InternalFault (List StopArrival)
  | fuel, id =>
    match t.arrivals[id]? with
    | none => .error (.unknownLabel id)
    | some a =>
      match fuel, a.previous with
      | 0, _ => .error (.brokenChain a.stop)
      | _ + 1, none => .ok [a]
      | fuel + 1, some previous => do
        let rest ← chainFrom t fuel previous
        return a :: rest

/-- The arrivals on the way to an arrival, from it back to where the search
began. A way is no longer than there are arrivals. -/
def chain (t : StopTable) (id : Nat) : Except InternalFault (List StopArrival) :=
  t.chainFrom t.arrivals.size id

/-- The stops on the way to an arrival, in search direction. -/
def chainStops (t : StopTable) (id : Nat) : Except InternalFault (List Nat) := do
  let arrivals ← t.chain id
  return (arrivals.map (·.stop)).reverse

theorem arrival_eq_ok_iff {t : StopTable} {id : Nat} {a : StopArrival} :
    t.arrival id = .ok a ↔ t.arrivals[id]? = some a := by
  unfold arrival
  cases t.arrivals[id]? <;> simp

/-- Ids keep denoting the same arrival. -/
theorem arrivals_place (t : StopTable) (a : StopArrival) (labels : List Label) (id : Nat) :
    (t.place a labels).arrivals[id]? =
      if id = t.numAccepted then some a else t.arrivals[id]? :=
  Array.getElem?_push

/-- Only the front of the arrival changes. -/
theorem front?_place (t : StopTable) (a : StopArrival) (labels : List Label) (round stop : Nat) :
    (t.place a labels).front? round stop =
      if a.round = round ∧ a.stop = stop then
        (t.front? round stop).map fun _ => labels
      else t.front? round stop := by
  simp only [place, front?, Array.getElem?_modify]
  by_cases hr : a.round = round
  · cases t.fronts[round]? with
    | none => simp
    | some row =>
        by_cases hs : a.stop = stop
        · subst hs
          by_cases hlt : a.stop < row.size <;> simp [hr, hlt]
        · simp [hr, hs]
  · simp [hr]

end StopTable
end JourneyPlanner
