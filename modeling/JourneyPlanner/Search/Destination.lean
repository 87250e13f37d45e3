import JourneyPlanner.Search.StopTable

/-!
Journeys that reach the destination: one Pareto front shared by all iterations.
-/

namespace JourneyPlanner

/-- What journeys are compared on. -/
structure Merits where
  /-- Leaving later, or arriving earlier in reverse, is better. -/
  originTime : Time
  time : Time
  rounds : Nat
  cost : Cost
  deriving DecidableEq

namespace Merits

def dominates (h : Heading) (p : DominancePolicy) (a b : Merits) : Bool :=
  h.betterOrEqual b.originTime a.originTime && h.betterOrEqual a.time b.time
    && (!p.transfers || decide (a.rounds ≤ b.rounds)) && (!p.cost || decide (a.cost ≤ b.cost))

end Merits

structure DestinationArrival where
  /-- The arrival by the last trip in search direction. -/
  previous : Nat
  stop : Nat
  streetDuration : Time
  merits : Merits
  deriving DecidableEq

namespace DestinationArrival

def dominates (h : Heading) (p : DominancePolicy) (a b : DestinationArrival) : Bool :=
  Merits.dominates h p a.merits b.merits

/-- The first journey that dominates the best that could still be reached. -/
def pruning? (h : Heading) (p : DominancePolicy) (front : List DestinationArrival)
    (bound : Merits) : Option DestinationArrival :=
  front.find? fun d => Merits.dominates h p d.merits bound

end DestinationArrival
end JourneyPlanner
