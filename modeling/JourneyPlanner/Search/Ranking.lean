import JourneyPlanner.Ordered
import JourneyPlanner.Routing.Journey
import JourneyPlanner.Routing.Request

/-!
The order in which itineraries are listed: by the criteria of the policy, one
after the other, then by departure, the latest first, or in reverse by arrival,
the earliest first. Itineraries equal in all that keep their order.
-/

namespace JourneyPlanner.Ranking

def compareOn (d : Direction) (c : Criterion) (a b : Itinerary) : Ordering :=
  match c, d with
  | .arrivalTime, .forward => compare a.arrivalTime b.arrivalTime
  | .arrivalTime, .reverse => compare b.departureTime a.departureTime
  | .transfers, _ => compare a.transfers b.transfers
  | .cost, _ => compare a.generalizedCost b.generalizedCost

def compareLast (d : Direction) (a b : Itinerary) : Ordering :=
  match d with
  | .forward => compare b.departureTime a.departureTime
  | .reverse => compare a.arrivalTime b.arrivalTime

def compareAll (d : Direction) (a b : Itinerary) : List Criterion → Ordering
  | [] => compareLast d a b
  | c :: cs => (compareOn d c a b).then (compareAll d a b cs)

def before (d : Direction) (p : DominancePolicy) (a b : Itinerary) : Bool :=
  compareAll d a b p.criteria == .lt

def rank (d : Direction) (p : DominancePolicy) (its : List Itinerary) : List Itinerary :=
  Ordered.sort (before d p) its

end JourneyPlanner.Ranking
