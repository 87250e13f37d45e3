import JourneyPlanner.Index
import JourneyPlanner.Routing.Request

/-!
How far the tables of a search would have to reach. One goes up to the greatest
banned position of a trip and one up to the last round; where that is further than
any table goes, there is no search.
-/

namespace JourneyPlanner
namespace Request

/-- The first banned position without an entry in any table. The trips given are
banned as a whole, and so is one with an empty list of positions; other positions
of such a trip need no table. -/
def bannedBeyond? : List String → List BannedTrip → Option Nat
  | _, [] => none
  | whole, b :: bs =>
    if b.positions.isEmpty then bannedBeyond? (b.tripId :: whole) bs
    else if whole.contains b.tripId then bannedBeyond? whole bs
    else (b.positions.find? fun p => !Index.hasEntry p).or (bannedBeyond? whole bs)

/-- The most rounds that a table has. A row for a round takes 24 bytes, and a
table takes less than `2 ^ 63`. -/
def greatestNumRounds : Nat :=
  (Nat.pow 2 63 - 1) / 24

def roundBeyond? (maxRounds : Nat) : Option Nat :=
  if greatestNumRounds ≤ maxRounds then some maxRounds else none

/-- The first index that no table of the search would reach. -/
def beyond? (r : Request) (maxRounds : Nat) : Option Nat :=
  (bannedBeyond? [] r.bannedTrips).or (roundBeyond? maxRounds)

end Request
end JourneyPlanner
