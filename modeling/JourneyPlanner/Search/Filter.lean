import JourneyPlanner.Association
import JourneyPlanner.Routing.Request

/-!
What a request does not want to use. Bans of one trip add up, and a ban of the
whole trip stays whatever else is banned of it.
-/

namespace JourneyPlanner

inductive Ban where
  | wholeTrip
  | positions (ps : List Nat)
  deriving DecidableEq

namespace Ban

/-- A ban with an empty list of positions is of the whole trip. -/
def extend (positions : List Nat) (old : Option Ban) : Ban :=
  if positions.isEmpty then .wholeTrip
  else
    match old with
    | some .wholeTrip => .wholeTrip
    | some (.positions ps) => .positions (ps ++ positions)
    | none => .positions positions

def covers (b : Ban) (position : Nat) : Bool :=
  match b with
  | .wholeTrip => true
  | .positions ps => ps.contains position

end Ban

structure TripFilter where
  bans : List (String × Ban) := []
  bannedStops : List Nat := []
  wheelchair : Bool := false
  bikes : Bool := false

namespace TripFilter

def bansOf (banned : List BannedTrip) : List (String × Ban) :=
  banned.foldl (fun bans b => Association.alter b.tripId (Ban.extend b.positions) bans) []

def ofRequest (r : Request) : TripFilter where
  bans := bansOf r.bannedTrips
  bannedStops := r.bannedStops
  wheelchair := r.wheelchair
  bikes := r.bikes

def allowsStop (f : TripFilter) (stop : Nat) : Bool :=
  !f.bannedStops.contains stop

/-- What is not known about a trip counts as not allowed. -/
def suits (f : TripFilter) (d : TripDetails) : Bool :=
  (!f.wheelchair || d.wheelchair == .allowed) && (!f.bikes || d.bikes == .allowed)

def bans? (f : TripFilter) (tripId : String) (position : Nat) : Bool :=
  (Association.find? tripId f.bans).any fun b => b.covers position

/-- Whether the trip may be caught or left at the position. -/
def accepts (f : TripFilter) (t : Trip) (position stop : Nat) : Bool :=
  !t.isCanceled && !t.isCancelledAt position && f.allowsStop stop && f.suits t.details
    && !f.bans? t.details.tripId position

end TripFilter
end JourneyPlanner
