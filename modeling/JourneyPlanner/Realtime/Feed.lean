import JourneyPlanner.Realtime.Snapshot

/-!
A feed of real-time information for one timetable. Batches skip updates that do
not resolve; transactions fail as a whole. Every publication, a cleared feed
included, raises the version by one, and a failed transaction publishes nothing.
-/

namespace JourneyPlanner

structure Feed where
  timetable : Timetable
  snapshot : Snapshot := {}

namespace Feed

def publish (f : Feed) (trips : LiveTrips) : Feed :=
  { f with snapshot := { trips := trips, version := f.snapshot.version + 1 } }

/-- Trips after a batch, the outcome of each update and the notices on the way. -/
def applyEach (t : Timetable) (m : LiveTrips) :
    List TripUpdate → LiveTrips × List UpdateOutcome × List Notice
  | [] => (m, [], [])
  | u :: us =>
    match m.apply t u with
    | .ok change =>
      let (m, outcomes, notices) := applyEach t change.trips us
      (m, change.outcome :: outcomes, change.notices ++ notices)
    | .error e =>
      let (m, outcomes, notices) := applyEach t m us
      (m, .rejected :: outcomes, .updateSkipped u e :: notices)

def applyUpdates (f : Feed) (us : List TripUpdate) : Feed × List UpdateOutcome × List Notice :=
  let (trips, outcomes, notices) := applyEach f.timetable f.snapshot.trips us
  (f.publish trips, outcomes, notices)

/-- Stops at the first update that fails. -/
def applyAll (t : Timetable) (m : LiveTrips) :
    List TripUpdate → List Notice × Except Fault (LiveTrips × List UpdateOutcome)
  | [] => ([], .ok (m, []))
  | u :: us =>
    match m.apply t u with
    | .error e => ([], .error e)
    | .ok change =>
      match applyAll t change.trips us with
      | (notices, .error e) => (change.notices ++ notices, .error e)
      | (notices, .ok (m, outcomes)) =>
        (change.notices ++ notices, .ok (m, change.outcome :: outcomes))

def transact (f : Feed) (us : List TripUpdate) :
    List Notice × Except Fault (Feed × List UpdateOutcome) :=
  match applyAll f.timetable f.snapshot.trips us with
  | (notices, .error e) => (notices, .error e)
  | (notices, .ok (trips, outcomes)) => (notices, .ok (f.publish trips, outcomes))

/-- Drops all real-time information. -/
def clear (f : Feed) : Feed :=
  f.publish []

end Feed
end JourneyPlanner
