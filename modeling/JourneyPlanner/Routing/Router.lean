import JourneyPlanner.Search.Extent
import JourneyPlanner.Search.Path
import JourneyPlanner.Search.Ranking

/-!
Answers to requests. A request is checked, searched on the dates around its own,
and answered with the best itineraries in order; finding none is an answer too.
-/

namespace JourneyPlanner

namespace Search

/-- The first and the last iteration time searched. -/
def reportOf (r : Request) (p : Progress) : SearchReport where
  windowStart := (p.searched.min?).getD r.time
  windowEnd := (p.searched.max?).getD r.time
  iterations := p.searched.length
  rounds := p.highestRound
  acceptedArrivals := p.table.numAccepted

/-- The itineraries of everything found, listed by the policy. -/
def itineraries (s : Search) (p : Progress) : Except InternalFault (List Itinerary) := do
  let its ← p.destination.mapM (s.itinerary p.table)
  return Ranking.rank s.heading.direction s.policy its

end Search

/-- A timetable with its real-time information and the settings for searching it. -/
structure Router where
  timetable : Timetable
  snapshot : Snapshot := {}
  settings : Settings := {}

namespace Router

/-- The dates searched for a request. -/
def datesFor (settings : Settings) (r : Request) : Except RequestFault (List Date) :=
  match r.date.window settings.searchDaysBefore settings.searchDaysAfter with
  | .ok dates => .ok dates
  | .error e => .error (.dateWindow e)

/-- The search for a request, if it is accepted. -/
def search (x : Router) (r : Request) (watch : Option Watch) (supervisor : Supervisor) :
    Except RequestFault Search := do
  let limits ← r.accept x.settings x.timetable
  let dates ← datesFor x.settings r
  return Search.ofRequest x.timetable x.snapshot x.settings r limits dates watch supervisor

def answer (s : Search) (r : Request) : Except InternalFault (Response × List Event) := do
  let (status, p) ← s.run
  let its ← s.itineraries p
  return (⟨status, its, Search.reportOf r p⟩, p.events.toList)

/-- Routes a request that may be watched and stopped, with what was reported. -/
def routeWatched (x : Router) (r : Request) (watch : Option Watch) (supervisor : Supervisor) :
    Except Fault (Response × List Event) :=
  match x.search r watch supervisor with
  | .error e => .error (.request e)
  | .ok s =>
    match r.beyond? s.maxRounds with
    | some index => .error (.internal (.tooLarge index))
    | none =>
      match answer s r with
      | .error e => .error (.internal e)
      | .ok result => .ok result

def route (x : Router) (r : Request) : Except Fault Response :=
  (x.routeWatched r none {}).map (·.1)

/-- Requests are independent of each other. -/
def routeMany (x : Router) (rs : List Request) : List (Except Fault Response) :=
  rs.map x.route

end Router
end JourneyPlanner
