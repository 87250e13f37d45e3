import JourneyPlanner.Routing.Acceptance
import JourneyPlanner.Search.Cost
import JourneyPlanner.Search.Event
import JourneyPlanner.Search.PatternView
import JourneyPlanner.Search.Supervisor

/-!
One search: what stays fixed during it and what it has found so far.
-/

namespace JourneyPlanner

structure Search where
  timetable : Timetable
  /-- By pattern; a view is made when the search first comes to its pattern. -/
  views : Array (Thunk PatternView)
  heading : Heading
  rates : CostRates
  filter : TripFilter
  policy : DominancePolicy
  pruning : Bool
  /-- Street legs where the search begins: access going forward, egress in reverse. -/
  origin : List StreetLeg
  /-- Street legs where it ends. -/
  target : List StreetLeg
  /-- Start times of the iterations. -/
  times : List Time
  maxRounds : Nat
  watch : Option Watch
  supervisor : Supervisor
  timeout : Option Nat

/-- What a search has found so far. -/
structure Progress where
  table : StopTable
  /-- The best journeys, in the order in which they were found. -/
  destination : List DestinationArrival := []
  /-- Times of the iterations begun, the latest first. -/
  searched : List Time := []
  highestRound : Nat := 0
  checks : Nat := 0
  arrivalReports : Nat := 0
  events : Array Event := #[]

namespace Search

def viewsOf (t : Timetable) (s : Snapshot) (searchDate : Date) (dates : List Date) :
    Array (Thunk PatternView) :=
  t.patterns.mapIdx fun i p => Thunk.mk fun _ => PatternView.ofDates t s i p.stops searchDate dates

def headingOf (r : Request) (limits : SearchLimits) : Heading where
  direction := r.direction
  boardSlack := limits.boardSlack

def originOf (r : Request) : List StreetLeg :=
  match r.direction with
  | .forward => r.access
  | .reverse => r.egress

def targetOf (r : Request) : List StreetLeg :=
  match r.direction with
  | .forward => r.egress
  | .reverse => r.access

def ofRequest (t : Timetable) (s : Snapshot) (settings : Settings) (r : Request)
    (limits : SearchLimits) (dates : List Date) (watch : Option Watch) (supervisor : Supervisor) :
    Search where
  timetable := t
  views := viewsOf t s r.date dates
  heading := headingOf r limits
  rates := CostRates.ofWeights r.cost
  filter := TripFilter.ofRequest r
  policy := r.policy
  pruning := r.destinationPruning
  origin := originOf r
  target := targetOf r
  times := (headingOf r limits).iterationTimes r.time limits.window settings.iterationStep
  maxRounds := limits.maxRounds
  watch := watch
  supervisor := supervisor
  timeout := r.timeout.or settings.requestTimeout

def start (s : Search) : Progress where
  table := StopTable.empty s.timetable.numStops s.maxRounds

def view (s : Search) (pattern : Nat) : Except InternalFault PatternView :=
  match s.views[pattern]? with
  | some v => .ok v.get
  | none => .error (.unknownPattern pattern)

/-- The shortest street leg where the search ends. -/
def leastDuration (s : Search) : Time :=
  ((s.target.map (·.duration)).min?).getD 0

/-- Street legs from a stop to where the search ends, in the given order. -/
def targetDurations (s : Search) (stop : Nat) : List Time :=
  (s.target.filter fun l => l.stop == stop).map (·.duration)

/-- The best that can come of an arrival. -/
def bound (s : Search) (a : StopArrival) : Merits where
  originTime := a.originTime
  time := s.heading.advance a.time s.leastDuration
  rounds := a.round
  cost := Cost.plus a.cost (s.rates.walking s.leastDuration)

end Search

namespace Progress

/-- The time of the current iteration. -/
def time (p : Progress) : Time :=
  p.searched.head?.getD 0

/-- Keeps an accepted arrival, with the new labels of its front. -/
def place (p : Progress) (a : StopArrival) (labels : List Label) : Progress :=
  match p with
  | ⟨table, destination, searched, highestRound, checks, arrivalReports, events⟩ =>
    ⟨table.place a labels, destination, searched, highestRound, checks, arrivalReports, events⟩

theorem place_eq (p : Progress) (a : StopArrival) (labels : List Label) :
    p.place a labels = { p with table := p.table.place a labels } :=
  rfl

end Progress
end JourneyPlanner
