import JourneyPlanner.Proofs.Spanning
import Mathlib.Data.Option.Defs

/-!
Two searches that count from different places: their times are some seconds apart, and
they give the trips of a pattern different indices. What is the same on both sides can be
compared through the change of labels, and every comparison comes out alike.
-/

namespace JourneyPlanner

/-- Times some seconds later, and other indices for the trips of each pattern. -/
structure Relabeling where
  later : Time
  trip : Nat → Nat → Nat

namespace Pareto

variable {α β : Type}

def Addition.map (f : α → β) : Addition α → Addition β
  | .accepted front dropped => .accepted (front.map f) (dropped.map f)
  | .rejected rival => .rejected (f rival)

theorem add_map {f : α → β} {dominates : α → α → Bool} {dominates' : β → β → Bool}
    (h : ∀ x y, dominates' (f x) (f y) = dominates x y) (front : List α) (x : α) :
    add dominates' (front.map f) (f x) = (add dominates front x).map f := by
  have hrival : rival? dominates' (front.map f) (f x) = (rival? dominates front x).map f := by
    simp only [rival?, List.find?_map, Function.comp_def, h]
  unfold add
  rw [hrival]
  cases rival? dominates front x with
  | some rival => rfl
  | none =>
      simp only [Option.map_none, Addition.map, List.map_append, List.map_singleton, List.filter_map,
        Function.comp_def, h]

end Pareto

namespace Heading

/-- Sums kept of times that are `k` later are `k` later. -/
def Shifts (h : Heading) (k : Time) : Prop :=
  ∀ sum, h.keep (sum + k) = h.keep sum + k

theorem shifts_zero (h : Heading) : h.Shifts 0 := by
  intro sum
  rw [Int.add_zero, Int.add_zero]

theorem IsExact.shifts {h : Heading} (hx : h.IsExact) (k : Time) : h.Shifts k := by
  intro sum
  rw [hx.keep, hx.keep]

section Comparing

variable (h : Heading) (a b k : Time)

theorem better_add : h.better (a + k) (b + k) = h.better a b := by
  unfold better
  cases h.direction <;> grind

theorem betterOrEqual_add : h.betterOrEqual (a + k) (b + k) = h.betterOrEqual a b := by
  unfold betterOrEqual
  cases h.direction <;> grind

theorem wait_add : h.wait (a + k) (b + k) = h.wait a b := by
  unfold wait
  cases h.direction <;> grind

end Comparing

section Adding

variable {h : Heading} {k : Time} (hk : h.Shifts k) (a d : Time)

include hk

theorem advance_add : h.advance (a + k) d = h.advance a d + k := by
  unfold advance
  cases h.direction with
  | forward => exact Int.add_right_comm a k d ▸ hk (a + d)
  | reverse => exact (show a - d + k = a + k - d by grind) ▸ hk (a - d)

theorem boardLimit_add : h.boardLimit (a + k) = h.boardLimit a + k := by
  unfold boardLimit
  cases h.direction with
  | forward => exact Int.add_right_comm a k h.boardSlack ▸ hk (a + h.boardSlack)
  | reverse => rfl

theorem originTime_add : h.originTime (a + k) d = h.originTime a d + k := by
  unfold originTime
  cases h.direction with
  | forward => exact (show a - h.boardSlack - d + k = a + k - h.boardSlack - d by grind) ▸ hk _
  | reverse => exact Int.add_right_comm a k d ▸ hk (a + d)

theorem iterationTimes_add (time window step : Time) :
    h.iterationTimes (time + k) window step = (h.iterationTimes time window step).map (· + k) := by
  simp only [iterationTimes, List.map_map, Function.comp_def, advance_add hk]

end Adding

end Heading

namespace Relabeling

variable (m : Relabeling)

def kind : ArrivalKind → ArrivalKind
  | .transit pattern trip boardPosition position =>
    .transit pattern (m.trip pattern trip) boardPosition position
  | k => k

def arrival (a : StopArrival) : StopArrival :=
  { a with
    time := a.time + m.later
    originTime := a.originTime + m.later
    kind := m.kind a.kind }

def label (l : Label) : Label :=
  ⟨l.id, m.arrival l.arrival⟩

def table (t : StopTable) : StopTable where
  arrivals := t.arrivals.map m.arrival
  fronts := t.fronts.map fun row => row.map fun labels => labels.map m.label
  touched := t.touched
  iteration := t.iteration

def merits (a : Merits) : Merits :=
  { a with originTime := a.originTime + m.later, time := a.time + m.later }

def journey (d : DestinationArrival) : DestinationArrival :=
  { d with merits := m.merits d.merits }

def boarding (pattern : Nat) (b : Search.Boarding) : Search.Boarding :=
  { b with trip := m.trip pattern b.trip, originTime := b.originTime + m.later }

section Table

variable {m} {t : StopTable}

theorem previous_arrival (a : StopArrival) : (m.arrival a).previous = a.previous :=
  rfl

theorem arrivals_table (id : Nat) : (m.table t).arrivals[id]? = t.arrivals[id]?.map m.arrival :=
  Array.getElem?_map

theorem front?_table (round stop : Nat) :
    (m.table t).front? round stop = (t.front? round stop).map (List.map m.label) := by
  simp only [StopTable.front?, table, Array.getElem?_map]
  cases t.fronts[round]? with
  | none => rfl
  | some row => exact Array.getElem?_map

theorem table_place (a : StopArrival) (labels : List Label) :
    m.table (t.place a labels) = (m.table t).place (m.arrival a) (labels.map m.label) := by
  simp only [table, StopTable.place, StopTable.mk.injEq, Array.map_push, Array.size_map, and_true,
    true_and]
  refine ⟨Array.ext_getElem? fun round => ?_, rfl⟩
  simp only [Array.getElem?_map, Array.getElem?_modify]
  cases t.fronts[round]? with
  | none => simp
  | some row =>
      by_cases hr : a.round = round
      · simp [hr, arrival, Array.map_setIfInBounds]
      · simp [hr, arrival]

theorem isCurrent_table (id : Nat) : (m.table t).isCurrent id = t.isCurrent id := by
  unfold StopTable.isCurrent
  rw [arrivals_table]
  cases ha : t.arrivals[id]? with
  | none => rfl
  | some a =>
      simp only [Option.map_some, front?_table]
      change (((t.front? a.round a.stop).map (List.map m.label)).getD []).any _ = _
      cases t.front? a.round a.stop with
      | none => rfl
      | some labels => simp only [Option.map_some, Option.getD_some, List.any_map]; rfl

theorem arrival_table {id : Nat} {a : StopArrival} (h : t.arrival id = .ok a) :
    (m.table t).arrival id = .ok (m.arrival a) := by
  rw [StopTable.arrival_eq_ok_iff] at h ⊢
  rw [arrivals_table, h, Option.map_some]

theorem front_table {round stop : Nat} {labels : List Label} (h : t.front round stop = .ok labels) :
    (m.table t).front round stop = .ok (labels.map m.label) := by
  unfold StopTable.front at h ⊢
  rw [front?_table]
  cases hl : t.front? round stop with
  | none => simp [hl] at h
  | some found =>
      simp only [hl, Except.ok.injEq] at h
      rw [h]
      rfl

theorem newLabelsAt_table {round stop : Nat} {labels : List Label}
    (h : t.newLabelsAt round stop = .ok labels) :
    (m.table t).newLabelsAt round stop = .ok (labels.map m.label) := by
  unfold StopTable.newLabelsAt at h ⊢
  obtain ⟨all, hall, h⟩ := Fallible.bind_eq_ok.mp h
  rw [Fallible.pure_eq_ok] at h
  refine Fallible.bind_eq_ok.mpr ⟨_, front_table hall, Fallible.pure_eq_ok.mpr ?_⟩
  rw [← h, List.filter_map]
  rfl

theorem chainFrom_table (fuel id : Nat) :
    (m.table t).chainFrom fuel id = (t.chainFrom fuel id).map (List.map m.arrival) := by
  induction fuel generalizing id with
  | zero =>
      unfold StopTable.chainFrom
      rw [arrivals_table]
      cases t.arrivals[id]? <;> rfl
  | succ fuel ih =>
      unfold StopTable.chainFrom
      rw [arrivals_table]
      cases ha : t.arrivals[id]? with
      | none => rfl
      | some a =>
          simp only [Option.map_some, previous_arrival]
          cases a.previous with
          | none => rfl
          | some previous =>
              simp only [ih]
              cases t.chainFrom fuel previous <;> rfl

theorem chain_table (id : Nat) : (m.table t).chain id = (t.chain id).map (List.map m.arrival) := by
  unfold StopTable.chain
  rw [chainFrom_table]
  simp [table]

theorem chainStops_table (id : Nat) : (m.table t).chainStops id = t.chainStops id := by
  unfold StopTable.chainStops
  rw [chain_table]
  cases t.chain id with
  | error e => rfl
  | ok arrivals => simp only [Except.map, bind, Except.bind, List.map_map]; rfl

theorem wants_table (w : Watch) (a : StopArrival) :
    w.wants (m.table t) (m.arrival a) = w.wants t a := by
  have hstops : Watch.stopsTo (m.table t) (m.arrival a) = Watch.stopsTo t a := by
    unfold Watch.stopsTo
    simp only [arrival, chainStops_table]
  simp only [Watch.wants, hstops]
  rfl

end Table

section Merits

variable (h : Heading)

theorem dominates_arrival (compareCost : Bool) (a b : StopArrival) :
    StopArrival.dominates h compareCost (m.arrival a) (m.arrival b)
      = StopArrival.dominates h compareCost a b := by
  simp only [StopArrival.dominates, arrival, Heading.betterOrEqual_add]
  rfl

theorem dominates_merits (policy : DominancePolicy) (a b : Merits) :
    Merits.dominates h policy (m.merits a) (m.merits b) = Merits.dominates h policy a b := by
  simp only [Merits.dominates, merits, Heading.betterOrEqual_add]
  rfl

theorem dominates_journey (policy : DominancePolicy) (d e : DestinationArrival) :
    DestinationArrival.dominates h policy (m.journey d) (m.journey e)
      = DestinationArrival.dominates h policy d e :=
  m.dominates_merits h policy d.merits e.merits

end Merits

end Relabeling

/-- What a search does with a call at a position: the same on both sides. -/
structure Call.Agrees (later : Time) (f f' : TripFilter) (trip trip' : Trip) (position : Nat)
    (c c' : Call) : Prop where
  arrival : c'.arrival = c.arrival + later
  departure : c'.departure = c.departure + later
  pickup : ∀ stop, (c'.pickup.isRoutable && f'.accepts trip' position stop)
    = (c.pickup.isRoutable && f.accepts trip position stop)
  dropOff : ∀ stop, (c'.dropOff.isRoutable && f'.accepts trip' position stop)
    = (c.dropOff.isRoutable && f.accepts trip position stop)

/-- The same trip on the same day, seen through different filters. -/
structure DayTrip.Agrees (later : Time) (f f' : TripFilter) (d d' : DayTrip) : Prop where
  date : d'.date = d.date
  details : d'.trip.details = d.trip.details
  headsigns : ∀ position, d'.trip.headsign? position = d.trip.headsign? position
  calls : ∀ {position : Nat} {c : Call}, d.calls[position]? = some c →
    ∃ c', d'.calls[position]? = some c' ∧ c.Agrees later f f' d.trip d'.trip position c'

theorem DayTrip.Agrees.call {later : Time} {f f' : TripFilter} {d d' : DayTrip}
    (h : d.Agrees later f f' d') {position : Nat} {c : Call} (hc : d.call position = .ok c) :
    ∃ c', d'.call position = .ok c' ∧ c.Agrees later f f' d.trip d'.trip position c' := by
  obtain ⟨c', hc', hagrees⟩ := h.calls (Search.call_eq_ok hc)
  exact ⟨c', by rw [DayTrip.call, hc'], hagrees⟩

/-- The trip caught on both sides. -/
structure Relabeling.SameCatch (m : Relabeling) (pattern : Nat) (c c' : Catchable) : Prop where
  index : c'.index = m.trip pattern c.index
  time : c'.time = c.time + m.later

/-- Views of one pattern with corresponding trips. -/
structure PatternView.Relabels (m : Relabeling) (h : Heading) (f f' : TripFilter)
    (v v' : PatternView) : Prop where
  pattern : v'.pattern = v.pattern
  stops : v'.stops = v.stops
  trips : ∀ {index : Nat} {d : DayTrip}, tripIn? v.days index = some d →
    ∃ d', tripIn? v'.days (m.trip v.pattern index) = some d' ∧ d.Agrees m.later f f' d'
  catches : ∀ {position : Nat} {limit : Time} {found : Option Catchable},
    v.findBoarding h f position limit = .ok found →
    ∃ found', v'.findBoarding h f' position (limit + m.later) = .ok found'
      ∧ Option.Rel (m.SameCatch v.pattern) found found'

/-- Searches that differ in views, filter and times, and these only by labels. -/
structure Search.Relabels (m : Relabeling) (s s' : Search) : Prop where
  shifts : s.heading.Shifts m.later
  alike : ∃ views filter times, s' = { s with views := views, filter := filter, times := times }
  stops : ∀ stop, s'.filter.allowsStop stop = s.filter.allowsStop stop
  times : s'.times = s.times.map (· + m.later)
  views : ∀ {i : Nat} {v : PatternView}, s.viewList[i]? = some v →
    ∃ v', s'.viewList[i]? = some v' ∧ v.Relabels m s.heading s.filter s'.filter v'

/-- What both searches have found so far; their reports are not compared. -/
structure Progress.Relabels (m : Relabeling) (p p' : Progress) : Prop where
  table : p'.table = m.table p.table
  destination : p'.destination = p.destination.map m.journey
  searched : p'.searched = p.searched.map (· + m.later)
  highestRound : p'.highestRound = p.highestRound
  checks : p'.checks = p.checks
  arrivalReports : p'.arrivalReports = p.arrivalReports

namespace Call.Agrees

variable {later : Time} {f f' : TripFilter} {trip trip' : Trip} {position : Nat} {c c' : Call}
  (h : Heading)

theorem boardTime (hc : c.Agrees later f f' trip trip' position c') :
    h.boardTime c' = h.boardTime c + later := by
  unfold Heading.boardTime
  cases h.direction with
  | forward => exact hc.departure
  | reverse => exact hc.arrival

theorem alightTime (hk : h.Shifts later) (hc : c.Agrees later f f' trip trip' position c') :
    h.alightTime c' = h.alightTime c + later := by
  unfold Heading.alightTime
  cases h.direction with
  | forward => exact hc.arrival
  | reverse =>
      dsimp only
      rw [hc.departure, ← hk]
      congr 1
      grind

theorem inVehicle {position₂ : Nat} {c₂ c₂' : Call}
    (hc : c.Agrees later f f' trip trip' position c')
    (hc₂ : c₂.Agrees later f f' trip trip' position₂ c₂') :
    h.inVehicle c' c₂' = h.inVehicle c c₂ := by
  have harrival := hc.arrival
  have hdeparture := hc.departure
  have harrival₂ := hc₂.arrival
  have hdeparture₂ := hc₂.departure
  unfold Heading.inVehicle
  cases h.direction <;> grind

theorem boards (hc : c.Agrees later f f' trip trip' position c') (stop : Nat) :
    ((h.boardRule c').isRoutable && f'.accepts trip' position stop)
      = ((h.boardRule c).isRoutable && f.accepts trip position stop) := by
  unfold Heading.boardRule
  cases h.direction with
  | forward => exact hc.pickup stop
  | reverse => exact hc.dropOff stop

theorem alights (hc : c.Agrees later f f' trip trip' position c') (stop : Nat) :
    ((h.alightRule c').isRoutable && f'.accepts trip' position stop)
      = ((h.alightRule c).isRoutable && f.accepts trip position stop) := by
  unfold Heading.alightRule
  cases h.direction with
  | forward => exact hc.dropOff stop
  | reverse => exact hc.pickup stop

end Call.Agrees

end JourneyPlanner
