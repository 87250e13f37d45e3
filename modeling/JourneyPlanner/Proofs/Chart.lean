import JourneyPlanner.Search.Run

/-!
What a search computes, apart from the ids it gives to arrivals, the faults it
could meet and the work it saves. Instead of ids there are ways; every round goes
along all patterns, and no iteration ends early. That a search computes its chart
is proved where progress is compared with charts.
-/

namespace JourneyPlanner

namespace StopArrival

/-- The arrival without the id of the one before it. -/
def unlinked (a : StopArrival) : StopArrival :=
  { a with previous := none }

end StopArrival

/-- An arrival with those on the way to it, the latest first. -/
structure Way where
  arrival : StopArrival
  earlier : List StopArrival := []
  deriving DecidableEq

namespace Way

def arrivals (w : Way) : List StopArrival :=
  w.arrival :: w.earlier

/-- One arrival further. -/
def extend (w : Way) (a : StopArrival) : Way where
  arrival := a.unlinked
  earlier := w.arrivals

end Way

/-- The arrivals of a way that was followed to the destination, and how it ends. -/
structure Journey where
  arrivals : List StopArrival
  ending : DestinationArrival
  deriving DecidableEq

/-- What the reports of a search say about its decisions. -/
inductive Remark where
  /-- One arrival rejected or dropped another one. -/
  | contest (winner loser : StopArrival)
  /-- A journey was accepted. -/
  | journey (merits : Merits)
  deriving DecidableEq

structure Chart where
  /-- By round, then by stop. -/
  fronts : Nat → Nat → List Way
  /-- Ways accepted in each round of the current iteration. -/
  reached : Nat → List Way
  journeys : List Journey
  iteration : Nat
  log : List Remark

/-- Everything is watched. -/
def Watch.everything : Watch where
  arrivals := true
  paths := true

namespace Search

/-- Whether everything is reported. -/
def isWatchedFully (s : Search) : Bool :=
  s.watch == some { arrivals := true, paths := true }

def viewList (s : Search) : List PatternView :=
  s.views.toList.map Thunk.get

/-- The trip caught at a position after a way to its stop. -/
def caught? (s : Search) (v : PatternView) (round position : Nat) (w : Way) :
    Option (Way × Boarding) :=
  ((s.board v round position ⟨0, w.arrival⟩).toOption.join).map fun b => (w, b)

/-- The arrival on leaving a caught trip at a position, if one may. -/
def left? (s : Search) (v : PatternView) (round position stop iteration : Nat) (b : Boarding) :
    Option StopArrival := do
  let trip ← PatternView.tripIn? v.days b.trip
  let call ← trip.calls[position]?
  let boardCall ← trip.calls[b.position]?
  if (s.heading.alightRule call).isRoutable && s.filter.accepts trip.trip position stop then
    some (s.alightArrival v round position stop iteration b boardCall call)
  else none

end Search

namespace Chart

variable (s : Search) (c : Chart)

def empty : Chart where
  fronts _ _ := []
  reached _ := []
  journeys := []
  iteration := 0
  log := []

def prunes (a : StopArrival) : Bool :=
  s.pruning && decide (0 < a.round)
    && c.journeys.any fun j => Merits.dominates s.heading s.policy j.ending.merits (s.bound a)

/-- The first way that dominates the arrival, of its own round or a lower one. -/
def rival? (a : StopArrival) : Option Way :=
  (List.range (a.round + 1)).findSome? fun round =>
    (c.fronts round a.stop).find? fun w => s.dominates w.arrival a

inductive Fate where
  | pruned
  | rejected (rival : Way)
  | accepted

def fate (a : StopArrival) : Fate :=
  if c.prunes s a then .pruned
  else
    match c.rival? s a with
    | some rival => .rejected rival
    | none => .accepted

def note (remarks : List Remark) : Chart :=
  { c with log := if s.isWatchedFully then c.log ++ remarks else c.log }

/-- Ways of its own round that an arrival drops. -/
def dropped (a : StopArrival) : List Way :=
  (c.fronts a.round a.stop).filter fun v => s.dominates a v.arrival

/-- The front of an arrival after it. -/
def frontAfter (w : Way) : List Way :=
  (c.fronts w.arrival.round w.arrival.stop).filter (fun v => !s.dominates w.arrival v.arrival)
    ++ [w]

def keep (w : Way) : Chart :=
  { c with
    fronts := fun round stop =>
      if w.arrival.round = round ∧ w.arrival.stop = stop then c.frontAfter s w
      else c.fronts round stop
    reached := fun round =>
      if w.arrival.round = round then c.reached round ++ [w] else c.reached round }

/-- Keeps a way and remarks on those it drops. -/
def place (w : Way) : Chart :=
  (c.keep s w).note s ((c.dropped s w.arrival).map fun v => .contest w.arrival v.arrival)

def offer (w : Way) : Chart :=
  match c.fate s w.arrival with
  | .pruned => c
  | .rejected rival => c.note s [.contest rival.arrival w.arrival]
  | .accepted => c.place s w

def beats (i j : Journey) : Bool :=
  DestinationArrival.dominates s.heading s.policy i.ending j.ending

def addJourney (j : Journey) : Chart :=
  match Pareto.add (beats s) c.journeys j with
  | .rejected _ => c
  | .accepted front _ => note s { c with journeys := front } [.journey j.ending.merits]

/-- The journey along a way and a street leg. -/
def journeyAlong (w : Way) (duration : Time) : Journey where
  arrivals := w.arrivals
  ending := s.journeyFrom 0 w.arrival duration

def reach (w : Way) : Chart :=
  (s.targetDurations w.arrival.stop).foldl (fun c d => c.addJourney s (journeyAlong s w d)) c

/-- Offers a way by a trip; if it is accepted, it goes on to the destination. -/
def settle (w : Way) : Chart :=
  match c.fate s w.arrival with
  | .accepted => (c.place s w).reach s w
  | _ => c.offer s w

def begin : Chart :=
  { c with
    reached := fun _ => []
    iteration := c.iteration + 1 }

def seed (time : Time) : Chart :=
  s.origin.foldl (fun c leg => c.offer s ⟨s.originArrival time c.iteration leg, []⟩) c

def alight (v : PatternView) (round position stop : Nat) (b : Way × Search.Boarding) : Chart :=
  match s.left? v round position stop c.iteration b.2 with
  | some a => c.settle s (b.1.extend a)
  | none => c

/-- Ways to a stop that were found in the current iteration. -/
def fresh (round stop : Nat) : List Way :=
  (c.fronts round stop).filter fun w => w.arrival.iteration == c.iteration

def scanStop (v : PatternView) (round : Nat) (state : Chart × List (Way × Search.Boarding))
    (entry : Nat × Nat) : Chart × List (Way × Search.Boarding) :=
  if s.filter.allowsStop entry.1 then
    let c := state.2.foldl (fun c b => c.alight s v round entry.2 entry.1 b) state.1
    (c, state.2 ++ (c.fresh (round - 1) entry.1).filterMap (s.caught? v round entry.2))
  else state

def scan (round : Nat) (v : PatternView) : Chart :=
  ((s.heading.inOrder v.stops.toList).foldl (scanStop s v round) (c, [])).1

def transit (round : Nat) : Chart :=
  s.viewList.foldl (fun c v => c.scan s round v) c

/-- Walks on from a way by a trip that is still in its front. -/
def stroll (w : Way) : Chart :=
  if w ∈ c.fronts w.arrival.round w.arrival.stop ∧ w.arrival.isTransit then
    (s.heading.walks s.timetable w.arrival.stop).foldl
      (fun c k => c.offer s (w.extend (s.walkArrival 0 w.arrival k))) c
  else c

def walk (round : Nat) : Chart :=
  (c.reached round).foldl (fun c w => c.stroll s w) c

def round (n : Nat) : Chart :=
  (c.transit s n).walk s n

/-- The given number of rounds from the given one on. -/
def rounds (count first : Nat) : Chart :=
  (List.range' first count).foldl (fun c n => c.round s n) c

def iterate (time : Time) : Chart :=
  (c.begin.seed s time).rounds s s.maxRounds 1

section Fate

variable {s c} {a : StopArrival} {w : Way}

theorem fate_of_pruned (h : c.prunes s a = true) : c.fate s a = .pruned := by
  rw [fate, if_pos h]

theorem fate_of_rival {rival : Way} (h : c.prunes s a = false) (hr : c.rival? s a = some rival) :
    c.fate s a = .rejected rival := by
  rw [fate, if_neg (by simp [h]), hr]

theorem fate_of_none (h : c.prunes s a = false) (hr : c.rival? s a = none) :
    c.fate s a = .accepted := by
  rw [fate, if_neg (by simp [h]), hr]

theorem prunes_eq_true : c.prunes s a = true ↔ s.pruning = true ∧ 0 < a.round ∧ ∃ j ∈ c.journeys,
    Merits.dominates s.heading s.policy j.ending.merits (s.bound a) = true := by
  simp only [prunes, Bool.and_eq_true, decide_eq_true_eq, List.any_eq_true, and_assoc]

theorem rival?_eq_none : c.rival? s a = none ↔
    ∀ r ≤ a.round, ∀ w ∈ c.fronts r a.stop, s.dominates w.arrival a = false := by
  simp only [rival?, List.findSome?_eq_none_iff, List.mem_range, Nat.lt_succ_iff,
    List.find?_eq_none, Bool.not_eq_true]

theorem of_rival? {rival : Way} (h : c.rival? s a = some rival) :
    ∃ r ≤ a.round, rival ∈ c.fronts r a.stop ∧ s.dominates rival.arrival a = true := by
  obtain ⟨r, hr, hfind⟩ := List.exists_of_findSome?_eq_some h
  exact ⟨r, Nat.lt_succ_iff.mp (List.mem_range.mp hr), List.mem_of_find?_eq_some hfind,
    List.find?_some (p := fun w : Way => s.dominates w.arrival a) hfind⟩

theorem fate_eq_accepted : c.fate s a = .accepted ↔ c.prunes s a = false
    ∧ ∀ r ≤ a.round, ∀ w ∈ c.fronts r a.stop, s.dominates w.arrival a = false := by
  rw [← rival?_eq_none]
  unfold fate
  split
  case isTrue h => simp [h]
  case isFalse h => cases c.rival? s a <;> simp [h]

theorem of_fate_pruned (h : c.fate s a = .pruned) : c.prunes s a = true := by
  unfold fate at h
  split at h
  case isTrue hprunes => exact hprunes
  case isFalse => cases hr : c.rival? s a <;> simp [hr] at h

theorem of_fate_rejected {rival : Way} (h : c.fate s a = .rejected rival) :
    ∃ r ≤ a.round, rival ∈ c.fronts r a.stop ∧ s.dominates rival.arrival a = true := by
  unfold fate at h
  split at h
  case isTrue => simp at h
  case isFalse =>
    cases hr : c.rival? s a with
    | none => simp [hr] at h
    | some found =>
        simp only [hr, Fate.rejected.injEq] at h
        exact h ▸ of_rival? hr

theorem offer_of_pruned (h : c.fate s w.arrival = .pruned) : c.offer s w = c := by
  rw [offer, h]

theorem offer_of_rejected {rival : Way} (h : c.fate s w.arrival = .rejected rival) :
    c.offer s w = c.note s [.contest rival.arrival w.arrival] := by
  rw [offer, h]

theorem offer_of_accepted (h : c.fate s w.arrival = .accepted) :
    c.offer s w = c.place s w := by
  rw [offer, h]

theorem settle_of_accepted (h : c.fate s w.arrival = .accepted) :
    c.settle s w = (c.place s w).reach s w := by
  rw [settle, h]

theorem settle_of_not_accepted (h : c.fate s w.arrival ≠ .accepted) :
    c.settle s w = c.offer s w := by
  cases hf : c.fate s w.arrival with
  | pruned => rw [settle, hf]
  | rejected rival => rw [settle, hf]
  | accepted => exact absurd hf h

end Fate

theorem journeys_addJourney (j : Journey) :
    (c.addJourney s j).journeys = Pareto.insert (beats s) c.journeys j := by
  unfold addJourney Pareto.insert
  cases Pareto.add (beats s) c.journeys j <;> rfl

@[simp] theorem note_nil : c.note s [] = c := by
  unfold note
  split <;> simp

theorem note_note (xs ys : List Remark) : (c.note s xs).note s ys = c.note s (xs ++ ys) := by
  unfold note
  split <;> simp

end Chart

/-- What a search has found when it is complete. -/
def Search.chart (s : Search) : Chart :=
  s.times.foldl (fun c time => c.iterate s time) .empty

end JourneyPlanner
