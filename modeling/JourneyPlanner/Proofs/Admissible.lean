import Mathlib.Logic.Relation
import JourneyPlanner.Proofs.EarliestArrival
import JourneyPlanner.Proofs.Fairness

/-!
What can still come of an arrival. From one ride or walk to the next nothing that
journeys are compared on gets better, so the bound on an arrival holds for every journey
along it, however far it goes on. Sums of times have to fit for that, and then the ways of a
search are those with exact sums.
-/

namespace JourneyPlanner

namespace Way

/-- A trip is caught after a way and left further on, or a way by a trip is followed by
a walk, no matter what the search keeps of it. -/
inductive GoesOn (s : Search) : Way → Way → Prop where
  | ride {w : Way} {v : PatternView} {b : Search.Boarding} {position stop iteration : Nat}
      {a : StopArrival} (hb : s.Catches v w b) (hstop : v.stops[position]? = some stop)
      (horder : s.heading.Precedes b.position position)
      (hleft : s.left? v (w.arrival.round + 1) position stop iteration b = some a) :
      GoesOn s w (w.extend a)
  | walk {w : Way} {k : Transfer} (hride : w.arrival.isTransit = true)
      (hk : k ∈ s.heading.walks s.timetable w.arrival.stop) :
      GoesOn s w (w.extend (s.walkArrival 0 w.arrival k))

variable {s : Search} {times : List Time} {w w' : Way}

/-- A way goes on with the trip that is caught after it. -/
theorem GoesOn.of_caught {v : PatternView} {i j stop iteration : Nat} {e : Way × Search.Boarding}
    {a : StopArrival} (hv : v ∈ s.viewList) (hi : v.stops[i]? = some w.arrival.stop)
    (hj : v.stops[j]? = some stop) (horder : s.heading.Precedes i j)
    (hcaught : s.caught? v (w.arrival.round + 1) i w = some e)
    (hleft : s.left? v (w.arrival.round + 1) j stop iteration e.2 = some a) :
    w.GoesOn s (w.extend a) := by
  obtain ⟨w', b⟩ := e
  obtain rfl : w' = w := Search.caught?_way hcaught
  obtain rfl := Search.caught?_position hcaught
  exact .ride ⟨hv, hi, hcaught⟩ hj horder hleft

theorem Traced.goesOn (hw : w.Traced s times) (h : w.GoesOn s w') : w'.Traced s times := by
  cases h with
  | ride hb hstop horder hleft => exact .ride hw hb hstop horder hleft
  | walk hride hk => exact .walk hw hride hk

/-- After the first ride nothing gets better in one step. -/
theorem Traced.onward (hs : s.WellTimed) (hw : w.Traced s times) (hround : 0 < w.arrival.round)
    (h : w.GoesOn s w') : s.Onward w.arrival w'.arrival := by
  cases h with
  | ride hb hstop horder hleft =>
      have ha := hw.onward_ride hs hround hb hstop horder hleft
      exact ⟨ha.originTime, ha.time, ha.round, ha.cost⟩
  | walk hride hk =>
      have ha := hw.onward_walk hs hk
      exact ⟨ha.originTime, ha.time, ha.round, ha.cost⟩

end Way

namespace Search

variable {s : Search} {a b c : StopArrival} {w w' : Way} {times : List Time}

theorem Onward.refl (s : Search) (a : StopArrival) : s.Onward a a :=
  ⟨rfl, s.heading.betterOrEqual_refl a.time, Nat.le_refl _, Nat.le_refl _⟩

theorem Onward.trans (hab : s.Onward a b) (hbc : s.Onward b c) : s.Onward a c where
  originTime := hbc.originTime.trans hab.originTime
  time := s.heading.betterOrEqual_trans hab.time hbc.time
  round := Nat.le_trans hab.round hbc.round
  cost := Nat.le_trans hab.cost hbc.cost

/-- Nor in any number of steps. -/
theorem onward_of_goesOn (hs : s.WellTimed) (hw : w.Traced s times) (hround : 0 < w.arrival.round)
    (h : Relation.ReflTransGen (Way.GoesOn s) w w') :
    w'.Traced s times ∧ s.Onward w.arrival w'.arrival := by
  induction h with
  | refl => exact ⟨hw, .refl s w.arrival⟩
  | @tail v v' hchain hstep ih =>
      obtain ⟨hv, honward⟩ := ih
      have hpos := Nat.lt_of_lt_of_le hround honward.round
      exact ⟨hv.goesOn hstep, honward.trans (hv.onward hs hpos hstep)⟩

/-- Every journey along what comes of an arrival stays within the bound on it. -/
theorem Onward.bound_journeyFrom (hx : s.heading.IsExact) (h : s.Onward a b) (id : Nat)
    {duration : Time} (hd : duration ∈ s.targetDurations b.stop) :
    Merits.dominates s.heading s.policy (s.bound a) (s.journeyFrom id b duration).merits = true :=
  Merits.dominates_trans (h.bound hx) (Search.bound_journeyFrom hx hd)

end Search

namespace Search

section Exact

variable {s : Search} {searchDate : Date} (hs : s.WellFormed) (hfits : s.Fits searchDate)

include hs hfits

/-- A step from an arrival that stems from times of the search is a step with exact sums. -/
theorem goesOn_exact {w w' : Way} (hw : s.Stems w.arrival) (h : w.GoesOn s w') :
    w.GoesOn s.exact w' ∧ s.Stems w'.arrival := by
  cases h with
  | @ride v b position stop iteration a hb hstop horder hleft =>
      have hcaught := hb.caught
      unfold caught? at hcaught
      rw [board_exact (l := ⟨0, w.arrival⟩) hs hfits hb.view (Nat.succ_pos _) hw rfl] at hcaught
      obtain ⟨d, call, boardCall, hd, hcall, hboard, hrule, haccepts, rfl⟩ := left?_eq_some hleft
      obtain ⟨hsame, hstems⟩ :
          s.alightArrival v (w.arrival.round + 1) position stop iteration b boardCall call
              = s.exact.alightArrival v (w.arrival.round + 1) position stop iteration b boardCall call
            ∧ s.Stems
              (s.alightArrival v (w.arrival.round + 1) position stop iteration b boardCall call) :=
        alightArrival_exact hs hfits hb.view hd hboard hcall
      have hleft' : s.exact.left? v (w.arrival.round + 1) position stop iteration b
          = some (s.alightArrival v (w.arrival.round + 1) position stop iteration b boardCall call) := by
        have hrule' : (s.exact.heading.alightRule call).isRoutable = true := hrule
        have haccepts' : s.exact.filter.accepts d.trip position stop = true := haccepts
        simp only [left?, hd, hcall, hboard, hrule', haccepts', hsame, Option.bind_eq_bind,
          Option.bind_some, Bool.and_self, if_true]
      exact ⟨.ride ⟨hb.view, hb.stop, hcaught⟩ hstop horder hleft', hstems.near, hstems.street⟩
  | @walk k hride hk =>
      obtain ⟨hsame, hstems⟩ := walkArrival_exact hs hfits hw hride 0 hk
      have hwalk := Way.GoesOn.walk (s := s.exact) hride hk
      rw [← hsame] at hwalk
      exact ⟨hwalk, hstems.near, hstems.street⟩

/-- So are all ways that begin at an iteration time. -/
theorem traced_exact {w : Way} (hw : w.Traced s s.times) :
    w.Traced s.exact s.times ∧ s.Stems w.arrival := by
  have hstep : ∀ {w w' : Way}, w.Traced s.exact s.times ∧ s.Stems w.arrival → w.GoesOn s w' →
      w'.Traced s.exact s.times ∧ s.Stems w'.arrival := by
    rintro w w' ⟨hw, hstems⟩ h
    obtain ⟨h, hstems'⟩ := goesOn_exact hs hfits hstems h
    exact ⟨hw.goesOn h, hstems'⟩
  induction hw with
  | begin iteration hleg htime =>
      obtain ⟨hsame, hstems⟩ := originArrival_exact hs hfits htime hleg iteration
      rw [hsame]
      exact ⟨.begin iteration hleg htime, hsame ▸ hstems⟩
  | ride _ hb hstop horder hleft ih => exact hstep ih (.ride hb hstop horder hleft)
  | walk _ hride hk ih => exact hstep ih (.walk hride hk)

theorem waysOn_exact {w w' : Way} (hw : s.Stems w.arrival)
    (h : Relation.ReflTransGen (Way.GoesOn s) w w') :
    Relation.ReflTransGen (Way.GoesOn s.exact) w w' ∧ s.Stems w'.arrival := by
  induction h with
  | refl => exact ⟨.refl, hw⟩
  | tail _ hstep ih =>
      obtain ⟨hway, hstems⟩ := ih
      obtain ⟨hstep, hstems'⟩ := goesOn_exact hs hfits hstems hstep
      exact ⟨hway.tail hstep, hstems'⟩

end Exact

/-- What is no better with exact sums is no better. -/
theorem Onward.of_exact {s : Search} {a b : StopArrival} (h : s.exact.Onward a b) : s.Onward a b :=
  ⟨h.originTime, h.time, h.round, h.cost⟩

end Search

/-- What prunes an arrival is known already and at least as good as the bound on it. -/
theorem DestinationArrival.of_pruning? {h : Heading} {p : DominancePolicy}
    {front : List DestinationArrival} {bound : Merits} {d : DestinationArrival}
    (hd : pruning? h p front bound = some d) :
    d ∈ front ∧ Merits.dominates h p d.merits bound = true :=
  ⟨List.mem_of_find?_eq_some hd,
    List.find?_some (p := fun d : DestinationArrival => Merits.dominates h p d.merits bound) hd⟩

namespace Router

variable {x : Router} {r : Request} {watch : Option Watch} {supervisor : Supervisor} {s : Search}

end Router

namespace FeederLine

/-- To the stop where one leaves the first line or to the end of the second one. -/
def nearby : Request :=
  { request with egress := [⟨1, 0⟩, ⟨3, 0⟩] }

/-- The street leg to the first stop, when the trip at 120 is still to come. -/
def departing (s : Search) : Way :=
  ⟨s.originArrival 120 1 ⟨0, 0⟩, []⟩

end FeederLine

namespace LongLeg

open ThreeLines (day line)

/-- One of two lines arrives in the last second that 32 bits tell apart. -/
def router : Router where
  timetable := (Builder.ofTrips ["A", "B", "C"] "W" [day]
    [line "v" "a" [("A", 28900), ("C", 40000)],
      line "u" "b" [("A", 28800), ("B", greatestTime)]]).timetable (by decide +kernel)

theorem router_deployed : router.Deployed :=
  Router.deployed_of_assembled (Builder.assembled_ofTrips ..) _ {}

/-- From its last stop the way is longer than from that of the other line. -/
def request : Request where
  date := day
  time := 28800
  searchWindow := some 60
  access := [⟨0, 0⟩]
  egress := [⟨1, 60⟩, ⟨2, 0⟩]

/-- The street leg to the first stop. -/
def departing (s : Search) : Way :=
  ⟨s.originArrival 28800 0 ⟨0, 0⟩, []⟩

end LongLeg

end JourneyPlanner
