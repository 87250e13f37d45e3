import JourneyPlanner.Proofs.Coverage
import JourneyPlanner.Proofs.Inheritance

/-!
A search, and another one with the same trips and street legs where one can walk at least
as far. Whatever the first one finds a traveller can attain in the second, also one who
leaves later than its iteration began, as long as the first trip is caught. So where the
first one finds a journey the second one finds one too, if it covers what can be attained
there.
-/

namespace JourneyPlanner

namespace Heading

theorem boardLimit_originTime {h : Heading} (hx : h.IsExact) (boardTime duration : Time) :
    h.boardLimit (h.advance (h.originTime boardTime duration) duration) = boardTime := by
  unfold boardLimit advance originTime
  cases h.direction <;> simp only [hx.keep] <;> grind

end Heading

namespace Search

/-- The same trips can be caught from the same street legs in the second search, and for
each walk of the first one it has one that takes no longer. -/
structure Widens (s s' : Search) : Prop where
  heading : s'.heading = s.heading
  filter : s'.filter = s.filter
  views : s'.viewList = s.viewList
  origin : s'.origin = s.origin
  target : s'.target = s.target
  walks : ∀ {stop : Nat} {k : Transfer}, k ∈ s.heading.walks s.timetable stop →
    ∃ k' ∈ s'.heading.walks s'.timetable stop, k'.target = k.target ∧ k'.duration ≤ k.duration

/-- A search that differs in its walks only; for each of them the other one has one
that takes no longer. -/
structure WalksFurther (s s' : Search) : Prop where
  heading : s'.heading = s.heading
  filter : s'.filter = s.filter
  views : s'.viewList = s.viewList
  origin : s'.origin = s.origin
  target : s'.target = s.target
  times : s'.times = s.times
  maxRounds : s'.maxRounds = s.maxRounds
  walks : ∀ {stop : Nat} {k : Transfer}, k ∈ s.heading.walks s.timetable stop →
    ∃ k' ∈ s'.heading.walks s'.timetable stop, k'.target = k.target ∧ k'.duration ≤ k.duration

/-- A traveller can attain a stop from where the destination can be reached. -/
def CanArrive (s : Search) : Prop :=
  ∃ start ∈ s.times, ∃ rides ≤ s.maxRounds, ∃ stop time,
    s.Attains start true rides stop time ∧ s.targetDurations stop ≠ []

/-- What a way leads to is attained in another search by whoever leaves no earlier than
the iteration of the way begins, and no later than the way leaves. -/
structure AttainedIn (s s' : Search) (start : Time) (w : Way) : Prop where
  leaves : s.heading.betterOrEqual start w.arrival.originTime = true
  street : ∀ {duration : Time}, w.arrival.kind = .access duration → w.arrival.round = 0
    ∧ w.arrival.time = s.heading.advance start duration
    ∧ ∃ leg ∈ s.origin, leg.stop = w.arrival.stop ∧ leg.duration = duration
  attains : ∀ {time : Time}, s.heading.betterOrEqual start time = true →
    s.heading.betterOrEqual time w.arrival.originTime = true →
      s'.Attains time w.arrival.isTransit w.arrival.round w.arrival.stop w.arrival.time

variable {s s' : Search} {start : Time} {w : Way}

theorem WalksFurther.widens (h : s.WalksFurther s') : s.Widens s' :=
  ⟨h.heading, h.filter, h.views, h.origin, h.target, h.walks⟩

namespace Widens

theorem goes (h : s.Widens s') {v : PatternView} {d : DayTrip} {i stop j stop' : Nat}
    {boardCall call : Call} (hgo : s.Goes v d i stop j stop' boardCall call) :
    s'.Goes v d i stop j stop' boardCall call := by
  obtain ⟨⟨hview, htrip, hstands, hcatch⟩, horder, hleaves, hleave⟩ := hgo
  refine ⟨⟨h.views.symm ▸ hview, htrip, hstands, ?_⟩, ?_, hleaves, ?_⟩
  · rw [h.heading, h.filter]
    exact hcatch
  · rw [h.heading]
    exact horder
  · rw [h.heading, h.filter]
    exact hleave

theorem targetDurations (h : s.Widens s') (stop : Nat) :
    s'.targetDurations stop = s.targetDurations stop := by
  rw [Search.targetDurations, Search.targetDurations, h.target]

/-- Who leaves later is not there before the street legs either. -/
theorem unshadowed (hx : s.heading.IsExact) (h : s.Widens s')
    (hstreets : s.policy.cost = true → s'.StreetsClosed) {stop : Nat} {time arrival : Time}
    (hclear : s.policy.cost = false → s.PrecedesStreets start stop arrival)
    (hlater : s.heading.betterOrEqual start time = true) :
    s'.IsUnshadowed time stop arrival := by
  cases hcost : s.policy.cost with
  | true => exact Or.inl (hstreets hcost)
  | false =>
      refine Or.inr fun leg hleg hstop => ?_
      rw [h.origin] at hleg
      rw [h.heading, ← Bool.not_eq_true]
      intro hbetter
      have hearly := Heading.advance_better hx hlater (Int.le_refl leg.duration)
      have hlate := hclear hcost leg hleg hstop
      rw [s.heading.betterOrEqual_trans hearly hbetter] at hlate
      exact Bool.noConfusion hlate

end Widens

namespace AttainedIn

/-- Whoever leaves in time attains the stop where the next trip is caught, in time for it. -/
theorem boards (hx : s.heading.IsExact) (hmore : s.Widens s') (hw : s.AttainedIn s' start w)
    {boardTime : Time} (hlimit : s.heading.betterOrEqual (s.heading.boardLimit w.arrival.time) boardTime = true) :
    s.heading.betterOrEqual start (s.originTimeOf w.arrival boardTime) = true
      ∧ ∀ {time : Time}, s.heading.betterOrEqual start time = true →
        s.heading.betterOrEqual time (s.originTimeOf w.arrival boardTime) = true →
          ∃ arrival, s'.Attains time w.arrival.isTransit w.arrival.round w.arrival.stop arrival
            ∧ s.heading.betterOrEqual (s.heading.boardLimit arrival) boardTime = true := by
  have hcaught : ∀ {time : Time}, s.heading.betterOrEqual start time = true →
      s.heading.betterOrEqual time w.arrival.originTime = true →
        ∃ arrival, s'.Attains time w.arrival.isTransit w.arrival.round w.arrival.stop arrival
          ∧ s.heading.betterOrEqual (s.heading.boardLimit arrival) boardTime = true :=
    fun hlater hleaves => ⟨w.arrival.time, hw.attains hlater hleaves, hlimit⟩
  unfold originTimeOf
  cases hkind : w.arrival.kind with
  | access duration =>
      obtain ⟨hround, htime, leg, hleg, hstop, rfl⟩ := hw.street hkind
      have hwalked : w.arrival.isTransit = false := by simp [StopArrival.isTransit, hkind]
      rw [htime] at hlimit
      refine ⟨Heading.originTime_better hx hlimit, fun {time} _ hleaves => ?_⟩
      -- the street leg is taken just in time for the trip
      have hstreet : s'.Attains time false 0 leg.stop (s'.heading.advance
          (s.heading.originTime boardTime leg.duration) leg.duration) :=
        .street (hmore.origin.symm ▸ hleg) (hmore.heading.symm ▸ hleaves)
      rw [hmore.heading] at hstreet
      rw [hwalked, hround, ← hstop]
      refine ⟨_, hstreet, ?_⟩
      rw [Heading.boardLimit_originTime hx]
      exact s.heading.betterOrEqual_refl _
  | transit pattern trip boardPosition position => exact ⟨hw.leaves, hcaught⟩
  | transfer fromStop duration => exact ⟨hw.leaves, hcaught⟩

end AttainedIn

/-- Attained is what street legs, rides and walks lead to. -/
theorem inherits_attainedIn (hx : s.heading.IsExact) (hmore : s.Widens s')
    (hstreets : s.policy.cost = true → s'.StreetsClosed) : s.Inherits (s.AttainedIn s') where
  street {start leg} iteration hleg := by
    refine ⟨s.heading.betterOrEqual_refl _, fun {duration} hkind => ?_, fun {time} _ hleaves => ?_⟩
    · obtain rfl : leg.duration = duration := ArrivalKind.access.inj hkind
      exact ⟨rfl, rfl, leg, hleg, rfl, rfl⟩
    · have hstreet : s'.Attains time false 0 leg.stop (s'.heading.advance start leg.duration) :=
        .street (hmore.origin.symm ▸ hleg) (hmore.heading.symm ▸ hleaves)
      rw [hmore.heading] at hstreet
      exact hstreet
  ride {start w v b position iteration a} hw hb hstop horder hleft hclear := by
    obtain ⟨d, boardCall, call, hr⟩ := rides_of_left? hb hleft
    obtain ⟨hround, -, -, hride⟩ := left?_round hleft
    obtain ⟨hleaves, hboards⟩ := hw.boards hx hmore hr.inTime
    rw [← hr.originTime] at hleaves hboards
    refine ⟨hleaves, fun {duration} hkind => ?_, fun {time} hlater hleaves => ?_⟩
    · simp [Way.extend, StopArrival.unlinked, hr.kind] at hkind
    · obtain ⟨arrival, hattains, hlimit⟩ := hboards hlater hleaves
      have hunshadowed := hmore.unshadowed hx hstreets hclear hlater
      change s'.Attains time a.isTransit a.round a.stop a.time
      rw [hride, hround]
      rw [hr.time, ← hmore.heading] at hunshadowed ⊢
      rw [← hmore.heading] at hlimit
      exact .ride hattains (hmore.goes (hr.goes hb hstop horder)) hlimit hunshadowed
  walk {start w k} hw hride hk := by
    refine ⟨hw.leaves, fun {duration} hkind => ?_, fun {time} hlater hleaves => ?_⟩
    · simp [Way.extend, StopArrival.unlinked, walkArrival] at hkind
    · have hbefore := hw.attains hlater hleaves
      rw [hride] at hbefore
      obtain ⟨k', hk', htarget, hduration⟩ := hmore.walks hk
      have htime : s'.heading.betterOrEqual (s'.heading.advance w.arrival.time k'.duration)
          (s.heading.advance w.arrival.time k.duration) = true := by
        rw [hmore.heading]
        exact Heading.advance_better hx (s.heading.betterOrEqual_refl _) hduration
      have hwalk := Attains.walk hbefore hk' htime
      rw [htarget] at hwalk
      exact hwalk

end Search

namespace Chart

variable {s s' : Search}

/-- If a search finds a journey, a traveller can arrive where one can walk further. -/
theorem canArrive_of_journeys (hx : s.heading.IsExact) (hmore : s.WalksFurther s')
    (hstreets : s.policy.cost = true → s'.StreetsClosed) (hj : s.chart.journeys ≠ []) :
    s'.CanArrive := by
  obtain ⟨j, hj⟩ := List.exists_mem_of_ne_nil _ hj
  have hstage : s.IsStage .empty s.times s.chart :=
    ⟨s.times, [], (List.append_nil _).symm, Or.inl rfl⟩
  obtain ⟨start, hstart, w, d, hw, hride, hround, hd, -⟩ :=
    Search.goesAlong_of_stage (Search.inherits_attainedIn hx hmore.widens hstreets) hstage hj
  have hattains := hw.attains (s.heading.betterOrEqual_refl start) hw.leaves
  rw [hride] at hattains
  refine ⟨start, hmore.times.symm ▸ hstart, w.arrival.round, hmore.maxRounds.symm ▸ hround, _, _,
    hattains, ?_⟩
  rw [hmore.widens.targetDurations]
  exact List.ne_nil_of_mem hd

theorem journeys_of_canArrive (hs : s.WellTimed) (ho : s.IsOrderly) (hclosed : s.WalksClosed)
    (hsorted : s.times.Pairwise fun a b => s.heading.betterOrEqual b a = true) (h : s.CanArrive) :
    s.chart.journeys ≠ [] := by
  obtain ⟨start, hstart, rides, hrides, stop, time, hattains, hend⟩ := h
  obtain ⟨d, hd⟩ := List.exists_mem_of_ne_nil _ hend
  obtain ⟨past, c, hexhausts, himproves⟩ := exhausts_of_mem hs ho hclosed hsorted hstart
  obtain ⟨j, hj, -⟩ := himproves.serves (serves_of_attains hs hexhausts hattains hrides hd)
  exact List.ne_nil_of_mem hj

end Chart
end JourneyPlanner
