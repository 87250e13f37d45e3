import JourneyPlanner.Proofs.Iterations
import JourneyPlanner.Proofs.ShownRun

/-!
What ways inherit. A property of street legs that goes over from each way to the rides
and walks from it holds of all that a search finds, and of the ways that its journeys go
along, however far the search has come.
-/

namespace JourneyPlanner

namespace Search

/-- All street legs to a stop are there after a time. -/
def PrecedesStreets (s : Search) (start : Time) (stop : Nat) (time : Time) : Prop :=
  ∀ leg ∈ s.origin, leg.stop = stop →
    s.heading.betterOrEqual (s.heading.advance start leg.duration) time = false

/-- A property of ways, and of when their iterations begin, that goes over to the ways that
go on from them. Rides only count if no street leg keeps them out, as one that is there as
early does if there is nothing but time to compare. -/
structure Inherits (s : Search) (P : Time → Way → Prop) : Prop where
  street : ∀ {start : Time} {leg : StreetLeg} (iteration : Nat), leg ∈ s.origin →
    P start ⟨s.originArrival start iteration leg, []⟩
  ride : ∀ {start : Time} {w : Way} {v : PatternView} {b : Boarding} {position iteration : Nat}
    {a : StopArrival}, P start w → s.Catches v w b → v.stops[position]? = some a.stop →
      s.heading.Precedes b.position position →
      s.left? v (w.arrival.round + 1) position a.stop iteration b = some a →
      (s.policy.cost = false → s.PrecedesStreets start a.stop a.time) → P start (w.extend a)
  walk : ∀ {start : Time} {w : Way} {k : Transfer}, P start w → w.arrival.isTransit = true →
    k ∈ s.heading.walks s.timetable w.arrival.stop → P start (w.extend (s.walkArrival 0 w.arrival k))

/-- A journey along a way with a property. -/
def GoesAlong (s : Search) (P : Time → Way → Prop) (j : Journey) : Prop :=
  ∃ start ∈ s.times, ∃ w duration, P start w ∧ w.arrival.isTransit = true
    ∧ w.arrival.round ≤ s.maxRounds ∧ duration ∈ s.targetDurations w.arrival.stop
    ∧ j = Chart.journeyAlong s w duration

end Search

namespace Chart

/-- The ways that the current iteration has found have a property, and so do those that
journeys go along. -/
structure Bears (s : Search) (P : Time → Way → Prop) (c : Chart) (start : Time) : Prop where
  ways : ∀ {round stop : Nat} {w : Way}, w ∈ c.fronts round stop →
    w.arrival.iteration = c.iteration → P start w
  journeys : ∀ j ∈ c.journeys, s.GoesAlong P j

variable {s : Search} {P : Time → Way → Prop} {times : List Time} {c : Chart} {start : Time}
  {n : Nat} {w : Way}

theorem journeys_offer (c : Chart) (w : Way) : (c.offer s w).journeys = c.journeys := by
  unfold offer
  split <;> rfl

theorem mem_journeys_reach {j : Journey} (h : j ∈ (c.reach s w).journeys) :
    j ∈ c.journeys ∨ ∃ d ∈ s.targetDurations w.arrival.stop, j = journeyAlong s w d := by
  revert h
  refine List.foldlRecOn (s.targetDurations w.arrival.stop) _
    (motive := fun c' : Chart => j ∈ c'.journeys → j ∈ c.journeys
      ∨ ∃ d ∈ s.targetDurations w.arrival.stop, j = journeyAlong s w d) Or.inl ?_
  intro c' hc' d hd h
  rw [journeys_addJourney] at h
  rcases Pareto.mem_of_mem_insert h with rfl | h
  · exact Or.inr ⟨d, hd, rfl⟩
  · exact hc' h

theorem mem_journeys_settle {j : Journey} (h : j ∈ (c.settle s w).journeys) :
    j ∈ c.journeys ∨ (c.fate s w.arrival = .accepted
      ∧ ∃ d ∈ s.targetDurations w.arrival.stop, j = journeyAlong s w d) := by
  by_cases hf : c.fate s w.arrival = .accepted
  · rw [settle_of_accepted hf] at h
    exact (mem_journeys_reach h).imp_right fun hj => ⟨hf, hj⟩
  · rw [settle_of_not_accepted hf, journeys_offer] at h
    exact Or.inl h

/-- An arrival by a trip that is accepted is there before all street legs, unless there
is more to compare than time. -/
theorem precedesStreets_of_accepted (hseeded : Seeded s c start) {a : StopArrival}
    (hf : c.fate s a = .accepted) (hcost : s.policy.cost = false) :
    s.PrecedesStreets start a.stop a.time := by
  intro leg hleg hstop
  rw [← Bool.not_eq_true]
  intro hbetter
  obtain ⟨r, hr, w, hw, hearly⟩ := hseeded leg hleg
  rw [hstop] at hw
  have hbetter := s.heading.betterOrEqual_trans hearly hbetter
  have hdominates : s.dominates w.arrival a = true := by
    simp [Search.dominates, StopArrival.dominates, hbetter, hcost]
  have hopen := (fate_eq_accepted.mp hf).2 r (by omega) w hw
  rw [hdominates] at hopen
  exact Bool.noConfusion hopen

namespace Bears

theorem offer (hc : Bears s P c start) (hw : P start w) : Bears s P (c.offer s w) start where
  ways hv hnow := by
    rw [(agreeBut_offer w).iteration] at hnow
    rcases mem_fronts_offer hv with rfl | hold
    · exact hw
    · exact hc.ways hold hnow
  journeys j hj := hc.journeys j (journeys_offer (s := s) c w ▸ hj)

theorem settle (hc : Bears s P c start) (hstart : start ∈ s.times)
    (hround : w.arrival.round ≤ s.maxRounds) (hride : w.arrival.isTransit = true)
    (hw : c.fate s w.arrival = .accepted → P start w) : Bears s P (c.settle s w) start where
  ways hv hnow := by
    rw [(agreeBut_settle w).iteration] at hnow
    rcases mem_fronts_settle hv with ⟨rfl, hf⟩ | hold
    · exact hw hf
    · exact hc.ways hold hnow
  journeys j hj := by
    rcases mem_journeys_settle hj with hj | ⟨hf, d, hd, rfl⟩
    · exact hc.journeys j hj
    · exact ⟨start, hstart, w, d, hw hf, hride, hround, hd, rfl⟩

theorem seed (hP : s.Inherits P) (h : c.Sound s times) (hc : ∀ j ∈ c.journeys, s.GoesAlong P j) :
    Bears s P (c.begin.seed s start) start := by
  have hbegin : Bears s P c.begin start := by
    refine ⟨fun {round stop w} hw hnow => ?_, hc⟩
    have hpast := h.past hw
    have hnow : w.arrival.iteration = c.iteration + 1 := hnow
    omega
  exact List.foldlRecOn s.origin _ (motive := fun c' => Bears s P c' start) hbegin
    fun c' hc' leg hleg => hc'.offer (hP.street c'.iteration hleg)

/-- Trips lead from ways with the property to ways with it. -/
theorem transit (hP : s.Inherits P) (h : c.Sound s times) (hn : 0 < n) (hround : n ≤ s.maxRounds)
    (hstart : start ∈ s.times) (hseeded : Seeded s c start) (hc : Bears s P c start) :
    Bears s P (c.transit s n) start := by
  have hkept : KeptBySettling s times c n fun c' => Bears s P c' start ∧ Seeded s c' start := by
    intro c' v w b position a hs hagree hc' hrode
    have hfound := hrode.found h hn
    obtain ⟨hmem, hnow⟩ := List.mem_filter.mp hrode.fresh
    have hbefore := hc.ways hmem (beq_iff_eq.mp hnow)
    have hnext : w.arrival.round + 1 = n := by
      rw [(h.placed hmem).1]
      omega
    refine ⟨hc'.1.settle hstart (hfound.round.symm ▸ hround) hfound.ride fun hf => ?_, ?_⟩
    · exact hP.ride hbefore hrode.catches hrode.stop hrode.order (hnext.symm ▸ hrode.left)
        (precedesStreets_of_accepted hc'.2 hf)
    · exact fun leg hleg => (improves_settle c' _).knows (hc'.2 leg hleg)
  exact (keeps_transit hkept h hn ⟨hc, hseeded⟩).2.2.1

/-- Walks lead from ways with the property to ways with it. -/
theorem stroll (hP : s.Inherits P) (hc : Bears s P c start)
    (hnow : w.arrival.iteration = c.iteration) : Bears s P (c.stroll s w) start := by
  unfold Chart.stroll
  split
  case isFalse => exact hc
  case isTrue hcurrent =>
    exact List.foldlRecOn _ _ (motive := fun c' => Bears s P c' start) hc fun c' hc' k hk =>
      hc'.offer (hP.walk (hc.ways hcurrent.1 hnow) hcurrent.2 hk)

theorem walk (hP : s.Inherits P) (h : c.Sound s times) (hc : Bears s P c start) :
    Bears s P (c.walk s n) start := by
  refine (List.foldlRecOn (c.reached n) _
    (motive := fun c' => c'.iteration = c.iteration ∧ Bears s P c' start) ⟨rfl, hc⟩ ?_).2
  intro c' hc' w hw
  have hnow := (h.reached hw).2.2
  exact ⟨(iteration_stroll c' w).trans hc'.1, hc'.2.stroll hP (hnow.trans hc'.1.symm)⟩

theorem rounds (hP : s.Inherits P) (hstart : start ∈ s.times) {count first : Nat} (hfirst : 0 < first)
    (hcount : first + count ≤ s.maxRounds + 1) (h : c.Sound s times) (hseeded : Seeded s c start)
    (hc : Bears s P c start) : Bears s P (c.rounds s count first) start := by
  induction count generalizing c first with
  | zero => exact hc
  | succ count ih =>
      rw [rounds_succ]
      have hround : Bears s P (c.round s first) start :=
        (hc.transit hP h hfirst (by omega) hstart hseeded).walk hP (sound_transit h hfirst).1
      refine ih (Nat.succ_pos first) (by omega) (sound_round h hfirst).1 ?_ hround
      exact fun leg hleg => (improves_round c first).knows (hseeded leg hleg)

end Bears

theorem goesAlong_of_rounds (hP : s.Inherits P) (hstart : start ∈ s.times) {count : Nat}
    (hcount : count ≤ s.maxRounds) (h : c.Sound s s.times) (hc : ∀ j ∈ c.journeys, s.GoesAlong P j) :
    ∀ j ∈ ((c.begin.seed s start).rounds s count 1).journeys, s.GoesAlong P j :=
  ((Bears.seed hP h hc).rounds hP hstart Nat.one_pos (by omega)
    (sound_seed (sound_begin h) hstart).1 (seeded_seed c.begin start)).journeys

end Chart

/-- However far a search has come, its journeys go along ways with what they inherit. -/
theorem Search.goesAlong_of_stage {s : Search} {P : Time → Way → Prop} (hP : s.Inherits P) {c : Chart}
    (hstage : s.IsStage .empty s.times c) {j : Journey} (hj : j ∈ c.journeys) : s.GoesAlong P j := by
  have hkept : c.Sound s s.times ∧ ∀ j ∈ c.journeys, s.GoesAlong P j := by
    refine hstage.keeps (P := fun c => c.Sound s s.times ∧ ∀ j ∈ c.journeys, s.GoesAlong P j)
      ⟨Chart.sound_empty s s.times, by simp [Chart.empty]⟩ fun c time count htime hcount hc => ?_
    exact ⟨Chart.sound_rounds (Chart.sound_seed (Chart.sound_begin hc.1) htime).1 count Nat.one_pos,
      Chart.goesAlong_of_rounds hP htime hcount hc.1 hc.2⟩
  exact hkept.2 j hj

end JourneyPlanner
