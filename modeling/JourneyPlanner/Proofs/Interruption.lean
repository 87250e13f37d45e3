import JourneyPlanner.Proofs.FewerTransfers
import JourneyPlanner.Proofs.Pauses
import JourneyPlanner.Proofs.Undominated

/-!
Answers of searches that were stopped. They list the itineraries of what the search held at
the pause at which it was stopped. Whoever had waited would have got nothing worse, since
journeys that a search retains only give way to journeys that dominate them.
-/

namespace JourneyPlanner

namespace Search

variable {s : Search} {status : SearchStatus} {p last : Progress}

/-- What comes after any stage only improves it. -/
theorem IsStage.improves {c c' : Chart} {times : List Time} (h : s.IsStage c times c') :
    Chart.Improves s c' (times.foldl (fun c time => c.iterate s time) c) := by
  have hafter : ∀ (times : List Time) (c : Chart),
      Chart.Improves s c (times.foldl (fun c time => c.iterate s time) c) := fun _ c =>
    Chart.Improves.foldl (fun c time _ => Chart.improves_iterate c time) c
  obtain ⟨done, rest, rfl, hstage⟩ := h
  rw [List.foldl_append]
  rcases hstage with rfl | ⟨time, rest', rfl, count, hcount, rfl⟩
  · exact hafter rest _
  · -- the rounds that were played are the first ones of the iteration
    obtain ⟨left, hleft⟩ := Nat.exists_eq_add_of_le hcount
    have hrounds : ∀ c : Chart, c.rounds s s.maxRounds 1
        = (c.rounds s count 1).rounds s left (1 + count) := fun c => by
      simp only [Chart.rounds, hleft, ← List.range'_append_1, List.foldl_append]
    rw [List.foldl_cons, Chart.iterate, hrounds]
    exact (Chart.improves_rounds ..).trans (hafter rest' _)

/-- Each journey that a search held when it was stopped is dominated by one that it would
have held in the end. -/
theorem dominated_of_stopped (hs : s.WellFormed) (h : s.run = .ok (status, p))
    (hlast : s.uninterrupted.run = .ok (.complete, last)) {d : DestinationArrival}
    (hd : d ∈ p.destination) :
    ∃ d' ∈ last.destination, DestinationArrival.dominates s.heading s.policy d' d = true := by
  obtain ⟨-, hstage, -⟩ := run_shows hs.indexed h
  obtain ⟨-, -, hchart⟩ := run_shows (s := s.uninterrupted) hs.indexed hlast
  have hnow : (s.shown p).Beats s d.merits :=
    ⟨p.table.journeyOf d, List.mem_map_of_mem hd, Merits.dominates_refl ..⟩
  obtain ⟨j, hj, hdominates⟩ := hstage.improves.beats hnow
  have hj : j ∈ (s.uninterrupted.shown last).journeys := hchart rfl ▸ hj
  obtain ⟨d', hd', rfl⟩ := List.mem_map.mp hj
  exact ⟨d', hd', hdominates⟩

theorem WellFormed.uninterrupted (hs : s.WellFormed) : s.uninterrupted.WellFormed :=
  ⟨hs.indexed, hs.numbered, hs.stops, hs.complete, hs.walks, hs.mirrored, hs.origin, hs.target,
    hs.slack⟩

/-- A search that nobody stops is completed, after some pauses. -/
theorem uninterrupted_succeeds (hs : s.WellFormed) (hviews : s.HasViews) :
    ∃ pauses last, s.uninterrupted.run = .ok (.complete, last)
      ∧ s.uninterrupted.pauses = .ok (pauses, last) := by
  obtain ⟨status, last, hrun, -⟩ := run_succeeds hs.uninterrupted hviews
  obtain rfl := run_of_letsFinish s.letsFinish_uninterrupted hrun
  obtain ⟨pauses, hpauses⟩ := pauses_of_iterations s.letsFinish_uninterrupted hrun
  exact ⟨pauses, last, hrun, hpauses⟩

/-- Who watches a search and who may stop it makes no difference to the itineraries of what it
holds. -/
theorem itineraries_overseen (s : Search) (watch : Option Watch) (supervisor : Supervisor)
    (timeout : Option Nat) :
    { s with watch := watch, supervisor := supervisor, timeout := timeout }.itineraries
      = s.itineraries := by
  have hshared : s.SharesData
      { s with watch := watch, supervisor := supervisor, timeout := timeout } :=
    ⟨rfl, rfl, rfl, rfl, rfl⟩
  have hitinerary :
      { s with watch := watch, supervisor := supervisor, timeout := timeout }.itinerary
        = s.itinerary := by
    funext t d
    simp only [itinerary, legsOf_of_sharesData hshared]
    rfl
  funext p
  simp only [itineraries, hitinerary]

theorem itineraries_uninterrupted (s : Search) : s.uninterrupted.itineraries = s.itineraries :=
  s.itineraries_overseen s.watch {} none

/-- For each itinerary of a stopped search there is one in the end that is as good. -/
theorem itinerary_of_stopped (hs : s.WellFormed) (h : s.run = .ok (status, p))
    (hlast : s.uninterrupted.run = .ok (.complete, last)) {its whole : List Itinerary}
    (hits : s.itineraries p = .ok its) (hwhole : s.uninterrupted.itineraries last = .ok whole)
    {it : Itinerary} (hit : it ∈ its) : ∃ it' ∈ whole, it'.IsAsGoodAs s.policy it := by
  obtain ⟨d, hd, hok⟩ := (mem_itineraries hits).mp hit
  obtain ⟨d', hd', hdominates⟩ := dominated_of_stopped hs h hlast hd
  obtain ⟨it', hok', -⟩ := itinerary_of_run hs.uninterrupted hlast hd'
  have htells : s.Tells it' d'.merits :=
    have hthere := tells_of_run hs.uninterrupted hlast hd' hok'
    ⟨hthere.departure, hthere.arrival, hthere.cost, hthere.rounds, hthere.transfers⟩
  exact ⟨it', (mem_itineraries hwhole).mpr ⟨d', hd', hok'⟩,
    (htells.isAsGoodAs_iff (tells_of_run hs h hd hok)).mpr hdominates⟩

end Search

namespace Router

variable {x : Router} {r : Request} {watch : Option Watch} {supervisor : Supervisor} {s : Search}

/-- If nobody stops it, the search for an accepted request is completed and answered. Whoever
stops it first at one of its pauses is answered with the itineraries of what it holds there,
and the whole answer has one that is as good as each of them. -/
theorem itineraries_of_stopped (hx : x.Deployed) (hsearch : x.search r watch supervisor = .ok s)
    (hfits : r.beyond? s.maxRounds = none) :
    ∃ pauses last whole events, s.uninterrupted.pauses = .ok (pauses, last)
      ∧ s.uninterrupted.run = .ok (.complete, last)
      ∧ answer s.uninterrupted r = .ok (whole, events) ∧ whole.status = .complete
      ∧ (s.stop? pauses = none → x.routeWatched r watch supervisor = .ok (whole, events))
      ∧ ∀ status p, s.stop? pauses = some (status, p) →
        ∃ its events', s.uninterrupted.itineraries p = .ok its
          ∧ x.routeWatched r watch supervisor = .ok (⟨status, its, Search.reportOf r p⟩, events')
          ∧ ∀ it ∈ its, ∃ it' ∈ whole.itineraries, it'.IsAsGoodAs r.policy it := by
  have hs := hx.wellFormed hsearch
  obtain ⟨pauses, last, hlast, hpauses⟩ := Search.uninterrupted_succeeds hs (hx.hasViews hsearch)
  obtain ⟨found, hfound⟩ := Search.itineraries_succeeds hs.uninterrupted hlast
  have hwhole : answer s.uninterrupted r
      = .ok (⟨.complete, found, Search.reportOf r last⟩, last.events.toList) :=
    Fallible.bind_eq_ok.mpr ⟨_, hlast, Fallible.bind_eq_ok.mpr ⟨_, hfound, rfl⟩⟩
  have hrun := Search.run_of_pauses (s.pauses_uninterrupted ▸ hpauses)
  refine ⟨pauses, last, _, _, hpauses, hlast, hwhole, rfl, fun hnone => ?_, fun status p hstop => ?_⟩
  · rw [Search.outcome, hnone] at hrun
    rw [s.itineraries_uninterrupted] at hfound
    exact routeWatched_of_run hsearch hfits hrun hfound
  · rw [Search.outcome, hstop] at hrun
    obtain ⟨its, hits⟩ := Search.itineraries_succeeds hs hrun
    refine ⟨its, _, ?_, routeWatched_of_run hsearch hfits hrun hits, fun it hit => ?_⟩
    · rw [s.itineraries_uninterrupted]
      exact hits
    · exact policy_of_search hsearch ▸ Search.itinerary_of_stopped hs hrun hlast hits hfound hit

end Router

namespace ExpressLine

/-- Only arrives as early as it can. -/
def hurried : Request :=
  { request with policy := .arrivalTimeOnly }

/-- Stops a search at the given check. -/
def stoppedAt (check : Nat) : Supervisor where
  isCancelled checks _ := decide (check ≤ checks)

end ExpressLine

/-- What the first round found gives way to a journey of the second one. -/
theorem Router.expressLine_stopped : ∃ s stopped whole events events',
    ExpressLine.router.search ExpressLine.hurried none (ExpressLine.stoppedAt 2) = .ok s
      ∧ ExpressLine.hurried.beyond? s.maxRounds = none
      ∧ ExpressLine.router.routeWatched ExpressLine.hurried none (ExpressLine.stoppedAt 2)
        = .ok (stopped, events)
      ∧ answer s.uninterrupted ExpressLine.hurried = .ok (whole, events')
      ∧ stopped.itineraries.map (·.arrivalTime) = [900]
      ∧ whole.itineraries.map (·.arrivalTime) = [500]
      ∧ ∀ it ∈ stopped.itineraries, ∃ it' ∈ whole.itineraries,
        it'.IsAsGoodAs ExpressLine.hurried.policy it := by
  have hstopped : (ExpressLine.router.routeWatched ExpressLine.hurried none
      (ExpressLine.stoppedAt 2)).toOption.any
        (fun a => decide (a.1.itineraries.map (·.arrivalTime) = [900])) = true := by
    decide +kernel
  have hsearched : (ExpressLine.router.search ExpressLine.hurried none
      (ExpressLine.stoppedAt 2)).toOption.any (fun s =>
        (answer s.uninterrupted ExpressLine.hurried).toOption.any
          fun a => decide (a.1.itineraries.map (·.arrivalTime) = [500])) = true := by
    decide +kernel
  obtain ⟨⟨stopped, events⟩, hroute, hfacts⟩ := Fallible.any_toOption.mp hstopped
  obtain ⟨s, hsearch, hanswered⟩ := Fallible.any_toOption.mp hsearched
  obtain ⟨⟨whole, events'⟩, hanswer, hfacts'⟩ := Fallible.any_toOption.mp hanswered
  have harrivals := of_decide_eq_true hfacts
  have harrivals' := of_decide_eq_true hfacts'
  have hfits := beyond?_of_answer hsearch hroute
  refine ⟨s, stopped, whole, events, events', hsearch, hfits, hroute, hanswer, harrivals,
    harrivals', ?_⟩
  obtain ⟨pauses, last, whole', events'', -, -, hwhole, -, hnever, hthen⟩ :=
    itineraries_of_stopped ExpressLine.router_deployed hsearch hfits
  obtain ⟨rfl, rfl⟩ := Prod.mk.inj (Except.ok.inj (hanswer.symm.trans hwhole))
  cases hstop : s.stop? pauses with
  | none =>
      obtain ⟨rfl, rfl⟩ := Prod.mk.inj (Except.ok.inj (hroute.symm.trans (hnever hstop)))
      simp [harrivals] at harrivals'
  | some stop =>
      obtain ⟨its, events'', -, hanswer', hgood⟩ := hthen stop.1 stop.2 hstop
      obtain ⟨rfl, rfl⟩ := Prod.mk.inj (Except.ok.inj (hroute.symm.trans hanswer'))
      exact hgood

end JourneyPlanner
