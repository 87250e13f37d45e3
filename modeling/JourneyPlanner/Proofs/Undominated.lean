import JourneyPlanner.Proofs.Agreement
import JourneyPlanner.Proofs.Listing

/-!
Which itineraries an answer lists, and in which order. Journeys form a front during the
whole search, so no itinerary of an answer is as good as another one on everything that
the policy compares, wherever the search was stopped.
-/

namespace JourneyPlanner

/-- At least as good on the times and on all that the policy compares. -/
structure Itinerary.IsAsGoodAs (p : DominancePolicy) (a b : Itinerary) : Prop where
  departure : b.departureTime ≤ a.departureTime
  arrival : a.arrivalTime ≤ b.arrivalTime
  transfers : p.transfers = true → a.transfers ≤ b.transfers
  cost : p.cost = true → a.generalizedCost ≤ b.generalizedCost

instance (p : DominancePolicy) (a b : Itinerary) : Decidable (a.IsAsGoodAs p b) :=
  decidable_of_iff (b.departureTime ≤ a.departureTime ∧ a.arrivalTime ≤ b.arrivalTime
      ∧ (p.transfers = true → a.transfers ≤ b.transfers)
      ∧ (p.cost = true → a.generalizedCost ≤ b.generalizedCost))
    ⟨fun h => ⟨h.1, h.2.1, h.2.2.1, h.2.2.2⟩,
      fun h => ⟨h.departure, h.arrival, h.transfers, h.cost⟩⟩

namespace Search

variable {s : Search} {status : SearchStatus} {p : Progress}

/-- Up to wherever a search stops, its chart has only improved. -/
theorem improves_of_stage {c : Chart} (h : s.IsStage .empty s.times c) :
    Chart.Improves s .empty c :=
  h.keeps (.refl s .empty) fun c time count _ _ hc => hc.trans ((Chart.improves_begin c).trans
    ((Chart.improves_seed _ time).trans (Chart.improves_rounds _ count 1)))

/-- No journey that a search retained dominates another one. -/
theorem front_of_run (hs : s.WellFormed) (h : s.run = .ok (status, p)) :
    Pareto.IsFront (DestinationArrival.dominates s.heading s.policy) p.destination := by
  obtain ⟨-, hstage, -⟩ := run_shows hs.indexed h
  exact List.pairwise_map.mp ((improves_of_stage hstage).front .nil)

/-- What an itinerary tells of the merits of a journey. -/
structure Tells (s : Search) (it : Itinerary) (m : Merits) : Prop where
  departure : it.departureTime = s.departure m
  arrival : it.arrivalTime = s.arrival m
  cost : it.generalizedCost = m.cost
  rounds : 0 < m.rounds
  transfers : it.transfers = m.rounds - 1

theorem tells_of_run (hs : s.WellFormed) (h : s.run = .ok (status, p)) {d : DestinationArrival}
    (hd : d ∈ p.destination) {it : Itinerary} (hit : s.itinerary p.table d = .ok it) :
    s.Tells it d.merits := by
  obtain ⟨found, hfound, -, hdeparture, harrival⟩ := itinerary_of_run hs h hd
  obtain rfl := Except.ok.inj (hfound.symm.trans hit)
  obtain ⟨hcost, hrounds, htransfers⟩ := cost_of_run hs h hd hit
  exact ⟨hdeparture, harrival, hcost, hrounds, htransfers⟩

/-- Itineraries compare as the journeys do that they are of. -/
theorem Tells.isAsGoodAs_iff {it it' : Itinerary} {m m' : Merits} (h : s.Tells it m)
    (h' : s.Tells it' m') :
    it.IsAsGoodAs s.policy it' ↔ Merits.dominates s.heading s.policy m m' = true := by
  have hrounds : it.transfers ≤ it'.transfers ↔ m.rounds ≤ m'.rounds := by
    have hpos := h.rounds
    have hpos' := h'.rounds
    rw [h.transfers, h'.transfers]
    omega
  have htimes : (it'.departureTime ≤ it.departureTime ∧ it.arrivalTime ≤ it'.arrivalTime) ↔
      s.heading.betterOrEqual m'.originTime m.originTime = true
        ∧ s.heading.betterOrEqual m.time m'.time = true := by
    rw [h.departure, h.arrival, h'.departure, h'.arrival]
    unfold Heading.betterOrEqual Search.departure Search.arrival
    cases s.heading.direction <;> simp [and_comm]
  simp only [Merits.dominates, Bool.and_eq_true, Bool.or_eq_true, Bool.not_eq_true',
    decide_eq_true_eq, ← Bool.not_eq_true, ← Decidable.imp_iff_not_or, ← htimes, ← hrounds,
    ← h.cost, ← h'.cost]
  constructor
  · intro hgood
    exact ⟨⟨⟨hgood.departure, hgood.arrival⟩, hgood.transfers⟩, hgood.cost⟩
  · rintro ⟨⟨⟨hdeparture, harrival⟩, htransfers⟩, hcost⟩
    exact ⟨hdeparture, harrival, htransfers, hcost⟩

theorem dominates_of_isAsGoodAs (hs : s.WellFormed) (h : s.run = .ok (status, p))
    {d d' : DestinationArrival} (hd : d ∈ p.destination) (hd' : d' ∈ p.destination)
    {it it' : Itinerary} (hit : s.itinerary p.table d = .ok it)
    (hit' : s.itinerary p.table d' = .ok it') (hgood : it.IsAsGoodAs s.policy it') :
    DestinationArrival.dominates s.heading s.policy d d' = true :=
  ((tells_of_run hs h hd hit).isAsGoodAs_iff (tells_of_run hs h hd' hit')).mp hgood

end Search

namespace Router

variable {x : Router} {r : Request} {watch : Option Watch} {supervisor : Supervisor}

/-- Wherever a search ends, no itinerary of its answer is as good as one at another place
of the list, and none is listed after one with greater numbers. -/
theorem itineraries_undominated (hx : x.Deployed) {response : Response} {events : List Event}
    (h : x.routeWatched r watch supervisor = .ok (response, events)) :
    (∀ (i j : Nat) (a b : Itinerary), response.itineraries[i]? = some a →
        response.itineraries[j]? = some b → i ≠ j → ¬ a.IsAsGoodAs r.policy b)
      ∧ response.itineraries.Pairwise fun a b =>
        ¬ Ranking.keys r.direction r.policy b < Ranking.keys r.direction r.policy a := by
  obtain ⟨s, status, p, its, hsearch, hrun, hits, rfl, -⟩ := routeWatched_eq_ok h
  have hs := hx.wellFormed hsearch
  have hpolicy := policy_of_search hsearch
  obtain ⟨found, hfound, rfl⟩ := Search.itineraries_eq_ok hits
  rw [direction_of_search hsearch, hpolicy]
  have hapart : found.Pairwise fun a b =>
      ¬ a.IsAsGoodAs r.policy b ∧ ¬ b.IsAsGoodAs r.policy a := by
    refine Fallible.pairwise_mapM hfound (Search.front_of_run hs hrun) ?_
    intro d hd d' hd' it it' hit hit' hfront
    rw [← hpolicy]
    refine ⟨fun hgood => ?_, fun hgood => ?_⟩
    · simp [Search.dominates_of_isAsGoodAs hs hrun hd hd' hit hit' hgood] at hfront
    · simp [Search.dominates_of_isAsGoodAs hs hrun hd' hd hit' hit hgood] at hfront
  have hlisted := ((Ranking.rank_perm r.direction r.policy found).pairwise_iff
    fun hboth => hboth.symm).mpr hapart
  refine ⟨?_, Ranking.rank_sorted r.direction r.policy found⟩
  intro i j a b hi hj hne
  rw [List.pairwise_iff_getElem] at hlisted
  obtain ⟨hilt, rfl⟩ := List.getElem?_eq_some_iff.mp hi
  obtain ⟨hjlt, rfl⟩ := List.getElem?_eq_some_iff.mp hj
  rcases Nat.lt_or_gt_of_ne hne with hlt | hlt
  · exact (hlisted i j hilt hjlt hlt).1
  · exact (hlisted j i hjlt hilt hlt).2

end Router

theorem Router.threeLines_undominated : ∃ response events,
    ThreeLines.router.routeWatched ThreeLines.request none {} = .ok (response, events)
      ∧ response.itineraries.length = 2
      ∧ (∀ (i j : Nat) (a b : Itinerary), response.itineraries[i]? = some a →
        response.itineraries[j]? = some b → i ≠ j → ¬ a.IsAsGoodAs ThreeLines.request.policy b)
      ∧ response.itineraries.Pairwise fun a b =>
        ¬ Ranking.keys .forward ThreeLines.request.policy b
          < Ranking.keys .forward ThreeLines.request.policy a := by
  have hlength : (ThreeLines.router.routeWatched ThreeLines.request none {}).toOption.any
      (fun a => decide (a.1.itineraries.length = 2)) = true := by decide +kernel
  obtain ⟨⟨response, events⟩, hroute, hlength⟩ := Fallible.any_toOption.mp hlength
  exact ⟨response, events, hroute, of_decide_eq_true hlength,
    itineraries_undominated ThreeLines.router_deployed hroute⟩

end JourneyPlanner
