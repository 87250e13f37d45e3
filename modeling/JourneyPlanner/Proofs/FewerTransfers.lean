import JourneyPlanner.Proofs.Agreement
import JourneyPlanner.Proofs.FewerRounds
import JourneyPlanner.Proofs.Listing

/-!
What a limit on transfers does to an answer. Where transfers are compared, a lower limit
leaves out the itineraries with more transfers, and does nothing else.
-/

namespace JourneyPlanner

def Request.withMaxTransfers (r : Request) (k : Nat) : Request :=
  { r with maxTransfers := some k }

namespace Search

variable {s s' : Search} {p p' : Progress} {its its' : List Itinerary}

/-- A search with fewer rounds has the itineraries that need no more than those. -/
theorem itineraries_of_shortens (h : s.Shortens s') (hs : s.WellFormed) (hs' : s'.WellFormed)
    (hrun : s.run = .ok (.complete, p)) (hrun' : s'.run = .ok (.complete, p'))
    (hits : s.itineraries p = .ok its) (hits' : s'.itineraries p' = .ok its') :
    its = its'.filter fun it => decide (it.transfers < s.maxRounds) := by
  have hjourneys := journeys_of_shortens h
  rw [← (run_shows hs.indexed hrun).2.2 rfl, ← (run_shows hs'.indexed hrun').2.2 rfl] at hjourneys
  obtain ⟨found, hfound, rfl⟩ := itineraries_eq_ok hits
  obtain ⟨found', hfound', rfl⟩ := itineraries_eq_ok hits'
  have hkept := Fallible.filter_mapM (P := fun d => (p'.table.journeyOf d).isWithin s.maxRounds)
    (Q := fun it => decide (it.transfers < s.maxRounds)) hfound' fun d hd it hit => by
      obtain ⟨-, hrounds, htransfers⟩ := cost_of_run hs' hrun' hd hit
      refine decide_eq_decide.mpr ?_
      change it.transfers < s.maxRounds ↔ d.merits.rounds ≤ s.maxRounds
      omega
  have hsame : (p'.destination.filter fun d => (p'.table.journeyOf d).isWithin s.maxRounds).map
      p'.table.journeyOf = p.destination.map p.table.journeyOf :=
    List.filter_map.symm.trans hjourneys
  obtain ⟨maxRounds, watch, supervisor, rfl⟩ := h.alike
  have hshared : (s.withRounds maxRounds watch supervisor).SharesData s := ⟨rfl, rfl, rfl, rfl, rfl⟩
  rw [itineraries_of_journeyOf hshared rfl hsame hkept hfound]
  exact (Ranking.rank_filter _).symm

end Search

namespace Router

variable {x : Router} {r : Request} {k k' : Nat} {watch watch' : Option Watch}
  {supervisor supervisor' : Supervisor}

theorem maxRounds_of_search {s : Search}
    (h : x.search (r.withMaxTransfers k) watch supervisor = .ok s) : s.maxRounds = k + 1 :=
  maxRounds_eq_limits h

theorem shortens_of_search {s s' : Search} (hk : k ≤ k') (htransfers : r.policy.transfers = true)
    (h : x.search (r.withMaxTransfers k) watch supervisor = .ok s)
    (h' : x.search (r.withMaxTransfers k') watch' supervisor' = .ok s') : s.Shortens s' := by
  have hrounds : s.maxRounds ≤ s'.maxRounds := by
    rw [maxRounds_of_search h, maxRounds_of_search h']
    exact Nat.succ_le_succ hk
  obtain ⟨dates, rfl, rfl⟩ := ofRequest_of_searches h h' rfl
  exact ⟨⟨k' + 1, watch', supervisor', rfl⟩, hrounds, htransfers⟩

/-- If transfers are compared, the answer for a lower limit lists the itineraries with no
more transfers of the answer for a higher one, in the same order. -/
theorem itineraries_of_maxTransfers (hx : x.Deployed) (hk : k ≤ k')
    (htransfers : r.policy.transfers = true) {response response' : Response}
    {events events' : List Event}
    (h : x.routeWatched (r.withMaxTransfers k) watch supervisor = .ok (response, events))
    (hcomplete : response.status = .complete)
    (h' : x.routeWatched (r.withMaxTransfers k') watch' supervisor' = .ok (response', events'))
    (hcomplete' : response'.status = .complete) :
    response.itineraries = response'.itineraries.filter fun it => decide (it.transfers ≤ k) := by
  obtain ⟨s, status, p, its, hsearch, hrun, hits, rfl, -⟩ := routeWatched_eq_ok h
  obtain ⟨s', status', p', its', hsearch', hrun', hits', rfl, -⟩ := routeWatched_eq_ok h'
  obtain rfl : status = .complete := hcomplete
  obtain rfl : status' = .complete := hcomplete'
  have hshort := shortens_of_search hk htransfers hsearch hsearch'
  have hsame := Search.itineraries_of_shortens hshort (hx.wellFormed hsearch)
    (hx.wellFormed hsearch') hrun hrun' hits hits'
  rw [maxRounds_of_search hsearch] at hsame
  simpa only [Nat.lt_succ_iff] using hsame

end Router

namespace ExpressLine

open ThreeLines (day line)

/-- A line that goes all the way, and one that goes to an express half way. -/
def builder : Builder :=
  .ofTrips ["O", "A", "D"] "W" [day]
    [line "s" "s" [("O", 60), ("D", 900)], line "f" "f" [("O", 60), ("A", 200)],
      line "e" "e" [("A", 300), ("D", 500)]]

def router : Router where
  timetable := builder.timetable (by decide +kernel)

theorem router_deployed : router.Deployed :=
  Router.deployed_of_assembled (Builder.assembled_ofTrips ..) _ {}

def request : Request where
  date := day
  time := 0
  searchWindow := some 60
  access := [⟨0, 0⟩]
  egress := [⟨2, 0⟩]

end ExpressLine

theorem Router.expressLine_without_transfers : ∃ response response' events events',
    ExpressLine.router.routeWatched (ExpressLine.request.withMaxTransfers 0) none {}
        = .ok (response, events)
      ∧ ExpressLine.router.routeWatched (ExpressLine.request.withMaxTransfers 1) none {}
        = .ok (response', events')
      ∧ response.itineraries.length = 1 ∧ response'.itineraries.length = 2
      ∧ response.itineraries = response'.itineraries.filter fun it => decide (it.transfers ≤ 0) := by
  have hdirect : (ExpressLine.router.routeWatched (ExpressLine.request.withMaxTransfers 0) none
      {}).toOption.any (fun a => decide (a.1.status = .complete ∧ a.1.itineraries.length = 1))
        = true := by decide +kernel
  have hall : (ExpressLine.router.routeWatched (ExpressLine.request.withMaxTransfers 1) none
      {}).toOption.any (fun a => decide (a.1.status = .complete ∧ a.1.itineraries.length = 2))
        = true := by decide +kernel
  obtain ⟨⟨response, events⟩, hroute, hfacts⟩ := Fallible.any_toOption.mp hdirect
  obtain ⟨⟨response', events'⟩, hroute', hfacts'⟩ := Fallible.any_toOption.mp hall
  obtain ⟨hcomplete, hlength⟩ := of_decide_eq_true hfacts
  obtain ⟨hcomplete', hlength'⟩ := of_decide_eq_true hfacts'
  exact ⟨response, response', events, events', hroute, hroute', hlength, hlength',
    itineraries_of_maxTransfers ExpressLine.router_deployed (Nat.zero_le 1) rfl hroute hcomplete
      hroute' hcomplete'⟩

end JourneyPlanner
