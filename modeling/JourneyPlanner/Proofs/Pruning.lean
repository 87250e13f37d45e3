import JourneyPlanner.Proofs.Agreement
import JourneyPlanner.Proofs.PrunedRun

/-!
Pruning and answers. Itineraries depend on the journeys that were found only, so a fair
search has the same answer whether it is pruned or not. A search is not fair where an
arrival from which nothing better can come is no later at its stop than one that leaves
the origin later: the stops of a search do not compare when the origin is left. Such an
arrival keeps the other one out unless it is pruned.
-/

namespace JourneyPlanner

def Request.withPruning (r : Request) (pruning : Bool) : Request :=
  { r with destinationPruning := pruning }

namespace Search

variable {s s' : Search}

theorem HasVariant.exact (h : s.HasVariant s') : s.exact.HasVariant s'.exact := by
  obtain ⟨pruning, watch, supervisor, rfl⟩ := h.variant
  exact ⟨h.unpruned, h.watched, pruning, watch, supervisor, rfl⟩

theorem HasVariant.fits (h : s.HasVariant s') {searchDate : Date} (hfits : s.Fits searchDate) :
    s'.Fits searchDate := by
  obtain ⟨pruning, watch, supervisor, rfl⟩ := h.variant
  exact ⟨hfits.trips, hfits.near, hfits.apart⟩

/-- Where a search is fair, a variant of it has the same itineraries in the end. -/
theorem itineraries_of_fair (hv : s.HasVariant s') (hs : s.WellTimed) (hs' : s'.WellTimed)
    {p p' : Progress} (hrun : s.run = .ok (.complete, p)) (hrun' : s'.run = .ok (.complete, p'))
    (hfair : s.IsFair (p.events.toList.filterMap Event.remark?)) {its its' : List Itinerary}
    (h : s.itineraries p = .ok its) (h' : s'.itineraries p' = .ok its') : its' = its := by
  have hlog : s.chart.log = p.events.toList.filterMap Event.remark? := by
    rw [← (run_shows hs.indexed hrun).2.2 rfl]
    exact if_pos hv.watched
  have hj : s'.chart.journeys = s.chart.journeys :=
    Chart.journeys_of_fair hv hs hs' (hlog ▸ hfair)
  obtain ⟨pruning, watch, supervisor, rfl⟩ := hv.variant
  exact itineraries_of_journeys hs.toWellFormed hs'.toWellFormed hj hrun hrun' h h'
    ⟨rfl, rfl, rfl, rfl, rfl⟩ rfl rfl

end Search

namespace Router

variable {x : Router} {r : Request}

/-- The times of the unpruned search for a request fit, and it is fair, as the reports of a
run show. -/
def SearchesFairly (x : Router) (r : Request) : Prop :=
  x.Fits (r.withPruning false) ∧ ∃ supervisor s response events,
    x.search (r.withPruning false) (some .everything) supervisor = .ok s
      ∧ x.routeWatched (r.withPruning false) (some .everything) supervisor = .ok (response, events)
      ∧ response.status = .complete ∧ s.exact.IsFair (events.filterMap Event.remark?)

theorem search_withPruning {pruning pruning' : Bool} {watch watch' : Option Watch}
    {supervisor supervisor' : Supervisor} {s s' : Search}
    (h : x.search (r.withPruning pruning) watch supervisor = .ok s)
    (h' : x.search (r.withPruning pruning') watch' supervisor' = .ok s') :
    s' = s.variant pruning' watch' supervisor' := by
  obtain ⟨dates, rfl, rfl⟩ := ofRequest_of_searches h h' rfl
  rfl

theorem hasVariant_of_search {pruning : Bool} {watch : Option Watch}
    {supervisor supervisor' : Supervisor} {s s' : Search}
    (h : x.search (r.withPruning false) (some .everything) supervisor = .ok s)
    (h' : x.search (r.withPruning pruning) watch supervisor' = .ok s') : s.HasVariant s' := by
  have hself := search_withPruning h h
  refine ⟨?_, ?_, pruning, watch, supervisor', search_withPruning h h'⟩
  · rw [hself]
    rfl
  · rw [hself]
    exact beq_self_eq_true (some Watch.everything)

/-- A request that is searched fairly has the same itineraries pruned and unpruned. -/
theorem itineraries_of_pruning (hx : x.Deployed) (hfair : x.SearchesFairly r)
    {watch watch' : Option Watch} {supervisor supervisor' : Supervisor}
    {response response' : Response} {events events' : List Event}
    (h : x.routeWatched (r.withPruning true) watch supervisor = .ok (response, events))
    (hcomplete : response.status = .complete)
    (h' : x.routeWatched (r.withPruning false) watch' supervisor' = .ok (response', events'))
    (hcomplete' : response'.status = .complete) :
    response.itineraries = response'.itineraries := by
  obtain ⟨hfits, supervisor₀, s, response₀, events₀, hsearch, hroute, hended, hfair⟩ := hfair
  obtain ⟨s₀, status, p, its, hsearch₀, hrun, hits, rfl, rfl⟩ := routeWatched_eq_ok hroute
  obtain rfl : s₀ = s := Except.ok.inj (hsearch₀.symm.trans hsearch)
  obtain rfl : status = .complete := hended
  have hfits := hfits.of_search hsearch
  have hexact := hfits.runsAs (hx.wellFormed hsearch)
  rw [hexact.itineraries hrun] at hits
  -- every complete run has the itineraries of the one that is watched
  have hsame : ∀ {pruning : Bool} {watch : Option Watch} {supervisor : Supervisor}
      {response : Response} {events : List Event},
      x.routeWatched (r.withPruning pruning) watch supervisor = .ok (response, events) →
        response.status = .complete → response.itineraries = its := by
    intro pruning watch supervisor response events h hcomplete
    obtain ⟨s', status', p', its', hsearch', hrun', hits', rfl, -⟩ := routeWatched_eq_ok h
    obtain rfl : status' = .complete := hcomplete
    have hvariant := hasVariant_of_search hsearch hsearch'
    have hfits' := hvariant.fits hfits
    have hexact' := hfits'.runsAs (hx.wellFormed hsearch')
    rw [hexact'.itineraries hrun'] at hits'
    exact Search.itineraries_of_fair hvariant.exact (hx.wellTimed hsearch hfits)
      (hx.wellTimed hsearch' hfits') (hexact.run ▸ hrun) (hexact'.run ▸ hrun') hfair hits hits'
  rw [hsame h hcomplete, hsame h' hcomplete']

end Router

namespace ThreeLines

/-- The request for more times to depart from. -/
def longRequest : Request :=
  { request with searchWindow := some 180 }

theorem searchesFairly : router.SearchesFairly longRequest := by
  have hany : (router.search (longRequest.withPruning false) (some .everything) {}).toOption.any
      (fun s => (router.routeWatched (longRequest.withPruning false) (some .everything) {}).toOption.any
        fun a => decide (a.1.status = .complete ∧ s.exact.IsFair (a.2.filterMap Event.remark?)))
          = true := by decide +kernel
  obtain ⟨s, hsearch, hany⟩ := Fallible.any_toOption.mp hany
  obtain ⟨⟨response, events⟩, hroute, hfair⟩ := Fallible.any_toOption.mp hany
  obtain ⟨hcomplete, hfair⟩ := of_decide_eq_true hfair
  exact ⟨by decide +kernel, {}, s, response, events, hsearch, hroute, hcomplete, hfair⟩

end ThreeLines

theorem Router.threeLines_pruned_alike : ∃ response response' events events',
    ThreeLines.router.routeWatched (ThreeLines.longRequest.withPruning true) none {}
        = .ok (response, events)
      ∧ ThreeLines.router.routeWatched (ThreeLines.longRequest.withPruning false) none {}
        = .ok (response', events')
      ∧ response.itineraries.length = 2 ∧ response.itineraries = response'.itineraries := by
  have hpruned : (ThreeLines.router.routeWatched (ThreeLines.longRequest.withPruning true) none
      {}).toOption.any (fun a => decide (a.1.status = .complete ∧ a.1.itineraries.length = 2))
        = true := by decide +kernel
  have hunpruned : (ThreeLines.router.routeWatched (ThreeLines.longRequest.withPruning false) none
      {}).toOption.any (fun a => decide (a.1.status = .complete)) = true := by decide +kernel
  obtain ⟨⟨response, events⟩, hroute, hfacts⟩ := Fallible.any_toOption.mp hpruned
  obtain ⟨⟨response', events'⟩, hroute', hfacts'⟩ := Fallible.any_toOption.mp hunpruned
  obtain ⟨hcomplete, hlength⟩ := of_decide_eq_true hfacts
  exact ⟨response, response', events, events', hroute, hroute', hlength,
    itineraries_of_pruning ThreeLines.router_deployed ThreeLines.searchesFairly hroute hcomplete
      hroute' (of_decide_eq_true hfacts')⟩

/-- Unless it is pruned, the line that departs first keeps the one that departs last out
of the stop between, although nobody would take it. -/
theorem Router.threeLines_pruned_apart : ∃ response response' events events',
    ThreeLines.router.routeWatched (ThreeLines.request.withPruning true) none {}
        = .ok (response, events)
      ∧ ThreeLines.router.routeWatched (ThreeLines.request.withPruning false) none {}
        = .ok (response', events')
      ∧ response.status = .complete ∧ response'.status = .complete
      ∧ response.itineraries.map (·.departureTime) = [120, 180]
      ∧ response'.itineraries.map (·.departureTime) = [120] := by
  have hpruned : (ThreeLines.router.routeWatched (ThreeLines.request.withPruning true) none
      {}).toOption.any (fun a => decide (a.1.status = .complete
        ∧ a.1.itineraries.map (·.departureTime) = [120, 180])) = true := by decide +kernel
  have hunpruned : (ThreeLines.router.routeWatched (ThreeLines.request.withPruning false) none
      {}).toOption.any (fun a => decide (a.1.status = .complete
        ∧ a.1.itineraries.map (·.departureTime) = [120])) = true := by decide +kernel
  obtain ⟨⟨response, events⟩, hroute, hfacts⟩ := Fallible.any_toOption.mp hpruned
  obtain ⟨⟨response', events'⟩, hroute', hfacts'⟩ := Fallible.any_toOption.mp hunpruned
  obtain ⟨hcomplete, hfound⟩ := of_decide_eq_true hfacts
  obtain ⟨hcomplete', hfound'⟩ := of_decide_eq_true hfacts'
  exact ⟨response, response', events, events', hroute, hroute', hcomplete, hcomplete', hfound,
    hfound'⟩

end JourneyPlanner
