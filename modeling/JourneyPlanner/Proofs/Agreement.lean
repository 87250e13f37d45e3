import JourneyPlanner.Proofs.Accounts
import JourneyPlanner.Proofs.Charging
import JourneyPlanner.Proofs.EarliestArrival

/-!
Journeys as searches retain them and itineraries as answers list them agree on costs,
transfers and times. Where searches in both directions tell the same of a journey, they
have the same itinerary for it.
-/

namespace JourneyPlanner

namespace Search

variable {s : Search} {status : SearchStatus} {p : Progress}

/-- Whenever a search ends, its journeys have the costs and transfers of their itineraries. -/
theorem cost_of_run (hs : s.WellFormed) (h : s.run = .ok (status, p)) {d : DestinationArrival}
    (hd : d ∈ p.destination) {it : Itinerary} (hit : s.itinerary p.table d = .ok it) :
    it.generalizedCost = d.merits.cost ∧ 0 < d.merits.rounds
      ∧ it.transfers = d.merits.rounds - 1 := by
  obtain ⟨-, hstage, -⟩ := run_shows hs.indexed h
  obtain ⟨w, duration, hw, hride, -, hj⟩ :=
    (sound_of_stage hstage).journey (List.mem_map_of_mem hd)
  obtain ⟨hcost, htransfers⟩ := cost_of_journey hs hw hj hit
  have hrounds : d.merits.rounds = w.arrival.round :=
    congrArg (fun j : Journey => j.ending.merits.rounds) hj
  exact ⟨hcost, hrounds ▸ hw.round_pos hride, htransfers⟩

/-- Searches in the same direction and with the same policy that share their data have the
same itineraries in the end if they come to the same journeys. -/
theorem itineraries_of_journeys {s' : Search} {p' : Progress} (hs : s.WellFormed)
    (hs' : s'.WellFormed) (hj : s'.chart.journeys = s.chart.journeys)
    (hrun : s.run = .ok (.complete, p)) (hrun' : s'.run = .ok (.complete, p'))
    {its its' : List Itinerary} (hits : s.itineraries p = .ok its)
    (hits' : s'.itineraries p' = .ok its') (hshared : s.SharesData s')
    (hdirection : s'.heading.direction = s.heading.direction) (hpolicy : s'.policy = s.policy) :
    its' = its := by
  rw [← (run_shows hs.indexed hrun).2.2 rfl, ← (run_shows hs'.indexed hrun').2.2 rfl] at hj
  obtain ⟨found, hfound, rfl⟩ := itineraries_eq_ok hits
  obtain ⟨found', hfound', rfl⟩ := itineraries_eq_ok hits'
  rw [itineraries_of_journeyOf hshared hdirection hj.symm hfound hfound', hdirection, hpolicy]

end Search

namespace Router

variable {x : Router} {r r' : Request} {watch watch' : Option Watch}
  {supervisor supervisor' : Supervisor} {s s' : Search}

/-- Requests for the same date, with the same weights and the same time for boarding. -/
theorem sharesData_of_search (hdate : r'.date = r.date) (hcost : r'.cost = r.cost)
    (hslack : (r'.limits x.settings).boardSlack = (r.limits x.settings).boardSlack)
    (h : x.search r watch supervisor = .ok s) (h' : x.search r' watch' supervisor' = .ok s') :
    s.SharesData s' := by
  have hsame : datesFor x.settings r' = datesFor x.settings r := by
    unfold datesFor
    rw [hdate]
  obtain ⟨dates, rfl, rfl⟩ := ofRequest_of_searches h h' hsame
  refine ⟨?_, rfl, ?_, hslack, rfl⟩
  · simp only [Search.ofRequest, hdate]
  · simp only [Search.ofRequest, hcost]

/-- However a search ends, each journey that it retained has an itinerary, which costs what
its legs cost in all and what the search counted, has one transfer less than there were
rounds, and leaves and arrives when the search says. Another search for the same date with
the same weights and time for boarding, in any direction, has the same itinerary for a
journey of which it tells the same. -/
theorem itinerary_agrees (hx : x.Deployed) (hsearch : x.search r watch supervisor = .ok s)
    {status : SearchStatus} {p : Progress} (hrun : s.run = .ok (status, p))
    {d : DestinationArrival} (hd : d ∈ p.destination) :
    ∃ it, s.itinerary p.table d = .ok it
      ∧ it.generalizedCost = min (it.legs.map Leg.cost).sum Json.greatestWord
      ∧ it.generalizedCost = d.merits.cost
      ∧ 0 < d.merits.rounds ∧ it.transfers = d.merits.rounds - 1
      ∧ (it.departureTime, it.arrivalTime) = (match r.direction with
        | .forward => (d.merits.originTime, d.merits.time)
        | .reverse => (d.merits.time, d.merits.originTime))
      ∧ ∀ (r' : Request) (watch' : Option Watch) (supervisor' : Supervisor) (s' : Search)
        (status' : SearchStatus) (p' : Progress) (d' : DestinationArrival),
        r'.date = r.date → r'.cost = r.cost →
        (r'.limits x.settings).boardSlack = (r.limits x.settings).boardSlack →
        x.search r' watch' supervisor' = .ok s' → s'.run = .ok (status', p') →
        d' ∈ p'.destination → s'.account p'.table d' = s.account p.table d →
        s'.itinerary p'.table d' = .ok it := by
  have hs := hx.wellFormed hsearch
  obtain ⟨it, hit, -, hdeparture, harrival⟩ := Search.itinerary_of_run hs hrun hd
  obtain ⟨hcost, hrounds, htransfers⟩ := Search.cost_of_run hs hrun hd hit
  refine ⟨it, hit, ?_, hcost, hrounds, htransfers, ?_, ?_⟩
  · simp only [Search.itinerary, Fallible.bind_eq_ok, Fallible.pure_eq_ok] at hit
    obtain ⟨route, -, legs, -, rfl⟩ := hit
    exact Cost.total_eq _
  · rw [hdeparture, harrival, Search.departure, Search.arrival, direction_of_search hsearch]
    cases r.direction <;> rfl
  · intro r' watch' supervisor' s' status' p' d' hdate hweights hslack hsearch' hrun' hd' haccount
    obtain ⟨it', hit', -⟩ := Search.itinerary_of_run (hx.wellFormed hsearch') hrun' hd'
    have hshared := sharesData_of_search hdate hweights hslack hsearch hsearch'
    rw [hit', Search.itinerary_of_account hshared haccount hit hit']

end Router

/-- From the destination of the two lines, for who has to be there in time. -/
def FeederLine.arriving : Request :=
  { request with direction := .reverse, time := 700 }

theorem Router.feederLine_agrees : ∃ s s' status status' p p' d d' it,
    FeederLine.router.search FeederLine.request none {} = .ok s
      ∧ s.run = .ok (status, p) ∧ d ∈ p.destination
      ∧ FeederLine.router.search FeederLine.arriving none {} = .ok s'
      ∧ s'.run = .ok (status', p') ∧ d' ∈ p'.destination
      ∧ s'.account p'.table d' = s.account p.table d
      ∧ s.itinerary p.table d = .ok it ∧ s'.itinerary p'.table d' = .ok it
      ∧ it.transfers = 1 ∧ it.generalizedCost = d.merits.cost := by
  have hany : (FeederLine.router.search FeederLine.request none {}).toOption.any (fun s =>
      s.run.toOption.any fun a =>
        (FeederLine.router.search FeederLine.arriving none {}).toOption.any fun s' =>
          s'.run.toOption.any fun a' => decide (∃ d ∈ a.2.destination, ∃ d' ∈ a'.2.destination,
            s'.account a'.2.table d' = s.account a.2.table d ∧ d.merits.rounds = 2)) = true := by
    decide +kernel
  obtain ⟨s, hsearch, hany⟩ := Fallible.any_toOption.mp hany
  obtain ⟨⟨status, p⟩, hrun, hany⟩ := Fallible.any_toOption.mp hany
  obtain ⟨s', hsearch', hany⟩ := Fallible.any_toOption.mp hany
  obtain ⟨⟨status', p'⟩, hrun', hfound⟩ := Fallible.any_toOption.mp hany
  obtain ⟨d, hd, d', hd', haccount, hrounds⟩ := of_decide_eq_true hfound
  obtain ⟨it, hit, -, hcost, -, htransfers, -, hsame⟩ :=
    itinerary_agrees FeederLine.router_deployed hsearch hrun hd
  have hit' := hsame FeederLine.arriving none {} s' status' p' d' rfl rfl rfl hsearch' hrun' hd'
    haccount
  exact ⟨s, s', status, status', p, p', d, d', it, hsearch, hrun, hd, hsearch', hrun', hd',
    haccount, hit, hit', by rw [htransfers, hrounds], hcost⟩

end JourneyPlanner
