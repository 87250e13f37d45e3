import JourneyPlanner.Proofs.ExactRun
import JourneyPlanner.Proofs.Legs

/-!
A search whose times fit answers as it would with exact sums. Along a tour every time is
that of a call or at most the slack for boarding before one, so that walks and street
legs from there fit as well.
-/

namespace JourneyPlanner

namespace StopTable

variable {P : StopArrival → Prop} {t : StopTable}

theorem All.chain (ht : t.All P) {id : Nat} {arrivals : List StopArrival}
    (h : t.chain id = .ok arrivals) : ∀ a ∈ arrivals, P a := by
  have hfuel : ∀ (fuel id : Nat) {arrivals : List StopArrival},
      t.chainFrom fuel id = .ok arrivals → ∀ a ∈ arrivals, P a := by
    intro fuel
    induction fuel with
    | zero =>
        intro id arrivals h
        unfold chainFrom at h
        cases ha : t.arrivals[id]? <;> simp [ha] at h
    | succ fuel ih =>
        intro id arrivals h
        unfold chainFrom at h
        cases ha : t.arrivals[id]? with
        | none => simp [ha] at h
        | some a =>
            simp only [ha] at h
            cases hprevious : a.previous with
            | none =>
                simp only [hprevious, Except.ok.injEq] at h
                exact h ▸ List.forall_mem_singleton.mpr (ht.arrivals ha)
            | some previous =>
                simp only [hprevious, Fallible.bind_eq_ok, Fallible.pure_eq_ok] at h
                obtain ⟨rest, hrest, rfl⟩ := h
                exact List.forall_mem_cons.mpr ⟨ht.arrivals ha, ih previous hrest⟩
  exact hfuel _ _ h

end StopTable

namespace Search

theorem hopsBetween_congr {hop hop' : StopArrival → StopArrival → Except InternalFault Hop}
    {xs : List StopArrival} (h : ∀ a ∈ xs, ∀ b, hop a b = hop' a b) :
    hopsBetween hop xs = hopsBetween hop' xs := by
  induction xs with
  | nil => rfl
  | cons a xs ih =>
      cases xs with
      | nil => rfl
      | cons b xs =>
          simp only [hopsBetween, h a (List.mem_cons_self ..),
            ih fun c hc => h c (List.mem_cons_of_mem _ hc)]

variable {s : Search} {searchDate : Date} {p : Progress}

/-- A time at most the slack for boarding before a call. -/
def IsBeforeCall (s : Search) (time : Time) : Prop :=
  ∃ t ∈ s.callTimes, t - s.heading.boardSlack ≤ time ∧ time ≤ t

/-- Which rides can be made does not depend on how sums are kept. -/
theorem rideable_exact {pattern fromStop board toStop alight : Nat} {d : DayTrip}
    {boardCall alightCall : Call} :
    s.exact.Rideable pattern d fromStop board toStop alight boardCall alightCall ↔
      s.Rideable pattern d fromStop board toStop alight boardCall alightCall :=
  ⟨fun h => ⟨h.view, h.order, h.boards, h.alights, h.pickup, h.dropOff, h.boardAccepted,
      h.alightAccepted⟩,
    fun h => ⟨h.view, h.order, h.boards, h.alights, h.pickup, h.dropOff, h.boardAccepted,
      h.alightAccepted⟩⟩

theorem hasLeg_exact {l : Leg} : s.exact.HasLeg l ↔ s.HasLeg l := by
  cases l with
  | access | egress | transfer => exact Iff.rfl
  | transit r => simp only [HasLeg, rideable_exact]

theorem street_of_access {k : StreetLeg} (hk : k ∈ s.accessLegs) : k ∈ s.origin ∨ k ∈ s.target := by
  unfold accessLegs at hk
  split at hk
  · exact Or.inl hk
  · exact Or.inr hk

theorem street_of_egress {k : StreetLeg} (hk : k ∈ s.egressLegs) : k ∈ s.origin ∨ k ∈ s.target := by
  unfold egressLegs at hk
  split at hk
  · exact Or.inr hk
  · exact Or.inl hk

section Legs

variable (hs : s.WellFormed) (hfits : s.Fits searchDate)

include hs hfits

theorem routeTo_exact (hp : s.Timely p) (d : DestinationArrival) :
    s.routeTo p.table d = s.exact.routeTo p.table d := by
  unfold routeTo
  cases hway : wayTo p.table d with
  | error e => rfl
  | ok way =>
      obtain ⟨arrivals, begun⟩ := way
      simp only [wayTo, Fallible.bind_eq_ok] at hway
      obtain ⟨found, hchain, hway⟩ := hway
      obtain rfl : found = arrivals := by
        cases hlast : found.getLast? with
        | none => simp [hlast] at hway
        | some first =>
            simp only [hlast] at hway
            split at hway
            · split at hway
              · exact (Prod.mk.inj (Except.ok.inj hway)).1
              · simp at hway
            · simp at hway
      have hstems := StopTable.All.chain hp hchain
      have hhops : hopsBetween s.forwardHop found.reverse
          = hopsBetween s.exact.forwardHop found.reverse := by
        refine hopsBetween_congr fun a ha b => ?_
        unfold forwardHop
        rw [← ((hstems a (List.mem_reverse.mp ha)).fitsAfter hs hfits).boardLimit_exact]
        rfl
      simp only [bind, Except.bind]
      rw [hhops]
      rfl

omit hs in
theorem keep_beforeCall {time d : Time} (htime : s.IsBeforeCall time) (hd : 0 ≤ d)
    (hle : d + s.heading.boardSlack ≤ s.leeway) :
    s.heading.keep (time + d) = time + d ∧ s.heading.keep (time - d) = time - d := by
  obtain ⟨t, ht, hlow, hhigh⟩ := htime
  have ht := List.mem_append_right s.times ht
  exact ⟨hfits.keep_near ht (by grind) (by grind), hfits.keep_near ht (by grind) (by grind)⟩

/-- Waiting for a trip after a walk or without one. -/
theorem rideLeg_exact {who : Traveller} {walked : Time}
    (hwho : s.IsBeforeCall (who.time - walked)) (hwalked : 0 ≤ walked) (hle : walked ≤ s.longestWalk)
    {pattern fromStop board toStop alight : Nat} {d : DayTrip} {boardCall alightCall : Call}
    (hr : s.Rideable pattern d fromStop board toStop alight boardCall alightCall) :
    s.rideLeg who pattern d fromStop board toStop alight
      = s.exact.rideLeg who pattern d fromStop board toStop alight := by
  obtain ⟨v, index, hv, htrip, -, -⟩ := hr.view
  have hv := List.mem_of_getElem? hv
  have hboard := mem_callTimes hv htrip hr.boards
  have halight := mem_callTimes hv htrip hr.alights
  obtain ⟨t, ht, hlow, hhigh⟩ := hwho
  obtain ⟨hslack, hwalk, hleg⟩ := hs.nonneg
  have hbefore := hfits.apart t ht _ hboard.2
  have hafter := hfits.apart _ hboard.2 t ht
  unfold leeway at hbefore hafter
  have hwait : s.heading.keep (boardCall.departure - who.time - s.heading.boardSlack)
      = boardCall.departure - who.time - s.heading.boardSlack := by
    refine Heading.keep_of_fits _ ?_
    grind [Time.Fits, leastTime, greatestTime]
  unfold rideLeg
  simp only [DayTrip.call, hr.boards, hr.alights, bind, Except.bind, hwait,
    hfits.keep_sub hs halight.1 hboard.2]
  rfl

theorem legsAlong_exact {start stop : Nat} {time arrival : Time} {hops : List Hop}
    (h : s.exact.Tour start time hops stop arrival) (htime : s.IsBeforeCall time) (who : Traveller)
    (hwho : who.time = time) :
    s.legsAlong who hops = s.exact.legsAlong who hops ∧ s.IsBeforeCall arrival := by
  obtain ⟨hslack, hwalk, hleg⟩ := hs.nonneg
  have halights : ∀ {pattern fromStop board toStop alight : Nat} {d : DayTrip}
      {boardCall alightCall : Call},
      s.Rideable pattern d fromStop board toStop alight boardCall alightCall →
        s.IsBeforeCall alightCall.arrival := by
    intro pattern fromStop board toStop alight d boardCall alightCall hr
    obtain ⟨v, index, hv, htrip, -, -⟩ := hr.view
    exact ⟨_, (mem_callTimes (List.mem_of_getElem? hv) htrip hr.alights).1, by grind, Int.le_refl _⟩
  induction h generalizing who with
  | done stop time => exact ⟨by rw [legsAlong, legsAlong], htime⟩
  | @ride pattern fromStop board toStop alight stop d boardCall alightCall time arrival hops hr _ rest
      ih =>
      have hr' := rideable_exact.mp hr
      obtain ⟨r, hleg', -, -, -, -, hend⟩ := rideLeg_of_rideable hs.exact who hr
      obtain ⟨hsame, harrival⟩ := ih (halights hr') ⟨r.endTime, true, none⟩ hend
      refine ⟨?_, harrival⟩
      have hwho' : s.IsBeforeCall (who.time - 0) := by rwa [Int.sub_zero, hwho]
      rw [legsAlong, legsAlong, rideLeg_exact hs hfits hwho' (Int.le_refl 0) hwalk hr', hleg']
      simp only [Leg.endTime, bind, Except.bind, hsame]
  | @walk start pattern fromStop board toStop alight stop d boardCall alightCall time arrival duration
      hops hk hr _ rest ih =>
      have hr' := rideable_exact.mp hr
      have hduration := hs.le_longestWalk hk
      have hkeep : s.heading.keep (who.time + duration) = who.time + duration := by
        rw [hwho]
        exact (keep_beforeCall hfits htime hduration.1 (by unfold leeway; grind)).1
      obtain ⟨r, hleg', -, -, -, -, hend⟩ :=
        rideLeg_of_rideable hs.exact ⟨who.time + duration, who.hasRidden, some start⟩ hr
      obtain ⟨hsame, harrival⟩ := ih (halights hr') ⟨r.endTime, true, none⟩ hend
      refine ⟨?_, harrival⟩
      have hwho' : s.IsBeforeCall (who.time + duration - duration) := by
        rwa [Int.add_sub_cancel, hwho]
      rw [legsAlong, legsAlong, legsAlong, legsAlong, hkeep]
      rw [show s.exact.heading.keep (who.time + duration) = who.time + duration from rfl]
      rw [rideLeg_exact hs hfits hwho' hduration.1 hduration.2 hr', hleg']
      simp only [Leg.endTime, bind, Except.bind, hsame]
      rfl

theorem legsOf_exact {r : Route} {departure arrival : Time} (h : s.exact.Leads r departure arrival) :
    s.legsOf r = s.exact.legsOf r := by
  obtain ⟨hslack, hwalk, hleg⟩ := hs.nonneg
  obtain ⟨first, ended, tour, hdeparts, -, -⟩ := h.tour
  have hcall : first ∈ s.callTimes := by
    obtain ⟨pattern, d, fromStop, board, toStop, alight, rest, call, hhops, hcall, rfl⟩ := hdeparts
    rw [hhops] at tour
    cases tour with
    | ride hr =>
        obtain ⟨v, index, hv, htrip, -, -⟩ := hr.view
        exact (mem_callTimes (List.mem_of_getElem? hv) htrip hcall).2
  have hbegun : s.IsBeforeCall (first - s.heading.boardSlack) := ⟨first, hcall, by grind, by grind⟩
  have haccess := hs.le_longestLeg (street_of_access h.access)
  have hegress := hs.le_longestLeg (street_of_egress h.egress)
  have hkeep : s.heading.keep (first - s.heading.boardSlack) = first - s.heading.boardSlack :=
    hfits.keep_near (List.mem_append_right _ hcall) (by unfold leeway; grind) (by unfold leeway; grind)
  obtain ⟨hsame, hended⟩ := legsAlong_exact hs hfits tour hbegun
    ⟨first - s.heading.boardSlack, false, none⟩ rfl
  have haccess' := (keep_beforeCall hfits hbegun haccess.1 (by unfold leeway; grind)).2
  have hegress' := (keep_beforeCall hfits hended hegress.1 (by unfold leeway; grind)).1
  obtain ⟨legs, hlegs, -⟩ := legsAlong_of_tour hs.exact tour
    ⟨first - s.heading.boardSlack, false, none⟩ rfl
    (show Leg.EndsAt _ _ (.access r.access.stop 0 (first - s.heading.boardSlack) 0) from ⟨rfl, rfl⟩)
    (Or.inr ⟨_, hdeparts⟩)
  unfold legsOf
  simp only [firstDeparture_of_departsAt hdeparts, bind, Except.bind, heading_exact,
    Heading.boardSlack_exact, Heading.keep_exact, hkeep, hsame, hlegs, haccess', hegress']
  rfl

end Legs

section Journeys

variable {status : SearchStatus} {d : DestinationArrival}

theorem sound_of_stage {c : Chart} (h : s.IsStage .empty s.times c) : c.Sound s s.times :=
  h.keeps (Chart.sound_empty s s.times) fun _ _ count htime _ hc =>
    Chart.sound_rounds (Chart.sound_seed (Chart.sound_begin hc) htime).1 count Nat.one_pos

/-- Whenever a search ends, its journeys go along its ways. -/
theorem journey_of_run (hs : s.WellFormed) (h : s.run = .ok (status, p)) (hd : d ∈ p.destination) :
    ∃ w duration, w.Traced s s.times ∧ w.arrival.isTransit = true
      ∧ duration ∈ s.targetDurations w.arrival.stop
      ∧ p.table.journeyOf d = Chart.journeyAlong s w duration := by
  obtain ⟨-, hstage, -⟩ := run_shows hs.indexed h
  exact (sound_of_stage hstage).journey (List.mem_map_of_mem hd)

/-- Searches that end alike and list the same itineraries. -/
structure RunsAs (s s' : Search) : Prop where
  run : s.run = s'.run
  itineraries : ∀ {status : SearchStatus} {p : Progress}, s.run = .ok (status, p) →
    s.itineraries p = s'.itineraries p

theorem RunsAs.refl (s : Search) : s.RunsAs s :=
  ⟨rfl, fun _ => rfl⟩

/-- What fits comes out the same with exact sums. -/
theorem Fits.runsAs (hfits : s.Fits searchDate) (hs : s.WellFormed) : s.RunsAs s.exact := by
  obtain ⟨hsame, htimely⟩ := run_alike hs hfits
  refine ⟨hsame, fun {status p} hrun => ?_⟩
  have hp := htimely _ hrun
  have heach : ∀ d ∈ p.destination, s.itinerary p.table d = s.exact.itinerary p.table d := by
    intro d hd
    obtain ⟨w, duration, hw, hride, hduration, hj⟩ := journey_of_run hs.exact (hsame ▸ hrun) hd
    obtain ⟨r, hroute, hleads⟩ := routeTo_of_journey hs.exact hw hride hduration hj
    unfold itinerary
    rw [routeTo_exact hs hfits hp, hroute]
    simp only [bind, Except.bind, legsOf_exact hs hfits hleads]
  unfold itineraries
  rw [Fallible.mapM_congr heach]
  rfl

end Journeys

end Search
end JourneyPlanner
