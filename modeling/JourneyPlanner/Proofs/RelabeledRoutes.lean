import JourneyPlanner.Proofs.Answering
import JourneyPlanner.Proofs.Listing
import JourneyPlanner.Proofs.RelabeledRun

/-!
Answers of searches that differ in labels only. The indices of trips do not show in an
answer; what shows of the labels is that all times are some seconds later.
-/

namespace JourneyPlanner

def Leg.later (seconds : Time) : Leg → Leg
  | .access toStop startTime endTime cost =>
    .access toStop (startTime + seconds) (endTime + seconds) cost
  | .transit r =>
    .transit { r with startTime := r.startTime + seconds, endTime := r.endTime + seconds }
  | .transfer fromStop toStop startTime endTime cost =>
    .transfer fromStop toStop (startTime + seconds) (endTime + seconds) cost
  | .egress fromStop startTime endTime cost =>
    .egress fromStop (startTime + seconds) (endTime + seconds) cost

def Itinerary.later (seconds : Time) (it : Itinerary) : Itinerary :=
  { it with
    legs := it.legs.map (Leg.later seconds)
    departureTime := it.departureTime + seconds
    arrivalTime := it.arrivalTime + seconds }

def SearchReport.later (seconds : Time) (r : SearchReport) : SearchReport :=
  { r with windowStart := r.windowStart + seconds, windowEnd := r.windowEnd + seconds }

/-- The same answer with every time so many seconds later. -/
def Response.later (seconds : Time) (r : Response) : Response where
  status := r.status
  itineraries := r.itineraries.map (Itinerary.later seconds)
  report := r.report.later seconds

namespace Leg

variable (seconds : Time) (l : Leg)

@[simp]
theorem startTime_later : (l.later seconds).startTime = l.startTime + seconds := by
  cases l <;> rfl

@[simp]
theorem endTime_later : (l.later seconds).endTime = l.endTime + seconds := by
  cases l <;> rfl

@[simp]
theorem isTransit_later : (l.later seconds).isTransit = l.isTransit := by
  cases l <;> rfl

@[simp]
theorem cost_later : (l.later seconds).cost = l.cost := by
  cases l <;> rfl

theorem later_zero : l.later 0 = l := by
  cases l <;> simp only [later, Int.add_zero]

end Leg

theorem Response.later_zero (r : Response) : r.later 0 = r := by
  have hlegs : Leg.later 0 = id := funext Leg.later_zero
  have hits : Itinerary.later 0 = id := by
    funext it
    simp only [Itinerary.later, Int.add_zero, hlegs, List.map_id, id]
  simp only [later, SearchReport.later, Int.add_zero, hits, List.map_id]

namespace Ranking

theorem compare_add (m n k : Int) : compare (m + k) (n + k) = compare m n := by
  simp only [compare, compareOfLessAndEq, Int.add_lt_add_iff_right, Int.add_left_inj]

theorem compareAll_later (d : Direction) (seconds : Time) (a b : Itinerary)
    (criteria : List Criterion) :
    compareAll d (a.later seconds) (b.later seconds) criteria = compareAll d a b criteria := by
  induction criteria with
  | nil => cases d <;> exact compare_add ..
  | cons c cs ih =>
      have hfirst : compareOn d c (a.later seconds) (b.later seconds) = compareOn d c a b := by
        cases c with
        | arrivalTime => cases d <;> exact compare_add ..
        | transfers => rfl
        | cost => rfl
      rw [compareAll, compareAll, hfirst, ih]

/-- Later itineraries are listed in the same order. -/
theorem rank_later (d : Direction) (p : DominancePolicy) (seconds : Time) (its : List Itinerary) :
    rank d p (its.map (Itinerary.later seconds)) = (rank d p its).map (Itinerary.later seconds) :=
  rank_map fun a b => by rw [before, before, compareAll_later]

end Ranking

/-- The same hop, on a trip as it is seen from either side. -/
inductive Hop.Agrees (later : Time) (f f' : TripFilter) : Hop → Hop → Prop where
  | ride {pattern fromStop board toStop alight : Nat} {d d' : DayTrip} (h : d.Agrees later f f' d') :
      Hop.Agrees later f f' (.ride pattern d fromStop board toStop alight)
        (.ride pattern d' fromStop board toStop alight)
  | walk {fromStop toStop : Nat} {duration : Time} :
      Hop.Agrees later f f' (.walk fromStop toStop duration) (.walk fromStop toStop duration)

namespace Search

variable {m : Relabeling} {s s' : Search}

section Hops

theorem wayTo_relabels {t : StopTable} {d : DestinationArrival} {arrivals : List StopArrival}
    {begun : StreetLeg} (h : wayTo t d = .ok (arrivals, begun)) :
    wayTo (m.table t) (m.journey d) = .ok (arrivals.map m.arrival, begun) := by
  unfold wayTo at h ⊢
  obtain ⟨found, hfound, h⟩ := Fallible.bind_eq_ok.mp h
  have hchain : (m.table t).chain (m.journey d).previous = .ok (found.map m.arrival) := by
    rw [Relabeling.chain_table]
    change (t.chain d.previous).map _ = _
    rw [hfound]
    rfl
  simp only [hchain, bind, Except.bind, List.getLast?_map]
  cases hlast : found.getLast? with
  | none => simp [hlast] at h
  | some first =>
      simp only [hlast] at h
      simp only [Option.map_some, Relabeling.arrival]
      cases hkind : first.kind with
      | access duration =>
          simp only [hkind] at h
          simp only [Relabeling.kind]
          split at h
          case isTrue hround =>
            simp only [Fallible.pure_eq_ok, Prod.mk.injEq] at h
            obtain ⟨rfl, rfl⟩ := h
            rw [if_pos hround]
            rfl
          case isFalse => simp at h
      | transit pattern trip board position => simp [hkind] at h
      | transfer fromStop duration => simp [hkind] at h

/-- What a ride looks up on either side. -/
theorem ride_relabels (hs : Matches m s s') {pattern trip : Nat} {v : PatternView} {d : DayTrip}
    (hv : s.view pattern = .ok v) (hd : v.tripAt trip = .ok d) :
    ∃ v' d', s'.view pattern = .ok v' ∧ v'.stops = v.stops
      ∧ v'.tripAt (m.trip pattern trip) = .ok d' ∧ d.Agrees m.later s.filter s'.filter d' := by
  obtain ⟨v', hv', hsame⟩ := hs.relabels.views (view_eq_ok hv)
  obtain ⟨d', hd', hagrees⟩ := hsame.trips (tripAt_eq_ok hd)
  rw [hs.wellFormed.numbered pattern v (view_eq_ok hv)] at hd'
  exact ⟨v', d', view_succeeds hv', hsame.stops, by rw [PatternView.tripAt, hd'], hagrees⟩

theorem forwardHop_relabels (hs : Matches m s s') {previous a : StopArrival} {hop : Hop}
    (h : s.forwardHop previous a = .ok hop) :
    ∃ hop', s'.forwardHop (m.arrival previous) (m.arrival a) = .ok hop'
      ∧ hop.Agrees m.later s.filter s'.filter hop' := by
  unfold forwardHop at h ⊢
  cases hkind : a.kind with
  | access duration => simp [hkind] at h
  | transfer fromStop duration =>
      simp only [hkind, Except.ok.injEq] at h
      subst h
      exact ⟨_, by simp only [Relabeling.arrival, Relabeling.kind, hkind], .walk⟩
  | transit pattern trip board position =>
      simp only [hkind, Fallible.bind_eq_ok] at h
      obtain ⟨v, hv, d, hd, h⟩ := h
      obtain ⟨v', d', hv', hstops, hd', hagrees⟩ := ride_relabels hs hv hd
      split at h
      case isFalse => simp at h
      case isTrue hplace =>
        obtain ⟨call, hcall, h⟩ := Fallible.bind_eq_ok.mp h
        obtain ⟨call', hcall', hsame⟩ := hagrees.call hcall
        split at h
        case isFalse => simp at h
        case isTrue htime =>
          obtain rfl := Fallible.pure_eq_ok.mp h
          have htime' : s'.heading.boardLimit (previous.time + m.later) ≤ call'.departure := by
            rw [hs.relabels.heading, Heading.boardLimit_add hs.relabels.shifts, hsame.departure]
            exact Int.add_le_add_right htime m.later
          refine ⟨_, ?_, .ride hagrees⟩
          simp only [Relabeling.arrival, Relabeling.kind, hkind, hv', hd', hcall', hstops, bind,
            Except.bind, if_pos hplace, if_pos htime']
          rfl

theorem reverseHop_relabels (hs : Matches m s s') {a next : StopArrival} {hop : Hop}
    (h : s.reverseHop a next = .ok hop) :
    ∃ hop', s'.reverseHop (m.arrival a) (m.arrival next) = .ok hop'
      ∧ hop.Agrees m.later s.filter s'.filter hop' := by
  unfold reverseHop at h ⊢
  cases hkind : a.kind with
  | access duration => simp [hkind] at h
  | transfer fromStop duration =>
      simp only [hkind, Except.ok.injEq] at h
      subst h
      exact ⟨_, by simp only [Relabeling.arrival, Relabeling.kind, hkind], .walk⟩
  | transit pattern trip alight position =>
      simp only [hkind, Fallible.bind_eq_ok] at h
      obtain ⟨v, hv, d, hd, h⟩ := h
      obtain ⟨v', d', hv', hstops, hd', hagrees⟩ := ride_relabels hs hv hd
      split at h
      case isFalse => simp at h
      case isTrue hplace =>
        obtain ⟨call, hcall, h⟩ := Fallible.bind_eq_ok.mp h
        obtain ⟨call', hcall', hsame⟩ := hagrees.call hcall
        split at h
        case isFalse => simp at h
        case isTrue htime =>
          obtain rfl := Fallible.pure_eq_ok.mp h
          have htime' : call'.arrival ≤ next.time + m.later := by
            rw [hsame.arrival]
            exact Int.add_le_add_right htime m.later
          refine ⟨_, ?_, .ride hagrees⟩
          simp only [Relabeling.arrival, Relabeling.kind, hkind, hv', hd', hcall', hstops, bind,
            Except.bind, if_pos hplace, if_pos htime']
          rfl

theorem hopsBetween_relabels {f f' : TripFilter}
    {hop hop' : StopArrival → StopArrival → Except InternalFault Hop}
    (hhop : ∀ {a b : StopArrival} {x : Hop}, hop a b = .ok x →
      ∃ x', hop' (m.arrival a) (m.arrival b) = .ok x' ∧ x.Agrees m.later f f' x')
    {arrivals : List StopArrival} {hops : List Hop} (h : hopsBetween hop arrivals = .ok hops) :
    ∃ hops', hopsBetween hop' (arrivals.map m.arrival) = .ok hops'
      ∧ List.Forall₂ (Hop.Agrees m.later f f') hops hops' := by
  induction arrivals generalizing hops with
  | nil =>
      simp only [hopsBetween, Except.ok.injEq] at h
      exact ⟨[], rfl, h ▸ .nil⟩
  | cons a rest ih =>
      cases rest with
      | nil =>
          simp only [hopsBetween, Except.ok.injEq] at h
          exact ⟨[], rfl, h ▸ .nil⟩
      | cons b rest =>
          simp only [hopsBetween, Fallible.bind_eq_ok, Fallible.pure_eq_ok] at h
          obtain ⟨first, hfirst, others, hothers, rfl⟩ := h
          obtain ⟨first', hfirst', hagrees⟩ := hhop hfirst
          obtain ⟨others', hothers', hall⟩ := ih hothers
          refine ⟨first' :: others', ?_, .cons hagrees hall⟩
          rw [List.map_cons] at hothers'
          simp only [List.map_cons, hopsBetween, hfirst', hothers', bind, Except.bind]
          rfl

theorem routeTo_relabels (hs : Matches m s s') {t : StopTable} {d : DestinationArrival}
    {route : Route} (h : s.routeTo t d = .ok route) :
    ∃ hops', s'.routeTo (m.table t) (m.journey d) = .ok { route with hops := hops' }
      ∧ List.Forall₂ (Hop.Agrees m.later s.filter s'.filter) route.hops hops' := by
  unfold routeTo at h ⊢
  obtain ⟨⟨arrivals, begun⟩, hway, h⟩ := Fallible.bind_eq_ok.mp h
  simp only [wayTo_relabels hway, bind, Except.bind, hs.relabels.heading]
  cases hdirection : s.heading.direction with
  | forward =>
      simp only [hdirection, Fallible.bind_eq_ok, Fallible.pure_eq_ok] at h
      obtain ⟨hops, hhops, rfl⟩ := h
      obtain ⟨hops', hhops', hall⟩ := hopsBetween_relabels (forwardHop_relabels hs) hhops
      refine ⟨hops', ?_, hall⟩
      simp only [← List.map_reverse, hhops']
      rfl
  | reverse =>
      simp only [hdirection, Fallible.bind_eq_ok, Fallible.pure_eq_ok] at h
      obtain ⟨hops, hhops, rfl⟩ := h
      obtain ⟨hops', hhops', hall⟩ := hopsBetween_relabels (reverseHop_relabels hs) hhops
      refine ⟨hops', ?_, hall⟩
      simp only [hhops']
      rfl

end Hops

section Legs

variable {f f' : TripFilter} {hops hops' : List Hop}

theorem firstDeparture_relabels {later : Time} {stop : Nat} {time : Time}
    (hall : List.Forall₂ (Hop.Agrees later f f') hops hops')
    (h : firstDeparture stop hops = .ok time) :
    firstDeparture stop hops' = .ok (time + later) := by
  induction hall with
  | nil => simp [firstDeparture] at h
  | cons hagrees _ ih =>
      cases hagrees with
      | walk => exact ih h
      | ride hagrees =>
          simp only [firstDeparture, Fallible.bind_eq_ok, Fallible.pure_eq_ok] at h
          obtain ⟨call, hcall, rfl⟩ := h
          obtain ⟨call', hcall', hsame⟩ := hagrees.call hcall
          simp only [firstDeparture, hcall', bind, Except.bind, hsame.departure]
          rfl

theorem rideLeg_relabels (hs : s.Relabels m s') {who : Traveller} {pattern fromStop board toStop
    alight : Nat} {d d' : DayTrip} (hagrees : d.Agrees m.later s.filter s'.filter d') {leg : Leg}
    (h : s.rideLeg who pattern d fromStop board toStop alight = .ok leg) :
    s'.rideLeg { who with time := who.time + m.later } pattern d' fromStop board toStop alight
      = .ok (leg.later m.later) := by
  simp only [rideLeg, Fallible.bind_eq_ok] at h
  obtain ⟨boardCall, hboard, alightCall, halight, h⟩ := h
  obtain ⟨headsign, hheadsign⟩ : ∃ headsign, d.trip.headsign? board = some headsign := by
    cases hheadsign : d.trip.headsign? board with
    | none => simp [hheadsign, bind, Except.bind] at h
    | some headsign => exact ⟨headsign, rfl⟩
  simp only [hheadsign, Fallible.bind_eq_ok, Except.ok.injEq, exists_eq_left'] at h
  obtain rfl := Fallible.pure_eq_ok.mp h
  obtain ⟨boardCall', hboard', hboards⟩ := hagrees.call hboard
  obtain ⟨alightCall', halight', halights⟩ := hagrees.call halight
  have hwait : boardCall.departure + m.later - (who.time + m.later)
      = boardCall.departure - who.time := by grind
  have hride : alightCall.arrival + m.later - (boardCall.departure + m.later)
      = alightCall.arrival - boardCall.departure := by grind
  obtain ⟨views, filter, times, rfl⟩ := hs.alike
  simp only [rideLeg, hboard', halight', hagrees.headsigns, hheadsign, bind, Except.bind,
    hboards.departure, halights.arrival, hwait, hride, hagrees.details, hagrees.date]
  rfl

theorem legsAlong_relabels (hs : s.Relabels m s')
    (hall : List.Forall₂ (Hop.Agrees m.later s.filter s'.filter) hops hops') {who : Traveller}
    {legs : List Leg} {time : Time} (h : s.legsAlong who hops = .ok (legs, time)) :
    s'.legsAlong { who with time := who.time + m.later } hops'
      = .ok (legs.map (Leg.later m.later), time + m.later) := by
  have hrates : s'.rates = s.rates := by
    obtain ⟨views, filter, times, rfl⟩ := hs.alike
    rfl
  induction hall generalizing who legs time with
  | nil =>
      simp only [legsAlong, Except.ok.injEq, Prod.mk.injEq] at h
      obtain ⟨rfl, rfl⟩ := h
      rfl
  | cons hagrees _ ih =>
      cases hagrees with
      | ride hagrees =>
          simp only [legsAlong, Fallible.bind_eq_ok, Fallible.pure_eq_ok, Prod.mk.injEq] at h
          obtain ⟨leg, hleg, ⟨rest, last⟩, hrest, rfl, rfl⟩ := h
          simp only [legsAlong, rideLeg_relabels hs hagrees hleg, Leg.endTime_later, ih hrest, bind,
            Except.bind]
          rfl
      | @walk fromStop toStop duration =>
          simp only [legsAlong, Fallible.bind_eq_ok, Fallible.pure_eq_ok, Prod.mk.injEq] at h
          obtain ⟨⟨rest, last⟩, hrest, rfl, rfl⟩ := h
          have htime : s'.heading.keep (who.time + m.later + duration)
              = s.heading.keep (who.time + duration) + m.later := by
            rw [hs.heading, Int.add_right_comm, hs.shifts]
          simp only [legsAlong, htime, ih hrest, hrates, bind, Except.bind]
          rfl

theorem legsOf_relabels (hs : s.Relabels m s') {route : Route}
    (hall : List.Forall₂ (Hop.Agrees m.later s.filter s'.filter) route.hops hops')
    {legs : List Leg} (h : s.legsOf route = .ok legs) :
    s'.legsOf { route with hops := hops' } = .ok (legs.map (Leg.later m.later)) := by
  simp only [legsOf, Fallible.bind_eq_ok] at h
  obtain ⟨departure, hdeparture, ⟨middle, time⟩, hmiddle, h⟩ := h
  obtain rfl := Fallible.pure_eq_ok.mp h
  have hback : ∀ time duration : Time, s.heading.keep (time + m.later - duration)
      = s.heading.keep (time - duration) + m.later := by
    intro time duration
    rw [← hs.shifts]
    congr 1
    grind
  have hon : ∀ time duration : Time, s.heading.keep (time + m.later + duration)
      = s.heading.keep (time + duration) + m.later := by
    intro time duration
    rw [Int.add_right_comm, hs.shifts]
  have hlegs := legsAlong_relabels hs hall hmiddle
  obtain ⟨views, filter, times, rfl⟩ := hs.alike
  simp only [legsOf, firstDeparture_relabels hall hdeparture, hback, hlegs, bind, Except.bind, hon,
    List.map_append, List.map_cons, List.map_nil]
  rfl

theorem itineraryOf_later {legs : List Leg} (hlegs : legs ≠ []) (seconds : Time) :
    itineraryOf (legs.map (Leg.later seconds)) = (itineraryOf legs).later seconds := by
  simp [itineraryOf, Itinerary.later, Function.comp_def, List.filter_map, List.head?_eq_some_head hlegs,
    List.getLast?_eq_some_getLast hlegs]

theorem itinerary_relabels (hs : Matches m s s') {t : StopTable} {d : DestinationArrival}
    {it : Itinerary} (h : s.itinerary t d = .ok it) :
    s'.itinerary (m.table t) (m.journey d) = .ok (it.later m.later) := by
  simp only [itinerary, Fallible.bind_eq_ok] at h
  obtain ⟨route, hroute, legs, hlegs, h⟩ := h
  obtain rfl := Fallible.pure_eq_ok.mp h
  obtain ⟨hops', hroute', hall⟩ := routeTo_relabels hs hroute
  simp only [itinerary, hroute', legsOf_relabels hs.relabels hall hlegs, bind, Except.bind]
  refine congrArg _ (itineraryOf_later ?_ m.later)
  simp only [legsOf, Fallible.bind_eq_ok] at hlegs
  obtain ⟨departure, -, ⟨middle, time⟩, -, hlegs⟩ := hlegs
  obtain rfl := Fallible.pure_eq_ok.mp hlegs
  exact List.cons_ne_nil _ _

end Legs

section Answers

variable {p p' : Progress}

theorem itineraries_relabels (hs : Matches m s s') (hp : p.Relabels m p') {its : List Itinerary}
    (h : s.itineraries p = .ok its) :
    s'.itineraries p' = .ok (its.map (Itinerary.later m.later)) := by
  obtain ⟨found, hfound, h⟩ := Fallible.bind_eq_ok.mp h
  obtain rfl := Fallible.pure_eq_ok.mp h
  have hfound' : p'.destination.mapM (s'.itinerary p'.table)
      = .ok (found.map (Itinerary.later m.later)) := by
    rw [hp.destination, hp.table, List.mapM_map]
    exact Fallible.mapM_both (fun _ _ _ h => itinerary_relabels hs h) hfound
  have hpolicy : s'.policy = s.policy := by
    obtain ⟨views, filter, times, rfl⟩ := hs.relabels.alike
    rfl
  refine Fallible.bind_eq_ok.mpr ⟨_, hfound', ?_⟩
  rw [hs.relabels.heading, hpolicy, Ranking.rank_later]
  rfl

theorem foldl_map_add {k : Time} {op : Time → Time → Time}
    (hop : ∀ a b, op (a + k) (b + k) = op a b + k) (time : Time) (times : List Time) :
    (times.map (· + k)).foldl op (time + k) = times.foldl op time + k := by
  induction times generalizing time with
  | nil => rfl
  | cons t ts ih =>
      rw [List.map_cons, List.foldl_cons, List.foldl_cons, hop]
      exact ih (op time t)

theorem reportOf_relabels {r r' : Request} (htime : r'.time = r.time + m.later)
    (hp : p.Relabels m p') : reportOf r' p' = (reportOf r p).later m.later := by
  have haccepted : p'.table.numAccepted = p.table.numAccepted := by
    rw [hp.table]
    exact Array.size_map ..
  have hmin : ∀ a b : Time, min (a + m.later) (b + m.later) = min a b + m.later := by grind
  have hmax : ∀ a b : Time, max (a + m.later) (b + m.later) = max a b + m.later := by grind
  simp only [reportOf, hp.searched, hp.highestRound, haccepted, List.length_map, SearchReport.later]
  cases p.searched with
  | nil => simp only [List.map_nil, List.min?_nil, List.max?_nil, Option.getD_none, htime]
  | cons time times =>
      simp only [List.map_cons, List.min?_cons', List.max?_cons', Option.getD_some,
        foldl_map_add hmin, foldl_map_add hmax]

end Answers

end Search

/-- Requests whose searches run as others that differ in labels are answered alike. -/
theorem Router.routeWatched_relabels {x x' : Router} {r r' : Request} {watch : Option Watch}
    {supervisor : Supervisor} {m : Relabeling} {asked asked' s s' : Search} (hx : x.Deployed)
    (h : x.search r watch supervisor = .ok asked) (h' : x'.search r' watch supervisor = .ok asked')
    (has : asked.RunsAs s) (has' : asked'.RunsAs s') (hs : Search.Matches m s s')
    (htime : r'.time = r.time + m.later)
    (hbeyond : r'.beyond? asked'.maxRounds = r.beyond? asked.maxRounds) :
    (x'.routeWatched r' watch supervisor).map (·.1)
      = (x.routeWatched r watch supervisor).map fun answer => answer.1.later m.later := by
  cases hfits : r.beyond? asked.maxRounds with
  | some index =>
      rw [routeWatched_of_beyond h hfits, routeWatched_of_beyond h' (hbeyond.trans hfits)]
      rfl
  | none =>
      obtain ⟨status, p, its, hrun, hits, hroute, -⟩ := answered_of_search hx h hfits
      rw [has.itineraries hrun] at hits
      obtain ⟨p', hrun', hp⟩ := Search.run_relabels hs (has.run ▸ hrun)
      have hits' := Search.itineraries_relabels hs hp hits
      rw [← has'.run] at hrun'
      rw [← has'.itineraries hrun'] at hits'
      rw [hroute, routeWatched_of_run h' (hbeyond.trans hfits) hrun' hits']
      simp only [Except.map, Response.later, Search.reportOf_relabels htime hp]

end JourneyPlanner
