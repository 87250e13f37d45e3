import JourneyPlanner.Proofs.EventLog
import JourneyPlanner.Proofs.Interruption
import JourneyPlanner.Proofs.Watching

/-!
The events of a search tell all that it did. Who watches everything sees each arrival that was
accepted and can follow the journeys up to those of the answer; who watches less sees the
events of those that they asked for, and gets the same answer.
-/

namespace JourneyPlanner

/-- Whether a search is cancelled does not depend on what was reported. -/
def Supervisor.IgnoresReports (s : Supervisor) : Prop :=
  ∀ checks reports reports', s.isCancelled checks reports = s.isCancelled checks reports'

/-- Whether a watch asks for an event, given the accepted arrivals: arrivals at one of its
stops, or that come over the first stops of its path, and all of them without such filters. -/
def Event.IsWanted (accepted : List StopArrival) (w : Watch) : Event → Prop
  | .arrival r => w.arrivals = true ∧ ((w.stops = [] ∧ w.path = []) ∨ r.element.stop ∈ w.stops
      ∨ ∃ stops, r.element.GoesVia accepted stops ∧ stops ≠ [] ∧ stops <+: w.path)
  | .path _ => w.paths = true

/-- The journey of an itinerary as listeners are shown it, with the stop of its last street leg
in search direction. -/
def Itinerary.view? (d : Direction) (it : Itinerary) : Option PathView :=
  match d, it.legs.head?, it.legs.getLast? with
  | .forward, _, some (.egress stop _ _ _) =>
    some ⟨stop, it.departureTime, it.arrivalTime, it.transfers + 1, it.generalizedCost⟩
  | .reverse, some (.access stop _ _ _), _ =>
    some ⟨stop, it.arrivalTime, it.departureTime, it.transfers + 1, it.generalizedCost⟩
  | _, _, _ => none

/-- The events of an answered request tell how its answer came about. -/
structure Response.IsToldBy (response : Response) (r : Request) (events : List Event) : Prop where
  journeys : ∃ views, Event.replay events = some views
    ∧ views.map some
      = (response.itineraries.map (Itinerary.view? r.direction) : Multiset (Option PathView))
  accepted : (events.filterMap Event.accepted?).length = response.report.acceptedArrivals
  rivals : ∀ e ∈ events, e.HasGoodRival r.direction r.policy
  ways : ∀ report, Event.arrival report ∈ events →
    ∃ stops, report.element.GoesVia (events.filterMap Event.accepted?) stops

theorem Event.isShown_everything (t : StopTable) (e : Event) :
    e.isShown t (some .everything) = true := by
  cases e <;> simp [isShown, Watch.wants, Watch.everything]

/-- A watch is shown what it asks for. -/
theorem Event.isShown_iff {t : StopTable} (ht : t.IsLinked) {w : Watch} {e : Event}
    (he : ∀ r, e = .arrival r → t.Supports r.element) :
    e.isShown t (some w) = true ↔ e.IsWanted t.arrivals.toList w := by
  cases e with
  | path r => simp [isShown, IsWanted]
  | arrival r =>
      have hvia := StopTable.goesVia_stopsTo ht (he r rfl)
      have hbegins : (∃ stops, r.element.GoesVia t.arrivals.toList stops ∧ stops ≠ []
          ∧ stops <+: w.path) ↔ Watch.stopsTo t r.element <+: w.path := by
        constructor
        · rintro ⟨stops, hstops, -, hpath⟩
          exact hvia.unique hstops ▸ hpath
        · intro hpath
          exact ⟨_, hvia, hvia.ne_nil, hpath⟩
      -- a way has stops, so that it is no beginning of an empty path
      have hpath : Watch.stopsTo t r.element <+: w.path → w.path ≠ [] := by
        rintro hpath hnone
        exact hvia.ne_nil (List.prefix_nil.mp (hnone ▸ hpath))
      simp only [isShown, IsWanted, Watch.wants, hbegins, Option.any_some, Bool.and_eq_true,
        Bool.or_eq_true, Bool.not_eq_true', List.isEmpty_iff, List.isEmpty_eq_false_iff,
        List.contains_iff_mem, List.isPrefixOf_iff_prefix, or_assoc]
      rw [and_iff_right_of_imp hpath]

namespace Search

/-- What the events of a search say so far is what it holds. -/
structure IsTold (s : Search) (p : Progress) : Prop where
  tidy : s.Tidy p
  journeys : Event.replay p.events.toList
    = some (p.destination.map DestinationArrival.view : List PathView)
  accepted : p.events.toList.filterMap Event.accepted? = p.table.arrivals.toList
  rivals : ∀ e ∈ p.events.toList, e.HasGoodRival s.heading.direction s.policy
  supported : ∀ e ∈ p.events.toList, ∀ r, e = .arrival r → p.table.Supports r.element

/-- What somebody else is shown of a search is part of what was told of it. -/
structure IsSeen (s : Search) (watch : Option Watch) (p q : Progress) : Prop where
  told : s.IsTold p
  agrees : p.Agrees q
  seen : q.events.toList = p.events.toList.filter (·.isShown p.table watch)

variable {s : Search} {p q : Progress} {watch : Option Watch}

section Told

theorem isTold_start (s : Search) : s.IsTold s.start where
  tidy := ⟨StopTable.tidy_empty .., by simp [start]⟩
  journeys := rfl
  accepted := rfl
  rivals := by simp [start]
  supported := by simp [start]

theorem events_of_everything (hw : s.watch = some .everything) {es : List Event}
    (hes : ∀ e ∈ es, e.time = p.time) :
    (es.foldl s.tell p).events.toList = p.events.toList ++ es := by
  rw [events_tellAll hes, hw, List.filter_eq_self.mpr fun e _ => e.isShown_everything _]

theorem IsTold.of_eq (h : s.IsTold p) (ht : q.table = p.table) (hd : q.destination = p.destination)
    (he : q.events = p.events) : s.IsTold q where
  tidy := h.tidy.of_eq ht hd
  journeys := by rw [he, hd, h.journeys]
  accepted := by rw [he, ht, h.accepted]
  rivals := he ▸ h.rivals
  supported := by rw [he, ht]; exact h.supported

/-- Arrivals are told of as they are judged. -/
theorem IsTold.arrival (hw : s.watch = some .everything) (h : s.IsTold p) {a : StopArrival}
    (ha : p.table.Supports a) (hnow : a.iteration = p.table.iteration) {t : StopTable}
    {result : Option Nat} {es : List Event} (hjudges : s.Judges p a t result es) :
    s.IsTold (es.foldl s.tell { p with table := t }) ∧ p.table.Extends t := by
  have hsame := s.tellAll_agrees { p with table := t } es
  have hevents := events_of_everything (p := { p with table := t }) hw hjudges.time
  obtain ⟨htidy, hext, -⟩ :=
    addArrival_shows h.tidy ha hnow (addArrival_eq_ok.mpr ⟨t, es, hjudges, rfl⟩)
  rw [hsame.table] at hext
  have hrivals := hjudges.hasGoodRival h.tidy ha
  refine ⟨⟨htidy, ?_, ?_, ?_, ?_⟩, hext⟩
  · rw [hevents, hsame.destination, Event.replay_append h.journeys]
    exact Event.follow_arrivals (fun e he => (hrivals e he).1.imp fun r hr => hr.1) _
  · rw [hevents, hsame.table, List.filterMap_append, h.accepted, hjudges.arrivals_eq]
  · rw [hevents]
    exact List.forall_mem_append.mpr ⟨h.rivals, fun e he => (hrivals e he).2⟩
  · rw [hevents, hsame.table]
    refine List.forall_mem_append.mpr ⟨fun e he r hr => hext.supports (h.supported e he r hr), ?_⟩
    rintro e he r rfl
    obtain ⟨r', hr', hsupports⟩ := (hrivals _ he).1
    exact hext.supports (Event.arrival.inj hr' ▸ hsupports)

/-- Journeys are told of as they are weighed. -/
theorem IsTold.journey (hw : s.watch = some .everything) (h : s.IsTold p) {d : DestinationArrival}
    (hd : ∃ a, p.table.arrivals[d.previous]? = some a) {front : List DestinationArrival}
    {es : List Event} (hweighs : s.Weighs p d front es) :
    s.IsTold (es.foldl s.tell { p with destination := front }) := by
  have hsame := s.tellAll_agrees { p with destination := front } es
  have hevents := events_of_everything (p := { p with destination := front }) hw hweighs.time
  have htidy := (addJourney_shows h.tidy hd).1
  rw [hweighs.addJourney] at htidy
  have hrivals := hweighs.hasGoodRival
  refine ⟨htidy, ?_, ?_, ?_, ?_⟩
  · rw [hevents, hsame.destination, Event.replay_append h.journeys]
    exact hweighs.follow
  · have hnone : es.filterMap Event.accepted? = [] := by
      refine List.filterMap_eq_nil_iff.mpr fun e he => ?_
      obtain ⟨r, rfl⟩ := (hrivals e he).1
      rfl
    rw [hevents, hsame.table, List.filterMap_append, h.accepted, hnone, List.append_nil]
  · rw [hevents]
    exact List.forall_mem_append.mpr ⟨h.rivals, fun e he => (hrivals e he).2⟩
  · rw [hevents, hsame.table]
    refine List.forall_mem_append.mpr ⟨h.supported, ?_⟩
    rintro e he r rfl
    obtain ⟨r', hr'⟩ := (hrivals _ he).1
    cases hr'

end Told

section Seen

/-- What was shown of earlier events would be shown of them later. -/
theorem IsTold.filter_isShown (h : s.IsTold p) {t : StopTable} (ht : t.IsLinked)
    (hext : ∀ {id : Nat} {b : StopArrival}, p.table.arrivals[id]? = some b →
      t.arrivals[id]? = some b) (watch : Option Watch) :
    p.events.toList.filter (·.isShown t watch) = p.events.toList.filter (·.isShown p.table watch) :=
  List.filter_congr fun e he =>
    StopTable.isShown_eq h.tidy.table.linked ht hext (h.supported e he) watch

/-- Both are told of the same decision. -/
theorem IsTold.isSeen (hw : s.watch = some .everything) {es : List Event}
    (h : s.IsTold (es.foldl s.tell p)) (hes : ∀ e ∈ es, e.time = p.time) (hagree : p.Agrees q)
    (hseen : q.events.toList = p.events.toList.filter (·.isShown p.table watch)) :
    s.IsSeen watch (es.foldl s.tell p) (es.foldl (s.watchedBy watch).tell q) := by
  have hsame := s.tellAll_agrees p es
  refine ⟨h, hsame.symm.trans (hagree.trans ((s.watchedBy watch).tellAll_agrees q es)), ?_⟩
  rw [events_tellAll fun e he => (hes e he).trans hagree.time.symm, hseen, hagree.table,
    events_of_everything hw hes, hsame.table, List.filter_append]
  rfl

theorem isSeen_mirrors (hw : s.watch = some .everything) (hsup : s.supervisor.IgnoresReports)
    (watch : Option Watch) : s.Mirrors watch (s.IsSeen watch) where
  agrees h := h.agrees
  tidy h := h.told.tidy
  verdict {p q} h := by
    unfold verdict? Supervisor.verdict
    rw [h.agrees.checks]
    change (if s.supervisor.isCancelled p.checks q.arrivalReports = true then _ else _) = _
    rw [hsup p.checks q.arrivalReports p.arrivalReports]
    rfl
  asked {p q} h :=
    have hagree : p.asked.Agrees q.asked :=
      ⟨h.agrees.table, h.agrees.destination, h.agrees.searched, h.agrees.highestRound,
        congrArg (· + 1) h.agrees.checks⟩
    ⟨h.told.of_eq rfl rfl rfl, hagree, h.seen⟩
  begin {p q} time h := by
    have hagree : (Search.begin p time).Agrees (Search.begin q time) :=
      ⟨congrArg StopTable.startIteration h.agrees.table, h.agrees.destination,
        congrArg (time :: ·) h.agrees.searched, h.agrees.highestRound, h.agrees.checks⟩
    have htidy := StopTable.tidy_startIteration h.told.tidy.table
    refine ⟨⟨⟨htidy, h.told.tidy.destination⟩, h.told.journeys, h.told.accepted, h.told.rivals,
      h.told.supported⟩, hagree, ?_⟩
    exact h.seen.trans (h.told.filter_isShown htidy.linked id watch).symm
  ended {p q} round h :=
    have hagree : Progress.Agrees { p with highestRound := max p.highestRound round }
        { q with highestRound := max q.highestRound round } :=
      ⟨h.agrees.table, h.agrees.destination, h.agrees.searched,
        congrArg (max · round) h.agrees.highestRound, h.agrees.checks⟩
    ⟨h.told.of_eq rfl rfl rfl, hagree, h.seen⟩
  arrival {p q a t result es} h ha hnow hjudges := by
    obtain ⟨htold, hext⟩ := h.told.arrival hw ha hnow hjudges
    have hagree : Progress.Agrees { p with table := t } { q with table := t } :=
      ⟨rfl, h.agrees.destination, h.agrees.searched, h.agrees.highestRound, h.agrees.checks⟩
    have hlinked := htold.tidy.table.linked
    rw [(s.tellAll_agrees { p with table := t } es).table] at hlinked
    refine htold.isSeen hw hjudges.time hagree ?_
    exact h.seen.trans (h.told.filter_isShown hlinked hext.arrivals watch).symm
  journey {p q d front es} h hd hweighs := by
    have hagree : Progress.Agrees { p with destination := front } { q with destination := front } :=
      ⟨h.agrees.table, rfl, h.agrees.searched, h.agrees.highestRound, h.agrees.checks⟩
    exact (h.told.journey hw hd hweighs).isSeen hw hweighs.time hagree h.seen

/-- Who watches everything can follow a search, and what others are shown is part of that. -/
theorem isSeen_of_run (hw : s.watch = some .everything) (hsup : s.supervisor.IgnoresReports)
    {status : SearchStatus} (h : s.run = .ok (status, p)) (watch : Option Watch) :
    ∃ q, (s.watchedBy watch).run = .ok (status, q) ∧ s.IsSeen watch p q :=
  (isSeen_mirrors hw hsup watch).run ⟨s.isTold_start, .refl _, rfl⟩ h

end Seen

section Views

/-- An itinerary is shown as the journey that it is of. -/
theorem view?_of_tells {t : StopTable} {d : DestinationArrival} {it : Itinerary}
    (htells : s.Tells it d.merits) (h : s.itinerary t d = .ok it) :
    it.view? s.heading.direction = some d.view := by
  have hrounds : it.transfers + 1 = d.merits.rounds := by
    have hpos := htells.rounds
    rw [htells.transfers]
    omega
  have hdeparture := htells.departure
  have harrival := htells.arrival
  have hcost := htells.cost
  simp only [itinerary, legsOf, routeTo, Fallible.bind_eq_ok, Fallible.pure_eq_ok] at h
  obtain ⟨route, ⟨⟨arrivals, begun⟩, -, hroute⟩, legs, ⟨departure, -, ⟨inner, time⟩, -, hlegs⟩,
    hit⟩ := h
  unfold Search.departure at hdeparture
  unfold Search.arrival at harrival
  cases hd : s.heading.direction with
  | forward =>
      simp only [hd, Fallible.bind_eq_ok, Fallible.pure_eq_ok] at hroute hdeparture harrival
      obtain ⟨hops, -, rfl⟩ := hroute
      obtain ⟨arrival, hlast⟩ : ∃ arrival, it.legs.getLast? = some (.egress d.stop time arrival
          (s.rates.walking d.streetDuration)) := by
        rw [← hit, ← hlegs]
        exact ⟨_, List.getLast?_concat ..⟩
      simp only [Itinerary.view?, hlast, hdeparture, harrival, hrounds, hcost,
        DestinationArrival.view]
  | reverse =>
      simp only [hd, Fallible.bind_eq_ok, Fallible.pure_eq_ok] at hroute hdeparture harrival
      obtain ⟨hops, -, rfl⟩ := hroute
      obtain ⟨left, begun, hfirst⟩ : ∃ left begun, it.legs.head? = some (.access d.stop left begun
          (s.rates.walking d.streetDuration)) := by
        rw [← hit, ← hlegs]
        exact ⟨_, _, rfl⟩
      simp only [Itinerary.view?, hfirst, hdeparture, harrival, hrounds, hcost,
        DestinationArrival.view]

/-- The itineraries of an answer are shown as the journeys that the search retained. -/
theorem views_of_itineraries (hs : s.WellFormed) {status : SearchStatus}
    (h : s.run = .ok (status, p)) {its : List Itinerary} (hits : s.itineraries p = .ok its) :
    ((p.destination.map DestinationArrival.view : List PathView) : Multiset PathView).map some
      = (its.map (Itinerary.view? s.heading.direction) : Multiset (Option PathView)) := by
  obtain ⟨found, hfound, rfl⟩ := itineraries_eq_ok hits
  have hshown := Fallible.mapM_both (k := Itinerary.view? s.heading.direction)
    (g := fun d => pure (some d.view))
    (fun d hd it hit => congrArg pure (view?_of_tells (tells_of_run hs h hd hit) hit).symm) hfound
  rw [List.mapM_pure, Fallible.pure_eq_ok] at hshown
  rw [Multiset.map_coe, Multiset.coe_eq_coe, List.map_map]
  refine .trans ?_ ((Ranking.rank_perm ..).map _).symm
  exact .of_eq hshown

theorem itineraries_watchedBy (watch : Option Watch) (hagree : p.Agrees q) :
    (s.watchedBy watch).itineraries q = s.itineraries p := by
  have hsame : (s.watchedBy watch).itineraries = s.itineraries :=
    s.itineraries_overseen watch s.supervisor s.timeout
  rw [hsame, itineraries, hagree.table, hagree.destination]
  rfl

theorem reportOf_agrees (hagree : p.Agrees q) (r : Request) : reportOf r q = reportOf r p := by
  unfold reportOf
  rw [hagree.searched, hagree.highestRound, hagree.table]

end Views

end Search

namespace Router

variable {x : Router} {r : Request} {supervisor : Supervisor} {s : Search}

/-- Whoever watches it, a request is searched for in the same way. -/
theorem search_watchedBy {watch : Option Watch} (h : x.search r watch supervisor = .ok s)
    (watch' : Option Watch) : x.search r watch' supervisor = .ok (s.watchedBy watch') := by
  obtain ⟨hfault, dates, hdates, rfl⟩ := search_eq_ok_iff.mp h
  exact search_eq_ok_iff.mpr ⟨hfault, dates, hdates, rfl⟩

theorem isToldBy_of_run (hx : x.Deployed)
    (hsearch : x.search r (some .everything) supervisor = .ok s) {status : SearchStatus}
    {p : Progress} (hrun : s.run = .ok (status, p)) {its : List Itinerary}
    (hits : s.itineraries p = .ok its) (h : s.IsTold p) :
    Response.IsToldBy ⟨status, its, Search.reportOf r p⟩ r p.events.toList := by
  have hdirection := direction_of_search hsearch
  have hviews := Search.views_of_itineraries (hx.wellFormed hsearch) hrun hits
  rw [hdirection] at hviews
  refine ⟨⟨_, h.journeys, hviews⟩, ?_, hdirection ▸ policy_of_search hsearch ▸ h.rivals, fun report hreport => ?_⟩
  · rw [h.accepted]
    rfl
  · rw [h.accepted]
    exact ⟨_, StopTable.goesVia_stopsTo h.tidy.table.linked (h.supported _ hreport report rfl)⟩

/-- An accepted request is answered in the same way whoever watches it, and who watches is
shown what they want of the events that everybody could see. -/
theorem shown_of_search (hx : x.Deployed) (hsup : supervisor.IgnoresReports)
    (hsearch : x.search r none supervisor = .ok s) (hfits : r.beyond? s.maxRounds = none) :
    ∃ response events, x.routeWatched r (some .everything) supervisor = .ok (response, events)
      ∧ response.IsToldBy r events
      ∧ ∀ watch, ∃ shown,
        x.routeWatched r watch supervisor = .ok (response, events.filter shown)
          ∧ ∀ w, watch = some w → ∀ e ∈ events,
            shown e = true ↔ e.IsWanted (events.filterMap Event.accepted?) w := by
  have hall := search_watchedBy hsearch (some .everything)
  obtain ⟨status, p, its, hrun, hits, hroute, -⟩ := answered_of_search hx hall hfits
  have hsupervisor : s.supervisor.IgnoresReports := by
    obtain ⟨limits, dates, -, -, rfl⟩ := search_eq_ok hsearch
    exact hsup
  have hseen := Search.isSeen_of_run (s := s.watchedBy (some .everything)) rfl hsupervisor hrun
  obtain ⟨_, -, hself⟩ := hseen none
  refine ⟨_, _, hroute, isToldBy_of_run hx hall hrun hits hself.told, fun watch => ?_⟩
  obtain ⟨q, hrun', hq⟩ := hseen watch
  refine ⟨(·.isShown p.table watch), ?_, ?_⟩
  · rw [← Search.itineraries_watchedBy watch hq.agrees] at hits
    rw [routeWatched_of_run (search_watchedBy hsearch watch) hfits hrun' hits, hq.seen,
      Search.reportOf_agrees hq.agrees]
  · rintro w rfl e he
    rw [hself.told.accepted]
    exact Event.isShown_iff hself.told.tidy.table.linked (hself.told.supported e he)

/-- Nobody changes an answer by watching. The events of an accepted request tell how its answer
came about, and whoever asks for some of them is shown these in their order. -/
theorem events_replay (hx : x.Deployed) (r : Request) (hsup : supervisor.IgnoresReports) :
    (∀ watch, (x.routeWatched r watch supervisor).map (·.1)
        = (x.routeWatched r none supervisor).map (·.1))
      ∧ ∀ s, x.search r none supervisor = .ok s → r.beyond? s.maxRounds = none →
        ∃ response events, x.routeWatched r (some .everything) supervisor = .ok (response, events)
          ∧ response.IsToldBy r events
          ∧ ∀ w, ∃ shown,
            x.routeWatched r (some w) supervisor = .ok (response, events.filter shown)
              ∧ ∀ e ∈ events, shown e = true ↔ e.IsWanted (events.filterMap Event.accepted?) w := by
  refine ⟨fun watch => ?_, fun s hsearch hfits => ?_⟩
  · cases hsearch : x.search r none supervisor with
    | error e =>
        have hsearch' : x.search r watch supervisor = .error e :=
          search_eq_error_iff.mpr (search_eq_error_iff.mp hsearch)
        rw [routeWatched_of_rejected hsearch, routeWatched_of_rejected hsearch']
    | ok s =>
        cases hfits : r.beyond? s.maxRounds with
        | some index =>
            rw [routeWatched_of_beyond hsearch hfits,
              routeWatched_of_beyond (search_watchedBy hsearch watch) hfits]
        | none =>
            obtain ⟨response, events, -, -, hshown⟩ := shown_of_search hx hsup hsearch hfits
            obtain ⟨_, hroute, -⟩ := hshown watch
            obtain ⟨_, hroute', -⟩ := hshown none
            rw [hroute, hroute']
            rfl
  · obtain ⟨response, events, hroute, htold, hshown⟩ := shown_of_search hx hsup hsearch hfits
    refine ⟨response, events, hroute, htold, fun w => ?_⟩
    obtain ⟨shown, hroute', hwanted⟩ := hshown (some w)
    exact ⟨shown, hroute', hwanted w rfl⟩

end Router
/-- Arrivals at the stop between, and those that come over the first and the last stop only. -/
def ExpressLine.partly : Watch where
  stops := [1]
  path := [0, 2]
  arrivals := true

/-- Seven events tell of four arrivals and of two journeys, one of which is dropped. -/
theorem Router.expressLine_replayed : ∃ response events shown,
    ExpressLine.router.routeWatched ExpressLine.hurried (some .everything) {}
        = .ok (response, events)
      ∧ events.length = 7 ∧ response.report.acceptedArrivals = 4
      ∧ (Event.replay events).map Multiset.card = some 1
      ∧ response.IsToldBy ExpressLine.hurried events
      ∧ ExpressLine.router.routeWatched ExpressLine.hurried (some ExpressLine.partly) {}
        = .ok (response, events.filter shown)
      ∧ (events.filter shown).length = 3
      ∧ ∀ e ∈ events,
        shown e = true ↔ e.IsWanted (events.filterMap Event.accepted?) ExpressLine.partly := by
  have hall : (ExpressLine.router.routeWatched ExpressLine.hurried (some .everything)
      {}).toOption.any (fun a => decide (a.2.length = 7 ∧ a.1.report.acceptedArrivals = 4
        ∧ (Event.replay a.2).map Multiset.card = some 1)) = true := by
    decide +kernel
  have hpart : (ExpressLine.router.routeWatched ExpressLine.hurried (some ExpressLine.partly)
      {}).toOption.any (fun a => decide (a.2.length = 3)) = true := by
    decide +kernel
  have hsearched : (ExpressLine.router.search ExpressLine.hurried none {}).toOption.any
      (fun s => decide (ExpressLine.hurried.beyond? s.maxRounds = none)) = true := by
    decide +kernel
  obtain ⟨⟨response, events⟩, hroute, hfacts⟩ := Fallible.any_toOption.mp hall
  obtain ⟨⟨response', events'⟩, hroute', hlength⟩ := Fallible.any_toOption.mp hpart
  obtain ⟨s, hsearch, hfits⟩ := Fallible.any_toOption.mp hsearched
  obtain ⟨hevents, haccepted, hleft⟩ := of_decide_eq_true hfacts
  have hnobody : Supervisor.IgnoresReports {} := fun _ _ _ => rfl
  obtain ⟨-, hreplay⟩ := events_replay ExpressLine.router_deployed ExpressLine.hurried hnobody
  obtain ⟨_, _, hanswer, htold, hshown⟩ := hreplay s hsearch (of_decide_eq_true hfits)
  obtain ⟨rfl, rfl⟩ := Prod.mk.inj (Except.ok.inj (hroute.symm.trans hanswer))
  obtain ⟨shown, hanswer', hwanted⟩ := hshown ExpressLine.partly
  obtain ⟨rfl, rfl⟩ := Prod.mk.inj (Except.ok.inj (hroute'.symm.trans hanswer'))
  exact ⟨_, _, shown, hroute, hevents, haccepted, hleft, htold, hroute',
    of_decide_eq_true hlength, hwanted⟩

end JourneyPlanner
