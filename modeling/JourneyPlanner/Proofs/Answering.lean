import JourneyPlanner.Proofs.Spanning
import JourneyPlanner.Proofs.Travelling

/-!
Requests are rejected or answered, and nothing else. Whatever was published in real
time and whatever the request asks for, an accepted request runs into no fault of
ours, as long as its indices and sizes can be counted: then every index that a search
looks up is one of the table it looks in.
-/

namespace JourneyPlanner

namespace Rows

variable {α : Type}

theorem length_boundsFrom (start : Nat) (rows : List (List α)) :
    (boundsFrom start rows).length = rows.length := by
  induction rows generalizing start with
  | nil => rfl
  | cons row rows ih => rw [boundsFrom, List.length_cons, List.length_cons, ih]

theorem size_bounds_ofLists (rows : List (List α)) : (ofLists rows).bounds.size = rows.length :=
  length_boundsFrom 0 rows

end Rows

/-- Each stop has a row of patterns and rows of walks. -/
structure Timetable.HasRows (t : Timetable) : Prop where
  patterns : t.stopPatterns.bounds.size = t.numStops
  transfers : t.transfers.bounds.size = t.numStops
  incoming : t.incoming.bounds.size = t.numStops

theorem Builder.hasRows_build {b : Builder} {t : Timetable} (h : b.build.2 = .ok t) : t.HasRows := by
  obtain ⟨a, -, hstops, -, hpatterns, htransfers, hincoming, -⟩ := build_eq_ok h
  have hsize : b.stops.size = t.numStops := congrArg Array.size hstops.symm
  refine ⟨?_, ?_, ?_⟩
  · rw [hpatterns, stopPatternsOf, Rows.size_bounds_ofLists, List.length_map, List.length_range, hsize]
  · rw [htransfers, Walks.outgoing, Rows.size_bounds_ofLists, List.length_map, List.length_range, hsize]
  · rw [hincoming, Walks.incoming, Rows.size_bounds_ofLists, List.length_map, List.length_range, hsize]

/-- Trips listed on a date are trips of the timetable. -/
theorem Snapshot.trip?_of_tripsOnDate (sn : Snapshot) {t : Timetable} {pattern index : Nat}
    {date : Date} (h : index ∈ t.tripsOnDate pattern date) :
    ∃ trip, sn.trip? t ⟨pattern, index⟩ = some trip := by
  obtain ⟨base, hbase, -⟩ := Timetable.mem_tripsOnDate.mp h
  unfold Snapshot.trip?
  rw [hbase]
  cases sn.updatedTrip? ⟨pattern, index⟩ with
  | none => exact ⟨base, rfl⟩
  | some trip => exact ⟨trip, rfl⟩

/-- Whatever is looked up during a search is there. -/
structure Search.StaysWithin (s : Search) (sn : Snapshot) (p : Progress) : Prop where
  table : s.Spans p
  rows : s.timetable.HasRows
  views : s.HasViews
  trips : ∀ {pattern index : Nat} {date : Date}, index ∈ s.timetable.tripsOnDate pattern date →
    ∃ trip, sn.trip? s.timetable ⟨pattern, index⟩ = some trip

namespace Search

variable {s : Search} {p : Progress} {status : SearchStatus}

theorem itineraries_succeeds (hs : s.WellFormed) (h : s.run = .ok (status, p)) :
    ∃ its, s.itineraries p = .ok its := by
  obtain ⟨found, hfound⟩ := Fallible.mapM_succeeds fun d hd => by
    obtain ⟨it, hit, -⟩ := itinerary_of_run hs h hd
    exact ⟨it, hit⟩
  exact ⟨_, Fallible.bind_eq_ok.mpr ⟨found, hfound, rfl⟩⟩

end Search

namespace Router

variable {x : Router} {r : Request} {watch : Option Watch} {supervisor : Supervisor} {s : Search}

theorem Deployed.hasViews (hx : x.Deployed) (h : x.search r watch supervisor = .ok s) :
    s.HasViews := by
  obtain ⟨limits, dates, -, -, rfl⟩ := search_eq_ok h
  intro stop i hi
  obtain ⟨-, p, hp, -⟩ := hx.sound.indexed.mp hi
  exact ⟨_, by rw [viewList_ofRequest, hp, Option.map_some]⟩

theorem routeWatched_of_rejected {e : RequestFault} (h : x.search r watch supervisor = .error e) :
    x.routeWatched r watch supervisor = .error (.request e) := by
  rw [routeWatched, h]

/-- What is searched for was not rejected. -/
theorem routeWatched_of_search (h : x.search r watch supervisor = .ok s) {e : RequestFault} :
    x.routeWatched r watch supervisor ≠ .error (.request e) := by
  rw [routeWatched, h]
  dsimp only
  cases r.beyond? s.maxRounds with
  | some index => simp
  | none => cases answer s r <;> simp

theorem routeWatched_of_beyond (h : x.search r watch supervisor = .ok s) {index : Nat}
    (hbeyond : r.beyond? s.maxRounds = some index) :
    x.routeWatched r watch supervisor = .error (.internal (.tooLarge index)) := by
  simp only [routeWatched, h, hbeyond]

theorem beyond?_of_answer (hsearch : x.search r watch supervisor = .ok s)
    {answer : Response × List Event} (h : x.routeWatched r watch supervisor = .ok answer) :
    r.beyond? s.maxRounds = none := by
  cases hbeyond : r.beyond? s.maxRounds with
  | none => rfl
  | some index => simp [routeWatched_of_beyond hsearch hbeyond] at h

/-- An accepted request is answered with what its search found. -/
theorem routeWatched_of_run (h : x.search r watch supervisor = .ok s)
    (hfits : r.beyond? s.maxRounds = none) {status : SearchStatus} {p : Progress}
    (hrun : s.run = .ok (status, p)) {its : List Itinerary} (hits : s.itineraries p = .ok its) :
    x.routeWatched r watch supervisor
      = .ok (⟨status, its, Search.reportOf r p⟩, p.events.toList) := by
  simp only [routeWatched, h, hfits, answer, hrun, hits, bind, Except.bind]
  rfl

theorem answered_of_search (hx : x.Deployed) (h : x.search r watch supervisor = .ok s)
    (hfits : r.beyond? s.maxRounds = none) :
    ∃ status p its, s.run = .ok (status, p) ∧ s.itineraries p = .ok its
      ∧ x.routeWatched r watch supervisor
        = .ok (⟨status, its, Search.reportOf r p⟩, p.events.toList)
      ∧ s.StaysWithin x.snapshot p := by
  have hs := hx.wellFormed h
  have hviews := hx.hasViews h
  obtain ⟨status, p, hrun, hp⟩ := Search.run_succeeds hs hviews
  obtain ⟨its, hits⟩ := Search.itineraries_succeeds hs hrun
  refine ⟨status, p, its, hrun, hits, routeWatched_of_run h hfits hrun hits, hp, ?_, hviews, ?_⟩
  · obtain ⟨b, -, hbuild⟩ := hx.timetable
    rw [timetable_of_search h]
    exact Builder.hasRows_build hbuild
  · exact fun hindex => x.snapshot.trip?_of_tripsOnDate hindex

/-- A request is rejected as the client's fault, or its search ends within its tables
and it is answered. -/
theorem rejected_or_answered (hx : x.Deployed) (r : Request) (watch : Option Watch)
    (supervisor : Supervisor) (hfits : r.beyond? (r.limits x.settings).maxRounds = none) :
    (∃ e, x.routeWatched r watch supervisor = .error (.request e)) ∨
      ∃ s status p its, x.search r watch supervisor = .ok s ∧ s.run = .ok (status, p)
        ∧ s.itineraries p = .ok its
        ∧ x.routeWatched r watch supervisor
          = .ok (⟨status, its, Search.reportOf r p⟩, p.events.toList)
        ∧ s.StaysWithin x.snapshot p := by
  cases h : x.search r watch supervisor with
  | error e => exact Or.inl ⟨e, routeWatched_of_rejected h⟩
  | ok s =>
      obtain ⟨status, p, its, hrun, hits, hroute, hwithin⟩ :=
        answered_of_search hx h (maxRounds_eq_limits h ▸ hfits)
      exact Or.inr ⟨s, status, p, its, rfl, hrun, hits, hroute, hwithin⟩

end Router

namespace Router

/-- The router once its feed has published some updates. -/
def afterUpdates (x : Router) (us : List TripUpdate) : Router :=
  { x with snapshot := (Feed.applyUpdates ⟨x.timetable, x.snapshot⟩ us).1.snapshot }

theorem Deployed.afterUpdates {x : Router} (hx : x.Deployed) (us : List TripUpdate) :
    (x.afterUpdates us).Deployed where
  timetable := hx.timetable
  snapshot := by
    obtain ⟨f, hf, hsnapshot⟩ := hx.snapshot
    obtain ⟨b, hb, hbuild⟩ := hx.timetable
    obtain ⟨htimetable, -⟩ := hf.revise hb hbuild
    refine ⟨_, hf.applyUpdates us, ?_⟩
    rw [Router.afterUpdates, ← htimetable, ← hsnapshot]

end Router

/-- One trip is late, and another one does not run. -/
def ThreeLines.disrupted : Router :=
  ThreeLines.router.afterUpdates [.delay "d" (.position 0) 60 60 true, .cancelTrip "x"]

theorem Router.threeLines_answered :
    ∃ s status p its, ThreeLines.disrupted.search ThreeLines.request none {} = .ok s
      ∧ s.run = .ok (status, p) ∧ s.itineraries p = .ok its
      ∧ ThreeLines.disrupted.routeWatched ThreeLines.request none {}
        = .ok (⟨status, its, Search.reportOf ThreeLines.request p⟩, p.events.toList)
      ∧ s.StaysWithin ThreeLines.disrupted.snapshot p := by
  have hdeployed := ThreeLines.router_deployed.afterUpdates
    [.delay "d" (.position 0) 60 60 true, .cancelTrip "x"]
  have hanswer : (ThreeLines.disrupted.routeWatched ThreeLines.request none {}).toOption.isSome := by
    decide +kernel
  refine (rejected_or_answered hdeployed ThreeLines.request none {} (by decide +kernel)).resolve_left ?_
  rintro ⟨e, he⟩
  rw [ThreeLines.disrupted, he] at hanswer
  simp [Except.toOption] at hanswer

end JourneyPlanner
