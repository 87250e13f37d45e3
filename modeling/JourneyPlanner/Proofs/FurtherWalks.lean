import JourneyPlanner.Proofs.Widening
import JourneyPlanner.Proofs.EarliestArrival

/-!
A timetable made from the same records and from further walks. Patterns, trips and the
calendar are the same, so real-time information means the same for both, and for every
walk of the first one the second one has one that takes no longer. Further walks do no
harm where trips keep their order and walks and street legs are closed; elsewhere they
can cost the only journey, since nobody walks on or goes on to the destination from a
stop that was reached on foot.
-/

namespace JourneyPlanner

/-- The same timetable with other walks. -/
def Timetable.withWalks (t : Timetable) (transfers incoming : Rows Transfer) : Timetable :=
  { t with
    transfers := transfers
    incoming := incoming }

namespace Feed

variable {t : Timetable} {transfers incoming : Rows Transfer} {m : LiveTrips} {f : Feed}

/-- Updates do not look at walks. -/
theorem apply_withWalks (m : LiveTrips) (t : Timetable) (transfers incoming : Rows Transfer)
    (u : TripUpdate) : m.apply (t.withWalks transfers incoming) u = m.apply t u := by
  cases u <;> rfl

theorem applyEach_withWalks (us : List TripUpdate) :
    applyEach (t.withWalks transfers incoming) m us = applyEach t m us := by
  induction us generalizing m with
  | nil => rfl
  | cons u us ih => simp only [applyEach, apply_withWalks, ih]

theorem applyAll_withWalks (us : List TripUpdate) :
    applyAll (t.withWalks transfers incoming) m us = applyAll t m us := by
  induction us generalizing m with
  | nil => rfl
  | cons u us ih => simp only [applyAll, apply_withWalks, ih]

theorem Running.timetable (h : Running t f) : f.timetable = t := by
  induction h with
  | start => rfl
  | applyUpdates h us ih => exact ih
  | transact h hf ih =>
      unfold Feed.transact at hf
      split at hf
      case h_1 => simp at hf
      case h_2 =>
        simp only [Prod.mk.injEq, Except.ok.injEq] at hf
        obtain ⟨-, rfl, -⟩ := hf
        exact ih
  | clear h ih => exact ih

theorem Running.withWalks (h : Running t f) :
    Running (t.withWalks transfers incoming) { f with timetable := t.withWalks transfers incoming } := by
  induction h with
  | start => exact .start
  | @applyUpdates f h us ih =>
      have hstep := ih.applyUpdates us
      simp only [Feed.applyUpdates, applyEach_withWalks] at hstep ⊢
      rw [h.timetable]
      exact hstep
  | @transact f f' h us notices outcomes hf ih =>
      have hstep : Feed.transact { f with timetable := t.withWalks transfers incoming } us
          = (notices, .ok ({ f' with timetable := t.withWalks transfers incoming }, outcomes)) := by
        simp only [Feed.transact, applyAll_withWalks]
        rw [← h.timetable]
        unfold Feed.transact at hf
        split at hf
        case h_1 => simp at hf
        case h_2 notices' trips outcomes' happly =>
          simp only [Prod.mk.injEq, Except.ok.injEq] at hf
          obtain ⟨rfl, rfl, rfl⟩ := hf
          rfl
      exact ih.transact hstep
  | clear h ih => exact ih.clear

end Feed

namespace Builder

theorem stopsOf_withWalks (b : Builder) (walks : Array Walk) (l : List StopTimeRecord) :
    ({ b with walks := walks } : Builder).stopsOf l = b.stopsOf l := by
  have hfind : ({ b with walks := walks } : Builder).findStop? = b.findStop? := rfl
  induction l with
  | nil => rfl
  | cons s rest ih => simp only [stopsOf, hfind, ih]

theorem addAll_withWalks (b : Builder) (walks : Array Walk) (seen : List String) (a : Assembly)
    (l : List TripRecord) :
    Assembly.addAll { b with walks := walks } seen a l = Assembly.addAll b seen a l := by
  induction l generalizing seen a with
  | nil => rfl
  | cons r rest ih => simp only [Assembly.addAll, Assembly.add, stopsOf_withWalks, ih]

theorem build_withWalks (b : Builder) (walks : Array Walk) :
    ({ b with walks := walks } : Builder).build.2 = b.build.2.map fun t =>
      t.withWalks (Walks.outgoing (Walks.shortest walks.toList) b.stops.size)
        (Walks.incoming (Walks.shortest walks.toList) b.stops.size) := by
  simp only [build, addAll_withWalks]
  cases Assembly.addAll b [] { calendar := b.calendar } b.trips.toList with
  | mk a fault => cases fault <;> rfl

/-- Further walks come after the ones given before. -/
theorem addTransfers_eq_ok {b b' : Builder} {walks : List (String × String × Time)}
    (h : b.addTransfers walks = .ok b') : ∃ more, b' = { b with walks := b.walks ++ more } := by
  induction walks generalizing b with
  | nil =>
      obtain rfl := Fallible.pure_eq_ok.mp h
      exact ⟨#[], by simp⟩
  | cons w walks ih =>
      obtain ⟨next, hnext, h⟩ := Fallible.foldlM_cons_eq_ok.mp h
      obtain ⟨s, t, -, -, -, rfl⟩ := addTransfer_eq_ok hnext
      obtain ⟨more, rfl⟩ := ih h
      exact ⟨#[⟨s, t, w.2.2⟩] ++ more, by simp⟩

/-- The timetable of a builder that was given further walks. -/
theorem build_addTransfers {b b' : Builder} {walks : List (String × String × Time)} {t t' : Timetable}
    (hmore : b.addTransfers walks = .ok b') (h : b.build.2 = .ok t)
    (h' : b'.build.2 = .ok t') : (∃ transfers incoming, t' = t.withWalks transfers incoming)
      ∧ ∀ {stop : Nat} {k : Transfer}, k ∈ t.transfersFrom stop →
        ∃ k' ∈ t'.transfersFrom stop, k'.target = k.target ∧ k'.duration ≤ k.duration := by
  obtain ⟨more, rfl⟩ := addTransfers_eq_ok hmore
  rw [build_withWalks, h, Except.map, Except.ok.injEq] at h'
  subst h'
  refine ⟨⟨_, _, rfl⟩, fun {stop k} hk => ?_⟩
  obtain ⟨-, -, -, -, -, htransfers, -⟩ := build_eq_ok h
  rw [Timetable.transfersFrom, htransfers, Walks.mem_outgoing] at hk
  rcases Walks.given_of_mem_shortest hk.2 with hnone | ⟨hne, hgiven⟩
  · simp at hnone
  · have hmem : (⟨stop, k.target, k.duration⟩ : Walk) ∈ (b.walks ++ more).toList := by
      simp [hgiven]
    have hcovers : Walks.Covers (Walks.shortest (b.walks ++ more).toList) stop k.target k.duration :=
      Walks.covers_of_given hmem hne
    obtain ⟨d, hd, hcovers⟩ := hcovers
    exact ⟨⟨k.target, d⟩, Walks.mem_outgoing.mpr ⟨hk.1, hcovers⟩, rfl, hd⟩

end Builder

theorem Search.WalksFurther.exact {s s' : Search} (h : s.WalksFurther s') :
    s.exact.WalksFurther s'.exact :=
  ⟨congrArg Heading.exact h.heading, h.filter, h.views, h.origin, h.target, h.times, h.maxRounds,
    h.walks⟩

namespace Router

variable {x : Router} {r : Request} {watch watch' : Option Watch} {supervisor supervisor' : Supervisor}
  {s s' : Search} {transfers incoming : Rows Transfer}

theorem Deployed.withWalks {t' : Timetable} (hx : x.Deployed)
    (ht : ∃ b : Builder, b.Assembled ∧ b.build.2 = .ok t')
    (hwalks : t' = x.timetable.withWalks transfers incoming) :
    Router.Deployed { x with timetable := t' } := by
  obtain ⟨f, hf, hsnapshot⟩ := hx.snapshot
  refine ⟨ht, { f with timetable := t' }, ?_, hsnapshot⟩
  subst hwalks
  exact hf.withWalks

/-- The searches for one request before and after. -/
theorem walksFurther {t' : Timetable} (hx : x.Deployed)
    (hx' : Router.Deployed { x with timetable := t' })
    (hwalks : t' = x.timetable.withWalks transfers incoming)
    (hmore : ∀ {stop : Nat} {k : Transfer}, k ∈ x.timetable.transfersFrom stop →
      ∃ k' ∈ t'.transfersFrom stop, k'.target = k.target ∧ k'.duration ≤ k.duration)
    (h : x.search r watch supervisor = .ok s)
    (h' : Router.search { x with timetable := t' } r watch' supervisor' = .ok s') :
    s.WalksFurther s' := by
  obtain ⟨dates, rfl, rfl⟩ := ofRequest_of_searches h h' rfl
  refine ⟨rfl, rfl, ?_, rfl, rfl, rfl, rfl, ?_⟩
  · subst hwalks
    rfl
  · intro stop k hk
    simp only [Search.ofRequest, Search.headingOf, Heading.walks] at hk ⊢
    cases hd : r.direction with
    | forward =>
        simp only [hd] at hk ⊢
        exact hmore hk
    | reverse =>
        simp only [hd] at hk ⊢
        obtain ⟨k', hk', htarget, hduration⟩ := hmore (hx.sound.mirrored.mp hk)
        obtain ⟨target, duration⟩ := k'
        obtain rfl : target = stop := htarget
        exact ⟨⟨k.target, duration⟩, hx'.sound.mirrored.mpr hk', rfl, hduration⟩

/-- An answer that was searched to the end is empty just if no journey was found. -/
theorem itineraries_ne_nil_iff (hx : x.Deployed) (hsearch : x.search r watch supervisor = .ok s)
    (hfits : s.Fits r.date) {response : Response} {events : List Event}
    (h : x.routeWatched r watch supervisor = .ok (response, events))
    (hcomplete : response.status = .complete) :
    response.itineraries ≠ [] ↔ s.exact.chart.journeys ≠ [] := by
  obtain ⟨p, hrun, -, hchart, hlisted⟩ := run_of_routeWatched hx hsearch hfits h
  rw [← hchart hcomplete]
  constructor
  · intro hne
    obtain ⟨it, hit⟩ := List.exists_mem_of_ne_nil _ hne
    obtain ⟨d, hd, -⟩ := hlisted.mp hit
    exact List.ne_nil_of_mem (List.mem_map_of_mem hd)
  · intro hne
    obtain ⟨j, hj⟩ := List.exists_mem_of_ne_nil _ hne
    obtain ⟨d, hd, -⟩ := List.mem_map.mp hj
    obtain ⟨it, hok, -⟩ := Search.itinerary_of_run (hx.wellFormed hsearch).exact hrun hd
    exact List.ne_nil_of_mem (hlisted.mpr ⟨d, hd, hok⟩)

/-- Where there is an itinerary there still is one after further walks were given, if
trips keep their order and walks are closed; street legs only matter if journeys are
compared on cost. -/
theorem itinerary_of_further_walks {b b' : Builder} {walks : List (String × String × Time)}
    {t' : Timetable} (hb : b.Assembled) (hbuild : b.build.2 = .ok x.timetable)
    (hsnapshot : ∃ f : Feed, Feed.Running x.timetable f ∧ f.snapshot = x.snapshot)
    (hmore : b.addTransfers walks = .ok b') (hbuild' : b'.build.2 = .ok t')
    (hfits : x.Fits r) (hfits' : Router.Fits { x with timetable := t' } r)
    (hsearch : Router.search { x with timetable := t' } r watch' supervisor' = .ok s')
    (ho : s'.IsOrderly) (hclosed : s'.WalksClosed)
    (hstreets : r.policy.cost = true → s'.StreetsClosed)
    {response response' : Response} {events events' : List Event}
    (h : x.routeWatched r watch supervisor = .ok (response, events))
    (hcomplete : response.status = .complete) (hfound : response.itineraries ≠ [])
    (h' : Router.routeWatched { x with timetable := t' } r watch' supervisor' = .ok (response', events'))
    (hcomplete' : response'.status = .complete) : response'.itineraries ≠ [] := by
  have hx : x.Deployed := ⟨⟨b, hb, hbuild⟩, hsnapshot⟩
  obtain ⟨⟨transfers, incoming, hwalks⟩, hfurther⟩ := Builder.build_addTransfers hmore hbuild hbuild'
  have hx' : Router.Deployed { x with timetable := t' } :=
    hx.withWalks ⟨b', hb.addTransfers hmore, hbuild'⟩ hwalks
  obtain ⟨s, -, -, -, hsearch₀, -⟩ := routeWatched_eq_ok h
  have hextends := (walksFurther hx hx' hwalks hfurther hsearch₀ hsearch).exact
  have hsorted := pairwise_times_of_search hsearch hfits'.window
  have hfits := hfits.of_search hsearch₀
  have hfits' := hfits'.of_search hsearch
  have hpolicy := policy_of_search hsearch₀
  have hjourneys := (itineraries_ne_nil_iff hx hsearch₀ hfits h hcomplete).mp hfound
  have harrive := Chart.canArrive_of_journeys s.heading.isExact_exact hextends
    (fun hcost => (hstreets (hpolicy ▸ hcost)).exact) hjourneys
  exact (itineraries_ne_nil_iff hx' hsearch hfits' h' hcomplete').mpr
    (Chart.journeys_of_canArrive (hx'.wellTimed hsearch hfits')
      (ho.exact (hx'.wellFormed hsearch) hfits') hclosed.exact hsorted harrive)

end Router

namespace Shortcut

open ThreeLines (day line)

/-- Two lines, one after the other. -/
def builder : Builder :=
  .ofTrips ["A", "M", "E"] "W" [day]
    [line "r1" "a" [("A", 60), ("M", 120)], line "r2" "b" [("M", 180), ("E", 300)]]

def walks : List (String × String × Time) :=
  [("M", "E", 60)]

/-- One can also walk along the second line. -/
def extended : Builder :=
  (builder.addTransfers walks).toOption.get (by decide +kernel)

def router : Router where
  timetable := builder.timetable (by decide +kernel)

def extendedRouter : Router :=
  { router with timetable := extended.timetable (by decide +kernel) }

def request (egress : List StreetLeg) : Request where
  date := day
  time := 0
  searchWindow := some 60
  access := [⟨0, 0⟩]
  egress := egress

theorem builder_assembled : builder.Assembled :=
  Builder.assembled_ofTrips ..

theorem addTransfers_walks : builder.addTransfers walks = .ok extended :=
  Fallible.toOption_eq_some.mp (Option.some_get _).symm

theorem build_builder : builder.build.2 = .ok router.timetable :=
  Builder.build_eq_timetable builder (by decide +kernel)

theorem build_extended : extended.build.2 = .ok extendedRouter.timetable :=
  Builder.build_eq_timetable extended (by decide +kernel)

theorem extendedRouter_deployed : extendedRouter.Deployed :=
  Router.deployed_of_assembled (builder_assembled.addTransfers addTransfers_walks) _ {}

end Shortcut

/-- A street leg from the stop before makes up for the one that can be reached on foot. -/
theorem Router.shortcut_keeps_itinerary :
    Shortcut.router.Fits (Shortcut.request [⟨1, 60⟩, ⟨2, 0⟩])
    ∧ Shortcut.extendedRouter.Fits (Shortcut.request [⟨1, 60⟩, ⟨2, 0⟩]) ∧ ∃ response events,
    Shortcut.extendedRouter.routeWatched (Shortcut.request [⟨1, 60⟩, ⟨2, 0⟩]) none {} =
      .ok (response, events) ∧ response.itineraries ≠ [] := by
  have hbefore : (Shortcut.router.routeWatched (Shortcut.request [⟨1, 60⟩, ⟨2, 0⟩]) none {}).toOption.any
      (fun a => decide (a.1.status = .complete ∧ a.1.itineraries ≠ [])) = true := by decide +kernel
  obtain ⟨⟨response, events⟩, hroute, hfound⟩ := Fallible.any_toOption.mp hbefore
  obtain ⟨hcomplete, hfound⟩ := of_decide_eq_true hfound
  have hafter : (Shortcut.extendedRouter.routeWatched (Shortcut.request [⟨1, 60⟩, ⟨2, 0⟩])
      none {}).toOption.any (fun a => decide (a.1.status = .complete)) = true := by decide +kernel
  obtain ⟨⟨response', events'⟩, hroute', hcomplete'⟩ := Fallible.any_toOption.mp hafter
  have hviews : (Shortcut.extendedRouter.search (Shortcut.request [⟨1, 60⟩, ⟨2, 0⟩]) none {}).toOption.any
      (fun s => decide (∀ v ∈ s.viewList, v.IsOrderly)) = true := by decide +kernel
  obtain ⟨s, hsearch, horder⟩ := Fallible.any_toOption.mp hviews
  have hwalks : (Shortcut.request [⟨1, 60⟩, ⟨2, 0⟩]).WalksClosed Shortcut.extendedRouter.timetable := by
    constructor <;> decide +kernel
  obtain ⟨hclosed, hstreets⟩ :=
    walksClosed_of_request Shortcut.extendedRouter_deployed hsearch rfl hwalks
  have ho : s.IsOrderly := isOrderly_of_views Shortcut.extendedRouter_deployed hsearch rfl
    ⟨rfl, rfl, rfl, rfl⟩ (of_decide_eq_true horder)
  have hfits : Shortcut.router.Fits (Shortcut.request [⟨1, 60⟩, ⟨2, 0⟩]) := by decide +kernel
  have hfits' : Shortcut.extendedRouter.Fits (Shortcut.request [⟨1, 60⟩, ⟨2, 0⟩]) := by
    decide +kernel
  exact ⟨hfits, hfits', response', events', hroute', itinerary_of_further_walks
    Shortcut.builder_assembled Shortcut.build_builder ⟨_, .start, rfl⟩ Shortcut.addTransfers_walks
    Shortcut.build_extended hfits hfits' hsearch ho hclosed (fun _ => hstreets) hroute hcomplete
    hfound hroute' (of_decide_eq_true hcomplete')⟩

/-- Without one, whoever walks is there before whoever rides, and no journey is left. -/
theorem Router.shortcut_loses_itinerary :
    Shortcut.builder.Assembled ∧ Shortcut.builder.addTransfers Shortcut.walks = .ok Shortcut.extended
      ∧ Shortcut.builder.build.2 = .ok Shortcut.router.timetable
      ∧ Shortcut.extended.build.2 = .ok Shortcut.extendedRouter.timetable
      ∧ (Shortcut.router.routeWatched (Shortcut.request [⟨2, 0⟩]) none {}).toOption.map
        (fun a => (a.1.status, a.1.itineraries.length)) = some (.complete, 1)
      ∧ (Shortcut.extendedRouter.routeWatched (Shortcut.request [⟨2, 0⟩]) none {}).toOption.map
        (fun a => (a.1.status, a.1.itineraries.length)) = some (.complete, 0) := by
  refine ⟨Shortcut.builder_assembled, Shortcut.addTransfers_walks, Shortcut.build_builder,
    Shortcut.build_extended, ?_, ?_⟩ <;> decide +kernel

end JourneyPlanner
