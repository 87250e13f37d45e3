import JourneyPlanner.Proofs.Cancelling

/-!
Lists of bans. The bans that a request has of one trip add up, in whatever order and however
often they come: nobody may catch or leave the trip where any of them says so. What depends
on the order is whether there is an answer at all. A ban at a position beyond every table
leaves none, unless a ban before it is of the whole trip.
-/

namespace JourneyPlanner

/-- What holds of each cut of a list holds of the cut before the first element and of each
later one. -/
theorem forall_cut_cons {α : Type} {P : List α → α → Prop} {x : α} {xs : List α} :
    (∀ before y after, x :: xs = before ++ y :: after → P before y) ↔
      P [] x ∧ ∀ before y after, xs = before ++ y :: after → P (x :: before) y := by
  constructor
  · intro h
    refine ⟨h [] x xs rfl, fun before y after hxs => ?_⟩
    exact h (x :: before) y after (congrArg (x :: ·) hxs)
  · rintro ⟨hfirst, hlater⟩ before y after h
    cases before with
    | nil =>
        obtain ⟨rfl, -⟩ := List.cons.inj h
        exact hfirst
    | cons z before =>
        obtain ⟨rfl, hrest⟩ := List.cons.inj h
        exact hlater before y after hrest

namespace Request

variable {r : Request} {settings : Settings} {t : Timetable} {b : BannedTrip}
  {banned : List BannedTrip} {whole : List String}

/-- A table reaches the positions of every ban but those of trips that a ban before it
covers as a whole. -/
def HasFittingBans (r : Request) : Prop :=
  ∀ before b after, r.bannedTrips = before ++ b :: after →
    (∃ earlier ∈ before, earlier.coversTrip b.tripId = true)
      ∨ ∀ position ∈ b.positions, Index.hasEntry position = true

/-- One ban: its positions need a table if its trip is not banned as a whole by then. -/
theorem bannedBeyond?_cons_eq_none_iff : bannedBeyond? whole (b :: banned) = none ↔
    (b.tripId ∈ whole ∨ ∀ position ∈ b.positions, Index.hasEntry position = true)
      ∧ bannedBeyond? (if b.positions = [] then b.tripId :: whole else whole) banned = none := by
  rw [bannedBeyond?]
  by_cases hempty : b.positions = []
  · simp [hempty]
  · by_cases hwhole : b.tripId ∈ whole
    · simp [hempty, hwhole]
    · simp [hempty, hwhole, List.find?_eq_none]

/-- All of them: the trips banned as a whole are those given and those of the bans before. -/
theorem bannedBeyond?_eq_none_iff : bannedBeyond? whole banned = none ↔
    ∀ before b after, banned = before ++ b :: after →
      (b.tripId ∈ whole ∨ ∃ earlier ∈ before, earlier.coversTrip b.tripId = true)
        ∨ ∀ position ∈ b.positions, Index.hasEntry position = true := by
  induction banned generalizing whole with
  | nil => simp [bannedBeyond?]
  | cons b banned ih =>
      -- the trips banned as a whole after the first ban
      have hwhole : ∀ tripId : String,
          (tripId ∈ if b.positions = [] then b.tripId :: whole else whole) ↔
            tripId ∈ whole ∨ b.coversTrip tripId = true := by
        intro tripId
        split
        case isTrue hempty =>
          rw [List.mem_cons, or_comm, eq_comm]
          simp [BannedTrip.coversTrip, hempty]
        case isFalse hempty => simp [BannedTrip.coversTrip, hempty]
      rw [bannedBeyond?_cons_eq_none_iff, ih, forall_cut_cons]
      simp only [hwhole, List.exists_mem_cons_iff, List.not_mem_nil, false_and, exists_false,
        or_false, or_assoc]

theorem hasFittingBans_iff : r.HasFittingBans ↔ bannedBeyond? [] r.bannedTrips = none := by
  simp only [HasFittingBans, bannedBeyond?_eq_none_iff, List.not_mem_nil, false_or]

instance (r : Request) : Decidable r.HasFittingBans :=
  decidable_of_iff' _ hasFittingBans_iff

theorem beyond?_eq_none_iff {maxRounds : Nat} : r.beyond? maxRounds = none ↔
    r.HasFittingBans ∧ maxRounds < greatestNumRounds := by
  rw [beyond?, Option.or_eq_none_iff, hasFittingBans_iff, roundBeyond?]
  simp

/-- The stops that an accepted request does not want to use are stops of the timetable. -/
theorem lt_numStops_of_banned (h : r.fault? settings t = none) {stop : Nat}
    (hstop : stop ∈ r.bannedStops) : stop < t.numStops := by
  simp only [fault?, Option.or_eq_none_iff] at h
  obtain ⟨-, -, -, hbanned, -⟩ := h
  exact unknownStop?_eq_none (List.findSome?_eq_none_iff.mp hbanned stop hstop)

end Request

/-- An accepted request is answered exactly if its bans and its rounds fit into tables. -/
theorem Router.answered_iff {x : Router} {r : Request} {watch : Option Watch}
    {supervisor : Supervisor} {s : Search} (hx : x.Deployed)
    (h : x.search r watch supervisor = .ok s) :
    (∃ answer, x.routeWatched r watch supervisor = .ok answer) ↔
      r.HasFittingBans ∧ s.maxRounds < Request.greatestNumRounds := by
  rw [← Request.beyond?_eq_none_iff]
  constructor
  · rintro ⟨answer, hanswer⟩
    exact beyond?_of_answer h hanswer
  · intro hfits
    obtain ⟨status, p, its, -, -, hroute, -⟩ := answered_of_search hx h hfits
    exact ⟨_, hroute⟩

/-- A trip is accepted where nothing forbids it: it runs and calls there, the stop is not
banned, it takes what has to be taken along, and no ban of the list covers it. A search has
the filter of its request, with stops of its timetable only; it is answered exactly if the
bans, in their order, and the rounds fit into tables. -/
theorem TripFilter.accepts_iff_unbanned (r : Request) :
    (∀ (trip : Trip) (position stop : Nat), (ofRequest r).accepts trip position stop = true ↔
      trip.isCanceled = false ∧ trip.isCancelledAt position = false ∧ stop ∉ r.bannedStops
        ∧ (r.wheelchair = true → trip.details.wheelchair = .allowed)
        ∧ (r.bikes = true → trip.details.bikes = .allowed)
        ∧ ∀ b ∈ r.bannedTrips, b.tripId = trip.details.tripId →
            b.positions ≠ [] ∧ position ∉ b.positions)
      ∧ ∀ (x : Router) (watch : Option Watch) (supervisor : Supervisor) (s : Search),
          x.Deployed → x.search r watch supervisor = .ok s →
            s.filter = ofRequest r ∧ (∀ stop ∈ r.bannedStops, stop < x.timetable.numStops)
              ∧ ((∃ answer, x.routeWatched r watch supervisor = .ok answer) ↔
                r.HasFittingBans ∧ s.maxRounds < Request.greatestNumRounds) := by
  constructor
  · intro trip position stop
    rw [accepts_ofRequest]
    constructor
    · rintro ⟨hruns, hpermits⟩
      exact ⟨hruns, hpermits.called, hpermits.stop, hpermits.wheelchair, hpermits.bikes,
        hpermits.bans⟩
    · rintro ⟨hruns, hcalled, hstop, hwheelchair, hbikes, hbans⟩
      exact ⟨hruns, hcalled, hstop, hbans, hwheelchair, hbikes⟩
  · intro x watch supervisor s hx hsearch
    obtain ⟨haccepted, dates, -, hs⟩ := Router.search_eq_ok_iff.mp hsearch
    refine ⟨congrArg Search.filter hs, fun stop hstop => ?_, Router.answered_iff hx hsearch⟩
    exact Request.lt_numStops_of_banned haccepted hstop

namespace ThreeLines

/-- Bans of one line at some calls, and of another one as a whole and at the last index. -/
def mixed : Request :=
  { request with bannedTrips :=
      [⟨"x", [5, 0]⟩, ⟨"d", []⟩, ⟨"d", [Index.count - 1]⟩, ⟨"x", [0, 1]⟩] }

end ThreeLines

theorem TripFilter.threeLines_mixed : ∃ s,
    ThreeLines.router.search ThreeLines.mixed none {} = .ok s
    ∧ (∃ answer, ThreeLines.router.routeWatched ThreeLines.mixed none {} = .ok answer)
    ∧ ∀ trip position stop, s.filter.accepts trip position stop = true →
        trip.details.tripId ≠ "d"
          ∧ (trip.details.tripId = "x" → position ≠ 0 ∧ position ≠ 1 ∧ position ≠ 5) := by
  have hany : (ThreeLines.router.search ThreeLines.mixed none {}).toOption.any
      (fun s => decide (s.maxRounds < Request.greatestNumRounds)) = true := by decide +kernel
  obtain ⟨s, hsearch, hrounds⟩ := Fallible.any_toOption.mp hany
  obtain ⟨haccepts, hsearched⟩ := accepts_iff_unbanned ThreeLines.mixed
  obtain ⟨hfilter, -, hanswered⟩ := hsearched _ none {} s ThreeLines.router_deployed hsearch
  have hfits : ThreeLines.mixed.HasFittingBans := by decide +kernel
  refine ⟨s, hsearch, hanswered.mpr ⟨hfits, of_decide_eq_true hrounds⟩, ?_⟩
  intro trip position stop h
  rw [hfilter, haccepts] at h
  obtain ⟨-, -, -, -, -, hbans⟩ := h
  refine ⟨fun hid => ?_, fun hid => ?_⟩
  · exact (hbans ⟨"d", []⟩ (by decide +kernel) hid.symm).1 rfl
  · have hsome := (hbans ⟨"x", [5, 0]⟩ (by decide +kernel) hid.symm).2
    have hothers := (hbans ⟨"x", [0, 1]⟩ (by decide +kernel) hid.symm).2
    simp only [List.mem_cons, List.not_mem_nil, or_false, not_or] at hsome hothers
    exact ⟨hsome.2, hothers.2, hsome.1⟩

namespace ThreeLines

/-- Without one line, which is banned as a whole and then at the last index. -/
def withoutDirect : Request :=
  { request with bannedTrips := [⟨"d", []⟩, ⟨"d", [Index.count - 1]⟩] }

/-- The same bans in the other order. -/
def withoutDirectReordered : Request :=
  { withoutDirect with bannedTrips := withoutDirect.bannedTrips.reverse }

end ThreeLines

/-- The same bans leave an answer in one order and none in the other. -/
theorem Router.reorderedBans_unanswered :
    (ThreeLines.router.routeWatched ThreeLines.withoutDirect none {}).toOption.map
        (fun answer => answer.1.itineraries.map (·.departureTime)) = some [60]
      ∧ ThreeLines.router.routeWatched ThreeLines.withoutDirectReordered none {}
        = .error (.internal (.tooLarge (Index.count - 1))) := by
  have hsome : (ThreeLines.router.search ThreeLines.withoutDirectReordered none
      {}).toOption.isSome = true := by decide +kernel
  obtain ⟨s, hsearch⟩ := Option.isSome_iff_exists.mp hsome
  refine ⟨by decide +kernel, routeWatched_of_beyond (Fallible.toOption_eq_some.mp hsearch) ?_⟩
  have hbanned : Request.bannedBeyond? [] ThreeLines.withoutDirectReordered.bannedTrips
      = some (Index.count - 1) := by decide +kernel
  rw [Request.beyond?, hbanned]
  rfl

end JourneyPlanner
