import JourneyPlanner.Proofs.Reaching
import JourneyPlanner.Proofs.Riding

/-!
Going along a pattern covers every ride after a way that was followed there, when no
trip of the pattern goes further, or is there earlier, than one that is caught before it.
-/

namespace JourneyPlanner

theorem TripFilter.allowsStop_of_accepts {f : TripFilter} {trip : Trip} {position stop : Nat}
    (h : f.accepts trip position stop = true) : f.allowsStop stop = true := by
  simp only [accepts, Bool.and_eq_true] at h
  exact h.1.1.2

namespace Search

/-- A trip of a view that may be caught at a call. -/
structure Boards (s : Search) (v : PatternView) (d : DayTrip) (i stop : Nat) (call : Call) : Prop where
  view : v ∈ s.viewList
  trip : ∃ index, PatternView.tripIn? v.days index = some d
  stands : v.stops[i]? = some stop ∧ d.calls[i]? = some call
  allowed : (s.heading.boardRule call).isRoutable = true ∧ s.filter.accepts d.trip i stop = true

/-- A trip goes on, in search direction, from where it may be caught to where it may
be left. -/
structure Goes (s : Search) (v : PatternView) (d : DayTrip) (i stop j stop' : Nat)
    (boardCall call : Call) : Prop where
  caught : s.Boards v d i stop boardCall
  order : s.heading.Precedes i j
  leaves : v.stops[j]? = some stop' ∧ d.calls[j]? = some call
  allowed : (s.heading.alightRule call).isRoutable = true ∧ s.filter.accepts d.trip j stop' = true

/-- Whoever catches a trip no later than another one can leave it wherever one can leave
the other one, and no later. -/
structure IsOrderly (s : Search) : Prop where
  inTurn : ∀ {v : PatternView} {d d' : DayTrip} {i stop j stop' : Nat}
    {boardCall boardCall' call : Call},
    s.Goes v d i stop j stop' boardCall call → s.Boards v d' i stop boardCall' →
      s.heading.betterOrEqual (s.heading.boardTime boardCall') (s.heading.boardTime boardCall) = true →
        ∃ call', s.Goes v d' i stop j stop' boardCall' call'
          ∧ s.heading.betterOrEqual (s.heading.alightTime call') (s.heading.alightTime call) = true

variable {s : Search} {v : PatternView} {d : DayTrip} {i stop j stop' : Nat}
  {boardCall call : Call} {w : Way} {round : Nat}

theorem Rides.goes {b : Boarding} {position : Nat} {a : StopArrival}
    (hr : s.Rides v w b position a d boardCall call) (hb : s.Catches v w b)
    (hstop : v.stops[position]? = some a.stop) (horder : s.heading.Precedes b.position position) :
    s.Goes v d b.position w.arrival.stop position a.stop boardCall call :=
  ⟨⟨hb.view, ⟨b.trip, hr.trip⟩, ⟨hb.stop, hr.boards⟩, hr.boardRule, hr.boardAccepted⟩, horder,
    ⟨hstop, hr.leaves⟩, hr.alightRule, hr.alightAccepted⟩

theorem caught?_of_findBoarding {c : Catchable}
    (h : v.findBoarding s.heading s.filter i (s.heading.boardLimit w.arrival.time) = .ok (some c)) :
    ∃ b, s.caught? v round i w = some (w, b) ∧ b.trip = c.index ∧ b.position = i := by
  refine ⟨{ previous := 0, trip := c.index, position := i
            cost := Cost.plus w.arrival.cost (s.boardingCost w.arrival c.time round)
            originTime := s.originTimeOf w.arrival c.time }, ?_, rfl, rfl⟩
  simp only [caught?, board, h, bind, Except.bind, pure, Except.pure, Except.toOption,
    Option.join_some, Option.map_some]

/-- After a way the trip that is caught is no worse than any trip that could be. -/
theorem caught_and_left (hs : s.WellFormed) (ho : s.IsOrderly)
    (hgo : s.Goes v d i w.arrival.stop j stop' boardCall call)
    (hlimit : s.heading.betterOrEqual (s.heading.boardLimit w.arrival.time)
      (s.heading.boardTime boardCall) = true) (iteration : Nat) :
    ∃ b a, s.caught? v round i w = some (w, b) ∧ b.position = i
      ∧ s.left? v round j stop' iteration b = some a ∧ a.stop = stop' ∧ a.round = round
      ∧ s.heading.betterOrEqual a.time (s.heading.alightTime call) = true := by
  obtain ⟨hview, ⟨index, hd⟩, ⟨hi, hcall⟩, hrule, haccepts⟩ := hgo.caught
  have hsize : i < v.stops.size := (Array.getElem?_eq_some_iff.mp hi).1
  have hcalls : ∀ e ∈ v.schedules, i < e.1.calls.size := by
    rintro ⟨e, k⟩ he
    rwa [(hs.complete v hview k e (mem_schedules.mp he)).1]
  have hfind : ∃ found, v.findBoarding s.heading s.filter i
      (s.heading.boardLimit w.arrival.time) = .ok found :=
    PatternView.findBoarding_succeeds hsize hcalls
  obtain ⟨found, hfound⟩ := hfind
  obtain ⟨boardStop, hstop, hfacts, hbest⟩ := PatternView.findBoarding_eq_ok hfound
  obtain rfl : w.arrival.stop = boardStop := Option.some.inj (hi.symm.trans hstop)
  obtain ⟨c, rfl, hbetter⟩ := hbest (d, index) (mem_schedules.mpr hd) boardCall
    ⟨hcall, hlimit, hrule, haccepts⟩
  obtain ⟨hmem, boardCall', hcatch, htime⟩ := hfacts c rfl
  have hc := mem_schedules.mp hmem
  obtain ⟨call', hgo', halight⟩ := ho.inTurn hgo
    ⟨hview, ⟨c.index, hc⟩, ⟨hi, hcatch.stands⟩, hcatch.routable, hcatch.accepted⟩ (htime ▸ hbetter)
  obtain ⟨b, hb, hindex, hposition⟩ :
      ∃ b, s.caught? v round i w = some (w, b) ∧ b.trip = c.index ∧ b.position = i :=
    caught?_of_findBoarding hfound
  refine ⟨b, s.alightArrival v round j stop' iteration b boardCall' call', hb, hposition,
    ?_, rfl, rfl, halight⟩
  simp only [left?, hindex, hposition, hc, hgo'.leaves.2, hcatch.stands, hgo'.allowed.1,
    hgo'.allowed.2, Option.bind_eq_bind, Option.bind_some, Bool.and_self, if_true]

end Search

/-- A journey leaves the origin no earlier than its iteration begins. -/
theorem Way.Traced.originTime_better {s : Search} (hx : s.heading.IsExact) {times : List Time}
    {w : Way} (h : w.Traced s times) {start : Time}
    (hstart : ∀ time ∈ times, s.heading.betterOrEqual start time = true) :
    s.heading.betterOrEqual start w.arrival.originTime = true := by
  have hboth : s.heading.betterOrEqual start w.arrival.originTime = true
      ∧ ∀ duration, w.arrival.kind = .access duration →
        ∃ time ∈ times, w.arrival.time = s.heading.advance time duration := by
    induction h with
    | @begin leg time iteration hleg htime =>
        refine ⟨hstart time htime, fun duration hkind => ⟨time, htime, ?_⟩⟩
        obtain rfl : leg.duration = duration := ArrivalKind.access.inj hkind
        rfl
    | ride hw hb hstop horder hleft ih =>
        obtain ⟨d, boardCall, call, hr⟩ := Search.rides_of_left? hb hleft
        obtain ⟨-, -, -, htransit⟩ := Search.left?_round hleft
        refine ⟨?_, fun duration hkind => ?_⟩
        · simp only [extend, StopArrival.unlinked, hr.originTime, Search.originTimeOf]
          split
          case h_1 duration hkind =>
            obtain ⟨time, htime, hreached⟩ := ih.2 duration hkind
            have hinTime := hr.inTime
            rw [hreached] at hinTime
            exact s.heading.betterOrEqual_trans (hstart time htime)
              (Heading.originTime_better hx hinTime)
          case h_2 => exact ih.1
        · simp [extend, StopArrival.unlinked, hr.kind] at hkind
    | walk hw hride hk ih =>
        refine ⟨ih.1, fun duration hkind => ?_⟩
        simp [extend, StopArrival.unlinked, Search.walkArrival] at hkind
  exact hboth.1

namespace Chart

variable {s : Search} {c : Chart} {v : PatternView} {n : Nat} {start : Time}

theorem agreeBut_alight (c : Chart) (v : PatternView) (n position stop : Nat)
    (b : Way × Search.Boarding) : AgreeBut n c (c.alight s v n position stop b) := by
  unfold alight
  split
  case h_1 a ha =>
    have hframe := agreeBut_settle (s := s) (c := c) (b.1.extend a)
    exact (Search.left?_round ha).1 ▸ hframe
  case h_2 => exact .refl n c

theorem agreeBut_alightAll (c : Chart) (v : PatternView) (n position stop : Nat)
    (onboard : List (Way × Search.Boarding)) :
    AgreeBut n c (onboard.foldl (fun c b => c.alight s v n position stop b) c) :=
  List.foldlRecOn onboard _ (motive := fun c' => AgreeBut n c c') (.refl n c) fun c' hc' b _ =>
    hc'.trans (agreeBut_alight c' v n position stop b)

theorem agreeBut_scanStop (v : PatternView) (n : Nat) (state : Chart × List (Way × Search.Boarding))
    (entry : Nat × Nat) : AgreeBut n state.1 (scanStop s v n state entry).1 := by
  unfold scanStop
  split
  · exact agreeBut_alightAll state.1 v n entry.2 entry.1 state.2
  · exact .refl n state.1

theorem agreeBut_scan (c : Chart) (n : Nat) (v : PatternView) : AgreeBut n c (c.scan s n v) := by
  have hnone : AgreeBut n c (c, ([] : List (Way × Search.Boarding))).1 := .refl n c
  refine List.foldlRecOn (s.heading.inOrder v.stops.toList) (scanStop s v n)
    (motive := fun state => AgreeBut n c state.1) hnone ?_
  exact fun state hstate entry _ => hstate.trans (agreeBut_scanStop v n state entry)

variable {state : Chart × List (Way × Search.Boarding)}

theorem mem_scanStop_of_mem {b : Way × Search.Boarding} (hb : b ∈ state.2) (entry : Nat × Nat) :
    b ∈ (scanStop s v n state entry).2 := by
  unfold scanStop
  split
  · exact List.mem_append_left _ hb
  · exact hb

theorem mem_scanStop_of_caught {stop position : Nat} (hstop : s.filter.allowsStop stop = true)
    (hn : 0 < n) {w : Way} (hw : w ∈ state.1.fresh (n - 1) stop) {b : Way × Search.Boarding}
    (hb : s.caught? v n position w = some b) :
    b ∈ (scanStop s v n state (stop, position)).2 := by
  rw [scanStop, if_pos hstop]
  refine List.mem_append_right _ (List.mem_filterMap.mpr ⟨w, ?_, hb⟩)
  rw [fresh_of_agreeBut (agreeBut_alightAll state.1 v n position stop state.2) (by omega)]
  exact hw

/-- A trip that is left at a stop covers it. -/
theorem covers_scanStop {stop position : Nat} (hstop : s.filter.allowsStop stop = true)
    {b : Way × Search.Boarding} (hb : b ∈ state.2) {a : StopArrival}
    (ha : s.left? v n position stop state.1.iteration b.2 = some a)
    (hstart : s.heading.betterOrEqual start a.originTime = true) :
    (scanStop s v n state (stop, position)).1.Covers s start a.round a.stop a.time := by
  rw [scanStop, if_pos hstop]
  obtain ⟨before, after, hsplit⟩ := List.append_of_mem hb
  simp only [hsplit, List.foldl_append, List.foldl_cons]
  refine (Improves.foldl (fun c b _ => improves_alight c v n position stop b) _).covers ?_
  have hiteration := (agreeBut_alightAll (s := s) state.1 v n position stop before).iteration
  rw [alight, hiteration, ha]
  exact covers_settle _ (b.1.extend a) hstart

/-- Trips on board are left at every stop to come. -/
theorem covers_scanStops {entries : List (Nat × Nat)} {stop position : Nat}
    (hentry : (stop, position) ∈ entries) (hstop : s.filter.allowsStop stop = true)
    {b : Way × Search.Boarding} (hb : b ∈ state.2) {a : StopArrival}
    (ha : s.left? v n position stop state.1.iteration b.2 = some a)
    (hstart : s.heading.betterOrEqual start a.originTime = true) :
    (entries.foldl (scanStop s v n) state).1.Covers s start a.round a.stop a.time := by
  induction entries generalizing state with
  | nil => simp at hentry
  | cons entry entries ih =>
      rw [List.foldl_cons]
      cases hentry with
      | head => exact (improves_scanStops v n entries _).covers (covers_scanStop hstop hb ha hstart)
      | tail _ hentry =>
          refine ih hentry (mem_scanStop_of_mem hb entry) ?_
          rwa [(agreeBut_scanStop v n state entry).iteration]

/-- A trip caught after a fresh way is left at every later stop. -/
theorem covers_scanStops_of_fresh {entries : List (Nat × Nat)}
    (hpairs : entries.Pairwise fun e f => s.heading.Precedes e.2 f.2) {stop i stop' j : Nat}
    (hi : (stop, i) ∈ entries) (hj : (stop', j) ∈ entries) (hij : s.heading.Precedes i j)
    (hstop : s.filter.allowsStop stop = true) (hstop' : s.filter.allowsStop stop' = true)
    (hn : 0 < n) {w : Way} (hw : w ∈ state.1.fresh (n - 1) stop) {b : Search.Boarding}
    (hb : s.caught? v n i w = some (w, b)) {a : StopArrival}
    (ha : s.left? v n j stop' state.1.iteration b = some a)
    (hstart : s.heading.betterOrEqual start a.originTime = true) :
    (entries.foldl (scanStop s v n) state).1.Covers s start a.round a.stop a.time := by
  induction entries generalizing state with
  | nil => simp at hi
  | cons entry entries ih =>
      rw [List.pairwise_cons] at hpairs
      have hframe := agreeBut_scanStop (s := s) v n state entry
      have ha' : s.left? v n j stop' (scanStop s v n state entry).1.iteration b = some a := by
        rwa [hframe.iteration]
      rw [List.foldl_cons]
      cases hi with
      | head =>
          cases List.mem_cons.mp hj with
          | inl heq =>
              obtain ⟨-, rfl⟩ := Prod.mk.inj heq
              exact absurd hij (Heading.precedes_irrefl _ _)
          | inr hj =>
              exact covers_scanStops hj hstop' (mem_scanStop_of_caught hstop hn hw hb) ha' hstart
      | tail _ hi' =>
          cases hj with
          | head =>
              have hji := hpairs.1 (stop, i) hi'
              exact absurd (hij.trans hji) (Heading.precedes_irrefl _ _)
          | tail _ hj =>
              refine ih hpairs.2 hi' hj ?_ ha'
              rwa [fresh_of_agreeBut hframe (by omega)]

/-- An arrival from which every ride of the views is covered. -/
def Ridden (s : Search) (c : Chart) (start : Time) (round : Nat) (a : StopArrival) : Prop :=
  ∀ (v : PatternView) (d : DayTrip) (i j stop : Nat) (boardCall call : Call),
    s.Goes v d i a.stop j stop boardCall call →
      s.heading.betterOrEqual (s.heading.boardLimit a.time) (s.heading.boardTime boardCall) = true →
        c.Covers s start (round + 1) stop (s.heading.alightTime call)

theorem Ridden.improves {c c' : Chart} (h : Improves s c c') {round : Nat} {a : StopArrival}
    (ha : Ridden s c start round a) : Ridden s c' start round a :=
  fun v d i j stop boardCall call hgo hlimit => h.covers (ha v d i j stop boardCall call hgo hlimit)

/-- Every fresh way is followed along all patterns. -/
theorem ridden_transit (hs : s.WellTimed) (ho : s.IsOrderly) {times : List Time}
    (hstart : ∀ time ∈ times, s.heading.betterOrEqual start time = true) (hn : 0 < n)
    (h : c.Sound s times) {w : Way} {stop : Nat} (hw : w ∈ c.fresh (n - 1) stop) :
    Ridden s (c.transit s n) start (n - 1) w.arrival := by
  intro v d i j stop' boardCall call hgo hlimit
  obtain ⟨hmem, hnow⟩ := List.mem_filter.mp hw
  obtain ⟨hround, rfl⟩ := h.placed hmem
  obtain ⟨n, rfl⟩ : ∃ m, n = m + 1 := ⟨n - 1, by omega⟩
  obtain rfl : w.arrival.round = n := hround
  obtain ⟨b, a, hb, rfl, ha, rfl, haround, htime⟩ :=
    Search.caught_and_left hs.toWellFormed ho hgo hlimit c.iteration
  have htraced : (w.extend a).Traced s times :=
    .ride (h.traced hmem) ⟨hgo.caught.view, hgo.caught.stands.1, hb⟩ hgo.leaves.1 hgo.order ha
  obtain ⟨before, after, hsplit⟩ := List.append_of_mem hgo.caught.view
  have hframe : AgreeBut (w.arrival.round + 1) c
      (before.foldl (fun c v => c.scan s (w.arrival.round + 1) v) c) := by
    refine List.foldlRecOn before _ (motive := AgreeBut _ c) (.refl _ c) ?_
    exact fun c' hc' v _ => hc'.trans (agreeBut_scan c' _ v)
  have hboard : (w.arrival.stop, b.position) ∈ s.heading.inOrder v.stops.toList :=
    Heading.mem_inOrder.mpr (by simpa using hgo.caught.stands.1)
  have hleave : (a.stop, j) ∈ s.heading.inOrder v.stops.toList :=
    Heading.mem_inOrder.mpr (by simpa using hgo.leaves.1)
  have hcovers : ((before.foldl (fun c v => c.scan s (w.arrival.round + 1) v) c).scan s
      (w.arrival.round + 1) v).Covers s start a.round a.stop a.time := by
    refine covers_scanStops_of_fresh (s.heading.pairwise_inOrder _) hboard hleave hgo.order
      (TripFilter.allowsStop_of_accepts hgo.caught.allowed.2)
      (TripFilter.allowsStop_of_accepts hgo.allowed.2) hn ?_ hb ?_
      (htraced.originTime_better hs.exact hstart)
    · rwa [fresh_of_agreeBut hframe (by omega)]
    · rwa [hframe.iteration]
  rw [transit, hsplit, List.foldl_append, List.foldl_cons]
  refine (Improves.foldl (fun c v _ => improves_scan c _ v) _).covers ?_
  exact hcovers.weaken hs.exact (s.heading.betterOrEqual_refl _) (by omega) htime

end Chart
end JourneyPlanner
