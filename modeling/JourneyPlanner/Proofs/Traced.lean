import JourneyPlanner.Proofs.Chart

/-!
How ways come about. Every way of a chart begins with a street leg and goes on
with trips that were caught and left and with walks after trips; every journey
goes on from a way by a trip.
-/

namespace JourneyPlanner

namespace Heading

/-- The order in which a trip comes to positions in search direction. -/
def Precedes (h : Heading) (i j : Nat) : Prop :=
  match h.direction with
  | .forward => i < j
  | .reverse => j < i

theorem Precedes.trans {h : Heading} {i j k : Nat} (hij : h.Precedes i j) (hjk : h.Precedes j k) :
    h.Precedes i k := by
  unfold Precedes at *
  cases hd : h.direction <;> simp only [hd] at hij hjk ⊢ <;> omega

theorem precedes_irrefl (h : Heading) (i : Nat) : ¬ h.Precedes i i := by
  unfold Precedes
  cases h.direction <;> simp

theorem pairwise_inOrder (h : Heading) (stops : List Nat) :
    (h.inOrder stops).Pairwise fun e f => h.Precedes e.2 f.2 := by
  have hzip : stops.zipIdx.Pairwise fun e f => e.2 < f.2 := by
    rw [List.pairwise_iff_getElem]
    intro i j hi hj hij
    simpa using hij
  unfold inOrder Precedes
  cases h.direction with
  | forward => exact hzip
  | reverse => exact List.pairwise_reverse.mpr hzip

theorem mem_inOrder {h : Heading} {stops : List Nat} {stop position : Nat} :
    (stop, position) ∈ h.inOrder stops ↔ stops[position]? = some stop := by
  unfold inOrder
  cases h.direction with
  | forward => exact List.mk_mem_zipIdx_iff_getElem?
  | reverse => rw [List.mem_reverse, List.mk_mem_zipIdx_iff_getElem?]

end Heading

namespace Search

/-- A way was followed to a stop of a pattern, and a trip was caught there. -/
structure Catches (s : Search) (v : PatternView) (w : Way) (b : Boarding) : Prop where
  view : v ∈ s.viewList
  stop : v.stops[b.position]? = some w.arrival.stop
  caught : s.caught? v (w.arrival.round + 1) b.position w = some (w, b)

end Search

/-- Ways that begin at one of the given times. -/
inductive Way.Traced (s : Search) (times : List Time) : Way → Prop where
  | begin {leg : StreetLeg} {time : Time} (iteration : Nat) (hleg : leg ∈ s.origin)
      (htime : time ∈ times) : Way.Traced s times ⟨s.originArrival time iteration leg, []⟩
  | ride {w : Way} {v : PatternView} {b : Search.Boarding} {position stop iteration : Nat}
      {a : StopArrival} (hw : w.Traced s times) (hb : s.Catches v w b)
      (hstop : v.stops[position]? = some stop) (horder : s.heading.Precedes b.position position)
      (hleft : s.left? v (w.arrival.round + 1) position stop iteration b = some a) :
      Way.Traced s times (w.extend a)
  | walk {w : Way} {k : Transfer} (hw : w.Traced s times) (hride : w.arrival.isTransit = true)
      (hk : k ∈ s.heading.walks s.timetable w.arrival.stop) :
      Way.Traced s times (w.extend (s.walkArrival 0 w.arrival k))

theorem Way.Traced.mono {s : Search} {times times' : List Time} (h : times ⊆ times') {w : Way}
    (hw : w.Traced s times) : w.Traced s times' := by
  induction hw with
  | begin iteration hleg htime => exact .begin iteration hleg (h htime)
  | ride hw hb hstop horder hleft ih => exact .ride ih hb hstop horder hleft
  | walk hw hride hk ih => exact .walk ih hride hk

namespace Search

variable {s : Search} {v : PatternView} {round position stop iteration : Nat} {b : Boarding}
  {a : StopArrival}

/-- What leaving a trip looks at. -/
theorem left?_eq_some (h : s.left? v round position stop iteration b = some a) :
    ∃ trip call boardCall, PatternView.tripIn? v.days b.trip = some trip
      ∧ trip.calls[position]? = some call ∧ trip.calls[b.position]? = some boardCall
      ∧ (s.heading.alightRule call).isRoutable = true
      ∧ s.filter.accepts trip.trip position stop = true
      ∧ a = s.alightArrival v round position stop iteration b boardCall call := by
  unfold left? at h
  simp only [Option.bind_eq_bind, Option.bind_eq_some_iff, Option.ite_none_right_eq_some,
    Bool.and_eq_true, Option.some_inj] at h
  obtain ⟨trip, htrip, call, hcall, boardCall, hboard, ⟨hrule, haccepts⟩, rfl⟩ := h
  exact ⟨trip, call, boardCall, htrip, hcall, hboard, hrule, haccepts, rfl⟩

theorem left?_round (h : s.left? v round position stop iteration b = some a) :
    a.round = round ∧ a.stop = stop ∧ a.iteration = iteration ∧ a.isTransit = true := by
  obtain ⟨-, -, -, -, -, -, -, -, rfl⟩ := left?_eq_some h
  exact ⟨rfl, rfl, rfl, rfl⟩

theorem caught?_way {w : Way} {e : Way × Boarding} (h : s.caught? v round position w = some e) :
    e.1 = w := by
  unfold caught? at h
  rw [Option.map_eq_some_iff] at h
  obtain ⟨_, -, rfl⟩ := h
  rfl

/-- What catching a trip looks at. -/
theorem caught?_eq_some {w : Way} (h : s.caught? v round position w = some (w, b)) :
    ∃ c, v.findBoarding s.heading s.filter position (s.heading.boardLimit w.arrival.time)
        = .ok (some c) ∧
      b = { previous := 0, trip := c.index, position := position
            cost := Cost.plus w.arrival.cost (s.boardingCost w.arrival c.time round)
            originTime := s.originTimeOf w.arrival c.time } := by
  unfold caught? board at h
  simp only [Option.map_eq_some_iff, Prod.mk.injEq, true_and, exists_eq_right] at h
  cases hf : v.findBoarding s.heading s.filter position (s.heading.boardLimit w.arrival.time) with
  | error e => simp [hf, Except.toOption, bind, Except.bind] at h
  | ok found =>
      cases found with
      | none => simp [hf, Except.toOption, bind, Except.bind, pure, Except.pure] at h
      | some c =>
          simp [hf, Except.toOption, bind, Except.bind, pure, Except.pure] at h
          exact ⟨c, rfl, h.symm⟩

theorem caught?_position {w : Way} (h : s.caught? v round position w = some (w, b)) :
    b.position = position := by
  obtain ⟨_, -, rfl⟩ := caught?_eq_some h
  rfl

end Search

/-- A way by a trip has rides. -/
theorem Way.Traced.round_pos {s : Search} {times : List Time} {w : Way} (hw : w.Traced s times)
    (hride : w.arrival.isTransit = true) : 0 < w.arrival.round := by
  cases hw with
  | begin iteration hleg htime => simp [StopArrival.isTransit, Search.originArrival] at hride
  | ride hw hb hstop horder hleft =>
      have hround := (Search.left?_round hleft).1
      simp [Way.extend, StopArrival.unlinked, hround]
  | walk hw hride' hk =>
      simp [Way.extend, StopArrival.unlinked, StopArrival.isTransit, Search.walkArrival] at hride

end JourneyPlanner
