import JourneyPlanner.Proofs.Riding
import JourneyPlanner.Search.Path

/-!
The way to a destination as a tour in the order of time: rides with at most one
walk between them, each caught in time as long as sums of times are exact. A search in
reverse finds the same tours, from their ends.
-/

namespace JourneyPlanner
namespace Search

/-- Hops from a stop at a time, after a street leg or a ride, to a stop and a time. -/
inductive Tour (s : Search) : Nat → Time → List Hop → Nat → Time → Prop where
  | done (stop : Nat) (time : Time) : Tour s stop time [] stop time
  | ride {pattern fromStop board toStop alight stop : Nat} {d : DayTrip} {boardCall alightCall : Call}
      {time arrival : Time} {hops : List Hop}
      (hr : s.Rideable pattern d fromStop board toStop alight boardCall alightCall)
      (htime : s.heading.IsExact → time + s.heading.boardSlack ≤ boardCall.departure)
      (rest : Tour s toStop alightCall.arrival hops stop arrival) :
      Tour s fromStop time (.ride pattern d fromStop board toStop alight :: hops) stop arrival
  | walk {start pattern fromStop board toStop alight stop : Nat} {d : DayTrip}
      {boardCall alightCall : Call} {time arrival duration : Time} {hops : List Hop}
      (hk : ⟨fromStop, duration⟩ ∈ s.timetable.transfersFrom start)
      (hr : s.Rideable pattern d fromStop board toStop alight boardCall alightCall)
      (htime : s.heading.IsExact →
        time + duration + s.heading.boardSlack ≤ boardCall.departure)
      (rest : Tour s toStop alightCall.arrival hops stop arrival) :
      Tour s start time
        (.walk start fromStop duration :: .ride pattern d fromStop board toStop alight :: hops)
        stop arrival

/-- The first hop is a ride that departs at the given time. -/
def DepartsAt (hops : List Hop) (departure : Time) : Prop :=
  ∃ pattern d fromStop board toStop alight rest call,
    hops = .ride pattern d fromStop board toStop alight :: rest
      ∧ d.calls[board]? = some call ∧ call.departure = departure

namespace Tour

variable {s : Search} {start stop pattern fromStop board toStop alight : Nat} {d : DayTrip}
  {boardCall alightCall : Call} {time time' arrival duration : Time} {hops : List Hop}

/-- Who is there earlier can make the same hops. -/
theorem earlier (h : s.Tour start time hops stop arrival)
    (ht : s.heading.IsExact → time' ≤ time) (hne : hops ≠ []) :
    s.Tour start time' hops stop arrival := by
  cases h with
  | done => exact absurd rfl hne
  | ride hr htime rest => exact .ride hr (fun hx => by grind) rest
  | walk hk hr htime rest => exact .walk hk hr (fun hx => by grind) rest

theorem snoc_ride (h : s.Tour start time hops fromStop arrival)
    (hr : s.Rideable pattern d fromStop board toStop alight boardCall alightCall)
    (htime : s.heading.IsExact → arrival + s.heading.boardSlack ≤ boardCall.departure) :
    s.Tour start time (hops ++ [.ride pattern d fromStop board toStop alight]) toStop
      alightCall.arrival := by
  generalize hstop : fromStop = stop at h
  induction h with
  | done stop time =>
      subst hstop
      exact .ride hr htime (.done ..)
  | ride hr' htime' rest ih => exact .ride hr' htime' (ih htime hstop)
  | walk hk hr' htime' rest ih => exact .walk hk hr' htime' (ih htime hstop)

theorem snoc_walk (h : s.Tour start time hops stop arrival)
    (hk : ⟨fromStop, duration⟩ ∈ s.timetable.transfersFrom stop)
    (hr : s.Rideable pattern d fromStop board toStop alight boardCall alightCall)
    (htime : s.heading.IsExact →
      arrival + duration + s.heading.boardSlack ≤ boardCall.departure) :
    s.Tour start time
      (hops ++ [.walk stop fromStop duration, .ride pattern d fromStop board toStop alight])
      toStop alightCall.arrival := by
  induction h with
  | done stop time => exact .walk hk hr htime (.done ..)
  | ride hr' htime' rest ih => exact .ride hr' htime' (ih hk htime)
  | walk hk' hr' htime' rest ih => exact .walk hk' hr' htime' (ih hk htime)

end Tour

theorem DepartsAt.append {hops : List Hop} {departure : Time} (h : DepartsAt hops departure)
    (more : List Hop) : DepartsAt (hops ++ more) departure := by
  obtain ⟨pattern, d, fromStop, board, toStop, alight, rest, call, rfl, hcall⟩ := h
  exact ⟨pattern, d, fromStop, board, toStop, alight, rest ++ more, call, rfl, hcall⟩

theorem DepartsAt.ne_nil {hops : List Hop} {departure : Time} (h : DepartsAt hops departure) :
    hops ≠ [] := by
  obtain ⟨pattern, d, fromStop, board, toStop, alight, rest, call, rfl, -⟩ := h
  exact List.cons_ne_nil _ _

theorem firstDeparture_of_departsAt {hops : List Hop} {departure : Time}
    (h : DepartsAt hops departure) (stop : Nat) : firstDeparture stop hops = .ok departure := by
  obtain ⟨pattern, d, fromStop, board, toStop, alight, rest, call, rfl, hcall, rfl⟩ := h
  simp [firstDeparture, DayTrip.call, hcall, bind, Except.bind, pure, Except.pure]

section Hops

variable {hop : StopArrival → StopArrival → Except InternalFault Hop} {x y : StopArrival} {h : Hop}

theorem hopsBetween_snoc {xs : List StopArrival} {hops : List Hop}
    (hxs : hopsBetween hop (xs ++ [x]) = .ok hops) (hh : hop x y = .ok h) :
    hopsBetween hop (xs ++ [x, y]) = .ok (hops ++ [h]) := by
  induction xs generalizing hops with
  | nil =>
      simp only [List.nil_append, hopsBetween, Except.ok.injEq] at hxs
      subst hxs
      simp [hopsBetween, hh, bind, Except.bind, pure, Except.pure]
  | cons z xs ih =>
      obtain ⟨z', rest, hrest⟩ : ∃ z' rest, xs ++ [x] = z' :: rest := by
        cases xs with
        | nil => exact ⟨x, [], rfl⟩
        | cons z' xs => exact ⟨z', xs ++ [x], rfl⟩
      have hrest' : xs ++ [x, y] = z' :: (rest ++ [y]) := by
        rw [← List.cons_append, ← hrest, List.append_assoc]
        rfl
      rw [List.cons_append, hrest] at hxs
      rw [hrest'] at ih
      rw [List.cons_append, hrest']
      simp only [hopsBetween, Fallible.bind_eq_ok, Fallible.pure_eq_ok] at hxs ⊢
      obtain ⟨first, hfirst, others, hothers, rfl⟩ := hxs
      exact ⟨first, hfirst, others ++ [h], ih (hrest ▸ hothers), rfl⟩

theorem hopsBetween_cons {xs : List StopArrival} {hops : List Hop}
    (hxs : hopsBetween hop (y :: xs) = .ok hops) (hh : hop x y = .ok h) :
    hopsBetween hop (x :: y :: xs) = .ok (h :: hops) := by
  simp only [hopsBetween, hh, hxs, bind, Except.bind, pure, Except.pure]

end Hops

section Trips

variable {s : Search} {times : List Time} {v : PatternView} {w : Way} {b : Boarding}
  {position : Nat} {a : StopArrival} {d : DayTrip} {boardCall call : Call}

theorem view_of_viewList {i : Nat} (h : s.viewList[i]? = some v) : s.view i = .ok v := by
  simp only [viewList, List.getElem?_map, Array.getElem?_toList, Option.map_eq_some_iff] at h
  obtain ⟨thunk, hthunk, rfl⟩ := h
  simp only [view, hthunk]

theorem forwardHop_of_rides (hw : s.WellFormed) (hd : s.heading.direction = .forward)
    (hb : s.Catches v w b) (horder : s.heading.Precedes b.position position)
    (hr : s.Rides v w b position a d boardCall call) :
    s.forwardHop w.arrival a.unlinked =
      .ok (.ride v.pattern d w.arrival.stop b.position a.stop position) := by
  have hview := view_of_viewList (hb.view_getElem? hw)
  have htrip : v.tripAt b.trip = .ok d := by simp only [PatternView.tripAt, hr.trip]
  have hlt : b.position < position := by
    simpa only [Heading.Precedes, hd] using horder
  have htime : s.heading.boardLimit w.arrival.time ≤ boardCall.departure := by
    simpa only [Heading.betterOrEqual, Heading.boardTime, hd, decide_eq_true_eq] using hr.inTime
  simp only [forwardHop, StopArrival.unlinked, hr.kind, hview, htrip, DayTrip.call, hr.boards,
    hlt, hb.stop, htime, and_self, if_true, bind, Except.bind, pure, Except.pure]

theorem reverseHop_of_rides (hw : s.WellFormed) (hd : s.heading.direction = .reverse)
    (hb : s.Catches v w b) (horder : s.heading.Precedes b.position position)
    (hr : s.Rides v w b position a d boardCall call) :
    s.reverseHop a.unlinked w.arrival =
      .ok (.ride v.pattern d a.stop position w.arrival.stop b.position) := by
  have hview := view_of_viewList (hb.view_getElem? hw)
  have htrip : v.tripAt b.trip = .ok d := by simp only [PatternView.tripAt, hr.trip]
  have hlt : position < b.position := by
    simpa only [Heading.Precedes, hd] using horder
  have htime : boardCall.arrival ≤ w.arrival.time := by
    simpa only [Heading.betterOrEqual, Heading.boardTime, Heading.boardLimit, hd,
      decide_eq_true_eq] using hr.inTime
  simp only [reverseHop, StopArrival.unlinked, hr.kind, hview, htrip, DayTrip.call, hr.boards,
    hlt, hb.stop, htime, and_self, if_true, bind, Except.bind, pure, Except.pure]

end Trips

/-- How a search that goes forward comes to an arrival from a street leg. -/
inductive Arrives (s : Search) (leg : StreetLeg) : List Hop → StopArrival → Prop where
  | street (time : Time) (iteration : Nat) : Arrives s leg [] (s.originArrival time iteration leg)
  | ride {hops : List Hop} {a : StopArrival} {departure : Time} (hride : a.isTransit = true)
      (tour : s.Tour leg.stop (s.heading.keep (departure - s.heading.boardSlack)) hops a.stop a.time)
      (hdeparts : DepartsAt hops departure)
      (horigin : a.originTime = s.heading.originTime departure leg.duration) : Arrives s leg hops a
  | walk {hops : List Hop} {a b : StopArrival} {departure duration : Time}
      (tour : s.Tour leg.stop (s.heading.keep (departure - s.heading.boardSlack)) hops b.stop b.time)
      (hdeparts : DepartsAt hops departure)
      (horigin : a.originTime = s.heading.originTime departure leg.duration)
      (hkind : a.kind = .transfer b.stop duration)
      (hk : ⟨a.stop, duration⟩ ∈ s.timetable.transfersFrom b.stop)
      (htime : a.time = s.heading.keep (b.time + duration)) :
      Arrives s leg (hops ++ [.walk b.stop a.stop duration]) a

/-- How a journey goes on, in the order of time, from an arrival that a search in
reverse found, to a street leg. -/
inductive Leaves (s : Search) (leg : StreetLeg) : List Hop → StopArrival → Prop where
  | street (time : Time) (iteration : Nat) : Leaves s leg [] (s.originArrival time iteration leg)
  | hop {hops : List Hop} {a : StopArrival} {ended : Time}
      (tour : s.Tour a.stop a.time hops leg.stop ended) (hne : hops ≠ [])
      (horigin : a.originTime = s.heading.originTime ended leg.duration)
      (hkind : ∀ duration, a.kind ≠ .access duration)
      (hdeparts : a.isTransit = true → ∃ departure, DepartsAt hops departure
        ∧ a.time = s.heading.keep (departure - s.heading.boardSlack)) :
      Leaves s leg hops a

section Steps

variable {s : Search} {leg : StreetLeg} {x a : StopArrival} {hops : List Hop}
  {pattern board alight : Nat} {d : DayTrip} {boardCall alightCall : Call}

/-- A ride after an arrival of a search that goes forward. -/
theorem Arrives.goOn (h : s.Arrives leg hops x)
    (hr : s.Rideable pattern d x.stop board a.stop alight boardCall alightCall)
    (hboard : s.heading.IsExact → x.time + s.heading.boardSlack ≤ boardCall.departure)
    (hride : a.isTransit = true) (horigin : a.originTime = s.originTimeOf x boardCall.departure)
    (htime : a.time = alightCall.arrival) :
    s.Arrives leg (hops ++ [.ride pattern d x.stop board a.stop alight]) a := by
  cases h with
  | street time iteration =>
      have horigin' : a.originTime = s.heading.originTime boardCall.departure leg.duration := horigin
      refine .ride hride ?_ ?_ horigin'
      · rw [htime]
        refine .ride hr (fun hx => ?_) (.done ..)
        rw [hx.keep]
        exact Int.le_of_eq (Int.sub_add_cancel ..)
      · exact ⟨_, _, _, _, _, _, _, _, rfl, hr.boards, rfl⟩
  | ride hride' tour hdeparts horigin' =>
      have hx : s.originTimeOf x boardCall.departure = x.originTime := by
        unfold originTimeOf
        unfold StopArrival.isTransit at hride'
        split <;> simp_all
      refine .ride hride ?_ (hdeparts.append _) (by rw [horigin, hx, horigin'])
      rw [htime]
      exact tour.snoc_ride hr hboard
  | walk tour hdeparts horigin' hkind hk hwalk =>
      have hx : s.originTimeOf x boardCall.departure = x.originTime := by
        simp only [originTimeOf, hkind]
      rw [List.append_assoc]
      refine .ride hride ?_ (hdeparts.append _) (by rw [horigin, hx, horigin'])
      rw [htime]
      refine tour.snoc_walk hk hr fun hexact => ?_
      rw [hexact.keep] at hwalk
      exact hwalk ▸ hboard hexact

theorem Arrives.tour (h : s.Arrives leg hops x) (hx : x.isTransit = true) :
    ∃ departure, s.Tour leg.stop (s.heading.keep (departure - s.heading.boardSlack)) hops x.stop x.time
      ∧ DepartsAt hops departure ∧ x.originTime = s.heading.originTime departure leg.duration := by
  cases h with
  | street time iteration => simp [StopArrival.isTransit, originArrival] at hx
  | ride hride tour hdeparts horigin => exact ⟨_, tour, hdeparts, horigin⟩
  | walk tour hdeparts horigin hkind => simp [StopArrival.isTransit, hkind] at hx

/-- A ride before an arrival of a search in reverse. -/
theorem Leaves.goOn (h : s.Leaves leg hops x)
    (hr : s.Rideable pattern d a.stop board x.stop alight boardCall alightCall)
    (halight : alightCall.arrival ≤ x.time) (hride : a.isTransit = true)
    (horigin : a.originTime = s.originTimeOf x alightCall.arrival)
    (htime : a.time = s.heading.keep (boardCall.departure - s.heading.boardSlack)) :
    s.Leaves leg (.ride pattern d a.stop board x.stop alight :: hops) a := by
  have hboard : s.heading.IsExact → a.time + s.heading.boardSlack ≤ boardCall.departure := by
    intro hx
    rw [htime, hx.keep]
    exact Int.le_of_eq (Int.sub_add_cancel ..)
  have hdeparts : ∃ departure, DepartsAt (.ride pattern d a.stop board x.stop alight :: hops) departure
      ∧ a.time = s.heading.keep (departure - s.heading.boardSlack) :=
    ⟨_, ⟨_, _, _, _, _, _, _, _, rfl, hr.boards, rfl⟩, htime⟩
  have hkind : ∀ duration, a.kind ≠ .access duration := by
    intro duration hkind
    simp [StopArrival.isTransit, hkind] at hride
  cases h with
  | street time iteration =>
      exact .hop (.ride hr hboard (.done ..)) (List.cons_ne_nil _ _) horigin hkind fun _ => hdeparts
  | hop tour hne horigin' hkind' =>
      have hx : s.originTimeOf x alightCall.arrival = x.originTime := by
        unfold originTimeOf
        split
        · exact absurd ‹_› (hkind' _)
        · rfl
      exact .hop (.ride hr hboard (tour.earlier (fun _ => halight) hne)) (List.cons_ne_nil _ _)
        (by rw [horigin, hx, horigin']) hkind fun _ => hdeparts

theorem Leaves.tour (h : s.Leaves leg hops x) (hx : x.isTransit = true) :
    ∃ departure ended, s.Tour x.stop x.time hops leg.stop ended ∧ DepartsAt hops departure
      ∧ x.time = s.heading.keep (departure - s.heading.boardSlack)
      ∧ x.originTime = s.heading.originTime ended leg.duration := by
  cases h with
  | street time iteration => simp [StopArrival.isTransit, originArrival] at hx
  | hop tour hne horigin hkind hdeparts =>
      obtain ⟨departure, hdeparts, htime⟩ := hdeparts hx
      exact ⟨_, _, tour, hdeparts, htime, horigin⟩

/-- A walk before an arrival by a trip of a search in reverse. -/
theorem Leaves.walk (h : s.Leaves leg hops x) (hx : x.isTransit = true) {duration : Time}
    (hk : ⟨x.stop, duration⟩ ∈ s.timetable.transfersFrom a.stop)
    (hkind : a.kind = .transfer x.stop duration) (horigin : a.originTime = x.originTime)
    (htime : a.time = s.heading.keep (x.time - duration)) :
    s.Leaves leg (.walk a.stop x.stop duration :: hops) a := by
  obtain ⟨departure, ended, tour, hdeparts, -, horigin'⟩ := h.tour hx
  obtain ⟨pattern, d, fromStop, board, toStop, alight, rest, call, rfl, -⟩ := hdeparts
  refine .hop ?_ (List.cons_ne_nil _ _) (horigin.trans horigin') (by simp [hkind]) ?_
  · cases tour with
    | ride hr hboard rest =>
        refine .walk hk hr (fun hexact => ?_) rest
        have hboard := hboard hexact
        rw [htime, hexact.keep]
        grind
  · intro hride
    simp [StopArrival.isTransit, hkind] at hride

end Steps

end Search

namespace Way

open Search

variable {s : Search} {times : List Time} {w : Way}

theorem getLast?_extend (w : Way) (a : StopArrival) :
    (w.extend a).arrivals.getLast? = w.arrivals.getLast? := by
  simp [arrivals, extend]

theorem reverse_extend (w : Way) (a : StopArrival) :
    (w.extend a).arrivals.reverse = w.earlier.reverse ++ [w.arrival, a.unlinked] := by
  simp [arrivals, extend]

/-- What holds of no hops after a street leg, and with each arrival of a way also of the
next one, holds of the hops of every way that a search going forward found. -/
theorem Traced.forward_hops (hs : s.WellFormed) (hd : s.heading.direction = .forward)
    {P : StreetLeg → List Hop → StopArrival → Prop}
    (street : ∀ leg time iteration, P leg [] (s.originArrival time iteration leg))
    (ride : ∀ {leg : StreetLeg} {hops : List Hop} {w : Way} {v : PatternView} {b : Boarding}
      {position : Nat} {a : StopArrival} {d : DayTrip} {boardCall call : Call},
      P leg hops w.arrival → s.Catches v w b → s.heading.Precedes b.position position →
      v.stops[position]? = some a.stop → a.round = w.arrival.round + 1 →
      s.Rides v w b position a d boardCall call →
      P leg (hops ++ [.ride v.pattern d w.arrival.stop b.position a.stop position]) a.unlinked)
    (walk : ∀ {leg : StreetLeg} {hops : List Hop} {w : Way} {k : Transfer},
      P leg hops w.arrival → w.arrival.isTransit = true → 0 < w.arrival.round →
      k ∈ s.heading.walks s.timetable w.arrival.stop →
      P leg (hops ++ [.walk w.arrival.stop k.target k.duration])
        (s.walkArrival 0 w.arrival k).unlinked)
    (h : w.Traced s times) : ∃ leg ∈ s.origin, ∃ time iteration hops,
      w.arrivals.getLast? = some (s.originArrival time iteration leg)
        ∧ hopsBetween s.forwardHop w.arrivals.reverse = .ok hops ∧ P leg hops w.arrival := by
  induction h with
  | @begin leg time iteration hleg htime =>
      exact ⟨leg, hleg, time, iteration, [], rfl, rfl, street leg time iteration⟩
  | @ride w v b position stop iteration a hw hb hstop horder hleft ih =>
      obtain ⟨leg, hleg, time, it, hops, hlast, hhops, hp⟩ := ih
      obtain ⟨d, boardCall, call, hr⟩ := rides_of_left? hb hleft
      obtain ⟨hround, hstop', -, -⟩ := left?_round hleft
      refine ⟨leg, hleg, time, it, _, by rw [getLast?_extend, hlast], ?_,
        ride hp hb horder (hstop'.symm ▸ hstop) hround hr⟩
      rw [reverse_extend]
      refine hopsBetween_snoc ?_ (forwardHop_of_rides hs hd hb horder hr)
      simpa [arrivals] using hhops
  | @walk w k hw hride hk ih =>
      obtain ⟨leg, hleg, time, it, hops, hlast, hhops, hp⟩ := ih
      refine ⟨leg, hleg, time, it, _, by rw [getLast?_extend, hlast], ?_,
        walk hp hride (hw.round_pos hride) hk⟩
      rw [reverse_extend]
      refine hopsBetween_snoc ?_ rfl
      simpa [arrivals] using hhops

/-- The same of a search in reverse, which puts each hop before those it found. -/
theorem Traced.reverse_hops (hs : s.WellFormed) (hd : s.heading.direction = .reverse)
    {P : StreetLeg → List Hop → StopArrival → Prop}
    (street : ∀ leg time iteration, P leg [] (s.originArrival time iteration leg))
    (ride : ∀ {leg : StreetLeg} {hops : List Hop} {w : Way} {v : PatternView} {b : Boarding}
      {position : Nat} {a : StopArrival} {d : DayTrip} {boardCall call : Call},
      P leg hops w.arrival → s.Catches v w b → s.heading.Precedes b.position position →
      v.stops[position]? = some a.stop → a.round = w.arrival.round + 1 →
      s.Rides v w b position a d boardCall call →
      P leg (.ride v.pattern d a.stop position w.arrival.stop b.position :: hops) a.unlinked)
    (walk : ∀ {leg : StreetLeg} {hops : List Hop} {w : Way} {k : Transfer},
      P leg hops w.arrival → w.arrival.isTransit = true → 0 < w.arrival.round →
      k ∈ s.heading.walks s.timetable w.arrival.stop →
      P leg (.walk k.target w.arrival.stop k.duration :: hops)
        (s.walkArrival 0 w.arrival k).unlinked)
    (h : w.Traced s times) : ∃ leg ∈ s.origin, ∃ time iteration hops,
      w.arrivals.getLast? = some (s.originArrival time iteration leg)
        ∧ hopsBetween s.reverseHop w.arrivals = .ok hops ∧ P leg hops w.arrival := by
  induction h with
  | @begin leg time iteration hleg htime =>
      exact ⟨leg, hleg, time, iteration, [], rfl, rfl, street leg time iteration⟩
  | @ride w v b position stop iteration a hw hb hstop horder hleft ih =>
      obtain ⟨leg, hleg, time, it, hops, hlast, hhops, hp⟩ := ih
      obtain ⟨d, boardCall, call, hr⟩ := rides_of_left? hb hleft
      obtain ⟨hround, hstop', -, -⟩ := left?_round hleft
      exact ⟨leg, hleg, time, it, _, by rw [getLast?_extend, hlast],
        hopsBetween_cons hhops (reverseHop_of_rides hs hd hb horder hr),
        ride hp hb horder (hstop'.symm ▸ hstop) hround hr⟩
  | @walk w k hw hride hk ih =>
      obtain ⟨leg, hleg, time, it, hops, hlast, hhops, hp⟩ := ih
      exact ⟨leg, hleg, time, it, _, by rw [getLast?_extend, hlast], hopsBetween_cons hhops rfl,
        walk hp hride (hw.round_pos hride) hk⟩

/-- The hops of a way that a search going forward found. -/
theorem Traced.arrives (hs : s.WellFormed) (hd : s.heading.direction = .forward)
    (h : w.Traced s times) : ∃ leg ∈ s.origin, ∃ time iteration hops,
      w.arrivals.getLast? = some (s.originArrival time iteration leg)
        ∧ hopsBetween s.forwardHop w.arrivals.reverse = .ok hops ∧ s.Arrives leg hops w.arrival := by
  refine h.forward_hops hs hd (fun leg time iteration => .street time iteration) ?_ ?_
  · intro leg hops w v b position a d boardCall call harrives hb horder hstop _ hr
    have hride := hr.rideable hs hb hstop horder
    have hboard : s.heading.IsExact → w.arrival.time + s.heading.boardSlack ≤ boardCall.departure := by
      intro hx
      simpa only [hd, Heading.betterOrEqual, Heading.boardLimit, Heading.boardTime, hx.keep,
        decide_eq_true_eq] using hr.inTime
    have horigin := hr.originTime
    have hatime := hr.time
    simp only [hd, Heading.boardTime, Heading.alightTime] at hride horigin hatime
    exact harrives.goOn (a := a.unlinked) hride hboard hr.isTransit horigin hatime
  · intro leg hops w k harrives hride _ hk
    simp only [Heading.walks, hd] at hk
    obtain ⟨departure, tour, hdeparts, horigin⟩ := harrives.tour hride
    refine .walk (b := w.arrival) (a := (s.walkArrival 0 w.arrival k).unlinked)
      tour hdeparts horigin rfl hk ?_
    simp only [StopArrival.unlinked, walkArrival, Heading.advance, hd]

/-- The hops of a way that a search in reverse found. -/
theorem Traced.leaves (hs : s.WellFormed) (hd : s.heading.direction = .reverse)
    (h : w.Traced s times) : ∃ leg ∈ s.origin, ∃ time iteration hops,
      w.arrivals.getLast? = some (s.originArrival time iteration leg)
        ∧ hopsBetween s.reverseHop w.arrivals = .ok hops ∧ s.Leaves leg hops w.arrival := by
  refine h.reverse_hops hs hd (fun leg time iteration => .street time iteration) ?_ ?_
  · intro leg hops w v b position a d boardCall call hleaves hb horder hstop _ hr
    have hride := hr.rideable hs hb hstop horder
    have htime := hr.inTime
    have horigin := hr.originTime
    have hatime := hr.time
    simp only [hd, Heading.betterOrEqual, Heading.boardLimit, Heading.boardTime,
      Heading.alightTime, decide_eq_true_eq] at hride htime horigin hatime
    exact hleaves.goOn (a := a.unlinked) hride htime hr.isTransit horigin hatime
  · intro leg hops w k hleaves hride _ hk
    simp only [Heading.walks, hd] at hk
    refine hleaves.walk (a := (s.walkArrival 0 w.arrival k).unlinked) hride
      (hs.mirrored.mp hk) rfl rfl ?_
    simp only [StopArrival.unlinked, walkArrival, Heading.advance, hd]

end Way
end JourneyPlanner
