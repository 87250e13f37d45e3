import JourneyPlanner.Proofs.RelabeledRoutes

/-!
Searches in which only some of the trips of the other one can be used. Which trips are
left decides what the indices of the one mean in the other.
-/

namespace JourneyPlanner

/-- The trips of all days, in the order of their indices. -/
def tripsOf (days : List DayTrips) : List DayTrip :=
  days.flatMap fun day => day.trips.toList

/-- Where an element that is kept stands in the whole list, by its index among those kept. -/
def keptIndex {α : Type} (keep : α → Bool) (xs : List α) (index : Nat) : Nat :=
  (((xs.zipIdx.filter fun e => keep e.1)[index]?).map (·.2)).getD 0

section Kept

variable {α : Type} {keep : α → Bool} {xs : List α}

theorem map_fst_filter_zipIdx (keep : α → Bool) (xs : List α) :
    (xs.zipIdx.filter fun e => keep e.1).map (·.1) = xs.filter keep := by
  rw [← Function.comp_def keep, ← List.filter_map, List.zipIdx_map_fst]

theorem getElem?_filter_zipIdx {index : Nat} {x : α} (h : (xs.filter keep)[index]? = some x) :
    (xs.zipIdx.filter fun e => keep e.1)[index]? = some (x, keptIndex keep xs index) := by
  rw [← map_fst_filter_zipIdx, List.getElem?_map, Option.map_eq_some_iff] at h
  obtain ⟨⟨x', i⟩, he, rfl⟩ := h
  simp only [keptIndex, he, Option.map_some, Option.getD_some]

theorem getElem?_keptIndex {index : Nat} {x : α} (h : (xs.filter keep)[index]? = some x) :
    xs[keptIndex keep xs index]? = some x := by
  have hmem := List.mem_of_getElem? (getElem?_filter_zipIdx h)
  exact List.mk_mem_zipIdx_iff_getElem?.mp (List.mem_of_mem_filter hmem)

/-- Elements related to those kept of a list stand beside them with their indices. -/
theorem forall₂_filter_zipIdx {β : Type} {R : β → α → Prop} {ys : List β}
    (h : List.Forall₂ R ys (xs.filter keep)) :
    List.Forall₂ (fun e e' => R e.1 e'.1 ∧ e'.2 = keptIndex keep xs e.2) ys.zipIdx
      (xs.zipIdx.filter fun e => keep e.1) := by
  have hlength : (xs.zipIdx.filter fun e => keep e.1).length = (xs.filter keep).length := by
    rw [← map_fst_filter_zipIdx keep xs, List.length_map]
  refine List.forall₂_iff_get.mpr ⟨by rw [List.length_zipIdx, h.length_eq, hlength], ?_⟩
  intro i hi hi'
  have hy : i < ys.length := List.length_zipIdx ▸ hi
  have hx : i < (xs.filter keep).length := hlength ▸ hi'
  have he := getElem?_filter_zipIdx (List.getElem?_eq_getElem hx)
  rw [List.getElem?_eq_getElem hi', Option.some_inj] at he
  simp only [List.get_eq_getElem, List.getElem_zipIdx, Nat.zero_add, he, and_true]
  exact (List.forall₂_iff_get.mp h).2 i hy hx

end Kept

namespace PatternView

/-- Views of one pattern, the trips of the first being those kept of the second. Those
left out are not accepted anyway. -/
structure Thins (later : Time) (f f' : TripFilter) (keep : DayTrip → Bool) (v v' : PatternView) :
    Prop where
  pattern : v'.pattern = v.pattern
  stops : v'.stops = v.stops
  trips : List.Forall₂ (DayTrip.Agrees later f f') (tripsOf v.days) ((tripsOf v'.days).filter keep)
  dropped : ∀ d ∈ tripsOf v'.days, keep d = false → ∀ position stop,
    f'.accepts d.trip position stop = false

/-- Views on the same dates, day by day. -/
theorem thins_ofDates {t : Timetable} {sn sn' : Snapshot} {pattern : Nat} {stops : List Nat}
    {searchDate searchDate' : Date} {dates : List Date} {later : Time} {f f' : TripFilter}
    {keep : DayTrip → Bool}
    (trips : ∀ date ∈ dates, List.Forall₂ (DayTrip.Agrees later f f')
      (DayTrips.ofDate t sn pattern searchDate date).trips.toList
      ((DayTrips.ofDate t sn' pattern searchDate' date).trips.toList.filter keep))
    (dropped : ∀ date ∈ dates, ∀ d ∈ (DayTrips.ofDate t sn' pattern searchDate' date).trips.toList,
      keep d = false → ∀ position stop, f'.accepts d.trip position stop = false) :
    (ofDates t sn pattern stops searchDate dates).Thins later f f' keep
      (ofDates t sn' pattern stops searchDate' dates) := by
  refine ⟨rfl, rfl, ?_, fun d hd => ?_⟩
  · simp only [tripsOf, ofDates, List.flatMap_map, List.filter_flatMap]
    refine List.rel_flatten ?_
    rw [List.forall₂_map_left_iff, List.forall₂_map_right_iff, List.forall₂_same]
    exact trips
  · simp only [tripsOf, ofDates, List.flatMap_map, List.mem_flatMap] at hd
    obtain ⟨date, hdate, hd⟩ := hd
    exact dropped date hdate d hd

variable {h : Heading} {m : Relabeling} {f f' : TripFilter} {pattern position stop : Nat}
  {limit : Time}

theorem consider_dropped {best : Option Catchable} {e : DayTrip × Nat}
    (hposition : position < e.1.calls.size)
    (hf : f.accepts e.1.trip position stop = false) :
    consider h f position stop limit best e = .ok best := by
  simp only [consider, DayTrip.call, Array.getElem?_eq_getElem hposition, hf, Bool.and_false,
    bind, Except.bind]
  split <;> rfl

theorem consider_agrees {e e' : DayTrip × Nat} {best best' found : Option Catchable}
    (he : e.1.Agrees m.later f f' e'.1) (hindex : e'.2 = m.trip pattern e.2)
    (hbest : Option.Rel (m.SameCatch pattern) best best')
    (hc : consider h f position stop limit best e = .ok found) :
    ∃ found', consider h f' position stop (limit + m.later) best' e' = .ok found'
      ∧ Option.Rel (m.SameCatch pattern) found found' := by
  simp only [consider, Fallible.bind_eq_ok] at hc
  obtain ⟨call, hcall, hc⟩ := hc
  obtain ⟨call', hcall', hagrees⟩ := he.call hcall
  have hnoBetter : best'.any (fun b => h.betterOrEqual b.time (h.boardTime call'))
      = best.any fun b => h.betterOrEqual b.time (h.boardTime call) := by
    cases hbest with
    | none => rfl
    | some hb =>
        simp only [Option.any_some, hb.time, hagrees.boardTime, Heading.betterOrEqual_add]
  simp only [consider, hcall', bind, Except.bind, hnoBetter, hagrees.boards]
  rw [hagrees.boardTime, Heading.better_add]
  split at hc
  case isTrue hskip =>
    rw [Fallible.pure_eq_ok] at hc
    rw [if_pos hskip]
    exact ⟨best', rfl, hc ▸ hbest⟩
  case isFalse htake =>
    rw [if_neg htake]
    split at hc
    case isTrue hopen =>
      rw [Fallible.pure_eq_ok] at hc
      rw [if_pos hopen, ← hc]
      exact ⟨_, rfl, .some ⟨hindex, rfl⟩⟩
    case isFalse hclosed =>
      rw [Fallible.pure_eq_ok] at hc
      rw [if_neg hclosed]
      exact ⟨best', rfl, hc ▸ hbest⟩

variable {keep : DayTrip → Bool} {v v' : PatternView}

/-- A trip of the first view, with its index among those kept. -/
theorem Thins.tripIn? (hv : v.Thins m.later f f' keep v') {index : Nat} {d : DayTrip}
    (hd : PatternView.tripIn? v.days index = some d) :
    ∃ d', PatternView.tripIn? v'.days (keptIndex keep (tripsOf v'.days) index) = some d'
      ∧ d.Agrees m.later f f' d' := by
  rw [← getElem?_flatMap_trips] at hd
  obtain ⟨hi, hget⟩ := List.getElem?_eq_some_iff.mp hd
  have hi' : index < ((tripsOf v'.days).filter keep).length := hv.trips.length_eq ▸ hi
  refine ⟨((tripsOf v'.days).filter keep)[index], ?_, ?_⟩
  · rw [← getElem?_flatMap_trips]
    exact getElem?_keptIndex (List.getElem?_eq_getElem hi')
  · have hagrees := (List.forall₂_iff_get.mp hv.trips).2 index hi hi'
    exact hget ▸ hagrees

/-- Trips left out are never caught, and the other ones are caught on both sides. -/
theorem Thins.findBoarding (hv : v.Thins m.later f f' keep v')
    (hcalls : ∀ d ∈ tripsOf v'.days, d.calls.size = v'.stops.size)
    (hm : ∀ index, m.trip pattern index = keptIndex keep (tripsOf v'.days) index)
    {found : Option Catchable} (hfound : v.findBoarding h f position limit = .ok found) :
    ∃ found', v'.findBoarding h f' position (limit + m.later) = .ok found'
      ∧ Option.Rel (m.SameCatch pattern) found found' := by
  simp only [PatternView.findBoarding, Fallible.bind_eq_ok] at hfound
  obtain ⟨stop, hstop, hfound⟩ := hfound
  have hposition : position < v'.stops.size := by
    unfold stopAt at hstop
    rw [hv.stops]
    cases hget : v.stops[position]? with
    | none => simp [hget] at hstop
    | some found => exact (Array.getElem?_eq_some_iff.mp hget).1
  have hstop' : v'.stopAt position = .ok stop := by
    rw [← hstop]
    simp only [stopAt, hv.stops]
  rw [v.schedules_eq] at hfound
  obtain ⟨found', hfound', hrel⟩ := Fallible.foldlM_forall₂ (R := Option.Rel (m.SameCatch pattern))
    (fun e e' best best' found he hbest hc =>
      consider_agrees he.1 (he.2.trans (hm e.2).symm) hbest hc)
    (forall₂_filter_zipIdx hv.trips) Option.Rel.none hfound
  refine ⟨found', ?_, hrel⟩
  have hdropped : ∀ e ∈ (tripsOf v'.days).zipIdx, keep e.1 = false → ∀ best,
      consider h f' position stop (limit + m.later) best e = .ok best := by
    intro e he hkeep best
    have hd : e.1 ∈ tripsOf v'.days := (List.mem_zipIdx he).2.2 ▸ List.getElem_mem _
    exact consider_dropped (hcalls e.1 hd ▸ hposition) (hv.dropped e.1 hd hkeep position stop)
  simp only [PatternView.findBoarding, hstop', bind, Except.bind]
  rw [v'.schedules_eq]
  exact (Fallible.foldlM_filter hdropped none).trans hfound'

theorem Thins.relabels (hv : v.Thins m.later f f' keep v')
    (hcalls : ∀ d ∈ tripsOf v'.days, d.calls.size = v'.stops.size)
    (hm : ∀ index, m.trip v.pattern index = keptIndex keep (tripsOf v'.days) index) :
    v.Relabels m h f f' v' where
  pattern := hv.pattern
  stops := hv.stops
  trips {index _} hd := hm index ▸ hv.tripIn? hd
  catches hfound := hv.findBoarding hcalls hm hfound

end PatternView

/-- What the indices of trips mean in a search from which only some trips are kept. -/
def Relabeling.ofKept (later : Time) (keep : DayTrip → Bool) (s' : Search) : Relabeling where
  later := later
  trip pattern index := keptIndex keep (s'.viewList[pattern]?.elim [] (tripsOf ·.days)) index

namespace Search

/-- The trips of the first search are those kept of the second one. -/
structure Thins (later : Time) (keep : DayTrip → Bool) (s s' : Search) : Prop where
  alike : ∃ views filter times, s' = { s with views := views, filter := filter, times := times }
  stops : ∀ stop, s'.filter.allowsStop stop = s.filter.allowsStop stop
  times : s'.times = s.times.map (· + later)
  views : ∀ {i : Nat} {v : PatternView}, s.viewList[i]? = some v →
    ∃ v', s'.viewList[i]? = some v' ∧ v.Thins later s.filter s'.filter keep v'

variable {later : Time} {keep : DayTrip → Bool} {s s' : Search}

theorem Thins.exact (h : s.Thins later keep s') : s.exact.Thins later keep s'.exact := by
  obtain ⟨views, filter, times, halike⟩ := h.alike
  exact ⟨⟨views, filter, times, congrArg Search.exact halike⟩, h.stops, h.times, h.views⟩

theorem Thins.matches (h : s.Thins later keep s') (hshifts : s.heading.Shifts later)
    (hs : s.WellFormed) (hs' : s'.WellFormed) (hviews : s.HasViews) :
    Matches (.ofKept later keep s') s s' := by
  refine ⟨⟨hshifts, h.alike, h.stops, h.times, fun {i v} hv => ?_⟩, hs, hs', hviews⟩
  obtain ⟨v', hv', hthins⟩ := h.views hv
  refine ⟨v', hv', PatternView.Thins.relabels hthins (fun d hd => ?_) fun index => ?_⟩
  · obtain ⟨index, hindex⟩ := List.getElem?_of_mem hd
    rw [tripsOf, getElem?_flatMap_trips] at hindex
    exact (hs'.complete v' (List.mem_of_getElem? hv') index d hindex).1
  · simp only [Relabeling.ofKept, hs.numbered i v hv, hv', Option.elim_some]

end Search
end JourneyPlanner
