import JourneyPlanner.Proofs.Riding

/-!
Searches whose times stay within 32 bits. Whatever a search adds to a time of the
timetable or of an iteration, or takes from it, is no more than the slack for boarding,
the longest walk and the longest street leg together. Where this much room is left the
sums come out as they are, and no trip goes back in time.
-/

namespace JourneyPlanner

namespace Heading

/-- The same heading with sums as they are. -/
def exact (h : Heading) : Heading :=
  { h with sums := .exact }

theorem isExact_exact (h : Heading) : h.exact.IsExact :=
  rfl

@[simp]
theorem boardSlack_exact (h : Heading) : h.exact.boardSlack = h.boardSlack :=
  rfl

@[simp]
theorem keep_exact (h : Heading) (sum : Int) : h.exact.keep sum = sum :=
  rfl

/-- The iterations cover the window, and one less would not. -/
theorem iterationCount_covers {window step : Int} (hwindow : 0 < window) (hstep : 0 < step)
    (hfits : Time.Fits (window + step - 1)) :
    0 < iterationCount window step ∧ window ≤ iterationCount window step * step
      ∧ ((iterationCount window step : Int) - 1) * step < window := by
  have hquotient : 1 ≤ (window + step - 1) / step :=
    (Int.le_ediv_iff_mul_le hstep).mpr (by omega)
  have hcount : (iterationCount window step : Int) = (window + step - 1) / step := by
    unfold iterationCount
    rw [Time.wrap_of_fits hfits, Int.max_eq_right hquotient]
    exact Int.toNat_of_nonneg (by omega)
  have hle : (window + step - 1) / step * step ≤ window + step - 1 := Int.ediv_mul_le _ (by omega)
  have hlt : window + step - 1 < ((window + step - 1) / step + 1) * step :=
    Int.lt_ediv_add_one_mul_self _ hstep
  rw [Int.add_mul, Int.one_mul] at hlt
  refine ⟨by omega, ?_, ?_⟩
  · rw [hcount]
    omega
  · rw [hcount, Int.sub_mul, Int.one_mul]
    omega

/-- Iterations begin one after the other, the worst first. -/
theorem pairwise_iterationTimes {h : Heading} (hx : h.IsExact) (time window step : Time) :
    (h.iterationTimes time window step).Pairwise fun a b => h.betterOrEqual b a = true := by
  unfold iterationTimes
  rw [List.pairwise_map, List.pairwise_reverse]
  refine List.pairwise_lt_range.imp fun {k l} hlt => ?_
  have hstep : (0 : Int) ≤ max 1 step := Int.le_trans (by decide) (Int.le_max_left 1 step)
  have hle : Int.ofNat k * max 1 step ≤ Int.ofNat l * max 1 step :=
    Int.mul_le_mul_of_nonneg_right (Int.ofNat_le.mpr (Nat.le_of_lt hlt)) hstep
  unfold betterOrEqual advance
  cases h.direction with
  | forward => simpa only [hx.keep, decide_eq_true_eq] using Int.add_le_add_left hle time
  | reverse => simpa only [hx.keep, decide_eq_true_eq] using Int.sub_le_sub_left hle time

end Heading

/-- Whatever is configured, iterations are at least a second apart. -/
theorem Settings.step_pos (settings : Settings) : (0 : Int) < max 1 settings.iterationStep :=
  Int.lt_of_lt_of_le (by decide) (Int.le_max_left ..)

/-- 32 bits hold what the times of the iterations of a request are computed from. -/
structure Request.WindowFits (r : Request) (settings : Settings) : Prop where
  counted : Time.Fits ((r.limits settings).window + max 1 settings.iterationStep - 1)
  worst : Time.Fits <|
    match r.direction with
    | .forward => r.time + ((r.limits settings).window - 1)
    | .reverse => r.time - ((r.limits settings).window - 1)

instance (r : Request) (settings : Settings) : Decidable (r.WindowFits settings) :=
  decidable_of_iff
    (Time.Fits ((r.limits settings).window + max 1 settings.iterationStep - 1)
      ∧ Time.Fits (match r.direction with
        | .forward => r.time + ((r.limits settings).window - 1)
        | .reverse => r.time - ((r.limits settings).window - 1)))
    ⟨fun h => ⟨h.1, h.2⟩, fun h => ⟨h.counted, h.worst⟩⟩

namespace Request

variable {r : Request} {settings : Settings} {t : Timetable}

/-- Windows and times of accepted requests. -/
theorem window_of_fault? (h : r.fault? settings t = none) :
    0 < (r.limits settings).window ∧ 0 ≤ r.time ∧ r.time ≤ 2 * secondsOfDay := by
  obtain ⟨hwindow, h⟩ := Option.or_eq_none_iff.mp h
  have htime := (Option.or_eq_none_iff.mp h).1
  unfold windowFault? at hwindow
  unfold timeFault? at htime
  dsimp only at hwindow
  split at hwindow
  case isTrue => cases hwindow
  case isFalse hno =>
    split at htime
    case isTrue => cases htime
    case isFalse hno' => grind

/-- The iterations of an accepted request begin when they would without the bounds of 32 bits. -/
theorem WindowFits.iterationTimes (h : r.WindowFits settings) (haccept : r.fault? settings t = none) :
    (Search.headingOf r (r.limits settings)).iterationTimes r.time (r.limits settings).window
        settings.iterationStep
      = (Search.headingOf r (r.limits settings)).exact.iterationTimes r.time
        (r.limits settings).window settings.iterationStep := by
  obtain ⟨hwindow, hlow, hhigh⟩ := window_of_fault? haccept
  have hstep := settings.step_pos
  obtain ⟨-, -, hleast⟩ := Heading.iterationCount_covers hwindow hstep h.counted
  refine List.map_congr_left fun k hk => ?_
  have hworst := h.worst
  have hoffset : 0 ≤ Int.ofNat k * max 1 settings.iterationStep :=
    Int.mul_nonneg (Int.natCast_nonneg k) (Int.le_of_lt hstep)
  have hbefore : Int.ofNat k * max 1 settings.iterationStep < (r.limits settings).window := by
    have hlt := List.mem_range.mp (List.mem_reverse.mp hk)
    refine Int.lt_of_le_of_lt (Int.mul_le_mul_of_nonneg_right ?_ (Int.le_of_lt hstep)) hleast
    rw [Int.ofNat_eq_natCast]
    omega
  unfold Heading.advance
  simp only [Search.headingOf, Heading.exact]
  generalize Int.ofNat k * max 1 settings.iterationStep = offset at hoffset hbefore
  cases hdirection : r.direction with
  | forward =>
      simp only [hdirection] at hworst
      refine Heading.keep_of_fits _ ?_
      grind [Time.Fits, leastTime, greatestTime, secondsOfDay]
  | reverse =>
      simp only [hdirection] at hworst
      refine Heading.keep_of_fits _ ?_
      grind [Time.Fits, leastTime, greatestTime, secondsOfDay]

end Request

/-- 32 bits hold the times of a trip, as published and on its day. -/
structure DayTrip.Fits (d : DayTrip) (searchDate : Date) : Prop where
  published : d.trip.live = none → d.trip.Fits
  onDay : ∀ c ∈ d.trip.calls, c.FitsLater (searchDate.daysUntil d.date * secondsOfDay)

instance (d : DayTrip) (searchDate : Date) : Decidable (d.Fits searchDate) :=
  decidable_of_iff ((d.trip.live.isNone = true → d.trip.Fits)
      ∧ ∀ c ∈ d.trip.calls, c.FitsLater (searchDate.daysUntil d.date * secondsOfDay))
    ⟨fun h => ⟨fun hlive => h.1 (by rw [hlive]; rfl), h.2⟩,
      fun h => ⟨fun hlive => h.published (Option.isNone_iff_eq_none.mp hlive), h.onDay⟩⟩

namespace Search

/-- The same search with sums as they are. -/
def exact (s : Search) : Search :=
  { s with heading := s.heading.exact }

@[simp]
theorem heading_exact (s : Search) : s.exact.heading = s.heading.exact :=
  rfl

/-- When trips call, on all days. -/
def callTimes (s : Search) : List Time :=
  s.viewList.flatMap fun v => v.trips.flatMap fun d =>
    d.calls.toList.flatMap fun c => [c.arrival, c.departure]

def longest (durations : List Time) : Time :=
  durations.foldr max 0

def longestWalk (s : Search) : Time :=
  longest (s.timetable.transfers.items.toList.map (·.duration))

def longestLeg (s : Search) : Time :=
  longest ((s.origin ++ s.target).map (·.duration))

/-- How far sums go from a time of the timetable or of an iteration. -/
def leeway (s : Search) : Time :=
  s.heading.boardSlack + s.longestWalk + s.longestLeg

/-- 32 bits hold all times of a search for a date, with what is added to them and taken from
them, and how far times of the timetable are apart. -/
structure Fits (s : Search) (searchDate : Date) : Prop where
  trips : ∀ v ∈ s.viewList, ∀ d ∈ v.trips, d.Fits searchDate
  near : ∀ t ∈ s.times ++ s.callTimes, Time.Fits (t - s.leeway) ∧ Time.Fits (t + s.leeway)
  apart : ∀ t ∈ s.callTimes, ∀ t' ∈ s.callTimes, t - t' + s.leeway ≤ greatestTime

instance (s : Search) (searchDate : Date) : Decidable (s.Fits searchDate) :=
  decidable_of_iff ((∀ v ∈ s.viewList, ∀ d ∈ v.trips, d.Fits searchDate)
      ∧ (∀ t ∈ s.times ++ s.callTimes, Time.Fits (t - s.leeway) ∧ Time.Fits (t + s.leeway))
      ∧ ∀ t ∈ s.callTimes, ∀ t' ∈ s.callTimes, t - t' + s.leeway ≤ greatestTime)
    ⟨fun h => ⟨h.1, h.2.1, h.2.2⟩, fun h => ⟨h.trips, h.near, h.apart⟩⟩

theorem nonneg_longest (durations : List Time) : 0 ≤ longest durations := by
  induction durations with
  | nil => exact Int.le_refl 0
  | cons d ds ih => exact Int.le_trans ih (Int.le_max_right ..)

theorem longest_le {durations : List Time} {bound : Time} (hbound : 0 ≤ bound)
    (h : ∀ d ∈ durations, d ≤ bound) : longest durations ≤ bound := by
  induction durations with
  | nil => exact hbound
  | cons d ds ih =>
      obtain ⟨hd, hds⟩ := List.forall_mem_cons.mp h
      exact Int.max_le.mpr ⟨hd, ih hds⟩

theorem le_longest {durations : List Time} {d : Time} (h : d ∈ durations) : d ≤ longest durations := by
  induction h with
  | head => exact Int.le_max_left ..
  | tail _ _ ih => exact Int.le_trans ih (Int.le_max_right ..)

end Search

/-- 32 bits hold the number of dates to search. -/
def Settings.DaysFit (settings : Settings) : Prop :=
  settings.searchDaysBefore + settings.searchDaysAfter + 1 < 4294967296

instance (settings : Settings) : Decidable settings.DaysFit :=
  inferInstanceAs (Decidable (_ < _))

/-- 32 bits hold what is computed for a request: its dates, its window and the times of its
search. -/
structure Router.Fits (x : Router) (r : Request) : Prop where
  days : x.settings.DaysFit
  window : r.WindowFits x.settings
  search : ∀ s ∈ (x.search r none {}).toOption, s.Fits r.date

instance (x : Router) (r : Request) : Decidable (x.Fits r) :=
  decidable_of_iff (x.settings.DaysFit ∧ r.WindowFits x.settings
      ∧ ∀ s ∈ (x.search r none {}).toOption, s.Fits r.date)
    ⟨fun h => ⟨h.1, h.2.1, h.2.2⟩, fun h => ⟨h.days, h.window, h.search⟩⟩

theorem Rows.mem_items {α : Type} {rows : Rows α} {i : Nat} {a : α} (h : a ∈ rows.row i) :
    a ∈ rows.items.toList := by
  unfold row at h
  split at h
  case h_1 => exact List.mem_of_mem_drop (List.mem_of_mem_take h)
  case h_2 => simp at h

namespace Search

variable {s : Search} {searchDate : Date}

theorem mem_callTimes {v : PatternView} (hv : v ∈ s.viewList) {index : Nat} {d : DayTrip}
    (hd : PatternView.tripIn? v.days index = some d) {position : Nat} {c : Call}
    (hc : d.calls[position]? = some c) : c.arrival ∈ s.callTimes ∧ c.departure ∈ s.callTimes := by
  have hd := PatternView.mem_trips.mpr ⟨index, hd⟩
  have hc : c ∈ d.calls.toList := Array.mem_toList_iff.mpr (Array.mem_of_getElem? hc)
  simp only [callTimes, List.mem_flatMap, List.mem_cons, List.not_mem_nil, or_false]
  exact ⟨⟨v, hv, d, hd, c, hc, Or.inl rfl⟩, ⟨v, hv, d, hd, c, hc, Or.inr rfl⟩⟩

theorem boardTime_mem {v : PatternView} (hv : v ∈ s.viewList) {index : Nat} {d : DayTrip}
    (hd : PatternView.tripIn? v.days index = some d) {position : Nat} {c : Call}
    (hc : d.calls[position]? = some c) : s.heading.boardTime c ∈ s.callTimes := by
  obtain ⟨harrival, hdeparture⟩ := mem_callTimes hv hd hc
  unfold Heading.boardTime
  cases s.heading.direction
  · exact hdeparture
  · exact harrival

theorem WellFormed.le_longestWalk (hs : s.WellFormed) {fromStop toStop : Nat} {duration : Time}
    (hk : ⟨toStop, duration⟩ ∈ s.timetable.transfersFrom fromStop) :
    0 ≤ duration ∧ duration ≤ s.longestWalk := by
  refine ⟨?_, le_longest (List.mem_map_of_mem (Rows.mem_items hk))⟩
  cases hd : s.heading.direction with
  | forward => exact (hs.walks fromStop ⟨toStop, duration⟩ (by simpa only [Heading.walks, hd])).2
  | reverse =>
      have hback := hs.mirrored.mpr hk
      exact (hs.walks toStop ⟨fromStop, duration⟩ (by simpa only [Heading.walks, hd])).2

theorem WellFormed.le_longestWalk_of_walks (hs : s.WellFormed) {stop : Nat} {k : Transfer}
    (hk : k ∈ s.heading.walks s.timetable stop) : 0 ≤ k.duration ∧ k.duration ≤ s.longestWalk := by
  unfold Heading.walks at hk
  split at hk
  · exact hs.le_longestWalk hk
  · exact hs.le_longestWalk (hs.mirrored.mp hk)

theorem WellFormed.le_longestLeg (hs : s.WellFormed) {leg : StreetLeg}
    (hleg : leg ∈ s.origin ∨ leg ∈ s.target) : 0 ≤ leg.duration ∧ leg.duration ≤ s.longestLeg :=
  ⟨hleg.elim (fun h => (hs.origin leg h).2) fun h => (hs.target leg h).2,
    le_longest (List.mem_map_of_mem (List.mem_append.mpr hleg))⟩

theorem WellFormed.exact (hs : s.WellFormed) : s.exact.WellFormed :=
  ⟨hs.indexed, hs.numbered, hs.stops, hs.complete, hs.walks, hs.mirrored, hs.origin, hs.target,
    hs.slack⟩

end Search

namespace Router

variable {x : Router} {r : Request} {watch : Option Watch} {supervisor : Supervisor} {s : Search}

/-- Who watches or stops a search makes no difference to its times. -/
theorem Fits.of_search (h : x.Fits r) (hs : x.search r watch supervisor = .ok s) : s.Fits r.date := by
  obtain ⟨haccept, dates, hdates, rfl⟩ := search_eq_ok_iff.mp hs
  have hplain : x.search r none {} = .ok (.ofRequest x.timetable x.snapshot x.settings r
      (r.limits x.settings) dates none {}) :=
    search_eq_ok_iff.mpr ⟨haccept, dates, hdates, rfl⟩
  have hfits := h.search _ (Fallible.toOption_eq_some.mpr hplain)
  exact ⟨hfits.trips, hfits.near, hfits.apart⟩

/-- Trips of a search do not go back in time if their times fit. -/
theorem Deployed.chronological (hx : x.Deployed) (h : x.search r watch supervisor = .ok s)
    (hfits : s.Fits r.date) {v : PatternView} (hv : v ∈ s.viewList) {index : Nat} {d : DayTrip}
    (hd : PatternView.tripIn? v.days index = some d) : Chronological d.calls.toList := by
  have hd' := hfits.trips v hv d (PatternView.mem_trips.mpr ⟨index, hd⟩)
  obtain ⟨i, p, dates, hp, -, rfl⟩ := view_of_mem h hv
  obtain ⟨base, trip, hruns, hpublished, hrevises⟩ := hx.revises_of_view hp hd
  have hsame : d.trip = trip := by rw [hruns.calls]; rfl
  obtain ⟨hbase, hday⟩ := hd'
  rw [hsame] at hbase hday
  have htrip : Chronological trip.calls := by
    refine hrevises.chronological (fun hlive => hpublished.chronological ?_) hruns.usable
    rw [← hrevises.unchanged hlive]
    exact hbase hlive
  rw [hruns.calls]
  exact htrip.later hday

theorem Deployed.wellTimed (hx : x.Deployed) (h : x.search r watch supervisor = .ok s)
    (hfits : s.Fits r.date) : s.exact.WellTimed where
  toWellFormed := (hx.wellFormed h).exact
  exact := s.heading.isExact_exact
  chronological _ hv _ _ hd := hx.chronological h hfits hv hd

/-- Iterations begin one after the other, the worst first. -/
theorem pairwise_times_of_search (h : x.search r watch supervisor = .ok s)
    (hfits : r.WindowFits x.settings) :
    s.times.Pairwise fun a b => s.heading.betterOrEqual b a = true := by
  obtain ⟨haccept, dates, -, rfl⟩ := search_eq_ok_iff.mp h
  change ((Search.headingOf r (r.limits x.settings)).iterationTimes _ _ _).Pairwise _
  rw [hfits.iterationTimes haccept]
  exact Heading.pairwise_iterationTimes (Heading.isExact_exact (Search.headingOf r _)) ..

end Router
end JourneyPlanner
