import JourneyPlanner.Proofs.Agreement
import JourneyPlanner.Proofs.Answering
import JourneyPlanner.Proofs.EventLog
import JourneyPlanner.Proofs.TableHistory
import Mathlib.Data.Rat.Floor

/-!
The window that a report tells is the one that was searched. Iterations begin at the worst time
of the window and come a step nearer to the time of the request each; a search that is stopped
has begun the first of them, a complete one all of them. What is reported on the way bears the
times of the iterations, in their order.
-/

namespace JourneyPlanner

namespace Request

/-- How many steps it takes to cover the window of a request. -/
def plannedIterations (r : Request) (settings : Settings) : Nat :=
  ⌈((r.limits settings).window : ℚ) / (max 1 settings.iterationStep : Int)⌉₊

/-- When the iteration of the given index begins, the worst one first. -/
def iterationTime (r : Request) (settings : Settings) (i : Nat) : Time :=
  let distance := ((r.plannedIterations settings : Int) - 1 - i) * max 1 settings.iterationStep
  match r.direction with
  | .forward => r.time + distance
  | .reverse => r.time - distance

/-- Iterations begin one after the other, each no worse than the next. -/
theorem iterationTime_noWorse (r : Request) (settings : Settings) {i j : Nat} (h : i ≤ j) :
    r.direction.NoWorse (r.iterationTime settings j) (r.iterationTime settings i) := by
  have hle : ((r.plannedIterations settings : Int) - 1 - j) * max 1 settings.iterationStep
      ≤ ((r.plannedIterations settings : Int) - 1 - i) * max 1 settings.iterationStep :=
    Int.mul_le_mul_of_nonneg_right (by omega) (Int.le_of_lt settings.step_pos)
  unfold Direction.NoWorse iterationTime
  cases r.direction with
  | forward => exact Int.add_le_add_left hle _
  | reverse => exact Int.sub_le_sub_left hle _

end Request

namespace Heading

theorem iterationCount_eq_ceil {window step : Int} (hwindow : 0 < window) (hstep : 0 < step)
    (hfits : Time.Fits (window + step - 1)) :
    iterationCount window step = ⌈(window : ℚ) / step⌉₊ := by
  obtain ⟨hpos, hcovers, hleast⟩ := iterationCount_covers hwindow hstep hfits
  have hstep' : (0 : ℚ) < step := Int.cast_pos.mpr hstep
  refine ((Nat.ceil_eq_iff (Nat.ne_of_gt hpos)).mpr ⟨?_, ?_⟩).symm
  · rw [lt_div_iff₀ hstep', Nat.cast_pred hpos]
    exact_mod_cast hleast
  · rw [div_le_iff₀ hstep']
    exact_mod_cast hcovers

end Heading

namespace Router

variable {x : Router} {r : Request} {watch : Option Watch} {supervisor : Supervisor} {s : Search}

theorem iterationCount_eq_planned (h : x.search r watch supervisor = .ok s)
    (hfits : r.WindowFits x.settings) :
    Heading.iterationCount (r.limits x.settings).window (max 1 x.settings.iterationStep)
      = r.plannedIterations x.settings :=
  Heading.iterationCount_eq_ceil (Request.window_of_fault? (search_eq_ok_iff.mp h).1).1
    x.settings.step_pos hfits.counted

/-- The planned iterations cover the window, and one less would not. -/
theorem plannedIterations_covers (h : x.search r watch supervisor = .ok s)
    (hfits : r.WindowFits x.settings) :
    0 < r.plannedIterations x.settings
      ∧ ((r.plannedIterations x.settings : Int) - 1) * max 1 x.settings.iterationStep
        < (r.limits x.settings).window := by
  obtain ⟨hpos, -, hleast⟩ := Heading.iterationCount_covers
    (Request.window_of_fault? (search_eq_ok_iff.mp h).1).1 x.settings.step_pos hfits.counted
  rw [← iterationCount_eq_planned h hfits]
  exact ⟨hpos, hleast⟩

/-- The iterations of a search for an accepted request. -/
theorem times_of_search (h : x.search r watch supervisor = .ok s) (hfits : r.WindowFits x.settings) :
    s.times = (List.range (r.plannedIterations x.settings)).map (r.iterationTime x.settings) := by
  have hcount := iterationCount_eq_planned h hfits
  obtain ⟨haccept, dates, -, rfl⟩ := search_eq_ok_iff.mp h
  change Heading.iterationTimes _ _ _ _ = _
  rw [hfits.iterationTimes haccept]
  unfold Heading.iterationTimes
  dsimp only
  rw [hcount]
  refine List.ext_getElem (by simp) fun i hi _ => ?_
  have hlt : i < r.plannedIterations x.settings := by simpa using hi
  have hcast : ((r.plannedIterations x.settings - 1 - i : Nat) : Int)
      = (r.plannedIterations x.settings : Int) - 1 - i := by omega
  simp only [List.getElem_map, List.getElem_reverse, List.getElem_range, List.length_range,
    Request.iterationTime, Heading.advance]
  rw [Int.ofNat_eq_natCast, hcast]
  rfl

end Router

namespace Search

variable {s : Search} {x y : Moment} {ts : List StopTable}

/-- Between turns: the iterations begun and those to come are the planned ones, and the reports so
far bear the times of iterations in their order. -/
structure Moment.IsTimed (s : Search) (x : Moment) : Prop where
  planned : x.progress.searched.reverse ++ x.times = s.times
  counted : x.progress.searched.length = x.progress.table.iteration
  begun : x.round? ≠ none → x.progress.searched ≠ []
  timed : ∀ e ∈ x.progress.events.toList, e.time ∈ x.progress.searched
  ordered : x.progress.events.toList.Pairwise fun e e' =>
    s.heading.betterOrEqual e'.time e.time = true

section Ordered

variable (hs : s.times.Pairwise fun a b => s.heading.betterOrEqual b a = true)

include hs

/-- The current iteration is the best one so far. -/
theorem Moment.IsTimed.time_better (hx : x.IsTimed s) (hbegun : x.progress.searched ≠ []) :
    x.progress.time ∈ x.progress.searched
      ∧ ∀ time ∈ x.progress.searched, s.heading.betterOrEqual x.progress.time time = true := by
  have hsorted := hs
  rw [← hx.planned, List.pairwise_append, List.pairwise_reverse] at hsorted
  unfold Progress.time
  cases hsearched : x.progress.searched with
  | nil => exact absurd hsearched hbegun
  | cons time times =>
      rw [hsearched] at hsorted
      refine ⟨List.mem_cons_self .., fun time' htime' => ?_⟩
      rcases List.mem_cons.mp htime' with rfl | htime'
      · exact s.heading.betterOrEqual_refl _
      · exact (List.pairwise_cons.mp hsorted.1).1 time' htime'

/-- Reports of the current iteration come after the ones before. -/
theorem Moment.IsTimed.tell (hx : x.IsTimed s) (hbegun : x.progress.searched ≠ [])
    {q : Progress} {es : List Event}
    (hsearched : q.searched = x.progress.searched)
    (hiteration : q.table.iteration = x.progress.table.iteration)
    (hevents : q.events.toList = x.progress.events.toList ++ es)
    (hes : ∀ e ∈ es, e.time = x.progress.time) : Moment.IsTimed s ⟨x.times, x.round?, q⟩ := by
  obtain ⟨hmem, hbest⟩ := hx.time_better hs hbegun
  refine ⟨?planned, ?counted, fun _ => ?begun, ?timed, ?ordered⟩
  case planned => exact hsearched ▸ hx.planned
  case counted => exact hsearched ▸ hiteration ▸ hx.counted
  case begun => exact hsearched ▸ hbegun
  case timed =>
    simp only [hevents, hsearched, List.mem_append]
    rintro e (he | he)
    · exact hx.timed e he
    · exact hes e he ▸ hmem
  case ordered =>
    simp only [hevents]
    refine List.pairwise_append.mpr ⟨hx.ordered, List.pairwise_of_forall_mem_list ?_, ?_⟩
    · intro e he e' he'
      rw [hes e he, hes e' he']
      exact s.heading.betterOrEqual_refl _
    · intro e he e' he'
      rw [hes e' he']
      exact hbest e.time (hx.timed e he)

theorem Turn.keepsTimed (hx : x.IsTimed s) (h : Turn s x ts y) : y.IsTimed s := by
  cases h with
  | begin time times round? p =>
      refine ⟨?_, congrArg (· + 1) hx.counted, fun _ => List.cons_ne_nil _ _, fun e he => ?_,
        hx.ordered⟩
      · change (time :: p.searched).reverse ++ times = s.times
        rw [List.reverse_cons, List.append_assoc, List.singleton_append]
        exact hx.planned
      · exact List.mem_cons_of_mem _ (hx.timed e he)
  | @arrival times p p' a result hfollows hiteration hadd =>
      have hkept : p'.table.iteration = p.table.iteration := by
        rcases table_of_addArrival hadd with hsame | ⟨old, -, -, hplaced⟩
        · rw [hsame]
        · rw [hplaced]
          rfl
      obtain ⟨t, es, hjudges, rfl⟩ := addArrival_eq_ok.mp hadd
      have hagrees := tellAll_agrees s { p with table := t } es
      refine hx.tell hs (hx.begun (by simp)) hagrees.searched hkept (events_tellAll ?_) ?_
      · exact hjudges.time
      · exact fun e he => hjudges.time e (List.mem_of_mem_filter he)
  | again times round p => exact hx
  | @journey times round p d hknown =>
      obtain ⟨front, es, hweighs⟩ := exists_weighs s p d
      have hagrees := tellAll_agrees s { p with destination := front } es
      rw [hweighs.addJourney]
      refine hx.tell hs (hx.begun (by simp)) hagrees.searched (congrArg _ hagrees.table)
        (events_tellAll ?_) ?_
      · exact hweighs.time
      · exact fun e he => hweighs.time e (List.mem_of_mem_filter he)
  | count highestRound checks => exact ⟨hx.planned, hx.counted, hx.begun, hx.timed, hx.ordered⟩
  | next times round p =>
      exact ⟨hx.planned, hx.counted, fun _ => hx.begun (by simp), hx.timed, hx.ordered⟩

end Ordered

theorem isTimed_start (s : Search) : Moment.IsTimed s ⟨s.times, none, s.start⟩ where
  planned := rfl
  counted := rfl
  begun hround := absurd rfl hround
  timed _ he := by simp [start] at he
  ordered := .nil

/-- The ends of the window are the first and the last iteration begun, in the order of time. -/
theorem window_reportOf {r : Request} {settings : Settings} {p : Progress} {m : Nat} (hm : 0 < m)
    (hsearched : p.searched.reverse = (List.range m).map (r.iterationTime settings)) :
    match r.direction with
    | .forward => (reportOf r p).windowStart = r.iterationTime settings (m - 1)
      ∧ (reportOf r p).windowEnd = r.iterationTime settings 0
    | .reverse => (reportOf r p).windowStart = r.iterationTime settings 0
      ∧ (reportOf r p).windowEnd = r.iterationTime settings (m - 1) := by
  have hmem : ∀ {time : Time}, time ∈ p.searched ↔ ∃ i < m, r.iterationTime settings i = time := by
    intro time
    rw [← List.mem_reverse, hsearched, List.mem_map]
    simp only [List.mem_range]
  have hfirst : r.iterationTime settings 0 ∈ p.searched := hmem.mpr ⟨0, hm, rfl⟩
  have hlast : r.iterationTime settings (m - 1) ∈ p.searched :=
    hmem.mpr ⟨m - 1, Nat.sub_one_lt_of_lt hm, rfl⟩
  have hbetween : ∀ time ∈ p.searched, r.direction.NoWorse time (r.iterationTime settings 0)
      ∧ r.direction.NoWorse (r.iterationTime settings (m - 1)) time := by
    intro time htime
    obtain ⟨i, hi, rfl⟩ := hmem.mp htime
    exact ⟨r.iterationTime_noWorse settings (Nat.zero_le i),
      r.iterationTime_noWorse settings (Nat.le_sub_one_of_lt hi)⟩
  unfold reportOf
  cases hdirection : r.direction with
  | forward =>
      rw [hdirection] at hbetween
      have hmin := List.min?_eq_some_iff.mpr ⟨hlast, fun time htime => (hbetween time htime).2⟩
      have hmax := List.max?_eq_some_iff.mpr ⟨hfirst, fun time htime => (hbetween time htime).1⟩
      dsimp only
      rw [hmin, hmax]
      exact ⟨rfl, rfl⟩
  | reverse =>
      rw [hdirection] at hbetween
      have hmin := List.min?_eq_some_iff.mpr ⟨hfirst, fun time htime => (hbetween time htime).1⟩
      have hmax := List.max?_eq_some_iff.mpr ⟨hlast, fun time htime => (hbetween time htime).2⟩
      dsimp only
      rw [hmin, hmax]
      exact ⟨rfl, rfl⟩

/-- The window ends where the iterations begin, and is as long as they got. -/
theorem span_reportOf {r : Request} {settings : Settings} {p : Progress} {m : Nat} (hm : 0 < m)
    (hsearched : p.searched.reverse = (List.range m).map (r.iterationTime settings)) :
    (reportOf r p).windowEnd - (reportOf r p).windowStart
        = ((m : Int) - 1) * max 1 settings.iterationStep
      ∧ match r.direction with
        | .forward => (reportOf r p).windowEnd
          = r.time + ((r.plannedIterations settings : Int) - 1) * max 1 settings.iterationStep
        | .reverse => (reportOf r p).windowStart
          = r.time - ((r.plannedIterations settings : Int) - 1) * max 1 settings.iterationStep := by
  have hwindow := window_reportOf hm hsearched
  unfold Request.iterationTime at hwindow
  rw [Nat.cast_pred hm, Nat.cast_zero] at hwindow
  cases hdirection : r.direction with
  | forward =>
      simp only [hdirection] at hwindow
      rw [hwindow.1, hwindow.2]
      exact ⟨by ring, by ring⟩
  | reverse =>
      simp only [hdirection] at hwindow
      rw [hwindow.1, hwindow.2]
      exact ⟨by ring, by ring⟩

end Search

/-- What a response and the reports on the way tell of the iterations begun. -/
structure Response.TellsWindow (r : Request) (settings : Settings) (begun : Nat)
    (response : Response) (events : List Event) : Prop where
  iterations : response.report.iterations = begun
  planned : begun ≤ r.plannedIterations settings
  none : begun = 0 → response.report.windowStart = r.time ∧ response.report.windowEnd = r.time
  span : 0 < begun → response.report.windowEnd - response.report.windowStart
    = ((begun : Int) - 1) * max 1 settings.iterationStep
  worst : 0 < begun →
    match r.direction with
    | .forward => response.report.windowEnd
      = r.time + ((r.plannedIterations settings : Int) - 1) * max 1 settings.iterationStep
    | .reverse => response.report.windowStart
      = r.time - ((r.plannedIterations settings : Int) - 1) * max 1 settings.iterationStep
  complete : response.status = .complete → begun = r.plannedIterations settings
    ∧ (match r.direction with
      | .forward => response.report.windowStart = r.time
      | .reverse => response.report.windowEnd = r.time)
    ∧ response.report.windowEnd - response.report.windowStart < (r.limits settings).window
  timed : ∀ e ∈ events, ∃ i < begun, e.time = r.iterationTime settings i
  ordered : events.Pairwise fun e e' => r.direction.NoWorse e'.time e.time

namespace Router

variable {x : Router} {r : Request} {watch : Option Watch} {supervisor : Supervisor} {s : Search}

/-- Wherever it is stopped, a search has begun the first of the planned iterations, and all of
them if it is complete. -/
theorem begun_of_run (h : x.search r watch supervisor = .ok s) (hfits : r.WindowFits x.settings)
    {status : SearchStatus}
    {p : Progress} (hrun : s.run = .ok (status, p)) :
    p.table.iteration ≤ r.plannedIterations x.settings
      ∧ p.searched.reverse = (List.range p.table.iteration).map (r.iterationTime x.settings)
      ∧ (status = .complete → p.table.iteration = r.plannedIterations x.settings)
      ∧ (∀ e ∈ p.events.toList, e.time ∈ p.searched)
      ∧ p.events.toList.Pairwise fun e e' => r.direction.NoWorse e'.time e.time := by
  have htimes := times_of_search h hfits
  have hdirection := direction_of_search h
  obtain ⟨rest, last?, hturns, hcomplete⟩ := Search.turns_run hrun
  have hend := hturns.keeps (I := Search.Moment.IsTimed s)
    (fun _ _ _ hx hturn => hturn.keepsTimed (pairwise_times_of_search h hfits) hx)
    (Search.isTimed_start s)
  have hplanned : p.searched.reverse ++ rest = s.times := hend.planned
  have hcounted : p.searched.reverse.length = p.table.iteration :=
    List.length_reverse.trans hend.counted
  have hlength := congrArg List.length hplanned
  rw [List.length_append, hcounted, htimes, List.length_map, List.length_range] at hlength
  have hle : p.table.iteration ≤ r.plannedIterations x.settings := by omega
  refine ⟨hle, ?_, fun hstatus => ?_, hend.timed, ?_⟩
  · have htake := congrArg (List.take p.table.iteration) hplanned
    rw [List.take_append_of_le_length (Nat.le_of_eq hcounted.symm), ← hcounted, List.take_length,
      hcounted, htimes, ← List.map_take, List.take_range, Nat.min_eq_left hle] at htake
    exact htake
  · rw [hcomplete hstatus, List.length_nil] at hlength
    exact hlength
  · exact hend.ordered.imp fun {e e'} he => hdirection ▸ Heading.betterOrEqual_iff.mp he

/-- The window that is told is the one that was searched, wherever the search was stopped. -/
theorem window_of_run (h : x.search r watch supervisor = .ok s) (hfits : r.WindowFits x.settings)
    {status : SearchStatus}
    {p : Progress} (hrun : s.run = .ok (status, p)) (its : List Itinerary) :
    Response.TellsWindow r x.settings p.table.iteration ⟨status, its, Search.reportOf r p⟩
      p.events.toList := by
  obtain ⟨hplanned, hsearched, hcomplete, htimed, hordered⟩ := begun_of_run h hfits hrun
  have hlength := congrArg List.length hsearched
  rw [List.length_reverse, List.length_map, List.length_range] at hlength
  obtain ⟨hpos, hcovers⟩ := plannedIterations_covers h hfits
  have hends := fun hm : 0 < p.table.iteration => Search.span_reportOf hm hsearched
  refine ⟨hlength, hplanned, fun hnone => ?none, fun hm => (hends hm).1, fun hm => (hends hm).2,
    fun hstatus => ?complete, fun e he => ?timed, hordered⟩
  case none =>
    have hempty := List.eq_nil_of_length_eq_zero (hlength.trans hnone)
    simp [Search.reportOf, hempty]
  case complete =>
    have hall := hcomplete hstatus
    obtain ⟨hspan, hworst⟩ := hends (hall ▸ hpos)
    rw [hall] at hspan
    refine ⟨hall, ?_, lt_of_eq_of_lt hspan hcovers⟩
    cases hdirection : r.direction with
    | forward =>
        simp only [hdirection] at hworst
        dsimp only
        linarith
    | reverse =>
        simp only [hdirection] at hworst
        dsimp only
        linarith
  case timed =>
    have hmem := List.mem_reverse.mpr (htimed e he)
    rw [hsearched] at hmem
    obtain ⟨i, hi, htime⟩ := List.mem_map.mp hmem
    exact ⟨i, List.mem_range.mp hi, htime.symm⟩

end Router

namespace FeederLine

/-- Takes steps that do not divide the window. -/
def coarse : Router where
  timetable := router.timetable
  settings := { iterationStep := 100 }

theorem coarse_deployed : coarse.Deployed where
  timetable := router_deployed.timetable
  snapshot := ⟨_, .start, rfl⟩

/-- Everything is watched. -/
def watched : Watch where
  arrivals := true
  paths := true

end FeederLine

namespace LongWindow

/-- Windows and steps of many years. -/
def router : Router where
  timetable := ThreeLines.router.timetable
  settings := { maxSearchWindow := 2000000000, iterationStep := 1000000000 }

theorem router_deployed : router.Deployed where
  timetable := ThreeLines.router_deployed.timetable
  snapshot := ⟨_, .start, rfl⟩

/-- A window of two steps. -/
def request : Request :=
  { ThreeLines.request with searchWindow := some 2000000000 }

end LongWindow

end JourneyPlanner
