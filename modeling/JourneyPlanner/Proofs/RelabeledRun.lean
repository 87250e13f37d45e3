import JourneyPlanner.Proofs.Relabeled

/-!
Searches that differ in labels only go through the same steps. Each step of the one is
matched by the step of the other, from the first street leg to the end of the run, and
both are stopped at the same moment.
-/

namespace JourneyPlanner
namespace Search

variable {m : Relabeling} {s s' : Search} {p p' q : Progress}

theorem Relabels.heading (hs : s.Relabels m s') : s'.heading = s.heading := by
  obtain ⟨views, filter, times, rfl⟩ := hs.alike
  rfl

theorem Relabels.maxRounds (hs : s.Relabels m s') : s'.maxRounds = s.maxRounds := by
  obtain ⟨views, filter, times, rfl⟩ := hs.alike
  rfl

section Reports

theorem reportArrival_relabels (hs : s.Relabels m s') (hp : p.Relabels m p')
    {action action' : Action} {a : StopArrival} {rival rival' : Option StopArrival}
    {reason reason' : Reason} :
    (s.reportArrival p action a rival reason).Relabels m
      (s'.reportArrival p' action' (m.arrival a) rival' reason') := by
  obtain ⟨views, filter, times, rfl⟩ := hs.alike
  unfold reportArrival
  dsimp only
  cases s.watch with
  | none => exact hp
  | some w =>
      have hwants : w.wants p'.table (m.arrival a) = w.wants p.table a := by
        rw [hp.table, m.wants_table]
      dsimp only
      rw [hwants]
      split
      · exact ⟨hp.table, hp.destination, hp.searched, hp.highestRound, hp.checks,
          congrArg (· + 1) hp.arrivalReports⟩
      · exact hp

theorem reportPath_relabels (hs : s.Relabels m s') (hp : p.Relabels m p')
    {action action' : Action} {d d' : DestinationArrival} {rival rival' : Option DestinationArrival}
    {reason reason' : Reason} :
    (s.reportPath p action d rival reason).Relabels m
      (s'.reportPath p' action' d' rival' reason') := by
  obtain ⟨views, filter, times, rfl⟩ := hs.alike
  unfold reportPath
  dsimp only
  cases s.watch with
  | none => exact hp
  | some w =>
      dsimp only
      split
      · exact ⟨hp.table, hp.destination, hp.searched, hp.highestRound, hp.checks,
          hp.arrivalReports⟩
      · exact hp

end Reports

section Arrivals

theorem bound_arrival (hs : s.Relabels m s') (a : StopArrival) :
    s'.bound (m.arrival a) = m.merits (s.bound a) := by
  obtain ⟨views, filter, times, rfl⟩ := hs.alike
  simp only [bound, Relabeling.merits, Relabeling.arrival, Heading.advance_add hs.shifts]
  rfl

theorem pruned?_relabels (hs : s.Relabels m s') (hp : p.Relabels m p') (a : StopArrival) :
    s'.pruned? p' (m.arrival a) = (s.pruned? p a).map m.journey := by
  have hbound := bound_arrival hs a
  obtain ⟨views, filter, times, rfl⟩ := hs.alike
  unfold pruned? DestinationArrival.pruning?
  rw [hbound, hp.destination, List.find?_map]
  simp only [Function.comp_def, Relabeling.journey, Relabeling.dominates_merits]
  change (if (s.pruning && decide (0 < a.round)) = true then _ else _) = _
  split <;> rfl

theorem dominates_relabels (hs : s.Relabels m s') (a b : StopArrival) :
    s'.dominates (m.arrival a) (m.arrival b) = s.dominates a b := by
  obtain ⟨views, filter, times, rfl⟩ := hs.alike
  exact m.dominates_arrival s.heading s.policy.cost a b

theorem rivalBelow?_relabels (hs : s.Relabels m s') (t : StopTable) (a : StopArrival) :
    (m.table t).rivalBelow? s'.dominates (m.arrival a)
      = (t.rivalBelow? s.dominates a).map m.label := by
  unfold StopTable.rivalBelow?
  rw [List.map_findSome?]
  refine congrArg (fun f => List.findSome? f (List.range a.round)) ?_
  funext round
  change (((m.table t).front? round a.stop).getD []).find? _ = _
  simp only [Relabeling.front?_table, Function.comp_apply]
  cases t.front? round a.stop with
  | none => rfl
  | some labels =>
      simp only [Option.map_some, Option.getD_some, List.find?_map, Function.comp_def]
      simp only [Relabeling.label, dominates_relabels hs]

theorem judge_relabels (hs : s.Relabels m s') {t : StopTable} {a : StopArrival}
    {added : Pareto.Addition Label} (h : t.judge s.dominates a = .ok added) :
    (m.table t).judge s'.dominates (m.arrival a) = .ok (added.map m.label) := by
  simp only [StopTable.judge, Fallible.bind_eq_ok] at h
  obtain ⟨labels, hlabels, h⟩ := h
  have hfront : (m.table t).front (m.arrival a).round (m.arrival a).stop
      = .ok (labels.map m.label) := Relabeling.front_table hlabels
  simp only [StopTable.judge, hfront, rivalBelow?_relabels hs, bind, Except.bind]
  cases hrival : t.rivalBelow? s.dominates a with
  | some rival =>
      simp only [hrival, Fallible.pure_eq_ok] at h
      subst h
      rfl
  | none =>
      simp only [hrival, Fallible.pure_eq_ok] at h
      subst h
      have hadd : Pareto.add (fun l r : Label => s'.dominates l.arrival r.arrival)
          (labels.map m.label) (m.label ⟨t.arrivals.size, a⟩)
            = (Pareto.add (fun l r : Label => s.dominates l.arrival r.arrival) labels
              ⟨t.arrivals.size, a⟩).map m.label :=
        Pareto.add_map (fun l r => dominates_relabels hs l.arrival r.arrival) labels _
      rw [← hadd]
      simp only [Option.map_none, Relabeling.label, Relabeling.table, Array.size_map]
      rfl

theorem addArrival_relabels (hs : s.Relabels m s') (hp : p.Relabels m p') {a : StopArrival}
    {result : Option Nat} (h : s.addArrival p a = .ok (q, result)) :
    ∃ q', s'.addArrival p' (m.arrival a) = .ok (q', result) ∧ q.Relabels m q' := by
  unfold addArrival at h ⊢
  rw [pruned?_relabels hs hp]
  cases hpruned : s.pruned? p a with
  | some journey =>
      simp only [hpruned, Except.ok.injEq, Prod.mk.injEq] at h
      obtain ⟨rfl, rfl⟩ := h
      exact ⟨_, rfl, reportArrival_relabels hs hp⟩
  | none =>
      simp only [hpruned, Fallible.bind_eq_ok] at h
      obtain ⟨added, hjudge, h⟩ := h
      simp only [Option.map_none, hp.table, judge_relabels hs hjudge, bind, Except.bind]
      cases added with
      | rejected rival =>
          simp only [Fallible.pure_eq_ok, Prod.mk.injEq] at h
          obtain ⟨rfl, rfl⟩ := h
          exact ⟨_, rfl, reportArrival_relabels hs hp⟩
      | accepted labels dropped =>
          simp only [Fallible.pure_eq_ok, Prod.mk.injEq] at h
          obtain ⟨rfl, rfl⟩ := h
          have hplace : (p.place a labels).Relabels m
              (p'.place (m.arrival a) (labels.map m.label)) :=
            ⟨by rw [Progress.place_eq, Progress.place_eq, hp.table, m.table_place], hp.destination,
              hp.searched, hp.highestRound, hp.checks, hp.arrivalReports⟩
          have hnumber : (m.table p.table).numAccepted = p.table.numAccepted := Array.size_map ..
          refine ⟨_, congrArg (fun n => Except.ok (_, some n)) hnumber, ?_⟩
          rw [List.foldl_map]
          exact foldl_both (R := Progress.Relabels m) dropped (fun l _ _ _ hq =>
            reportArrival_relabels (a := l.arrival) hs hq)
            (reportArrival_relabels hs hplace)

/-- Adding arrivals that correspond one after the other. -/
theorem addAll_relabels {α : Type} (hs : s.Relabels m s') (hp : p.Relabels m p') {xs : List α}
    {f f' : Progress → α → StopArrival}
    (hf : ∀ x ∈ xs, ∀ p p', p.Relabels m p' → f' p' x = m.arrival (f p x))
    (h : xs.foldlM (fun p x => (s.addArrival p (f p x)).map (·.1)) p = .ok q) :
    ∃ q', xs.foldlM (fun p x => (s'.addArrival p (f' p x)).map (·.1)) p' = .ok q'
      ∧ q.Relabels m q' := by
  refine Fallible.foldlM_both (fun x hx p p' q hp h => ?_) hp h
  obtain ⟨⟨q, result⟩, hadd, rfl⟩ := Fallible.map_eq_ok.mp h
  obtain ⟨q', hadd', hq⟩ := addArrival_relabels hs hp hadd
  rw [hf x hx p p' hp]
  exact ⟨q', Fallible.map_eq_ok.mpr ⟨_, hadd', rfl⟩, hq⟩

theorem addJourney_relabels (hs : s.Relabels m s') (hp : p.Relabels m p') (d : DestinationArrival) :
    (s.addJourney p d).Relabels m (s'.addJourney p' (m.journey d)) := by
  have hadd : Pareto.add (DestinationArrival.dominates s'.heading s'.policy) p'.destination
      (m.journey d) = (Pareto.add (DestinationArrival.dominates s.heading s.policy)
        p.destination d).map m.journey := by
    obtain ⟨views, filter, times, rfl⟩ := hs.alike
    rw [hp.destination]
    exact Pareto.add_map (m.dominates_journey s.heading s.policy) p.destination d
  unfold addJourney
  rw [hadd]
  cases Pareto.add (DestinationArrival.dominates s.heading s.policy) p.destination d with
  | rejected rival => exact reportPath_relabels hs hp
  | accepted front dropped =>
      have hnext : Progress.Relabels m { p with destination := front }
          { p' with destination := front.map m.journey } :=
        ⟨hp.table, rfl, hp.searched, hp.highestRound, hp.checks, hp.arrivalReports⟩
      simp only [Pareto.Addition.map, List.foldl_map]
      exact foldl_both (R := Progress.Relabels m) dropped (fun _ _ _ _ hq => reportPath_relabels hs hq)
        (reportPath_relabels hs hnext)

theorem journeyFrom_relabels (hs : s.Relabels m s') (id : Nat) (a : StopArrival) (duration : Time) :
    s'.journeyFrom id (m.arrival a) duration = m.journey (s.journeyFrom id a duration) := by
  obtain ⟨views, filter, times, rfl⟩ := hs.alike
  simp only [journeyFrom, Relabeling.journey, Relabeling.merits, Relabeling.arrival,
    Heading.advance_add hs.shifts]

theorem reachDestination_relabels (hs : s.Relabels m s') (hp : p.Relabels m p') (id : Nat)
    (a : StopArrival) :
    (s.reachDestination p id a).Relabels m (s'.reachDestination p' id (m.arrival a)) := by
  have htarget : s'.targetDurations (m.arrival a).stop = s.targetDurations a.stop := by
    obtain ⟨views, filter, times, rfl⟩ := hs.alike
    rfl
  unfold reachDestination
  rw [htarget]
  refine foldl_both (R := Progress.Relabels m) (s.targetDurations a.stop) (fun duration _ _ _ hq => ?_) hp
  rw [journeyFrom_relabels hs]
  exact addJourney_relabels hs hq _

theorem seed_relabels (hs : s.Relabels m s') (hp : p.Relabels m p') {time : Time}
    (h : s.seed p time = .ok q) :
    ∃ q', s'.seed p' (time + m.later) = .ok q' ∧ q.Relabels m q' := by
  have horigin : s'.origin = s.origin := by
    obtain ⟨views, filter, times, rfl⟩ := hs.alike
    rfl
  unfold seed
  rw [horigin]
  refine addAll_relabels hs hp (fun leg _ p p' hp => ?_) h
  obtain ⟨views, filter, times, rfl⟩ := hs.alike
  simp only [originArrival, Relabeling.arrival, Relabeling.kind, Heading.advance_add hs.shifts, hp.table]
  rfl

end Arrivals

section Scan

variable {v v' : PatternView} {round position stop : Nat}

theorem boardingCost_relabels (hs : s.Relabels m s') (a : StopArrival) (time : Time) (round : Nat) :
    s'.boardingCost (m.arrival a) (time + m.later) round = s.boardingCost a time round := by
  have hdiscouraged : s'.isDiscouraged (m.arrival a) = s.isDiscouraged a := by
    obtain ⟨views, filter, times, rfl⟩ := hs.alike
    unfold isDiscouraged
    simp only [Relabeling.arrival]
    cases a.kind <;> rfl
  unfold boardingCost
  rw [hdiscouraged]
  obtain ⟨views, filter, times, rfl⟩ := hs.alike
  simp only [Relabeling.arrival, Heading.wait_add]

theorem originTimeOf_relabels (hs : s.Relabels m s') (a : StopArrival) (time : Time) :
    s'.originTimeOf (m.arrival a) (time + m.later) = s.originTimeOf a time + m.later := by
  obtain ⟨views, filter, times, rfl⟩ := hs.alike
  unfold originTimeOf
  simp only [Relabeling.arrival]
  cases a.kind with
  | access duration => exact Heading.originTime_add hs.shifts time duration
  | transit pattern trip boardPosition position => rfl
  | transfer fromStop duration => rfl

theorem board_relabels (hs : s.Relabels m s') (hv : v.Relabels m s.heading s.filter s'.filter v')
    {l : Label} {boarding : Option Boarding} (h : s.board v round position l = .ok boarding) :
    s'.board v' round position (m.label l) = .ok (boarding.map (m.boarding v.pattern)) := by
  simp only [board, Fallible.bind_eq_ok] at h
  obtain ⟨found, hfound, h⟩ := h
  obtain ⟨found', hfound', hsame⟩ := hv.catches hfound
  have hlimit : s.heading.boardLimit (m.label l).arrival.time
      = s.heading.boardLimit l.arrival.time + m.later :=
    Heading.boardLimit_add hs.shifts l.arrival.time
  simp only [board, hs.heading, hlimit, hfound']
  cases hsame with
  | none =>
      obtain rfl := Fallible.pure_eq_ok.mp h
      rfl
  | @some c c' hc =>
      obtain rfl := Fallible.pure_eq_ok.mp h
      simp only [bind, Except.bind, hc.index, hc.time, Relabeling.label,
        boardingCost_relabels hs, originTimeOf_relabels hs]
      rfl

theorem boardAll_relabels (hs : s.Relabels m s') (hv : v.Relabels m s.heading s.filter s'.filter v')
    {labels : List Label} {onboard : List Boarding}
    (h : s.boardAll v round position labels = .ok onboard) :
    s'.boardAll v' round position (labels.map m.label)
      = .ok (onboard.map (m.boarding v.pattern)) := by
  induction labels generalizing onboard with
  | nil =>
      simp only [boardAll, Except.ok.injEq] at h
      exact h ▸ rfl
  | cons l ls ih =>
      simp only [boardAll, Fallible.bind_eq_ok, Fallible.pure_eq_ok] at h
      obtain ⟨boarding, hl, rest, hrest, rfl⟩ := h
      simp only [List.map_cons, boardAll, board_relabels hs hv hl, ih hrest, bind, Except.bind,
        List.map_append]
      cases boarding <;> rfl

theorem alightArrival_relabels (hs : s.Relabels m s') (hpattern : v'.pattern = v.pattern)
    {iteration : Nat} {b : Boarding} {d d' : DayTrip} {boardCall boardCall' call call' : Call}
    (hboard : boardCall.Agrees m.later s.filter s'.filter d.trip d'.trip b.position boardCall')
    (hcall : call.Agrees m.later s.filter s'.filter d.trip d'.trip position call') :
    s'.alightArrival v' round position stop iteration (m.boarding v.pattern b) boardCall' call'
      = m.arrival (s.alightArrival v round position stop iteration b boardCall call) := by
  have hride := hboard.inVehicle s.heading hcall
  have htime := hcall.alightTime s.heading hs.shifts
  obtain ⟨views, filter, times, rfl⟩ := hs.alike
  simp only [alightArrival, Relabeling.arrival, Relabeling.boarding, Relabeling.kind, hpattern, hride,
    htime]

theorem alight_relabels (hs : s.Relabels m s') (hv : v.Relabels m s.heading s.filter s'.filter v')
    (hp : p.Relabels m p') {b : Boarding} (h : s.alight v round position stop p b = .ok q) :
    ∃ q', s'.alight v' round position stop p' (m.boarding v.pattern b) = .ok q'
      ∧ q.Relabels m q' := by
  simp only [alight, Fallible.bind_eq_ok] at h
  obtain ⟨d, hd, call, hcall, h⟩ := h
  obtain ⟨d', hd', hagrees⟩ := hv.trips (tripAt_eq_ok hd)
  obtain ⟨call', hcall', hsame⟩ := hagrees.call hcall
  have htrip' : v'.tripAt (m.boarding v.pattern b).trip = .ok d' := by
    rw [PatternView.tripAt, Relabeling.boarding, hd']
  simp only [alight, htrip', hcall', bind, Except.bind, hs.heading, hsame.alights s.heading stop]
  split at h
  case isFalse hno =>
    rw [if_neg hno]
    exact ⟨p', rfl, Fallible.pure_eq_ok.mp h ▸ hp⟩
  case isTrue hyes =>
    rw [if_pos hyes]
    simp only [Fallible.bind_eq_ok] at h
    obtain ⟨boardCall, hboard, ⟨q₁, result⟩, hadd, h⟩ := h
    obtain ⟨boardCall', hboard', hboards⟩ := hagrees.call hboard
    have hboarded' : d'.call (m.boarding v.pattern b).position = .ok boardCall' := hboard'
    obtain ⟨q₁', hadd', hq₁⟩ := addArrival_relabels hs hp hadd
    have hiteration : p'.table.iteration = p.table.iteration := by rw [hp.table]; rfl
    simp only [hboarded', hiteration, alightArrival_relabels hs hv.pattern hboards hsame, hadd']
    cases result with
    | none => exact ⟨q₁', rfl, Fallible.pure_eq_ok.mp h ▸ hq₁⟩
    | some id =>
        obtain rfl := Fallible.pure_eq_ok.mp h
        exact ⟨_, rfl, reachDestination_relabels hs hq₁ id _⟩

theorem scanStop_relabels (hs : s.Relabels m s') (hv : v.Relabels m s.heading s.filter s'.filter v')
    (hp : p.Relabels m p') {onboard onboard' : List Boarding} {entry : Nat × Nat}
    (h : s.scanStop v round (p, onboard) entry = .ok (q, onboard')) :
    ∃ q', s'.scanStop v' round (p', onboard.map (m.boarding v.pattern)) entry
        = .ok (q', onboard'.map (m.boarding v.pattern)) ∧ q.Relabels m q' := by
  obtain ⟨stop, position⟩ := entry
  simp only [scanStop] at h ⊢
  rw [hs.stops]
  split at h
  case isFalse hno =>
    simp only [Except.ok.injEq, Prod.mk.injEq] at h
    obtain ⟨rfl, rfl⟩ := h
    exact ⟨p', by rw [if_neg hno], hp⟩
  case isTrue hyes =>
    simp only [Fallible.bind_eq_ok, Fallible.pure_eq_ok, Prod.mk.injEq] at h
    obtain ⟨p₁, halight, labels, hlabels, caught, hcaught, rfl, rfl⟩ := h
    obtain ⟨p₁', halight', hp₁⟩ := Fallible.foldlM_both (R := Progress.Relabels m)
      (g := fun p b => s'.alight v' round position stop p (m.boarding v.pattern b))
      (fun _ _ _ _ _ hp h => alight_relabels hs hv hp h) hp halight
    have hlabels' : p₁'.table.newLabelsAt (round - 1) stop = .ok (labels.map m.label) :=
      hp₁.table ▸ Relabeling.newLabelsAt_table hlabels
    refine ⟨p₁', ?_, hp₁⟩
    rw [if_pos hyes, List.foldlM_map]
    simp only [halight', hlabels', boardAll_relabels hs hv hcaught, bind, Except.bind,
      List.map_append]
    rfl

theorem scanStops_relabels (hs : s.Relabels m s') (hv : v.Relabels m s.heading s.filter s'.filter v')
    (hp : p.Relabels m p') {entries : List (Nat × Nat)} {onboard onboard' : List Boarding}
    (h : entries.foldlM (s.scanStop v round) (p, onboard) = .ok (q, onboard')) :
    ∃ q' caught, entries.foldlM (s'.scanStop v' round) (p', onboard.map (m.boarding v.pattern))
        = .ok (q', caught) ∧ q.Relabels m q' := by
  have hrun : ∃ state', entries.foldlM (s'.scanStop v' round)
      (p', onboard.map (m.boarding v.pattern)) = .ok state' ∧ q.Relabels m state'.1
        ∧ state'.2 = onboard'.map (m.boarding v.pattern) := by
    refine Fallible.foldlM_both
      (R := fun state state' : Progress × List Boarding =>
        state.1.Relabels m state'.1 ∧ state'.2 = state.2.map (m.boarding v.pattern))
      ?_ ⟨hp, rfl⟩ h
    rintro entry - ⟨p, onboard⟩ ⟨p', caught⟩ ⟨q, onboard'⟩ ⟨hp, rfl⟩ hstep
    obtain ⟨q', hstep', hq⟩ := scanStop_relabels hs hv hp hstep
    exact ⟨_, hstep', hq, rfl⟩
  obtain ⟨⟨q', caught⟩, hscan, hq, -⟩ := hrun
  exact ⟨q', caught, hscan, hq⟩

/-- Going along a pattern without trips changes nothing. -/
theorem scanStops_of_numTrips_zero (hnone : v.numTrips = 0) {entries : List (Nat × Nat)}
    {state : Progress × List Boarding}
    (h : entries.foldlM (s.scanStop v round) (p, []) = .ok state) : state = (p, []) := by
  have hboard : ∀ {position : Nat} {labels : List Label} {onboard : List Boarding},
      s.boardAll v round position labels = .ok onboard → onboard = [] := by
    intro position labels
    induction labels with
    | nil =>
        intro onboard h
        simp only [boardAll, Except.ok.injEq] at h
        exact h.symm
    | cons l ls ih =>
        intro onboard h
        simp only [boardAll, Fallible.bind_eq_ok, Fallible.pure_eq_ok] at h
        obtain ⟨boarding, hl, rest, hrest, rfl⟩ := h
        have hcaught := caught?_of_board (w := ⟨l.arrival.unlinked, []⟩) rfl hl
        rw [caught?_of_numTrips_zero hnone] at hcaught
        cases boarding with
        | none => rw [ih hrest]; rfl
        | some b => simp at hcaught
  refine Fallible.foldlM_keeps (I := fun state => state = (p, [])) ?_ rfl h
  rintro ⟨stop, position⟩ - state next rfl hstep
  simp only [scanStop] at hstep
  split at hstep
  case isFalse => exact (Except.ok.inj hstep).symm
  case isTrue =>
    simp only [List.foldlM_nil, Fallible.bind_eq_ok, Fallible.pure_eq_ok, exists_eq_left'] at hstep
    obtain ⟨labels, -, caught, hcaught, rfl⟩ := hstep
    rw [hboard hcaught]
    rfl

/-- A pattern without trips may be gone along as well. -/
theorem scanPattern_eq_ok (hs : s.WellFormed) (hp : s.Spans p) (hround : round ≤ s.maxRounds)
    {pattern : Nat} (hv : s.viewList[pattern]? = some v) :
    s.scanPattern round p pattern = .ok q ↔
      ∃ onboard, (s.heading.inOrder v.stops.toList).foldlM (s.scanStop v round) (p, [])
        = .ok (q, onboard) := by
  simp only [scanPattern, view_succeeds hv, bind, Except.bind]
  split
  case isTrue hnone =>
    obtain ⟨p', onboard, hscan, -⟩ := scanStops_succeeds hs hp (List.mem_of_getElem? hv) hround
    obtain ⟨rfl, rfl⟩ := Prod.mk.inj (scanStops_of_numTrips_zero hnone hscan)
    rw [Fallible.pure_eq_ok, hscan]
    simp
  case isFalse =>
    cases (s.heading.inOrder v.stops.toList).foldlM (s.scanStop v round) (p, []) with
    | error e => simp
    | ok state =>
        obtain ⟨p', onboard⟩ := state
        simp only [Fallible.pure_eq_ok, Except.ok.injEq, Prod.mk.injEq, exists_and_left, exists_eq',
          and_true]

theorem Spans.relabels (hs : s.Relabels m s') (hp : p.Relabels m p') (h : s.Spans p) :
    s'.Spans p' := by
  have hspans : (m.table p.table).Spans s.timetable.numStops s.maxRounds := by
    refine ⟨fun hround hstop => ?_, h.touched, fun {id a} ha => ?_⟩
    · obtain ⟨labels, hlabels⟩ := h.fronts hround hstop
      exact ⟨_, by rw [Relabeling.front?_table, hlabels]; rfl⟩
    · rw [Relabeling.arrivals_table, Option.map_eq_some_iff] at ha
      obtain ⟨b, hb, rfl⟩ := ha
      have hb := h.arrivals hb
      exact hb
  obtain ⟨views, filter, times, rfl⟩ := hs.alike
  rw [Spans, hp.table]
  exact hspans

end Scan

/-- Two searches that find all they look for, and differ in labels. -/
structure Matches (m : Relabeling) (s s' : Search) : Prop where
  relabels : s.Relabels m s'
  wellFormed : s.WellFormed
  wellFormed' : s'.WellFormed
  views : s.HasViews

/-- Progress on both sides, within the tables. -/
structure Keeps (m : Relabeling) (s : Search) (p p' : Progress) : Prop where
  relabels : p.Relabels m p'
  spans : s.Spans p

theorem Keeps.of_succeeds {x : Except InternalFault Progress} (h : ∃ p, x = .ok p ∧ s.Spans p)
    (hx : x = .ok q) (hq : q.Relabels m p') : Keeps m s q p' := by
  obtain ⟨p, hp, hspans⟩ := h
  obtain rfl : p = q := Except.ok.inj (hp.symm.trans hx)
  exact ⟨hq, hspans⟩

section Rounds

variable {round : Nat}

theorem scanPattern_relabels (hs : Matches m s s') (hp : Keeps m s p p') (hround : round ≤ s.maxRounds)
    {pattern : Nat} (h : s.scanPattern round p pattern = .ok q) :
    ∃ q', s'.scanPattern round p' pattern = .ok q' ∧ Keeps m s q q' := by
  obtain ⟨v, hview, -⟩ := Fallible.bind_eq_ok.mp h
  have hv := view_eq_ok hview
  obtain ⟨v', hv', hsame⟩ := hs.relabels.views hv
  obtain ⟨onboard, hscan⟩ := (scanPattern_eq_ok hs.wellFormed hp.spans hround hv).mp h
  obtain ⟨q', caught, hscan', hq⟩ := scanStops_relabels hs.relabels hsame hp.relabels hscan
  have hrounds : round ≤ s'.maxRounds := hs.relabels.maxRounds ▸ hround
  refine ⟨q', ?_, .of_succeeds (scanPattern_succeeds hs.wellFormed hp.spans hround hv) h hq⟩
  refine (scanPattern_eq_ok hs.wellFormed' (hp.spans.relabels hs.relabels hp.relabels) hrounds
    hv').mpr ⟨caught, ?_⟩
  rw [hsame.stops, hs.relabels.heading]
  exact hscan'

theorem patternsToScan_relabels (hs : s.Relabels m s') {t : StopTable} {patterns : List Nat}
    (h : s.patternsToScan t round = .ok patterns) :
    s'.patternsToScan (m.table t) round = .ok patterns := by
  simp only [patternsToScan, Fallible.bind_eq_ok, Fallible.pure_eq_ok] at h ⊢
  obtain ⟨arrivals, harrivals, rfl⟩ := h
  have hcurrent : currentArrivals (m.table t) (round - 1) = .ok (arrivals.map m.arrival) := by
    have hsame : (m.table t).isCurrent = t.isCurrent := funext Relabeling.isCurrent_table
    unfold currentArrivals at harrivals ⊢
    rw [hsame]
    exact Fallible.mapM_both (fun _ _ _ h => Relabeling.arrival_table h) harrivals
  refine ⟨_, hcurrent, ?_⟩
  obtain ⟨views, filter, times, rfl⟩ := hs.alike
  rw [List.flatMap_map]
  rfl

theorem transitPhase_relabels (hs : Matches m s s') (hp : Keeps m s p p')
    (hround : round ≤ s.maxRounds) (h : s.transitPhase round p = .ok q) :
    ∃ q', s'.transitPhase round p' = .ok q' ∧ Keeps m s q q' := by
  obtain ⟨patterns, hpatterns, h⟩ := Fallible.bind_eq_ok.mp h
  obtain ⟨q', hscan, hq⟩ := Fallible.foldlM_both (R := Keeps m s) (g := s'.scanPattern round)
    (fun i _ p _ q hp (h : s.scanPattern round p i = .ok q) =>
      scanPattern_relabels hs hp hround h) hp h
  refine ⟨q', Fallible.bind_eq_ok.mpr ⟨patterns, ?_, hscan⟩, hq⟩
  rw [hp.relabels.table]
  exact patternsToScan_relabels hs.relabels hpatterns

theorem walkFrom_relabels (hs : s.Relabels m s') (hp : p.Relabels m p') {id : Nat}
    (h : s.walkFrom p id = .ok q) : ∃ q', s'.walkFrom p' id = .ok q' ∧ q.Relabels m q' := by
  unfold walkFrom at h ⊢
  rw [hp.table, Relabeling.isCurrent_table]
  split at h
  case isFalse hno =>
    rw [if_neg hno]
    exact ⟨p', rfl, Except.ok.inj h ▸ hp⟩
  case isTrue hyes =>
    rw [if_pos hyes]
    obtain ⟨a, ha, h⟩ := Fallible.bind_eq_ok.mp h
    have htransit : (m.arrival a).isTransit = a.isTransit := by
      unfold StopArrival.isTransit
      simp only [Relabeling.arrival]
      cases a.kind <;> rfl
    have hwalks : s'.heading.walks s'.timetable (m.arrival a).stop
        = s.heading.walks s.timetable a.stop := by
      obtain ⟨views, filter, times, rfl⟩ := hs.alike
      rfl
    simp only [Relabeling.arrival_table ha, bind, Except.bind, htransit]
    split at h
    case isFalse hno =>
      rw [if_neg hno]
      exact ⟨p', rfl, Fallible.pure_eq_ok.mp h ▸ hp⟩
    case isTrue hyes =>
      rw [if_pos hyes, hwalks]
      refine addAll_relabels hs hp (fun w _ _ _ _ => ?_) h
      obtain ⟨views, filter, times, rfl⟩ := hs.alike
      simp only [walkArrival, Relabeling.arrival, Relabeling.kind, Heading.advance_add hs.shifts]

theorem transferPhase_relabels (hs : Matches m s s') (hp : Keeps m s p p')
    (h : s.transferPhase round p = .ok q) :
    ∃ q', s'.transferPhase round p' = .ok q' ∧ Keeps m s q q' := by
  unfold transferPhase at h ⊢
  have htouched : p'.table.touchedIn round = p.table.touchedIn round := by
    rw [hp.relabels.table]
    rfl
  rw [htouched]
  refine Fallible.foldlM_both (R := Keeps m s) (fun id _ p p' q hp h => ?_) hp h
  obtain ⟨q', hwalk, hq⟩ := walkFrom_relabels hs.relabels hp.relabels h
  exact ⟨q', hwalk, .of_succeeds (walkFrom_succeeds hs.wellFormed hp.spans id) h hq⟩

theorem playRound_relabels (hs : Matches m s s') (hp : Keeps m s p p')
    (hround : round ≤ s.maxRounds) (h : s.playRound round p = .ok q) :
    ∃ q', s'.playRound round p' = .ok q' ∧ Keeps m s q q' := by
  obtain ⟨p₁, htransit, h⟩ := Fallible.bind_eq_ok.mp h
  obtain ⟨p₂, hwalk, h⟩ := Fallible.bind_eq_ok.mp h
  obtain ⟨p₁', htransit', hp₁⟩ := transitPhase_relabels hs hp hround htransit
  obtain ⟨p₂', hwalk', hp₂⟩ := transferPhase_relabels hs hp₁ hwalk
  obtain rfl := Fallible.pure_eq_ok.mp h
  obtain ⟨hrelabels, hspans⟩ := hp₂
  refine ⟨_, Fallible.bind_eq_ok.mpr ⟨p₁', htransit', Fallible.bind_eq_ok.mpr ⟨p₂', hwalk', rfl⟩⟩,
    ⟨hrelabels.table, hrelabels.destination, hrelabels.searched, ?_, hrelabels.checks,
      hrelabels.arrivalReports⟩, hspans⟩
  rw [hrelabels.highestRound]

/-- Both are asked to stop at the same time, if at all. -/
theorem ask_relabels (hs : s.Relabels m s') (hp : Keeps m s p p') :
    (s'.ask p').1 = (s.ask p).1 ∧ Keeps m s (s.ask p).2 (s'.ask p').2 := by
  obtain ⟨hrelabels, hspans⟩ := hp
  refine ⟨?_, ⟨hrelabels.table, hrelabels.destination, hrelabels.searched, hrelabels.highestRound,
    congrArg (· + 1) hrelabels.checks, hrelabels.arrivalReports⟩, hspans⟩
  obtain ⟨views, filter, times, rfl⟩ := hs.alike
  simp only [ask, hrelabels.checks, hrelabels.arrivalReports]

theorem playRounds_relabels (hs : Matches m s s') (hp : Keeps m s p p') {count : Nat}
    (hround : round + count ≤ s.maxRounds + 1) {status : Option SearchStatus}
    (h : s.playRounds count round p = .ok (status, q)) :
    ∃ q', s'.playRounds count round p' = .ok (status, q') ∧ Keeps m s q q' := by
  induction count generalizing round p p' with
  | zero =>
      simp only [playRounds, Except.ok.injEq, Prod.mk.injEq] at h
      obtain ⟨rfl, rfl⟩ := h
      exact ⟨p', rfl, hp⟩
  | succ count ih =>
      have htouched : p'.table.touchedIn (round - 1) = p.table.touchedIn (round - 1) := by
        rw [hp.relabels.table]
        rfl
      obtain ⟨hask, hasked⟩ := ask_relabels hs.relabels hp
      unfold playRounds at h ⊢
      rw [htouched]
      split at h
      case isTrue hempty =>
        simp only [Except.ok.injEq, Prod.mk.injEq] at h
        obtain ⟨rfl, rfl⟩ := h
        exact ⟨p', by rw [if_pos hempty], hp⟩
      case isFalse hno =>
        rw [if_neg hno]
        generalize s.ask p = asked at h hask hasked
        generalize s'.ask p' = asked' at hask hasked ⊢
        obtain ⟨verdict, p₁⟩ := asked
        obtain ⟨verdict', p₁'⟩ := asked'
        obtain rfl : verdict' = verdict := hask
        cases verdict' with
        | some reason =>
            simp only [Except.ok.injEq, Prod.mk.injEq] at h
            obtain ⟨rfl, rfl⟩ := h
            exact ⟨p₁', rfl, hasked⟩
        | none =>
            obtain ⟨p₂, hplay, h⟩ := Fallible.bind_eq_ok.mp h
            obtain ⟨p₂', hplay', hp₂⟩ := playRound_relabels hs hasked (by omega) hplay
            obtain ⟨q', hrest, hq⟩ := ih hp₂ (by omega) h
            exact ⟨q', Fallible.bind_eq_ok.mpr ⟨p₂', hplay', hrest⟩, hq⟩

end Rounds

section Run

theorem begin_relabels (hp : Keeps m s p p') (time : Time) :
    Keeps m s (begin p time) (begin p' (time + m.later)) := by
  obtain ⟨hrelabels, hspans⟩ := hp
  refine ⟨⟨?_, hrelabels.destination, ?_, hrelabels.highestRound, hrelabels.checks,
    hrelabels.arrivalReports⟩, spans_begin hspans time⟩
  · rw [begin, hrelabels.table]
    rfl
  · rw [begin, hrelabels.searched]
    rfl

theorem iterations_relabels (hs : Matches m s s') (hp : Keeps m s p p') {times : List Time}
    {status : SearchStatus} (h : s.iterations times p = .ok (status, q)) :
    ∃ q', s'.iterations (times.map (· + m.later)) p' = .ok (status, q') ∧ Keeps m s q q' := by
  induction times generalizing p p' with
  | nil =>
      simp only [iterations, Except.ok.injEq, Prod.mk.injEq] at h
      obtain ⟨rfl, rfl⟩ := h
      exact ⟨p', rfl, hp⟩
  | cons time times ih =>
      obtain ⟨hask, hasked⟩ := ask_relabels hs.relabels hp
      rw [List.map_cons]
      unfold iterations at h ⊢
      rw [hs.relabels.maxRounds]
      generalize s.ask p = asked at h hask hasked
      generalize s'.ask p' = asked' at hask hasked ⊢
      obtain ⟨verdict, p₁⟩ := asked
      obtain ⟨verdict', p₁'⟩ := asked'
      obtain rfl : verdict' = verdict := hask
      cases verdict' with
      | some reason =>
          simp only [Except.ok.injEq, Prod.mk.injEq] at h
          obtain ⟨rfl, rfl⟩ := h
          exact ⟨p₁', rfl, hasked⟩
      | none =>
          obtain ⟨p₂, hseed, h⟩ := Fallible.bind_eq_ok.mp h
          obtain ⟨⟨stopped, p₃⟩, hplay, h⟩ := Fallible.bind_eq_ok.mp h
          have hbegin := begin_relabels hasked time
          obtain ⟨p₂', hseed', hp₂⟩ := seed_relabels hs.relabels hbegin.relabels hseed
          have hp₂ := Keeps.of_succeeds (seed_succeeds hs.wellFormed hbegin.spans time) hseed hp₂
          obtain ⟨p₃', hplay', hp₃⟩ := playRounds_relabels hs hp₂ (by omega) hplay
          simp only [hseed', hplay', bind, Except.bind]
          cases stopped with
          | some reason =>
              simp only [Fallible.pure_eq_ok, Prod.mk.injEq] at h
              obtain ⟨rfl, rfl⟩ := h
              exact ⟨p₃', rfl, hp₃⟩
          | none => exact ih hp₃ h

/-- Both searches end alike, with what they found being the same but for labels. -/
theorem run_relabels (hs : Matches m s s') {status : SearchStatus} (h : s.run = .ok (status, q)) :
    ∃ q', s'.run = .ok (status, q') ∧ q.Relabels m q' := by
  have hstart : Keeps m s s.start s'.start := by
    refine ⟨⟨?_, ?_, rfl, rfl, rfl, rfl⟩, StopTable.spans_empty ..⟩
    · obtain ⟨views, filter, times, rfl⟩ := hs.relabels.alike
      simp [start, StopTable.empty, Relabeling.table]
    · rfl
  obtain ⟨q', hrun, hq⟩ := iterations_relabels hs hstart h
  exact ⟨q', by rw [run, hs.relabels.times]; exact hrun, hq.relabels⟩

end Run

end Search
end JourneyPlanner
