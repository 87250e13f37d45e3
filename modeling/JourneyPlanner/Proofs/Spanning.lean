import JourneyPlanner.Proofs.Riding
import JourneyPlanner.Proofs.ShownRun

/-!
No step of a search fails. The table of a search spans all of its rounds and all
stops, every arrival that is added lies within it, and every trip that was caught
is one of its pattern. Each step finds what it looks up and leaves it so.
-/

namespace JourneyPlanner

namespace StopTable

/-- There is a front for each round and stop, and every accepted arrival belongs to one. -/
structure Spans (numStops maxRounds : Nat) (t : StopTable) : Prop where
  fronts : ∀ {round stop : Nat}, round ≤ maxRounds → stop < numStops →
    ∃ labels, t.front? round stop = some labels
  touched : t.touched.size = maxRounds + 1
  arrivals : ∀ {id : Nat} {a : StopArrival}, t.arrivals[id]? = some a →
    a.round ≤ maxRounds ∧ a.stop < numStops

variable {numStops maxRounds : Nat} {t : StopTable}

theorem spans_empty (numStops maxRounds : Nat) :
    (empty numStops maxRounds).Spans numStops maxRounds where
  fronts := by
    intro round stop hround hstop
    exact ⟨[], by rw [front?_empty, if_pos ⟨Nat.lt_succ_of_le hround, hstop⟩]⟩
  touched := by simp [empty]
  arrivals := by simp [empty]

theorem Spans.startIteration (ht : t.Spans numStops maxRounds) :
    t.startIteration.Spans numStops maxRounds where
  fronts := ht.fronts
  touched := by
    have hsize := ht.touched
    simpa [StopTable.startIteration] using hsize
  arrivals := ht.arrivals

theorem Spans.place (ht : t.Spans numStops maxRounds) {a : StopArrival}
    (ha : a.round ≤ maxRounds ∧ a.stop < numStops) (labels : List Label) :
    (t.place a labels).Spans numStops maxRounds where
  fronts := by
    intro round stop hround hstop
    obtain ⟨old, hold⟩ := ht.fronts hround hstop
    rw [front?_place, hold]
    split
    · exact ⟨labels, rfl⟩
    · exact ⟨old, rfl⟩
  touched := by
    have hsize := ht.touched
    simpa [StopTable.place] using hsize
  arrivals := by
    intro id b hb
    rcases arrivals_place_cases hb with ⟨-, rfl⟩ | hb
    · exact ha
    · exact ht.arrivals hb

theorem Spans.front_succeeds (ht : t.Spans numStops maxRounds) {round stop : Nat}
    (hround : round ≤ maxRounds) (hstop : stop < numStops) :
    ∃ labels, t.front round stop = .ok labels := by
  obtain ⟨labels, hlabels⟩ := ht.fronts hround hstop
  exact ⟨labels, by rw [front, hlabels]⟩

theorem Spans.judge_succeeds (ht : t.Spans numStops maxRounds)
    (dominates : StopArrival → StopArrival → Bool) {a : StopArrival}
    (ha : a.round ≤ maxRounds ∧ a.stop < numStops) : ∃ added, t.judge dominates a = .ok added := by
  obtain ⟨labels, hlabels⟩ := ht.front_succeeds ha.1 ha.2
  simp only [judge, hlabels, bind, Except.bind]
  cases t.rivalBelow? dominates a with
  | some rival => exact ⟨_, rfl⟩
  | none => exact ⟨_, rfl⟩

theorem Spans.newLabelsAt_succeeds (ht : t.Spans numStops maxRounds) {round stop : Nat}
    (hround : round ≤ maxRounds) (hstop : stop < numStops) :
    ∃ labels, t.newLabelsAt round stop = .ok labels := by
  obtain ⟨labels, hlabels⟩ := ht.front_succeeds hround hstop
  exact ⟨_, Fallible.bind_eq_ok.mpr ⟨labels, hlabels, rfl⟩⟩

/-- What is current has been accepted. -/
theorem arrival_of_isCurrent {id : Nat} (h : t.isCurrent id = true) :
    ∃ a, t.arrivals[id]? = some a := by
  unfold isCurrent at h
  cases ha : t.arrivals[id]? with
  | none => simp [ha] at h
  | some a => exact ⟨a, rfl⟩

end StopTable

/-- Whenever it is asked, there is no reason to stop. -/
def Supervisor.LetsFinish (supervisor : Supervisor) (timeout : Option Nat) : Prop :=
  ∀ checks reports : Nat, supervisor.verdict timeout checks reports = none

namespace Search

def Spans (s : Search) (p : Progress) : Prop :=
  p.table.Spans s.timetable.numStops s.maxRounds

/-- Every pattern that is looked for at a stop has a view. -/
def HasViews (s : Search) : Prop :=
  ∀ stop i : Nat, i ∈ s.timetable.patternsAt stop → ∃ v, s.viewList[i]? = some v

/-- A trip of a view, caught at one of its calls. -/
def Boarding.IsOf (v : PatternView) (b : Boarding) : Prop :=
  b.position < v.stops.size ∧ ∃ d, PatternView.tripIn? v.days b.trip = some d

variable {s : Search} {p : Progress}

theorem Spans.of_eq (hp : s.Spans p) {p' : Progress} (h : p'.table = p.table) : s.Spans p' := by
  unfold Spans
  exact h ▸ hp

section Arrivals

theorem addArrival_succeeds (hp : s.Spans p) {a : StopArrival} (hround : a.round ≤ s.maxRounds)
    (hstop : a.stop < s.timetable.numStops) :
    ∃ p' result, s.addArrival p a = .ok (p', result) ∧ s.Spans p' := by
  have hreport : ∀ {q : Progress} (action rival reason), s.Spans q →
      s.Spans (s.reportArrival q action a rival reason) := fun action rival reason hq =>
    hq.of_eq (reportArrival_frame s _ action a rival reason).1
  unfold addArrival
  cases s.pruned? p a with
  | some journey => exact ⟨_, _, rfl, hreport _ _ _ hp⟩
  | none =>
      obtain ⟨added, hadded⟩ := StopTable.Spans.judge_succeeds hp s.dominates ⟨hround, hstop⟩
      simp only [hadded, bind, Except.bind]
      cases added with
      | rejected rival => exact ⟨_, _, rfl, hreport _ _ _ hp⟩
      | accepted labels dropped =>
          refine ⟨_, _, rfl, ?_⟩
          have hplace : s.Spans (p.place a labels) := StopTable.Spans.place hp ⟨hround, hstop⟩ labels
          exact (hreport .accept none .accepted hplace).of_eq (reportDrops_frame s dropped _ a).1

/-- Adding the arrivals of a list one after the other. -/
theorem addAll_succeeds {α : Type} (hp : s.Spans p) {xs : List α} {f : Progress → α → StopArrival}
    (hf : ∀ x ∈ xs, ∀ q, (f q x).round ≤ s.maxRounds ∧ (f q x).stop < s.timetable.numStops) :
    ∃ p', xs.foldlM (fun p x => (s.addArrival p (f p x)).map (·.1)) p = .ok p' ∧ s.Spans p' := by
  refine Fallible.foldlM_succeeds (fun x hx q hq => ?_) hp
  obtain ⟨q', result, hadd, hq'⟩ := addArrival_succeeds hq (hf x hx q).1 (hf x hx q).2
  exact ⟨q', Fallible.map_eq_ok.mpr ⟨_, hadd, rfl⟩, hq'⟩

theorem table_addJourney (s : Search) (p : Progress) (d : DestinationArrival) :
    (s.addJourney p d).table = p.table := by
  unfold addJourney
  cases Pareto.add (DestinationArrival.dominates s.heading s.policy) p.destination d with
  | rejected rival => exact (reportPath_frame s p .reject d (some rival) .dominated).1
  | accepted front dropped =>
      exact (reportPathDrops_frame s dropped _ d).1.trans
        (reportPath_frame s { p with destination := front } .accept d none .accepted).1

theorem table_reachDestination (s : Search) (p : Progress) (id : Nat) (a : StopArrival) :
    (s.reachDestination p id a).table = p.table :=
  List.foldlRecOn (motive := fun q => q.table = p.table) (s.targetDurations a.stop) _ rfl
    fun q hq _ _ => (table_addJourney s q _).trans hq

end Arrivals

section Scan

variable {v : PatternView} {round position stop : Nat}

theorem call_succeeds (hs : s.WellFormed) (hv : v ∈ s.viewList) {index : Nat} {d : DayTrip}
    (hd : PatternView.tripIn? v.days index = some d) (hposition : position < v.stops.size) :
    ∃ call, d.call position = .ok call := by
  have hlt : position < d.calls.size := by
    rw [(hs.complete v hv index d hd).1]
    exact hposition
  exact ⟨d.calls[position], by rw [DayTrip.call, Array.getElem?_eq_getElem hlt]⟩

theorem alight_succeeds (hs : s.WellFormed) (hp : s.Spans p) (hv : v ∈ s.viewList)
    (hround : round ≤ s.maxRounds) (hstop : v.stops[position]? = some stop) {b : Boarding}
    (hb : b.IsOf v) : ∃ p', s.alight v round position stop p b = .ok p' ∧ s.Spans p' := by
  obtain ⟨hboarded, d, hd⟩ := hb
  have hposition : position < v.stops.size := (Array.getElem?_eq_some_iff.mp hstop).1
  have hknown : stop < s.timetable.numStops :=
    hs.stops v hv stop (Array.mem_toList_iff.mpr (Array.mem_of_getElem? hstop))
  obtain ⟨call, hcall⟩ := call_succeeds hs hv hd hposition
  obtain ⟨boardCall, hboardCall⟩ := call_succeeds hs hv hd hboarded
  have htrip : v.tripAt b.trip = .ok d := by rw [PatternView.tripAt, hd]
  simp only [alight, htrip, hcall, hboardCall, bind, Except.bind]
  split
  case isFalse => exact ⟨p, rfl, hp⟩
  case isTrue =>
    obtain ⟨p', result, hadd, hp'⟩ := addArrival_succeeds hp
      (a := s.alightArrival v round position stop p.table.iteration b boardCall call) hround hknown
    rw [hadd]
    cases result with
    | none => exact ⟨p', rfl, hp'⟩
    | some id => exact ⟨_, rfl, hp'.of_eq (table_reachDestination ..)⟩

theorem board_succeeds (hs : s.WellFormed) (hv : v ∈ s.viewList) (hposition : position < v.stops.size)
    (round : Nat) (l : Label) :
    ∃ boarding, s.board v round position l = .ok boarding ∧ ∀ b ∈ boarding, b.IsOf v := by
  have hcalls : ∀ e ∈ v.schedules, position < e.1.calls.size := by
    intro e he
    rw [(hs.complete v hv e.2 e.1 (mem_schedules.mp he)).1]
    exact hposition
  obtain ⟨found, hfound⟩ : ∃ found, v.findBoarding s.heading s.filter position
      (s.heading.boardLimit l.arrival.time) = .ok found :=
    PatternView.findBoarding_succeeds hposition hcalls
  simp only [board, hfound, bind, Except.bind]
  cases found with
  | none => exact ⟨none, rfl, by simp⟩
  | some c =>
      obtain ⟨_, -, hmem, -⟩ := PatternView.findBoarding_eq_ok hfound
      refine ⟨_, rfl, fun b hb => ?_⟩
      obtain rfl := Option.some.inj hb
      exact ⟨hposition, c.trip, mem_schedules.mp (hmem c rfl).mem⟩

theorem boardAll_succeeds (hs : s.WellFormed) (hv : v ∈ s.viewList)
    (hposition : position < v.stops.size) (round : Nat) (labels : List Label) :
    ∃ onboard, s.boardAll v round position labels = .ok onboard ∧ ∀ b ∈ onboard, b.IsOf v := by
  induction labels with
  | nil => exact ⟨[], rfl, by simp⟩
  | cons l ls ih =>
      obtain ⟨boarding, hl, hb⟩ := board_succeeds hs hv hposition round l
      obtain ⟨rest, hrest, hbs⟩ := ih
      refine ⟨boarding.toList ++ rest, ?_, fun b hmem => ?_⟩
      · simp only [boardAll, hl, hrest, bind, Except.bind]
        rfl
      · rcases List.mem_append.mp hmem with hmem | hmem
        · exact hb b (Option.mem_toList.mp hmem)
        · exact hbs b hmem

theorem scanStop_succeeds (hs : s.WellFormed) (hp : s.Spans p) (hv : v ∈ s.viewList)
    (hround : round ≤ s.maxRounds) (hstop : v.stops[position]? = some stop)
    {onboard : List Boarding} (honboard : ∀ b ∈ onboard, b.IsOf v) :
    ∃ p' onboard', s.scanStop v round (p, onboard) (stop, position) = .ok (p', onboard')
      ∧ s.Spans p' ∧ ∀ b ∈ onboard', b.IsOf v := by
  unfold scanStop
  dsimp only
  split
  case isFalse => exact ⟨p, onboard, rfl, hp, honboard⟩
  case isTrue =>
    have hposition : position < v.stops.size := (Array.getElem?_eq_some_iff.mp hstop).1
    have hknown : stop < s.timetable.numStops :=
      hs.stops v hv stop (Array.mem_toList_iff.mpr (Array.mem_of_getElem? hstop))
    obtain ⟨p', halight, hp'⟩ := Fallible.foldlM_succeeds
      (fun b hb q hq => alight_succeeds hs hq hv hround hstop (honboard b hb)) hp
    have hbefore : round - 1 ≤ s.maxRounds := Nat.le_trans (Nat.sub_le round 1) hround
    obtain ⟨labels, hlabels⟩ := StopTable.Spans.newLabelsAt_succeeds hp' hbefore hknown
    obtain ⟨caught, hcaught, hbs⟩ := boardAll_succeeds hs hv hposition round labels
    refine ⟨p', onboard ++ caught, ?_, hp', fun b hb => ?_⟩
    · simp only [halight, hlabels, hcaught, bind, Except.bind]
      rfl
    · exact (List.mem_append.mp hb).elim (honboard b) (hbs b)

theorem scanStops_succeeds (hs : s.WellFormed) (hp : s.Spans p) (hv : v ∈ s.viewList)
    (hround : round ≤ s.maxRounds) :
    ∃ p' onboard, (s.heading.inOrder v.stops.toList).foldlM (s.scanStop v round) (p, [])
      = .ok (p', onboard) ∧ s.Spans p' := by
  have hrun : ∃ state, (s.heading.inOrder v.stops.toList).foldlM (s.scanStop v round) (p, [])
      = .ok state ∧ s.Spans state.1 ∧ ∀ b ∈ state.2, b.IsOf v := by
    refine Fallible.foldlM_succeeds
      (I := fun state : Progress × List Boarding => s.Spans state.1 ∧ ∀ b ∈ state.2, b.IsOf v)
      (fun entry hentry state hstate => ?_) ⟨hp, by simp⟩
    obtain ⟨stop, position⟩ := entry
    have hstop : v.stops[position]? = some stop := by
      rw [← Array.getElem?_toList]
      exact Heading.mem_inOrder.mp hentry
    obtain ⟨q, onboard, hscan, hq, hbs⟩ := scanStop_succeeds hs hstate.1 hv hround hstop hstate.2
    exact ⟨(q, onboard), hscan, hq, hbs⟩
  obtain ⟨⟨p', onboard⟩, hscan, hp', -⟩ := hrun
  exact ⟨p', onboard, hscan, hp'⟩

theorem view_succeeds {pattern : Nat} (hv : s.viewList[pattern]? = some v) :
    s.view pattern = .ok v := by
  simp only [viewList, List.getElem?_map, Array.getElem?_toList, Option.map_eq_some_iff] at hv
  obtain ⟨thunk, hthunk, rfl⟩ := hv
  rw [view, hthunk]

theorem scanPattern_succeeds (hs : s.WellFormed) (hp : s.Spans p) (hround : round ≤ s.maxRounds)
    {pattern : Nat} (hv : s.viewList[pattern]? = some v) :
    ∃ p', s.scanPattern round p pattern = .ok p' ∧ s.Spans p' := by
  simp only [scanPattern, view_succeeds hv, bind, Except.bind]
  split
  case isTrue => exact ⟨p, rfl, hp⟩
  case isFalse =>
    obtain ⟨p', onboard, hscan, hp'⟩ := scanStops_succeeds hs hp (List.mem_of_getElem? hv) hround
    exact ⟨p', by rw [hscan]; rfl, hp'⟩

end Scan

section Rounds

variable {round : Nat}

theorem currentArrivals_succeeds (t : StopTable) (round : Nat) :
    ∃ arrivals, currentArrivals t round = .ok arrivals := by
  refine Fallible.mapM_succeeds fun id hid => ?_
  obtain ⟨a, ha⟩ := StopTable.arrival_of_isCurrent (List.mem_filter.mp hid).2
  exact ⟨a, StopTable.arrival_eq_ok_iff.mpr ha⟩

theorem patternsToScan_succeeds (hviews : s.HasViews) (t : StopTable) (round : Nat) :
    ∃ patterns, s.patternsToScan t round = .ok patterns
      ∧ ∀ i ∈ patterns, ∃ v, s.viewList[i]? = some v := by
  obtain ⟨arrivals, harrivals⟩ := currentArrivals_succeeds t (round - 1)
  refine ⟨_, Fallible.bind_eq_ok.mpr ⟨arrivals, harrivals, rfl⟩, fun i hi => ?_⟩
  obtain ⟨a, -, hi⟩ := List.mem_flatMap.mp (Ordered.mem_ascending.mp hi)
  exact hviews a.stop i hi

theorem transitPhase_succeeds (hs : s.WellFormed) (hviews : s.HasViews) (hp : s.Spans p)
    (hround : round ≤ s.maxRounds) : ∃ p', s.transitPhase round p = .ok p' ∧ s.Spans p' := by
  obtain ⟨patterns, hpatterns, hknown⟩ := patternsToScan_succeeds hviews p.table round
  obtain ⟨p', hscan, hp'⟩ := Fallible.foldlM_succeeds (fun i hi q hq => by
    obtain ⟨v, hv⟩ := hknown i hi
    exact scanPattern_succeeds hs hq hround hv) hp
  exact ⟨p', Fallible.bind_eq_ok.mpr ⟨patterns, hpatterns, hscan⟩, hp'⟩

theorem walkFrom_succeeds (hs : s.WellFormed) (hp : s.Spans p) (id : Nat) :
    ∃ p', s.walkFrom p id = .ok p' ∧ s.Spans p' := by
  unfold walkFrom
  split
  case isFalse => exact ⟨p, rfl, hp⟩
  case isTrue hcurrent =>
    obtain ⟨a, ha⟩ := StopTable.arrival_of_isCurrent hcurrent
    simp only [StopTable.arrival_eq_ok_iff.mpr ha, bind, Except.bind]
    split
    case isFalse => exact ⟨p, rfl, hp⟩
    case isTrue =>
      refine addAll_succeeds hp fun w hw _ => ⟨?_, (hs.walks a.stop w hw).1⟩
      exact (StopTable.Spans.arrivals hp ha).1

theorem transferPhase_succeeds (hs : s.WellFormed) (hp : s.Spans p) (round : Nat) :
    ∃ p', s.transferPhase round p = .ok p' ∧ s.Spans p' :=
  Fallible.foldlM_succeeds (fun id _ _ hq => walkFrom_succeeds hs hq id) hp

theorem seed_succeeds (hs : s.WellFormed) (hp : s.Spans p) (time : Time) :
    ∃ p', s.seed p time = .ok p' ∧ s.Spans p' :=
  addAll_succeeds hp fun leg hleg _ => ⟨Nat.zero_le _, (hs.origin leg hleg).1⟩

theorem playRound_succeeds (hs : s.WellFormed) (hviews : s.HasViews) (hp : s.Spans p)
    (hround : round ≤ s.maxRounds) : ∃ p', s.playRound round p = .ok p' ∧ s.Spans p' := by
  obtain ⟨p₁, htransit, hp₁⟩ := transitPhase_succeeds hs hviews hp hround
  obtain ⟨p₂, hwalk, hp₂⟩ := transferPhase_succeeds hs hp₁ round
  exact ⟨_, Fallible.bind_eq_ok.mpr ⟨p₁, htransit, Fallible.bind_eq_ok.mpr ⟨p₂, hwalk, rfl⟩⟩,
    hp₂.of_eq rfl⟩

theorem playRounds_succeeds (hs : s.WellFormed) (hviews : s.HasViews) (hp : s.Spans p) {count : Nat}
    (hround : round + count ≤ s.maxRounds + 1) :
    ∃ status p', s.playRounds count round p = .ok (status, p') ∧ s.Spans p' := by
  induction count generalizing round p with
  | zero => exact ⟨none, p, rfl, hp⟩
  | succ count ih =>
      unfold playRounds ask
      split
      case isTrue => exact ⟨none, p, rfl, hp⟩
      case isFalse =>
        cases s.supervisor.verdict s.timeout p.checks p.arrivalReports with
        | some status => exact ⟨some status, _, rfl, hp.of_eq rfl⟩
        | none =>
            have hfirst : round ≤ s.maxRounds := by omega
            have hothers : round + 1 + count ≤ s.maxRounds + 1 := by omega
            obtain ⟨p₁, hplay, hp₁⟩ := playRound_succeeds hs hviews
              (p := { p with checks := p.checks + 1 }) (hp.of_eq rfl) hfirst
            obtain ⟨status, p₂, hrest, hp₂⟩ := ih hp₁ hothers
            exact ⟨status, p₂, Fallible.bind_eq_ok.mpr ⟨p₁, hplay, hrest⟩, hp₂⟩

end Rounds

section Run

theorem spans_begin (hp : s.Spans p) (time : Time) : s.Spans (begin p time) :=
  StopTable.Spans.startIteration hp

theorem iterations_succeeds (hs : s.WellFormed) (hviews : s.HasViews) (hp : s.Spans p)
    (times : List Time) : ∃ status p', s.iterations times p = .ok (status, p') ∧ s.Spans p' := by
  induction times generalizing p with
  | nil => exact ⟨.complete, p, rfl, hp⟩
  | cons time times ih =>
      unfold iterations ask
      cases s.supervisor.verdict s.timeout p.checks p.arrivalReports with
      | some status => exact ⟨status, _, rfl, hp.of_eq rfl⟩
      | none =>
          obtain ⟨p₁, hseed, hp₁⟩ := seed_succeeds hs
            (spans_begin (p := { p with checks := p.checks + 1 }) (hp.of_eq rfl) time) time
          have hall : 1 + s.maxRounds ≤ s.maxRounds + 1 := Nat.le_of_eq (Nat.add_comm ..)
          obtain ⟨stopped, p₂, hrounds, hp₂⟩ := playRounds_succeeds hs hviews hp₁ hall
          simp only [hseed, hrounds, bind, Except.bind]
          cases stopped with
          | some status => exact ⟨status, p₂, rfl, hp₂⟩
          | none => exact ih hp₂

/-- A search comes to an end, whenever it is stopped, and never leaves its table. -/
theorem run_succeeds (hs : s.WellFormed) (hviews : s.HasViews) :
    ∃ status p, s.run = .ok (status, p) ∧ s.Spans p := by
  have hstart : s.Spans s.start := StopTable.spans_empty ..
  exact iterations_succeeds hs hviews hstart s.times

end Run

section Unhindered

variable {q : Progress} (hfinish : s.supervisor.LetsFinish s.timeout)

include hfinish in
theorem playRounds_of_letsFinish {count round : Nat} {stopped : Option SearchStatus}
    (h : s.playRounds count round p = .ok (stopped, q)) : stopped = none := by
  induction count generalizing round p with
  | zero =>
      simp only [playRounds, Except.ok.injEq, Prod.mk.injEq] at h
      exact h.1.symm
  | succ count ih =>
      unfold playRounds at h
      split at h
      case isTrue =>
        simp only [Except.ok.injEq, Prod.mk.injEq] at h
        exact h.1.symm
      case isFalse =>
        rw [ask, hfinish] at h
        obtain ⟨p₁, -, hrest⟩ := Fallible.bind_eq_ok.mp h
        exact ih hrest

include hfinish in
theorem iterations_of_letsFinish {times : List Time} {status : SearchStatus}
    (h : s.iterations times p = .ok (status, q)) : status = .complete := by
  induction times generalizing p with
  | nil =>
      simp only [iterations, Except.ok.injEq, Prod.mk.injEq] at h
      exact h.1.symm
  | cons time times ih =>
      rw [iterations, ask, hfinish] at h
      obtain ⟨p₁, -, h⟩ := Fallible.bind_eq_ok.mp h
      obtain ⟨⟨stopped, p₂⟩, hrounds, h⟩ := Fallible.bind_eq_ok.mp h
      obtain rfl := playRounds_of_letsFinish hfinish hrounds
      exact ih h

include hfinish in
/-- A search that nobody stops is complete when it ends. -/
theorem run_of_letsFinish {status : SearchStatus} (h : s.run = .ok (status, q)) :
    status = .complete :=
  iterations_of_letsFinish hfinish h

end Unhindered

end Search
end JourneyPlanner
