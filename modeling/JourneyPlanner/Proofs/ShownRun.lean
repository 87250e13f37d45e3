import JourneyPlanner.Proofs.Simulation

/-!
A whole search computes its chart. Patterns without anything new to catch may be
passed over, and rounds after one that found nothing new may be left out. A
search that is stopped shows the chart of the rounds completed by then.
-/

namespace JourneyPlanner

/-- Steps that would change nothing may be left out of a run over a list. -/
theorem foldl_skip {σ α : Type} {f : σ → α → σ} {I : σ → Prop} {look : Nat → Option α}
    {xs : List α} {k : Nat} (hlook : ∀ j, look (k + j) = xs[j]?) {chosen : List Nat}
    (hascending : chosen.Pairwise (· < ·)) (hk : ∀ i ∈ chosen, k ≤ i)
    (keeps : ∀ x ∈ xs, ∀ c, I c → I (f c x))
    (skips : ∀ j x, xs[j]? = some x → k + j ∉ chosen → ∀ c, I c → f c x = c) {c : σ}
    (hc : I c) : chosen.foldl (fun c i => (look i).elim c (f c)) c = xs.foldl f c := by
  induction xs generalizing k chosen c with
  | nil =>
      refine List.foldlRecOn chosen _ (motive := fun c' => c' = c) rfl ?_
      intro c' hc' i hi
      have hnone := hlook (i - k)
      rw [Nat.add_sub_cancel' (hk i hi), List.getElem?_nil] at hnone
      rw [hnone]
      exact hc'
  | cons x xs ih =>
      have hnext : ∀ j, look (k + 1 + j) = xs[j]? := by
        intro j
        rw [Nat.add_assoc, Nat.add_comm 1 j, hlook, List.getElem?_cons_succ]
      have hrest : ∀ {is : List Nat}, (∀ i ∈ is, i ∈ chosen) → (∀ i ∈ chosen, k < i → i ∈ is) →
          ∀ j y, xs[j]? = some y → k + 1 + j ∉ is → ∀ c, I c → f c y = c := by
        intro is _ hall j y hy hnot
        refine skips (j + 1) y (by simpa using hy) fun hmem => hnot ?_
        have hshift : k + (j + 1) = k + 1 + j := by omega
        rw [hshift] at hmem
        exact hall _ hmem (by omega)
      have hkeeps : ∀ y ∈ xs, ∀ c, I c → I (f c y) :=
        fun y hy => keeps y (List.mem_cons_of_mem _ hy)
      by_cases hmem : k ∈ chosen
      · -- the least of the chosen comes k
        cases chosen with
        | nil => simp at hmem
        | cons i is =>
            rw [List.pairwise_cons] at hascending
            have hi : i = k := by
              cases List.mem_cons.mp hmem with
              | inl h => exact h.symm
              | inr h =>
                  have := hascending.1 k h
                  have := hk i (List.mem_cons_self ..)
                  omega
            subst hi
            have hhead : look i = some x := hlook 0
            rw [List.foldl_cons, List.foldl_cons, hhead]
            refine ih hnext hascending.2 hascending.1 hkeeps ?_
              (keeps x (List.mem_cons_self ..) c hc)
            refine hrest (fun j hj => List.mem_cons_of_mem _ hj) fun j hj hlt => ?_
            cases List.mem_cons.mp hj with
            | inl h => omega
            | inr h => exact h
      · have hlt : ∀ i ∈ chosen, k + 1 ≤ i := by
          intro i hi
          have hne : i ≠ k := fun h => hmem (h ▸ hi)
          have := hk i hi
          omega
        rw [List.foldl_cons, skips 0 x rfl hmem c hc]
        exact ih hnext hascending hlt hkeeps (hrest (fun _ h => h) fun _ h _ => h) hc

namespace Search

variable {s : Search} {p p' : Progress} {times : List Time}

/-- Every pattern is known at each of its stops. -/
def IsIndexed (s : Search) : Prop :=
  ∀ (i : Nat) (v : PatternView), s.viewList[i]? = some v →
    ∀ stop ∈ v.stops.toList, i ∈ s.timetable.patternsAt stop

section Transit

theorem arrivals_of_mapM {t : StopTable} {ids : List Nat} {arrivals : List StopArrival}
    (h : ids.mapM t.arrival = .ok arrivals) {id : Nat} (hid : id ∈ ids) {a : StopArrival}
    (ha : t.arrivals[id]? = some a) : a ∈ arrivals := by
  induction ids generalizing arrivals with
  | nil => simp at hid
  | cons i ids ih =>
      simp only [List.mapM_cons, Fallible.bind_eq_ok, Fallible.pure_eq_ok] at h
      obtain ⟨b, hb, rest, hrest, rfl⟩ := h
      cases hid with
      | head =>
          rw [StopTable.arrival_eq_ok_iff, ha, Option.some_inj] at hb
          exact hb ▸ List.mem_cons_self ..
      | tail _ hid => exact List.mem_cons_of_mem _ (ih hrest hid)

theorem isCurrent_iff (hp : s.Tidy p) {id : Nat} {a : StopArrival}
    (ha : p.table.arrivals[id]? = some a) :
    p.table.isCurrent id = true ↔ p.table.wayOf a ∈ (s.shown p).fronts a.round a.stop := by
  simp only [StopTable.isCurrent, ha, shown]
  cases hl : p.table.front? a.round a.stop with
  | none => simp
  | some labels =>
      simp only [Option.getD_some, List.any_eq_true, beq_iff_eq, List.mem_map]
      constructor
      · rintro ⟨l, hmem, rfl⟩
        have hlisted := (hp.table.listed hl l hmem).1
        rw [ha, Option.some_inj] at hlisted
        exact ⟨l, hmem, hlisted ▸ rfl⟩
      · rintro ⟨l, hmem, hway⟩
        refine ⟨l, hmem, hp.table.distinct (hp.table.listed hl l hmem).1 ha ?_⟩
        exact congrArg Way.arrival hway

/-- A pattern that is not scanned has nothing new at its stops. -/
theorem fresh_eq_nil_of_not_scanned (hp : s.Tidy p) (hs : s.IsIndexed) {round : Nat}
    {patterns : List Nat} (h : s.patternsToScan p.table round = .ok patterns) {i : Nat}
    {v : PatternView} (hv : s.viewList[i]? = some v) (hi : i ∉ patterns) {stop : Nat}
    (hstop : stop ∈ v.stops.toList) : (s.shown p).fresh (round - 1) stop = [] := by
  simp only [patternsToScan, currentArrivals, Fallible.bind_eq_ok, Fallible.pure_eq_ok] at h
  obtain ⟨arrivals, harrivals, rfl⟩ := h
  rw [Ordered.mem_ascending, List.mem_flatMap, not_exists] at hi
  refine List.eq_nil_iff_forall_not_mem.mpr fun w hw => ?_
  obtain ⟨hmem, hnow⟩ := List.mem_filter.mp hw
  have hnow : w.arrival.iteration = p.table.iteration := eq_of_beq hnow
  have hfront : w ∈ ((p.table.front? (round - 1) stop).getD []).map
      fun l => p.table.wayOf l.arrival := hmem
  cases hl : p.table.front? (round - 1) stop with
  | none => simp [hl] at hfront
  | some labels =>
      rw [hl, Option.getD_some, List.mem_map] at hfront
      obtain ⟨l, hlmem, rfl⟩ := hfront
      obtain ⟨hid, hround, hplace⟩ := hp.table.listed hl l hlmem
      have htouched := hp.table.fresh hl l hlmem hnow
      have hcurrent : p.table.isCurrent l.id = true := by
        rw [isCurrent_iff hp hid, hround, hplace]
        exact hmem
      refine hi l.arrival ⟨arrivals_of_mapM harrivals ?_ hid, ?_⟩
      · exact List.mem_filter.mpr ⟨htouched, hcurrent⟩
      · rw [hplace]
        exact hs i v hv stop hstop

/-- All trips of a round. -/
theorem transitPhase_shows (hp : s.Tidy p) (hs : s.IsIndexed) (hc : (s.shown p).Sound s times)
    {round : Nat} (hround : 0 < round) (h : s.transitPhase round p = .ok p') :
    s.Tidy p' ∧ p.table.Extends p'.table ∧ s.shown p' = (s.shown p).transit s round := by
  simp only [transitPhase, Fallible.bind_eq_ok] at h
  obtain ⟨patterns, hpatterns, h⟩ := h
  have hrun := Fallible.foldlM_shows (v := s.shown)
    (I := fun p' => s.Tidy p' ∧ p.table.Extends p'.table)
    (g := fun c i => (s.viewList[i]?).elim c fun v => c.scan s round v) ?_ ⟨hp, .refl _⟩ h
  · obtain ⟨⟨htidy, hext⟩, hshown⟩ := hrun
    refine ⟨htidy, hext, hshown.trans ?_⟩
    have hscanned : patterns.Pairwise (· < ·) := by
      simp only [patternsToScan, Fallible.bind_eq_ok, Fallible.pure_eq_ok] at hpatterns
      obtain ⟨_, -, rfl⟩ := hpatterns
      exact Ordered.pairwise_ascending _
    refine foldl_skip (k := 0)
      (I := fun c => c.Sound s times ∧ Chart.AgreeBut round (s.shown p) c) (by simp) hscanned
      (by simp) ?_ ?_ ⟨hc, .refl ..⟩
    · intro v hv c hc
      obtain ⟨hsound, hframe⟩ := Chart.sound_scan hc.1 hv hround
      exact ⟨hsound, hc.2.trans hframe⟩
    · intro i v hv hi c hc
      rw [Nat.zero_add] at hi
      refine Chart.scan_eq_self fun stop hstop position => ?_
      have hfresh : c.fresh (round - 1) stop = (s.shown p).fresh (round - 1) stop := by
        rw [Chart.fresh, Chart.fresh, hc.2.fronts _ (by omega), hc.2.iteration]
      rw [hfresh, fresh_eq_nil_of_not_scanned hp hs hpatterns hv hi hstop]
      rfl
  · intro i _ q q' hq hscan
    obtain ⟨htidy, hext, v, hv, hshown⟩ := scanPattern_shows hq.1 hscan
    exact ⟨⟨htidy, hq.2.trans hext⟩, by rw [hshown, hv]; rfl⟩

end Transit

section Walks

/-- Offering the arrivals of a list one after the other, if ids do not matter. -/
theorem addAll_shows {α : Type} (hp : s.Tidy p) {xs : List α} {f : Progress → α → StopArrival}
    {w : Chart → α → Way}
    (hf : ∀ x ∈ xs, ∀ q, s.Tidy q → p.table.Extends q.table → q.table.Supports (f q x)
      ∧ (f q x).iteration = q.table.iteration ∧ q.table.wayOf (f q x) = w (s.shown q) x)
    (h : xs.foldlM (fun p x => (s.addArrival p (f p x)).map (·.1)) p = .ok p') :
    s.Tidy p' ∧ p.table.Extends p'.table
      ∧ s.shown p' = xs.foldl (fun c x => c.offer s (w c x)) (s.shown p) := by
  have hrun := Fallible.foldlM_shows (v := s.shown)
    (I := fun p' => s.Tidy p' ∧ p.table.Extends p'.table)
    (g := fun c x => c.offer s (w c x)) ?_ ⟨hp, .refl _⟩ h
  · exact ⟨hrun.1.1, hrun.1.2, hrun.2⟩
  · intro x hx q q' hq hstep
    obtain ⟨⟨q₁, result⟩, hadd, rfl⟩ := Fallible.map_eq_ok.mp hstep
    obtain ⟨hsupports, hnow, hway⟩ := hf x hx q hq.1 hq.2
    obtain ⟨htidy, hext, hcases⟩ := addArrival_shows hq.1 hsupports hnow hadd
    refine ⟨⟨htidy, hq.2.trans hext⟩, ?_⟩
    rw [← hway]
    rcases hcases with ⟨-, hshown, -⟩ | ⟨id, -, hshown, hfate, -⟩
    · exact hshown
    · exact hshown.trans (Chart.offer_of_accepted hfate).symm

/-- Walking on from an accepted arrival of the current iteration. -/
theorem walkFrom_shows (hp : s.Tidy p) {id : Nat} {a : StopArrival}
    (ha : p.table.arrivals[id]? = some a) (hnow : a.iteration = p.table.iteration)
    (h : s.walkFrom p id = .ok p') :
    s.Tidy p' ∧ p.table.Extends p'.table
      ∧ s.shown p' = (s.shown p).stroll s (p.table.wayOf a) := by
  unfold walkFrom at h
  unfold Chart.stroll
  change _ ∧ _ ∧ _ = if p.table.wayOf a ∈ (s.shown p).fronts a.round a.stop ∧ a.isTransit = true
    then _ else _
  have hcurrent := isCurrent_iff hp ha
  split at h
  case isFalse hno =>
    simp only [Except.ok.injEq] at h
    subst h
    exact ⟨hp, .refl _, by rw [if_neg fun hyes => hno (hcurrent.mpr hyes.1)]⟩
  case isTrue hyes =>
    simp only [Fallible.bind_eq_ok] at h
    obtain ⟨b, hb, h⟩ := h
    rw [StopTable.arrival_eq_ok_iff, ha, Option.some_inj] at hb
    subst hb
    split at h
    case isFalse hno =>
      simp only [Fallible.pure_eq_ok] at h
      subst h
      exact ⟨hp, .refl _, by rw [if_neg fun hyes => hno hyes.2]⟩
    case isTrue hride =>
      rw [if_pos ⟨hcurrent.mp hyes, hride⟩]
      refine addAll_shows hp (w := fun _ k => (p.table.wayOf a).extend
        (s.walkArrival 0 (p.table.wayOf a).arrival k)) (fun k _ q hq hext => ?_) h
      have hid := hext.arrivals ha
      refine ⟨StopTable.supports_of_previous rfl hid, hnow.trans hext.iteration.symm, ?_⟩
      rw [StopTable.wayOf_eq_extend hq.table.linked hid rfl,
        StopTable.wayOf_of_extends hp.table.linked hext (hp.table.linked.supports ha)]
      rfl

/-- All walks of a round. -/
theorem transferPhase_shows (hp : s.Tidy p) {round : Nat}
    (h : s.transferPhase round p = .ok p') :
    s.Tidy p' ∧ p.table.Extends p'.table ∧ s.shown p' = (s.shown p).walk s round := by
  unfold transferPhase at h
  have hrun := Fallible.foldlM_shows (v := s.shown)
    (I := fun p' => s.Tidy p' ∧ p.table.Extends p'.table)
    (g := fun c id => (p.table.arrivals[id]?.map p.table.wayOf).elim c (c.stroll s))
    ?_ ⟨hp, .refl _⟩ h
  · refine ⟨hrun.1.1, hrun.1.2, hrun.2.trans ?_⟩
    change _ = ((p.table.touchedIn round).filterMap _).foldl _ _
    rw [List.foldl_filterMap]
    refine congrArg (fun f => List.foldl f (s.shown p) (p.table.touchedIn round)) ?_
    funext c id
    cases p.table.arrivals[id]?.map p.table.wayOf <;> rfl
  · intro id hid q q' hq hstep
    obtain ⟨a, ha, -, hnow⟩ := hp.table.touched hid
    obtain ⟨htidy, hext, hshown⟩ :=
      walkFrom_shows hq.1 (hq.2.arrivals ha) (hnow.trans hq.2.iteration.symm) hstep
    refine ⟨⟨htidy, hq.2.trans hext⟩, ?_⟩
    rw [hshown, ha, Option.map_some,
      StopTable.wayOf_of_extends hp.table.linked hq.2 (hp.table.linked.supports ha)]
    rfl

/-- The street legs at the beginning of an iteration. -/
theorem seed_shows (hp : s.Tidy p) {time : Time} (h : s.seed p time = .ok p') :
    s.Tidy p' ∧ s.shown p' = (s.shown p).seed s time := by
  have hseed : ∀ leg ∈ s.origin, ∀ q : Progress, s.Tidy q → p.table.Extends q.table →
      q.table.Supports (s.originArrival time q.table.iteration leg)
        ∧ (s.originArrival time q.table.iteration leg).iteration = q.table.iteration
        ∧ q.table.wayOf (s.originArrival time q.table.iteration leg)
          = ⟨s.originArrival time (s.shown q).iteration leg, []⟩ := by
    intro leg _ q _ _
    exact ⟨fun previous hprevious => by simp [originArrival] at hprevious, rfl, rfl⟩
  obtain ⟨htidy, -, hshown⟩ := addAll_shows hp
    (w := fun c leg => ⟨s.originArrival time c.iteration leg, []⟩) hseed h
  exact ⟨htidy, hshown⟩

end Walks

section Run

theorem playRound_shows (hp : s.Tidy p) (hs : s.IsIndexed) (hc : (s.shown p).Sound s times)
    {round : Nat} (hround : 0 < round) (h : s.playRound round p = .ok p') :
    s.Tidy p' ∧ s.shown p' = (s.shown p).round s round := by
  simp only [playRound, Fallible.bind_eq_ok, Fallible.pure_eq_ok] at h
  obtain ⟨p₁, htransit, p₂, hwalk, rfl⟩ := h
  obtain ⟨htidy, -, hshown⟩ := transitPhase_shows hp hs hc hround htransit
  obtain ⟨htidy', -, hshown'⟩ := transferPhase_shows htidy hwalk
  exact ⟨⟨htidy'.table, htidy'.destination⟩, hshown'.trans (congrArg (Chart.walk s · round) hshown)⟩

theorem verdict_ne_complete (sup : Supervisor) (timeout : Option Nat) (checks reports : Nat) :
    sup.verdict timeout checks reports ≠ some .complete := by
  unfold Supervisor.verdict
  split
  · simp
  · split <;> simp

/-- Playing rounds, some of them left out at the end; or the rounds until stopped. -/
theorem playRounds_shows (hp : s.Tidy p) (hs : s.IsIndexed) (hc : (s.shown p).Sound s times)
    {round : Nat} (hround : 0 < round) (hquiet : (s.shown p).IsQuiet round) {count : Nat}
    {status : Option SearchStatus} (h : s.playRounds count round p = .ok (status, p')) :
    s.Tidy p' ∧ status ≠ some .complete
      ∧ (status = none → s.shown p' = (s.shown p).rounds s count round)
      ∧ ∃ done ≤ count, s.shown p' = (s.shown p).rounds s done round := by
  induction count generalizing p round with
  | zero =>
      simp only [playRounds, Except.ok.injEq, Prod.mk.injEq] at h
      obtain ⟨rfl, rfl⟩ := h
      exact ⟨hp, by simp, fun _ => rfl, 0, Nat.le_refl 0, rfl⟩
  | succ count ih =>
      unfold playRounds at h
      split at h
      case isTrue hempty =>
        simp only [Except.ok.injEq, Prod.mk.injEq] at h
        obtain ⟨rfl, rfl⟩ := h
        have hnone : (s.shown p).IsQuiet (round - 1) := by
          intro r hr
          by_cases heq : r = round - 1
          · subst heq
            simp only [shown, List.isEmpty_iff.mp hempty, List.filterMap_nil]
          · exact hquiet r (by omega)
        exact ⟨hp, by simp, fun _ => (Chart.rounds_of_quiet hc hround hnone _).symm, 0, by omega,
          rfl⟩
      case isFalse =>
        unfold ask at h
        cases hverdict : s.supervisor.verdict s.timeout p.checks p.arrivalReports with
        | some reason =>
            simp only [hverdict, Except.ok.injEq, Prod.mk.injEq] at h
            obtain ⟨rfl, rfl⟩ := h
            refine ⟨⟨hp.table, hp.destination⟩, ?_, by simp, 0, by omega, rfl⟩
            rw [← hverdict]
            exact verdict_ne_complete _ _ _ _
        | none =>
            simp only [hverdict, Fallible.bind_eq_ok] at h
            obtain ⟨p₁, hplay, h⟩ := h
            obtain ⟨htidy, hshown⟩ :=
              playRound_shows (p := { p with checks := p.checks + 1 })
                ⟨hp.table, hp.destination⟩ hs hc hround hplay
            change s.shown p₁ = (s.shown p).round s round at hshown
            have hsound := (Chart.sound_round hc hround).1
            have hquiet' := Chart.quiet_round hc hround hquiet
            rw [← hshown] at hsound hquiet'
            obtain ⟨htidy', hstatus, hcomplete, done, hdone, hpart⟩ :=
              ih htidy hsound (Nat.succ_pos round) hquiet' h
            rw [hshown] at hcomplete hpart
            exact ⟨htidy', hstatus, hcomplete, done + 1, by omega, hpart⟩

/-- How far a search may have come when it stops. -/
def IsStage (s : Search) (c : Chart) (times : List Time) (c' : Chart) : Prop :=
  ∃ done rest, times = done ++ rest ∧
    (c' = done.foldl (fun c time => c.iterate s time) c
      ∨ ∃ time rest', rest = time :: rest' ∧ ∃ count ≤ s.maxRounds,
        c' = ((done.foldl (fun c time => c.iterate s time) c).begin.seed s time).rounds s count 1)

theorem IsStage.cons {c c' : Chart} {time : Time}
    (h : s.IsStage (c.iterate s time) times c') : s.IsStage c (time :: times) c' := by
  obtain ⟨done, rest, rfl, hstage⟩ := h
  exact ⟨time :: done, rest, rfl, hstage⟩

/-- Every stage has what the rounds of an iteration keep, however many of them were played. -/
theorem IsStage.keeps {P : Chart → Prop} {c c' : Chart} (h : s.IsStage c times c') (hc : P c)
    (step : ∀ c time count, time ∈ times → count ≤ s.maxRounds → P c →
      P ((c.begin.seed s time).rounds s count 1)) : P c' := by
  obtain ⟨done, rest, rfl, hstage⟩ := h
  have hdone : P (done.foldl (fun c time => c.iterate s time) c) :=
    List.foldlRecOn done _ hc fun c hc time htime =>
      step c time s.maxRounds (List.mem_append_left _ htime) (Nat.le_refl _) hc
  rcases hstage with rfl | ⟨time, rest', rfl, count, hcount, rfl⟩
  · exact hdone
  · exact step _ time count (List.mem_append_right _ (List.mem_cons_self ..)) hcount hdone

theorem shown_begin (p : Progress) (time : Time) :
    s.shown (begin p time) = (s.shown p).begin := by
  refine Chart.mk.injEq .. |>.mpr ⟨?_, ?_, ?_, rfl, rfl⟩
  · funext round stop
    exact List.map_congr_left fun l _ => StopTable.wayOf_startIteration p.table l.arrival
  · funext round
    have hnone : p.table.startIteration.touchedIn round = [] := by
      simp only [StopTable.touchedIn, StopTable.startIteration, Array.getElem?_map]
      cases p.table.touched[round]? <;> rfl
    simp only [begin, hnone, List.filterMap_nil]
  · refine List.map_congr_left fun d _ => ?_
    exact congrArg (Journey.mk · d.unlinked)
      (StopTable.arrivalsTo_startIteration p.table d.previous)

theorem shown_start : s.shown s.start = .empty := by
  have hfronts : ∀ round stop, (s.start.table.front? round stop).getD [] = [] := by
    intro round stop
    rw [start, StopTable.front?_empty]
    split <;> rfl
  have htouched : ∀ round, s.start.table.touchedIn round = [] := by
    intro round
    simp only [start, StopTable.touchedIn, StopTable.empty, Array.getElem?_replicate]
    split <;> rfl
  refine Chart.mk.injEq .. |>.mpr ⟨?_, ?_, rfl, rfl, ?_⟩
  · funext round stop
    rw [hfronts]
    rfl
  · funext round
    rw [htouched]
    rfl
  · split <;> rfl

theorem iterations_shows (hp : s.Tidy p) (hs : s.IsIndexed) {all : List Time}
    (hall : ∀ time ∈ times, time ∈ all) (hc : (s.shown p).Sound s all) {status : SearchStatus}
    (h : s.iterations times p = .ok (status, p')) :
    s.Tidy p' ∧ s.IsStage (s.shown p) times (s.shown p')
      ∧ (status = .complete →
        s.shown p' = times.foldl (fun c time => c.iterate s time) (s.shown p)) := by
  induction times generalizing p with
  | nil =>
      simp only [iterations, Except.ok.injEq, Prod.mk.injEq] at h
      obtain ⟨-, rfl⟩ := h
      exact ⟨hp, ⟨[], [], rfl, Or.inl rfl⟩, fun _ => rfl⟩
  | cons time times ih =>
      unfold iterations ask at h
      cases hverdict : s.supervisor.verdict s.timeout p.checks p.arrivalReports with
      | some reason =>
          simp only [hverdict, Except.ok.injEq, Prod.mk.injEq] at h
          obtain ⟨rfl, rfl⟩ := h
          refine ⟨⟨hp.table, hp.destination⟩, ⟨[], _, rfl, Or.inl rfl⟩, fun hcomplete => ?_⟩
          exact absurd (hcomplete ▸ hverdict) (verdict_ne_complete _ _ _ _)
      | none =>
          simp only [hverdict, Fallible.bind_eq_ok] at h
          obtain ⟨p₁, hseed, ⟨stopped, p₂⟩, hrounds, h⟩ := h
          have hbegin : s.Tidy (begin { p with checks := p.checks + 1 } time) :=
            ⟨StopTable.tidy_startIteration hp.table, hp.destination⟩
          have hshownBegin := shown_begin (s := s) { p with checks := p.checks + 1 } time
          obtain ⟨htidy, hshown⟩ := seed_shows hbegin hseed
          rw [hshownBegin] at hshown
          change s.shown p₁ = (s.shown p).begin.seed s time at hshown
          have hsound := (Chart.sound_seed (Chart.sound_begin hc)
            (hall time (List.mem_cons_self ..)))
          have hquiet : (s.shown p₁).IsQuiet 1 := by
            intro r hr
            rw [hshown, hsound.2.reached r (by omega)]
            rfl
          obtain ⟨htidy', hstatus, hcomplete, count, hcount, hpart⟩ :=
            playRounds_shows htidy hs (hshown ▸ hsound.1) Nat.one_pos hquiet hrounds
          cases stopped with
          | some reason =>
              simp only [Fallible.pure_eq_ok, Prod.mk.injEq] at h
              obtain ⟨rfl, rfl⟩ := h
              refine ⟨htidy', ⟨[], _, rfl, Or.inr ⟨time, times, rfl, count, hcount, ?_⟩⟩, ?_⟩
              · rw [hpart, hshown]
                rfl
              · rintro rfl
                exact absurd rfl hstatus
          | none =>
              have hiterate : s.shown p₂ = (s.shown p).iterate s time := by
                rw [hcomplete rfl, hshown]
                rfl
              have hnext := Chart.sound_iterate hc (hall time (List.mem_cons_self ..))
              rw [← hiterate] at hnext
              obtain ⟨htidy'', hstage, hfinal⟩ :=
                ih htidy' (fun t ht => hall t (List.mem_cons_of_mem _ ht)) hnext h
              rw [hiterate] at hstage hfinal
              exact ⟨htidy'', hstage.cons, hfinal⟩

/-- A search shows its chart when it is complete, and a stage of it when it is stopped. -/
theorem run_shows (hs : s.IsIndexed) {status : SearchStatus} (h : s.run = .ok (status, p')) :
    s.Tidy p' ∧ s.IsStage .empty s.times (s.shown p')
      ∧ (status = .complete → s.shown p' = s.chart) := by
  have hstart : s.Tidy s.start := ⟨StopTable.tidy_empty .., by simp [start]⟩
  have hrun := iterations_shows hstart hs (fun _ h => h)
    (shown_start (s := s) ▸ Chart.sound_empty s s.times) h
  rw [shown_start] at hrun
  exact hrun

end Run

end Search
end JourneyPlanner
