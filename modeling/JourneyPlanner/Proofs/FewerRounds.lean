import JourneyPlanner.Proofs.Aligned
import JourneyPlanner.Proofs.Lockstep

/-!
Searches that differ in the number of rounds. If journeys are compared on their rounds,
nothing that is found in a round has a say in the rounds before it: the chart of the
search with fewer rounds is a part of the chart of the other one, in every iteration.
-/

namespace JourneyPlanner

namespace Pareto

variable {α : Type} {dominates : α → α → Bool} {keep : α → Bool} {front : List α} {x : α}

/-- What dominates an element that is kept is kept, so that others do not matter to it. -/
theorem filter_insert (hx : keep x = true) (hdown : ∀ y, dominates y x = true → keep y = true) :
    (insert dominates front x).filter keep = insert dominates (front.filter keep) x := by
  have hrival : rival? dominates (front.filter keep) x = rival? dominates front x := by
    unfold rival?
    rw [List.find?_filter]
    congr 1
    funext y
    cases h : dominates y x with
    | false => simp
    | true => simp [hdown y h]
  cases hr : rival? dominates front x with
  | some rival => rw [insert_of_rival hr, insert_of_rival (hrival.trans hr)]
  | none =>
      rw [insert_of_none hr, insert_of_none (hrival.trans hr), List.filter_append,
        List.filter_cons_of_pos hx, List.filter_nil, List.filter_filter, List.filter_filter]
      simp only [Bool.and_comm]

/-- What is not kept drops nothing that is kept. -/
theorem filter_insert_of_not_kept (hx : keep x = false)
    (hup : ∀ y, dominates x y = true → keep y = false) :
    (insert dominates front x).filter keep = front.filter keep := by
  cases hr : rival? dominates front x with
  | some rival => rw [insert_of_rival hr]
  | none =>
      rw [insert_of_none hr, List.filter_append, List.filter_cons_of_neg (by simp [hx]),
        List.filter_nil, List.append_nil, List.filter_filter]
      refine List.filter_congr fun y _ => ?_
      cases h : dominates x y with
      | false => simp
      | true => simp [hup y h]

end Pareto

theorem Merits.rounds_le_of_dominates {h : Heading} {p : DominancePolicy} {a b : Merits}
    (hp : p.transfers = true) (hab : dominates h p a b = true) : a.rounds ≤ b.rounds := by
  simp only [dominates, hp, Bool.and_eq_true, Bool.or_eq_true, decide_eq_true_eq] at hab
  exact hab.1.2.resolve_left (by simp)

/-- The same search with another number of rounds, for anybody who watches or stops it. -/
def Search.withRounds (s : Search) (maxRounds : Nat) (watch : Option Watch)
    (supervisor : Supervisor) : Search :=
  { s with
    maxRounds := maxRounds
    watch := watch
    supervisor := supervisor }

/-- The first search is the second one with fewer rounds, and rounds are compared. -/
structure Search.Shortens (s s' : Search) : Prop where
  alike : ∃ maxRounds watch supervisor, s' = s.withRounds maxRounds watch supervisor
  rounds : s.maxRounds ≤ s'.maxRounds
  transfers : s.policy.transfers = true

def Journey.isWithin (n : Nat) (j : Journey) : Bool :=
  decide (j.ending.merits.rounds ≤ n)

namespace Chart

/-- The first chart has what the second one has up to a round, and nothing else. -/
structure Within (n : Nat) (c c' : Chart) : Prop where
  fronts : ∀ {round : Nat}, round ≤ n → c'.fronts round = c.fronts round
  reached : ∀ {round : Nat}, round ≤ n → c'.reached round = c.reached round
  placed : ∀ {round : Nat} {w : Way}, w ∈ c'.reached round → w.arrival.round = round
  journeys : c'.journeys.filter (Journey.isWithin n) = c.journeys
  iteration : c'.iteration = c.iteration

variable {s s' : Search} {n m : Nat} {c c' : Chart} {w : Way} {a : StopArrival}

namespace Within

theorem note_left (h : Within n c c') (s : Search) (rs : List Remark) : Within n (c.note s rs) c' :=
  ⟨h.fronts, h.reached, h.placed, h.journeys, h.iteration⟩

theorem note_right (h : Within n c c') (s : Search) (rs : List Remark) :
    Within n c (c'.note s rs) :=
  ⟨h.fronts, h.reached, h.placed, h.journeys, h.iteration⟩

/-! What is offered up to the round meets the same fate in both charts. -/

section Lower

theorem prunes (h : Within n c c') (hs : s.Shortens s') (ha : a.round ≤ n) :
    c'.prunes s' a = c.prunes s a := by
  obtain ⟨maxRounds, watch, supervisor, rfl⟩ := hs.alike
  unfold Chart.prunes
  rw [← h.journeys, List.any_filter]
  congr 2
  funext j
  change Merits.dominates s.heading s.policy j.ending.merits (s.bound a) = _
  cases hd : Merits.dominates s.heading s.policy j.ending.merits (s.bound a) with
  | false => simp
  | true =>
      have hle : j.ending.merits.rounds ≤ a.round := Merits.rounds_le_of_dominates hs.transfers hd
      simp [Journey.isWithin, Nat.le_trans hle ha]

theorem rival? (h : Within n c c') (hs : s.Shortens s') (ha : a.round ≤ n) :
    c'.rival? s' a = c.rival? s a := by
  obtain ⟨maxRounds, watch, supervisor, rfl⟩ := hs.alike
  unfold Chart.rival?
  rw [← List.head?_filterMap, ← List.head?_filterMap]
  refine congrArg List.head? (List.filterMap_congr fun round hround => ?_)
  rw [h.fronts (Nat.le_trans (Nat.lt_succ_iff.mp (List.mem_range.mp hround)) ha)]
  rfl

theorem fate (h : Within n c c') (hs : s.Shortens s') (ha : a.round ≤ n) :
    c'.fate s' a = c.fate s a := by
  unfold Chart.fate
  rw [h.prunes hs ha, h.rival? hs ha]

theorem place (h : Within n c c') (hs : s.Shortens s') (hw : w.arrival.round ≤ n) :
    Within n (c.place s w) (c'.place s' w) := by
  obtain ⟨maxRounds, watch, supervisor, rfl⟩ := hs.alike
  have hkeep : Within n (c.keep s w) (c'.keep s w) := by
    refine ⟨fun hr => ?_, fun hr => ?_, fun hv => ?_, h.journeys, h.iteration⟩
    · funext stop
      simp only [keep, frontAfter, h.fronts hr, h.fronts hw]
    · simp only [keep, h.reached hr]
    · rcases mem_reached_keep.mp hv with ⟨rfl, hround⟩ | hv
      · exact hround
      · exact h.placed hv
  exact (hkeep.note_left ..).note_right ..

theorem addJourney (h : Within n c c') (hs : s.Shortens s') {j : Journey}
    (hj : j.ending.merits.rounds ≤ n) : Within n (c.addJourney s j) (c'.addJourney s' j) := by
  obtain ⟨maxRounds, watch, supervisor, rfl⟩ := hs.alike
  obtain ⟨hf, hr, hi⟩ := addJourney_frame (s := s) (c := c) j
  obtain ⟨hf', hr', hi'⟩ :=
    addJourney_frame (s := s.withRounds maxRounds watch supervisor) (c := c') j
  refine ⟨fun hround => ?_, fun hround => ?_, fun hv => h.placed (hr' ▸ hv), ?_, ?_⟩
  · rw [hf, hf', h.fronts hround]
  · rw [hr, hr', h.reached hround]
  · rw [journeys_addJourney, journeys_addJourney, ← h.journeys]
    refine Pareto.filter_insert (decide_eq_true hj) fun i hi => ?_
    exact decide_eq_true (Nat.le_trans (Merits.rounds_le_of_dominates hs.transfers hi) hj)
  · rw [hi, hi', h.iteration]

theorem reach (h : Within n c c') (hs : s.Shortens s') (hw : w.arrival.round ≤ n) :
    Within n (c.reach s w) (c'.reach s' w) := by
  have htarget : s'.targetDurations = s.targetDurations := by
    obtain ⟨maxRounds, watch, supervisor, rfl⟩ := hs.alike
    rfl
  have halong : journeyAlong s' w = journeyAlong s w := by
    obtain ⟨maxRounds, watch, supervisor, rfl⟩ := hs.alike
    rfl
  unfold Chart.reach
  rw [htarget, halong]
  exact foldl_both (R := Within n) _ (fun d _ _ _ h => h.addJourney hs (j := journeyAlong s w d) hw) h

theorem lockstep (hs : s.Shortens s') (n : Nat) : Lockstep s s' (· ≤ n) (Within n) where
  moves := by
    obtain ⟨maxRounds, watch, supervisor, rfl⟩ := hs.alike
    exact ⟨_, _, _, _, _, _, _, _, _, rfl⟩
  iteration h := h.iteration
  fronts h hn := h.fronts hn
  reached h hn _ := h.reached hn
  placed h hn hw := (h.placed hw).symm ▸ hn
  fate h ha := h.fate hs ha
  note _ _ h := (h.note_left ..).note_right ..
  place h hw := h.place hs hw
  reach h hw := h.reach hs hw

theorem seed (h : Within n c c') (hs : s.Shortens s') (time : Time) :
    Within n (c.seed s time) (c'.seed s' time) := by
  have horigin : s'.origin = s.origin := by
    obtain ⟨maxRounds, watch, supervisor, rfl⟩ := hs.alike
    rfl
  have harrival : s'.originArrival = s.originArrival := by
    obtain ⟨maxRounds, watch, supervisor, rfl⟩ := hs.alike
    rfl
  unfold Chart.seed
  rw [horigin, harrival]
  refine foldl_both (R := Within n) _ (fun leg _ c c' h => ?_) h
  rw [h.iteration]
  exact (lockstep hs n).offer h (Nat.zero_le n)

end Lower

/-! What is offered in later rounds leaves everything up to the round as it is. -/

section Beyond

theorem place_beyond (h : Within n c c') (hw : n < w.arrival.round) :
    Within n c (c'.place s w) := by
  have hagree := agreeBut_place (s := s) (c := c') w
  refine ⟨fun hr => ?_, fun hr => ?_, fun hv => ?_, h.journeys, h.iteration⟩
  · rw [hagree.fronts _ (Nat.ne_of_lt (Nat.lt_of_le_of_lt hr hw)), h.fronts hr]
  · rw [hagree.reached _ (Nat.ne_of_lt (Nat.lt_of_le_of_lt hr hw)), h.reached hr]
  · rcases (mem_reached_keep (s := s)).mp hv with ⟨rfl, hround⟩ | hv
    · exact hround
    · exact h.placed hv

theorem offer_beyond (h : Within n c c') (hw : n < w.arrival.round) :
    Within n c (c'.offer s w) := by
  unfold Chart.offer
  cases c'.fate s w.arrival with
  | pruned => exact h
  | rejected rival => exact h.note_right ..
  | accepted => exact h.place_beyond hw

theorem addJourney_beyond (h : Within n c c') (hp : s.policy.transfers = true) {j : Journey}
    (hj : n < j.ending.merits.rounds) : Within n c (c'.addJourney s j) := by
  obtain ⟨hf, hr, hi⟩ := addJourney_frame (s := s) (c := c') j
  refine ⟨fun hround => ?_, fun hround => ?_, fun hv => h.placed (hr ▸ hv), ?_, ?_⟩
  · rw [hf, h.fronts hround]
  · rw [hr, h.reached hround]
  · rw [journeys_addJourney, ← h.journeys]
    refine Pareto.filter_insert_of_not_kept (decide_eq_false (Nat.not_le.mpr hj)) fun i hi => ?_
    have hle := Merits.rounds_le_of_dominates hp hi
    exact decide_eq_false (Nat.not_le.mpr (Nat.lt_of_lt_of_le hj hle))
  · rw [hi, h.iteration]

theorem settle_beyond (h : Within n c c') (hp : s.policy.transfers = true)
    (hw : n < w.arrival.round) : Within n c (c'.settle s w) := by
  by_cases hf : c'.fate s w.arrival = .accepted
  · rw [settle_of_accepted hf]
    exact List.foldlRecOn _ _ (motive := Within n c) (h.place_beyond hw)
      fun c' h d _ => h.addJourney_beyond hp (j := journeyAlong s w d) hw
  · rw [settle_of_not_accepted hf]
    exact h.offer_beyond hw

theorem scanStop_beyond (hp : s.policy.transfers = true) (v : PatternView) (hm : n < m)
    (entry : Nat × Nat) {state : Chart × List (Way × Search.Boarding)}
    (h : Within n c state.1) : Within n c (Chart.scanStop s v m state entry).1 := by
  unfold Chart.scanStop
  split
  · refine List.foldlRecOn state.2 _ (motive := Within n c) h fun c' h b _ => ?_
    unfold Chart.alight
    split
    case h_1 a ha =>
      refine h.settle_beyond hp ?_
      change n < a.round
      exact (Search.left?_round ha).1 ▸ hm
    case h_2 => exact h
  · exact h

theorem transit_beyond (h : Within n c c') (hp : s.policy.transfers = true) (hm : n < m) :
    Within n c (c'.transit s m) := by
  refine List.foldlRecOn s.viewList _ (motive := Within n c) h fun c' h v _ => ?_
  exact List.foldlRecOn (s.heading.inOrder v.stops.toList) _
    (motive := fun state : Chart × List (Way × Search.Boarding) => Within n c state.1) h
    fun state h entry _ => scanStop_beyond hp v hm entry h

theorem walk_beyond (h : Within n c c') (hm : n < m) : Within n c (c'.walk s m) := by
  refine List.foldlRecOn (c'.reached m) _ (motive := Within n c) h fun c'' h' w hw => ?_
  have hw : n < w.arrival.round := (h.placed hw).symm ▸ hm
  unfold Chart.stroll
  split
  · exact List.foldlRecOn _ _ (motive := Within n c) h' fun c' h k _ =>
      h.offer_beyond (w := w.extend (s.walkArrival 0 w.arrival k)) hw
  · exact h'

theorem round_beyond (h : Within n c c') (hp : s.policy.transfers = true) (hm : n < m) :
    Within n c (c'.round s m) :=
  (h.transit_beyond hp hm).walk_beyond hm

end Beyond

/-- The other search goes on with the rounds that the first one leaves out. -/
theorem rounds (h : Within s.maxRounds c c') (hs : s.Shortens s') :
    Within s.maxRounds (c.rounds s s.maxRounds 1) (c'.rounds s' s'.maxRounds 1) := by
  have hp : s'.policy.transfers = true := by
    obtain ⟨maxRounds, watch, supervisor, rfl⟩ := hs.alike
    exact hs.transfers
  have hsplit : List.range' 1 s'.maxRounds
      = List.range' 1 s.maxRounds ++ List.range' (1 + s.maxRounds) (s'.maxRounds - s.maxRounds) := by
    rw [List.range'_append_1, Nat.add_sub_cancel' hs.rounds]
  unfold Chart.rounds
  rw [hsplit, List.foldl_append]
  have hshared := foldl_both (R := Within s.maxRounds) (List.range' 1 s.maxRounds)
    (f := fun c m => c.round s m) (g := fun c m => c.round s' m) (fun m hm _ _ h => by
      obtain ⟨hpos, hlt⟩ := List.mem_range'_1.mp hm
      have hle : m ≤ s.maxRounds := by omega
      exact (lockstep hs s.maxRounds).round h hle (Nat.le_trans (Nat.sub_le m 1) hle) hpos) h
  refine List.foldlRecOn _ _ (motive := Within s.maxRounds _) hshared fun c' h m hm => ?_
  have hlt := (List.mem_range'_1.mp hm).1
  exact h.round_beyond hp (by omega)

theorem iterate (h : Within s.maxRounds c c') (hs : s.Shortens s') (time : Time) :
    Within s.maxRounds (c.iterate s time) (c'.iterate s' time) := by
  have hbegin : Within s.maxRounds c.begin c'.begin :=
    ⟨h.fronts, fun _ => rfl, fun hw => by simp [begin] at hw, h.journeys,
      congrArg (· + 1) h.iteration⟩
  exact (hbegin.seed hs time).rounds hs

end Within

end Chart

/-- Fewer rounds leave out just the journeys that need more of them. -/
theorem Search.journeys_of_shortens {s s' : Search} (hs : s.Shortens s') :
    s'.chart.journeys.filter (Journey.isWithin s.maxRounds) = s.chart.journeys := by
  have htimes : s'.times = s.times := by
    obtain ⟨maxRounds, watch, supervisor, rfl⟩ := hs.alike
    rfl
  have hempty : Chart.Within s.maxRounds .empty .empty :=
    ⟨fun _ => rfl, fun _ => rfl, fun hw => by simp [Chart.empty] at hw, rfl, rfl⟩
  unfold chart
  rw [htimes]
  exact (foldl_both (R := Chart.Within s.maxRounds) s.times (fun time _ _ _ h => h.iterate hs time)
    hempty).journeys

end JourneyPlanner
